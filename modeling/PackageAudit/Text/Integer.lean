/-
PackageAudit.Text.Integer — texts that write an integer.

A sign may come first, white space may stand at both ends, and a single
underscore between two digits. The digits are those of any script.
-/
import PackageAudit.Text.Cut

namespace PackageAudit.Text

/-- The digits of a number, underscores left out; `afterDigit` says that a
digit has just been read. -/
def digitsFrom? : Bool → List Char → Option (List Char)
  | afterDigit, [] => if afterDigit then some [] else none
  | afterDigit, c :: cs =>
    if isDecimal c then (digitsFrom? true cs).map (c :: ·)
    else if afterDigit && c == '_' then digitsFrom? false cs
    else none

/-- The number that some characters write without a sign. -/
def natural? (cs : List Char) : Option Nat := (digitsFrom? false cs).map decimalNumber

/-- The integer that a text writes. -/
def integer? (s : String) : Option Int :=
  match trimBoth isSpace s.toList with
  | '-' :: cs => (natural? cs).map fun n => -(n : Int)
  | '+' :: cs => (natural? cs).map Int.ofNat
  | cs => (natural? cs).map Int.ofNat

end PackageAudit.Text
