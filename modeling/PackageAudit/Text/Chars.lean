/-
PackageAudit.Text.Chars — the character classes that the audit's small
grammars are written in.

"White space", "digit" and "word character" are taken in the sense of the
Unicode standard, because version texts, range texts and patterns come
from files nobody has checked. Each class says first what it means for
ASCII and looks into a table only above it: a statement about plain text
unfolds to a comparison of numbers.
-/
import PackageAudit.Text.Tables
import PackageAudit.Text.CaseTable

namespace PackageAudit.Text

/-- The code point lies in one of the closed ranges. -/
def inRanges (ranges : List (Nat × Nat)) (n : Nat) : Bool :=
  ranges.any fun r => r.1 ≤ n && n ≤ r.2

/-- White space: tab to carriage return, the four ASCII separators, the
blank, and the white space of the tables. -/
def isSpace (c : Char) : Bool :=
  if c.toNat < 128 then (9 ≤ c.toNat && c.toNat ≤ 13) || (28 ≤ c.toNat && c.toNat ≤ 32)
  else inRanges spaceRanges c.toNat

/-- A decimal digit of any script. -/
def isDecimal (c : Char) : Bool :=
  if c.toNat < 128 then c.isDigit else inRanges decimalRanges c.toNat

/-- The value of a decimal digit; zero for other characters. -/
def decimalValue (c : Char) : Nat :=
  if c.toNat < 128 then c.toNat - 48
  else match decimalRanges.find? fun r => r.1 ≤ c.toNat && c.toNat ≤ r.2 with
    | some r => (c.toNat - r.1) % 10
    | none => 0

/-- A character with a digit value: a decimal digit, a superscript, a
circled digit. -/
def isDigitLike (c : Char) : Bool :=
  isDecimal c || inRanges digitOnlyRanges c.toNat

/-- A letter, a digit, a numeric character or the underscore. -/
def isWord (c : Char) : Bool :=
  if c.toNat < 128 then c.isAlphanum || c == '_' else inRanges alphanumericRanges c.toNat

/-- A character that a quoted text shows as itself. -/
def isPrintable (c : Char) : Bool :=
  if c.toNat < 128 then 32 ≤ c.toNat && c.toNat < 127
  else !inRanges unprintableRanges c.toNat

/-- The number that a run of decimal digits writes. -/
def decimalNumber (digits : List Char) : Nat :=
  digits.foldl (fun n c => 10 * n + decimalValue c) 0

/-! ## Letter case -/

/-- The simple lower case form of a code point. -/
def lowerCode (n : Nat) : Nat :=
  if n < 128 then (if 65 ≤ n && n ≤ 90 then n + 32 else n)
  else match lowerRuns.find? fun r => r.1 ≤ n && n ≤ r.2.1 && (n - r.1) % r.2.2.1 == 0 with
    | some r => r.2.2.2 + (n - r.1)
    | none => n

/-- Two characters are equal up to letter case: their lower case forms
agree or are listed as variants of each other. -/
def sameLetter (a b : Char) : Bool :=
  let x := lowerCode a.toNat
  let y := lowerCode b.toNat
  x == y || match caseVariants.find? fun v => v.1 == x with
    | some v => v.2.contains y
    | none => false

/-- The code points whose simple lower case form is a given one, itself
aside. -/
def raisedCodes (n : Nat) : List Nat :=
  if n < 128 && 97 ≤ n && n ≤ 122 then (n - 32) :: above n else above n
where
  /-- Those above ASCII. -/
  above (n : Nat) : List Nat := lowerRuns.filterMap fun r =>
    let m := r.1 + (n - r.2.2.2)
    if r.2.2.2 ≤ n && m ≤ r.2.1 && (n - r.2.2.2) % r.2.2.1 == 0 then some m else none

/-- All code points that are equal to a given one up to letter case. -/
def caseForms (n : Nat) : List Nat :=
  let x := lowerCode n
  let lowered := x :: ((caseVariants.find? fun v => v.1 == x).elim [] (·.2))
  lowered ++ lowered.flatMap raisedCodes

/-- Lower case of the ASCII letters; all else stays. -/
def lowerAscii (s : String) : String := String.ofList (s.toList.map Char.toLower)

end PackageAudit.Text
