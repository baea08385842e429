/-
PackageAudit.Version.Coarse — the major numbers that a text mentions.

A fallback for texts that are neither versions nor ranges: the first number
in each alternative is taken for its major number.
-/
import PackageAudit.Text.Cut

namespace PackageAudit.Version

/-- The first number in a text. -/
def firstNumber? (cs : List Char) : Option Nat :=
  let digits := (cs.dropWhile fun c => !Text.isDecimal c).takeWhile Text.isDecimal
  if digits.isEmpty then none else some (Text.decimalNumber digits)

/-- The major number of a version text, taken coarsely. -/
def coarseMajor? (text : String) : Option Nat := firstNumber? text.toList

/-- The major numbers of a range text, taken coarsely: one per alternative,
ascending and without repetition. -/
def coarseMajors (text : String) : List Nat :=
  let found := (Text.splitAtPair '|' '|' text.toList).filterMap firstNumber?
  found.eraseDups.mergeSort fun a b => decide (a ≤ b)

end PackageAudit.Version
