/-
PackageAudit.Version.Basic — semantic versions and their precedence.

A version is three numbers and a list of prerelease identifiers; build
metadata is dropped when a version is read. Two versions are equal when all
their parts are. Precedence compares by a key instead: identifiers made of
digits compare as numbers, so `1.0.0-01` and `1.0.0-1` differ without either
preceding the other. The four comparisons are fixed by `precedes` and
equality alone, in the way below; on versions whose numeric identifiers have
no leading zero they form one strict total order.
-/

namespace PackageAudit

/-- A semantic version without build metadata. -/
structure Version where
  major : Nat
  minor : Nat
  patch : Nat
  prerelease : List String := []
  deriving DecidableEq, BEq, Repr, Inhabited

namespace Version

/-! ## 1. Precedence -/

/-- How a prerelease identifier compares: all numbers before all words. -/
inductive IdentifierKey where
  | number (value : Nat)
  | word (text : String)
  deriving DecidableEq, Repr

/-- An identifier of digits only is a number. -/
def identifierKey (identifier : String) : IdentifierKey :=
  let cs := identifier.toList
  if !cs.isEmpty && cs.all Char.isDigit then
    .number (cs.foldl (fun n c => 10 * n + (c.toNat - 48)) 0)
  else .word identifier

/-- Numbers by size, words by code points, numbers before words. -/
def IdentifierKey.compare : IdentifierKey → IdentifierKey → Ordering
  | .number a, .number b => Ord.compare a b
  | .number _, .word _ => .lt
  | .word _, .number _ => .gt
  | .word a, .word b => if a < b then .lt else if a = b then .eq else .gt

/-- Lists of identifiers: by the first that differ, else the shorter first. -/
def compareIdentifiers : List String → List String → Ordering
  | [], [] => .eq
  | [], _ :: _ => .lt
  | _ :: _, [] => .gt
  | a :: as, b :: bs =>
    ((identifierKey a).compare (identifierKey b)).then (compareIdentifiers as bs)

/-- A release comes after all its prereleases. -/
def comparePrerelease : List String → List String → Ordering
  | [], [] => .eq
  | [], _ :: _ => .gt
  | _ :: _, [] => .lt
  | as, bs => compareIdentifiers as bs

/-- The order of two versions by their keys. -/
def compareKey (a b : Version) : Ordering :=
  (compare a.major b.major).then <| (compare a.minor b.minor).then <|
    (compare a.patch b.patch).then <| comparePrerelease a.prerelease b.prerelease

/-- `a` comes before `b`. -/
def precedes (a b : Version) : Bool := compareKey a b == .lt

/-- `a` comes before `b` or is `b`. -/
def atMost (a b : Version) : Bool := precedes a b || a == b

/-- `a` does not come before `b` and is not `b`. -/
def exceeds (a b : Version) : Bool := !precedes a b && a != b

/-- `a` does not come before `b`. -/
def atLeast (a b : Version) : Bool := !precedes a b

/-! ## 2. Text -/

/-- The three numbers. -/
def release (v : Version) : Nat × Nat × Nat := (v.major, v.minor, v.patch)

/-- The written form: dots between the numbers and between the identifiers,
a hyphen before the first identifier. -/
def toText (v : Version) : String :=
  let numbers := s!"{v.major}.{v.minor}.{v.patch}"
  if v.prerelease.isEmpty then numbers else numbers ++ "-" ++ ".".intercalate v.prerelease

/-- The size of the step from one version to another. -/
inductive Step where
  | major
  | minor
  | patch
  deriving DecidableEq, Repr

/-- The name of a step. -/
def Step.name : Step → String
  | .major => "major"
  | .minor => "minor"
  | .patch => "patch"

/-- The first number in which two versions differ names the step; with equal
major and minor numbers it is a patch. -/
def stepTo (current latest : Version) : Step :=
  if latest.major != current.major then .major
  else if latest.minor != current.minor then .minor
  else .patch

end Version

end PackageAudit
