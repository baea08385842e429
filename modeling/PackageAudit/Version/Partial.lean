/-
PackageAudit.Version.Partial — versions with parts left open, and what the
range operators make of them.

In `1.2.x` the patch number is open; everything after the first open part is
open too, whatever is written there. Every operator on a partial version
stands for a short list of comparators. An upper end `<X.Y.Z-0` leaves out
the prereleases of `X.Y.Z` as well: `0` is the least prerelease.
-/
import PackageAudit.Version.Comparator
import PackageAudit.Version.Parser

namespace PackageAudit

/-- A version whose numbers may be open from some place on. -/
structure PartialVersion where
  major : Option Nat
  minor : Option Nat
  patch : Option Nat
  prerelease : List String
  deriving DecidableEq, BEq, Repr

namespace PartialVersion

/-! ## 1. Reading -/

/-- A number, or the sign of an open part, at the front. -/
def part? (cs : List Char) : Option (Option Nat × List Char) :=
  match cs with
  | c :: rest =>
    if c == 'x' || c == 'X' || c == '*' then some (none, rest)
    else (Version.number? cs).map fun (n, rest) => (some n, rest)
  | [] => none

/-- Everything after the first open part is open. -/
def ofParts (major minor patch : Option Nat) (prerelease : List String) : PartialVersion :=
  let minor := major.bind fun _ => minor
  let patch := minor.bind fun _ => patch
  { major, minor, patch, prerelease := if patch.isSome then prerelease else [] }

/-- The partial version that a word writes. A prerelease part and build
metadata need all three parts before them. -/
def parse? (word : List Char) : Option PartialVersion := do
  let (major, cs) ← part? (Version.dropMarks word)
  match cs with
  | [] => return ofParts major none none []
  | _ =>
    let (minor, cs) ← part? (← Version.afterDot? cs)
    match cs with
    | [] => return ofParts major minor none []
    | _ =>
      let (patch, cs) ← part? (← Version.afterDot? cs)
      let (prerelease, cs) ← Version.prerelease? cs
      let cs ← Version.afterBuild? cs
      guard cs.isEmpty
      return ofParts major minor patch prerelease

/-! ## 2. Bounds -/

/-- The least version of the described ones: zero for open parts. -/
def floor (p : PartialVersion) : Version :=
  { major := p.major.getD 0, minor := p.minor.getD 0, patch := p.patch.getD 0
    prerelease := p.prerelease }

/-- The version below all prereleases of a release. -/
def ceiling (major : Nat) (minor : Nat := 0) (patch : Nat := 0) : Version :=
  { major, minor, patch, prerelease := ["0"] }

/-- At least `v`. -/
def from_ (v : Version) : Comparator := ⟨.atLeast, v⟩

/-- Below `v`. -/
def below (v : Version) : Comparator := ⟨.less, v⟩

/-- A bare partial version: all versions that complete it. -/
def completions (p : PartialVersion) : ComparatorSet :=
  match p.major, p.minor, p.patch with
  | none, _, _ => []
  | some major, none, _ => [from_ p.floor, below (ceiling (major + 1))]
  | some major, some minor, none => [from_ p.floor, below (ceiling major (minor + 1))]
  | some _, some _, some _ => [⟨.equal, p.floor⟩]

/-- `~p`: patch changes, or minor changes if only the major number is given. -/
def tilde (p : PartialVersion) : ComparatorSet :=
  match p.major, p.minor with
  | none, _ => []
  | some major, none => [from_ p.floor, below (ceiling (major + 1))]
  | some major, some minor => [from_ p.floor, below (ceiling major (minor + 1))]

/-- `^p`: changes that keep the first number other than zero, or the last
given number if all are zero. -/
def caret (p : PartialVersion) : ComparatorSet :=
  match p.major, p.minor, p.patch with
  | none, _, _ => []
  | some major, none, _ => [from_ p.floor, below (ceiling (major + 1))]
  | some major, some minor, none =>
    if major == 0 then [from_ p.floor, below (ceiling 0 (minor + 1))]
    else [from_ p.floor, below (ceiling (major + 1))]
  | some major, some minor, some patch =>
    if major > 0 then [from_ p.floor, below (ceiling (major + 1))]
    else if minor > 0 then [from_ p.floor, below (ceiling 0 (minor + 1))]
    else [from_ p.floor, below (ceiling 0 0 (patch + 1))]

/-- `>p`: above all completions. Nothing is above the open version. -/
def above (p : PartialVersion) : ComparatorSet :=
  match p.major, p.minor, p.patch with
  | none, _, _ => [below (ceiling 0)]
  | some major, none, _ => [from_ { major := major + 1, minor := 0, patch := 0 }]
  | some major, some minor, none => [from_ { major, minor := minor + 1, patch := 0 }]
  | some _, some _, some _ => [⟨.greater, p.floor⟩]

/-- `>=p`: from the least completion on. -/
def onward (p : PartialVersion) : ComparatorSet :=
  match p.major with
  | none => []
  | some _ => [from_ p.floor]

/-- `<p`: below all completions. Nothing is below the open version. -/
def under (p : PartialVersion) : ComparatorSet :=
  match p.major, p.minor, p.patch with
  | none, _, _ => [below (ceiling 0)]
  | some major, none, _ => [below (ceiling major)]
  | some major, some minor, none => [below (ceiling major minor)]
  | some _, some _, some _ => [below p.floor]

/-- `<=p`: up to the last completion. -/
def upTo (p : PartialVersion) : ComparatorSet :=
  match p.major, p.minor, p.patch with
  | none, _, _ => []
  | some major, none, _ => [below (ceiling (major + 1))]
  | some major, some minor, none => [below (ceiling major (minor + 1))]
  | some _, some _, some _ => [⟨.atMost, p.floor⟩]

end PartialVersion

end PackageAudit
