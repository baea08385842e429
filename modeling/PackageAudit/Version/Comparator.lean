/-
PackageAudit.Version.Comparator — a bound on versions, and sets of them.

A set admits a version that passes all its comparators. A prerelease needs
more: some comparator must name a prerelease of the very same release, so
that nobody gets a prerelease without having asked for one.
-/
import PackageAudit.Version.Basic

namespace PackageAudit

/-- The relation of a comparator. -/
inductive Relation where
  | less
  | atMost
  | greater
  | atLeast
  | equal
  deriving DecidableEq, BEq, Repr

/-- The sign of a relation in a printed comparator; equality has none. -/
def Relation.sign : Relation → String
  | .less => "<"
  | .atMost => "<="
  | .greater => ">"
  | .atLeast => ">="
  | .equal => ""

/-- A bound `relation version`. -/
structure Comparator where
  relation : Relation
  version : Version
  deriving DecidableEq, BEq, Repr

namespace Comparator

/-- The version satisfies the bound. -/
def admits (c : Comparator) (v : Version) : Bool :=
  match c.relation with
  | .less => v.precedes c.version
  | .atMost => v.atMost c.version
  | .greater => v.exceeds c.version
  | .atLeast => v.atLeast c.version
  | .equal => v == c.version

/-- The written form. -/
def toText (c : Comparator) : String := c.relation.sign ++ c.version.toText

/-- The bound names a prerelease of the release of `v`. -/
def namesPrereleaseOf (c : Comparator) (v : Version) : Bool :=
  !c.version.prerelease.isEmpty && c.version.release == v.release

end Comparator

/-- Comparators that hold together. -/
abbrev ComparatorSet := List Comparator

namespace ComparatorSet

/-- All bounds hold. -/
def allAdmit (s : ComparatorSet) (v : Version) : Bool := s.all (·.admits v)

/-- All bounds hold, and a prerelease is named. -/
def admits (s : ComparatorSet) (v : Version) : Bool :=
  s.allAdmit v && (v.prerelease.isEmpty || s.any (·.namesPrereleaseOf v))

end ComparatorSet

end PackageAudit
