/-
PackageAudit.Audit.Advice — the health of a project, and what to do about
it.
-/
import PackageAudit.Audit.Outdated
import PackageAudit.Issue

namespace PackageAudit

/-! ## 1. Health -/

/-- How many problems of each kind count. -/
structure ProblemCounts where
  unused : Nat
  missing : Nat
  peerConflicts : Nat
  cycles : Nat
  deriving DecidableEq, Repr, Inhabited

/-- A score of at most a hundred, and what would raise it. -/
structure Health where
  score : Nat
  notes : List String
  deriving DecidableEq, Repr, Inhabited

namespace Health

/-- A note, if there is anything to note. -/
def note (n : Nat) (before behind : String) : List String :=
  if n == 0 then [] else [before ++ s!" {n} " ++ behind]

/-- Each problem costs some points, each kind of problem up to a limit. -/
def ofCounts (c : ProblemCounts) : Health := {
  score := 100 - min 30 (2 * c.unused) - min 25 (3 * c.missing) - min 20 (5 * c.peerConflicts) -
    min 10 (5 * c.cycles)
  notes := note c.unused "Remove" "unused dependencies" ++
    note c.missing "Add" "missing dependencies" ++
    note c.peerConflicts "Resolve" "peer dependency conflicts" ++
    note c.cycles "Break" "circular import chains" }

/-- The members that a report shows. -/
def table (h : Health) : Table Json := [("score", .ofNat h.score), ("issues", .ofTexts h.notes)]

end Health

/-! ## 2. Recommendations -/

/-- Something to do about some packages. -/
structure Recommendation where
  priority : Level
  type : String
  title : String
  description : String
  action : String
  packages : List Json
  deriving Inhabited

namespace Recommendation

/-- A recommendation as a report shows it. -/
def toJson (r : Recommendation) : Json := .obj [
  ("priority", .str r.priority.name), ("type", .str r.type), ("title", .str r.title),
  ("description", .str r.description), ("action", .str r.action), ("packages", .arr r.packages)]

/-- The issues of a kind. -/
def ofKind (kind : IssueKind) (issues : List Issue) : List Issue :=
  issues.filter fun i => i.kind == kind

/-- The names of some issues. -/
def names (issues : List Issue) : List Json := issues.map fun i => .str i.name

/-- What to do about missing packages. -/
def installMissing (issues : List Issue) : Recommendation := {
  priority := .high
  type := "errors"
  title := "Install Missing Dependencies"
  description := s!"Found {issues.length} missing dependencies that will cause runtime errors"
  action := "Install missing packages"
  packages := names issues }

/-- What to do about unused packages. -/
def removeUnused (issues : List Issue) : Recommendation := {
  priority := .medium
  type := "cleanup"
  title := "Remove Unused Dependencies"
  description := s!"Found {issues.length} unused dependencies"
  action := "Remove unused packages to reduce install size"
  packages := names issues }

/-- What to do about outdated packages. -/
def updateOutdated (outdated : List Outdated) : Recommendation := {
  priority := .medium
  type := "updates"
  title := "Update Outdated Packages"
  description := s!"Found {outdated.length} outdated packages"
  action := "Update to latest versions for new features and bug fixes"
  packages := outdated.map fun o => .str o.name }

/-- The names of the packages in the details of an issue. -/
def detailNames (i : Issue) : List Json :=
  ((i.details.get? "packages").bind Json.items?).elim [] fun ps =>
    ps.map fun p => (p.member? "name").getD .null

/-- What to do about packages of one role. -/
def consolidate (issues : List Issue) : Recommendation := {
  priority := .low
  type := "optimization"
  title := "Consolidate Duplicate Dependencies"
  description := s!"Found {issues.length} sets of functionally duplicate packages"
  action := "Consider consolidating to reduce maintenance overhead"
  packages := issues.flatMap detailNames }

/-- A recommendation about some items, unless there are none. -/
def about {α : Type} (items : List α) (make : List α → Recommendation) : List Recommendation :=
  if items.isEmpty then [] else [make items]

/-- What to do about all issues. -/
def ofIssues (issues : List Issue) (outdated : List Outdated) : List Recommendation :=
  about (ofKind .missing issues) installMissing ++ about (ofKind .unused issues) removeUnused ++
    about outdated updateOutdated ++ about (ofKind .duplicate issues) consolidate

/-- The priorities, in the order of a report. -/
def priorities : List Level := [.high, .medium, .low]

/-- Recommendations by priority. -/
def table (rs : List Recommendation) : Table Json :=
  priorities.map fun p => (p.name, .arr ((rs.filter fun r => r.priority == p).map toJson))

end Recommendation

end PackageAudit
