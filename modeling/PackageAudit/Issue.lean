/-
PackageAudit.Issue — the problems that an audit reports.
-/
import PackageAudit.Import.Reference
import PackageAudit.Json.Basic

namespace PackageAudit

/-- Kinds of problems. -/
inductive IssueKind where
  | unused
  | missing
  | phantom
  | misplaced
  | duplicate
  | circularImport
  | peerConflict
  | peerMissing
  deriving DecidableEq, BEq, Repr, Inhabited

namespace IssueKind

/-- All kinds, in the order in which reports list them. -/
def all : List IssueKind := [
  .unused, .missing, .phantom, .misplaced, .duplicate, .circularImport, .peerConflict, .peerMissing]

/-- The name of a kind. -/
def name : IssueKind → String
  | .unused => "unused"
  | .missing => "missing"
  | .phantom => "phantom"
  | .misplaced => "misplaced"
  | .duplicate => "duplicate"
  | .circularImport => "circular-import"
  | .peerConflict => "peer-conflict"
  | .peerMissing => "peer-missing"

/-- The kind of a name. -/
def ofName? (s : String) : Option IssueKind := all.find? fun k => k.name == s

end IssueKind

/-- How grave a problem is, or how sure a finding. -/
inductive Level where
  | high
  | medium
  | low
  | other (name : String)
  deriving DecidableEq, BEq, Repr, Inhabited

namespace Level

/-- The name of a level. -/
def name : Level → String
  | .high => "high"
  | .medium => "medium"
  | .low => "low"
  | .other s => s

/-- The level of a name. -/
def ofName (s : String) : Level :=
  if s == "high" then .high
  else if s == "medium" then .medium
  else if s == "low" then .low
  else .other s

end Level

/-- A place where a package is used, the file relative to the project. -/
structure Usage where
  file : String
  line : Int
  kind : ImportKind
  deriving DecidableEq, BEq, Repr, Inhabited

/-- A usage as a report shows it. -/
def Usage.toJson (u : Usage) : Json := .obj [
  ("file", .str u.file), ("line", .int u.line), ("type", .str u.kind.name)]

/-- A problem and what shows it. The details are members of their own in a
report; they may take the place of the common ones. -/
structure Issue where
  kind : IssueKind
  name : String
  severity : Level
  confidence : Level := .high
  evidence : List Usage := []
  cycle : List String := []
  remediation : String := ""
  details : Table Json := []
  deriving Inhabited

/-- A problem as a report shows it. -/
def Issue.toJson (i : Issue) : Json :=
  let common : Table Json := [
    ("kind", .str i.kind.name), ("name", .str i.name), ("severity", .str i.severity.name),
    ("confidence", .str i.confidence.name), ("remediation", .str i.remediation)]
  let evidence : Table Json :=
    if i.evidence.isEmpty then [] else [("evidence", .arr (i.evidence.map Usage.toJson))]
  let cycle : Table Json := if i.cycle.isEmpty then [] else [("cycle", .ofTexts i.cycle)]
  .obj (i.details.foldl (fun t d => Table.put t d.1 d.2) (common ++ evidence ++ cycle))

end PackageAudit
