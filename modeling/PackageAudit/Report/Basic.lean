/-
PackageAudit.Report.Basic — the result of an audit.

The parts that are only shown are kept as the document that a report shows.
-/
import PackageAudit.Audit.Outdated
import PackageAudit.Issue
import PackageAudit.Json.Inspect
import PackageAudit.Warning

namespace PackageAudit

/-- The result of an audit. -/
structure Report where
  root : String
  issues : List Issue := []
  graph : Json := .obj []
  cycles : Json := .arr []
  peers : Json := .null
  declared : List Declared := []
  outdated : List Outdated := []
  health : Table Json := []
  metadata : Table Json := []
  warnings : List Warning := []
  categories : Table Json := []
  recommendations : Table Json := []
  deriving Inhabited

namespace Report

/-- The issues of a kind. -/
def ofKind (r : Report) (kind : IssueKind) : List Issue := r.issues.filter fun i => i.kind == kind

/-- The names of the issues of a kind. -/
def namesOf (r : Report) (kind : IssueKind) : List String := (r.ofKind kind).map Issue.name

/-- The number of files, as the metadata give it. -/
def fileCount (r : Report) : Json := (r.metadata.get? "files_analyzed").getD (.int 0)

/-- What the project is called: its name, or else its place. -/
def title (r : Report) : String :=
  match r.metadata.get? "project_name" with
  | some v => if v.holds then v.display else r.root
  | none => r.root

/-- The counts of a report. -/
def summary (r : Report) : Table Json :=
  IssueKind.all.map (fun k => (k.name, .ofNat (r.ofKind k).length)) ++ [
    ("total", .ofNat r.declared.length), ("outdated", .ofNat r.outdated.length),
    ("files_analyzed", r.fileCount)]

/-- The declared packages, the last one of a name counting. -/
def dependencies (r : Report) : Table Json :=
  Table.ofPairs (r.declared.map fun d =>
    (d.name, .obj [("version", .str d.range), ("type", .str d.type.name)]))

/-- The document of a report. -/
def toJson (r : Report) : Json := .obj [
  ("project_root", .str r.root),
  ("summary", .obj r.summary),
  ("issues", .obj (IssueKind.all.map fun k => (k.name, .arr ((r.ofKind k).map Issue.toJson)))),
  ("dependencies", .obj r.dependencies),
  ("graph", r.graph),
  ("cycles", r.cycles),
  ("peer_dependencies", r.peers),
  ("outdated", .arr (r.outdated.map Outdated.toJson)),
  ("categories", .obj r.categories),
  ("recommendations", .obj r.recommendations),
  ("health", .obj r.health),
  ("metadata", .obj r.metadata),
  ("warnings", .arr (r.warnings.map Warning.toJson))]

end Report

end PackageAudit
