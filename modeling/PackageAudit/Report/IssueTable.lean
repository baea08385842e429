/-
PackageAudit.Report.IssueTable — the issues of a report as a table.

One row per issue, by kind. As a text the cells of a row have commas between
them, and a cell that holds a comma, a quote or a line end stands between
quotes, its own quotes doubled. As a workbook every kind of issue has a sheet
of its own, and outdated packages have one too.
-/
import PackageAudit.Report.Basic

namespace PackageAudit

/-- What a cell holds. -/
inductive Cell where
  | text (s : String)
  | number (n : Nat)
  deriving DecidableEq, BEq, Repr, Inhabited

/-- The text of a cell. -/
def Cell.toText : Cell → String
  | .text s => s
  | .number n => toString n

/-- A sheet of a workbook, its first row the head. -/
structure Sheet where
  name : String
  rows : List (List Cell)
  deriving DecidableEq, BEq, Repr, Inhabited

namespace Report

/-! ## 1. Rows -/

/-- The files of an issue: those of its evidence, sorted, or else its
cycle. -/
def issueFiles (i : Issue) : List String :=
  if i.evidence.isEmpty then i.cycle else Text.sortedSet (i.evidence.map Usage.file)

/-- The head of the table. -/
def issueHead : List String :=
  ["kind", "name", "severity", "confidence", "usages", "files", "remediation"]

/-- The row of an issue. -/
def issueRow (i : Issue) : List Cell := [
  .text i.kind.name, .text i.name, .text i.severity.name, .text i.confidence.name,
  .number i.evidence.length, .text (";".intercalate (issueFiles i)), .text i.remediation]

/-- The issues, by kind. -/
def sortedIssues (r : Report) : List Issue := IssueKind.all.flatMap r.ofKind

/-! ## 2. As a text -/

/-- A cell needs quotes. -/
def needsQuotes (s : String) : Bool := s.toList.any fun c => c == ',' || c == '"' || c == '\n'

/-- The written form of a cell. -/
def writeCell (s : String) : String :=
  if needsQuotes s then
    "\"" ++ String.ofList (Text.replaceChar '"' ['"', '"'] s.toList) ++ "\""
  else s

/-- The written form of a row. -/
def writeRow (cells : List String) : String := ",".intercalate (cells.map writeCell) ++ "\n"

/-- The table as a text, if there are issues. -/
def csv? (r : Report) : Option String :=
  if r.sortedIssues.isEmpty then none
  else some (writeRow issueHead ++
    String.join (r.sortedIssues.map fun i => writeRow ((issueRow i).map Cell.toText)))

/-! ## 3. As a workbook -/

/-- The longest name that a sheet can have. -/
def sheetNameLimit : Nat := 31

/-- A sheet. -/
def sheet (name : String) (head : List String) (rows : List (List Cell)) : Sheet :=
  ⟨String.ofList (name.toList.take sheetNameLimit), head.map Cell.text :: rows⟩

/-- The sheet of a kind of issue, if there is one. -/
def kindSheet? (r : Report) (kind : IssueKind) : Option Sheet :=
  if (r.ofKind kind).isEmpty then none
  else some (sheet kind.name issueHead ((r.ofKind kind).map issueRow))

/-- The row of an outdated package. -/
def outdatedRow (o : Outdated) : List Cell :=
  [.text o.name, .text o.range, .text o.latest, .text o.step, .text o.type.name]

/-- The sheet of outdated packages, if there is one. -/
def outdatedSheet? (r : Report) : Option Sheet :=
  if r.outdated.isEmpty then none
  else some (sheet "outdated" ["name", "current", "latest", "update_type", "type"]
    (r.outdated.map outdatedRow))

/-- The workbook, if there are issues. -/
def workbook? (r : Report) : Option (List Sheet) :=
  if r.sortedIssues.isEmpty then none
  else some (IssueKind.all.filterMap r.kindSheet? ++ r.outdatedSheet?.toList)

end Report

end PackageAudit
