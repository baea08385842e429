/-
PackageAudit.CommandLine.Run — what a command line does.

A run looks at the world once: the tree of files, the current folder, what
requests to a registry end with, and the time. It ends with an exit code,
texts for the two output streams and files to be written. Nothing is written
unless there is a report.
-/
import PackageAudit.Audit.Basic
import PackageAudit.CommandLine.Arguments
import PackageAudit.Registry.Lookup
import PackageAudit.Report.FixScript
import PackageAudit.Report.IssueTable
import PackageAudit.Report.Summary

namespace PackageAudit.CommandLine

/-- What a run sees of the world. -/
structure World where
  tree : FileTree
  folder : String
  web : String → Response
  timing : Timing

/-- What a written file holds. -/
inductive Content where
  | document (v : Json)
  | text (s : String)
  | workbook (sheets : List Sheet)

/-- How a run ends: the exit code, the text for the output, the lines of the
log, the text of the errors, and the files to be written by their full
paths. -/
structure Outcome where
  exitCode : Nat := 0
  output : String := ""
  log : List String := []
  errors : String := ""
  files : Table Content := []
  deriving Inhabited

/-! ## 1. Texts -/

/-- The name of the program. -/
def programName : String := "dependency-audit"

/-- How a switch is written in the help text. -/
def helpLine (o : Switch) : String :=
  "  " ++ Report.padded 20 (", ".intercalate o.spellings) ++ "  " ++ o.description

/-- The help text. -/
def helpText : String :=
  "\n".intercalate (["usage: " ++ programName ++ " [options] project_path", ""] ++
    Switch.all.map helpLine) ++ "\n"

/-- The text for a misuse. -/
def misuseText (m : Misuse) : String := programName ++ ": error: " ++ m.message ++ "\n"

/-- The text for an audit without a report. A project without a usable
manifest is named first. -/
def errorText : AuditError → String
  | .manifest e => "Error: " ++ e.message ++ "\n"
  | e => "\nError during analysis: " ++ e.message ++ "\n"

/-! ## 2. Files -/

/-- A character that stays in the name of a file. -/
def isNameChar (c : Char) : Bool := Text.isWord c || c == '.' || c == '-'

/-- A text as part of a file name: one underscore for every run of other
characters, and none at the ends. -/
def fileStem (s : String) : String :=
  let words := (Text.fieldsBy (fun c => !isNameChar c) s.toList).map String.ofList
  let stem := Text.trimBoth (· == '_') ("_".intercalate words).toList
  if stem.isEmpty then "project" else String.ofList stem

/-- What the files of a report are named after: the name of the project, or
else its folder. -/
def stemOf (r : Report) : String :=
  match r.metadata.get? "project_name" with
  | some (.str s) => fileStem (if s.isEmpty then Path.base r.root else s)
  | _ => fileStem (Path.base r.root)

/-- A file to be written: what it is called in messages, the end of its name
and its content. -/
structure Product where
  label : String
  ending : String
  content : Content

/-- The files that are asked for, as far as there is something in them. -/
def products (a : Arguments) (r : Report) : List Product :=
  [⟨"\nReport", "_dependency_report.json", .document r.toJson⟩] ++
  (if a.csv then r.csv?.toList.map fun s => ⟨"Issues", "_issues.csv", .text s⟩ else []) ++
  (if a.worksheets then
    r.workbook?.toList.map fun sheets => ⟨"Worksheets", "_worksheets.xlsx", .workbook sheets⟩
   else []) ++
  (if a.fixScript then [⟨"Fix script", "_fix_dependencies.sh", .text r.fixScript⟩] else [])

/-- Where a product goes, seen from the current folder. -/
def Product.path (p : Product) (a : Arguments) (r : Report) : String :=
  Path.inFolder a.outputDir (stemOf r ++ p.ending)

/-- The message about a product. -/
def Product.message (p : Product) (a : Arguments) (r : Report) : String :=
  p.label ++ " saved to: " ++ p.path a r ++ "\n"

/-- The nearest entry on the way to a path is a folder, so that folders can be
made for it. -/
def canHold (t : FileTree) (path : String) : Bool :=
  ((List.range ((Path.steps path).length + 1)).map fun n =>
    FileTree.pathOf ((Path.steps path).take n)).all fun p => !t.exists? p || t.isFolder p

/-! ## 3. Runs -/

/-- The outcome of an audit with a report. -/
def Outcome.ofReport (w : World) (a : Arguments) (r : Report) : Outcome :=
  let folder := Path.absolute w.folder a.outputDir
  if canHold w.tree folder then {
    output := String.join ((products a r).map fun p => p.message a r)
    log := r.summaryLines
    files := (products a r).map fun p => (Path.absolute w.folder (p.path a r), p.content) }
  else {
    exitCode := 1
    log := r.summaryLines
    errors := "Cannot write to folder: " ++ folder ++ "\n" }

/-- What arguments ask an audit to do. -/
def request (w : World) (a : Arguments) : Audit.Request :=
  let options := a.options
  { tree := w.tree
    project := Path.absolute w.folder (a.project.getD "")
    options
    lookup := Registry.answer ⟨options.registryUrl, w.web⟩
    timing := w.timing }

/-- Runs a command line. -/
def run (w : World) (line : List String) : Outcome :=
  match Arguments.parse line with
  | .error .help => { output := helpText }
  | .error (.misuse m) => { exitCode := 2, errors := misuseText m }
  | .ok a =>
    match Audit.run (request w a) with
    | .error e => { exitCode := 1, errors := errorText e }
    | .ok r => .ofReport w a r

end PackageAudit.CommandLine
