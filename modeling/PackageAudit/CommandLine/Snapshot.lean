/-
PackageAudit.CommandLine.Snapshot — the world as a document, and outcomes as
documents.

A snapshot names the current folder and the time, and holds folders, files,
links and answers of a registry. A file is a text or an array of octets. What
is left out is empty; a request without an answer is refused.
-/
import PackageAudit.CommandLine.Run
import PackageAudit.Json.Printer

namespace PackageAudit.CommandLine

namespace Snapshot

/-! ## 1. Reading -/

/-- The text of a member. -/
def textOf (v : Json) (name : String) (otherwise : String) : String :=
  ((v.member? name).bind Json.string?).getD otherwise

/-- The members of a member. -/
def tableOf (v : Json) (name : String) : Table Json :=
  ((v.member? name).bind Json.members?).getD []

/-- The number of a value. -/
def natOf : Json → Nat
  | .int n => n.toNat
  | _ => 0

/-- The content of a file. -/
def octetsOf : Json → Text.Octets
  | .str s => Text.Utf8.encode s
  | .arr items => items.map fun v => UInt8.ofNat (natOf v)
  | _ => []

/-- Puts the folders, files and links of a snapshot into a tree. -/
def treeOf (v : Json) : FileTree :=
  let folders := ((v.member? "folders").bind Json.items?).getD []
  let t := (folders.filterMap Json.string?).foldl FileTree.putFolder (FileTree.ofFolders [])
  let t := (tableOf v "files").foldl (fun t (path, c) => t.putFile path (octetsOf c)) t
  (tableOf v "links").foldl (fun t (path, target) => t.putLink path (target.string?.getD "")) t

/-- What a request ends with. -/
def responseOf (v : Json) : Response :=
  match (v.member? "refused").bind Json.string? with
  | some reason => .refused reason
  | none =>
    .answered (((v.member? "status").map natOf).getD 200) (textOf v "reason" "")
      (textOf v "body" "")

/-- What requests end with. -/
def webOf (v : Json) : String → Response := fun address =>
  match Table.get? (tableOf v "responses") address with
  | some r => responseOf r
  | none => .refused "no answer"

/-- The world that a snapshot shows. -/
def worldOf (v : Json) : World := {
  tree := treeOf v
  folder := textOf v "folder" "/"
  web := webOf v
  timing := {
    startedAt := textOf v "time" ""
    milliseconds := (v.member? "milliseconds").map natOf } }

/-- Reads a snapshot. -/
def read (s : String) : Except Json.Error World := (Json.parse s).map worldOf

end Snapshot

/-! ## 2. Writing -/

/-- The document of a cell. -/
def cellDocument : Cell → Json
  | .text s => .str s
  | .number n => .ofNat n

/-- The document of a workbook: the rows of every sheet by its name. -/
def workbookDocument (sheets : List Sheet) : Json :=
  .obj (sheets.map fun s => (s.name, .arr (s.rows.map fun r => .arr (r.map cellDocument))))

/-- What is written for a content. -/
def Content.toJson : Content → Json
  | .document v => .str v.indented
  | .text s => .str s
  | .workbook sheets => workbookDocument sheets

/-- The document of an outcome. -/
def Outcome.toJson (o : Outcome) : Json := .obj [
  ("exit", .ofNat o.exitCode),
  ("output", .str o.output),
  ("log", .ofTexts o.log),
  ("errors", .str o.errors),
  ("files", .obj (o.files.map fun (path, c) => (path, c.toJson)))]

end PackageAudit.CommandLine
