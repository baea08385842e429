/-
PackageAudit.FileTree.Document — JSON documents in files.
-/
import PackageAudit.FileTree.Basic
import PackageAudit.Json.Relaxed

namespace PackageAudit.FileTree

/-- Why a file holds no document. -/
inductive DocumentError where
  | access (e : FileTree.Error)
  | encoding (e : Text.Utf8.Error)
  | json (e : Json.Error)
  deriving DecidableEq, Repr

/-- The message of an error. -/
def DocumentError.message : DocumentError → String
  | .access e => e.message
  | .encoding e => e.message
  | .json e => e.message

/-- The document that a text of a file holds. -/
def readWith (parse : String → Except Json.Error Json) (t : FileTree) (path : String) :
    Except DocumentError Json :=
  match t.readText path with
  | .error (.access e) => .error (.access e)
  | .error (.encoding e) => .error (.encoding e)
  | .ok text => (parse text).mapError .json

/-- A document is read from a file. -/
theorem isFile_of_readWith {parse : String → Except Json.Error Json} {t : FileTree} {path : String}
    {v : Json} (h : readWith parse t path = .ok v) : t.isFile path = true := by
  rw [readWith, readText, read] at h
  rw [isFile]
  cases hfind : t.find path with
  | error f =>
    rw [hfind] at h
    cases h
  | ok found =>
    rw [hfind] at h
    obtain ⟨place, e⟩ := found
    cases e with
    | file => rfl
    | _ => cases h

/-- The JSON document in a file. -/
def readJson (t : FileTree) (path : String) : Except DocumentError Json :=
  readWith Json.parse t path

/-- The document in a file that may have comments and trailing commas. -/
def readRelaxed (t : FileTree) (path : String) : Except DocumentError Json :=
  readWith Json.parseRelaxed t path

end PackageAudit.FileTree
