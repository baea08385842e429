/-
PackageAudit.Manifest.Basic — what a project declares.

A dependency that is declared more than once belongs to the first of the
three sections that has it; the others are warned about.
-/
import PackageAudit.FileTree.Document
import PackageAudit.Json.Inspect
import PackageAudit.Warning

namespace PackageAudit

/-- What a dependency is declared for. -/
inductive DependencyType where
  | production
  | development
  | peer
  deriving DecidableEq, BEq, Repr, Inhabited

namespace DependencyType

/-- All types, in the order in which sections are read. -/
def all : List DependencyType := [.production, .development, .peer]

/-- The name of a type. -/
def name : DependencyType → String
  | .production => "production"
  | .development => "development"
  | .peer => "peer"

/-- The type of a name. -/
def ofName? (s : String) : Option DependencyType := all.find? fun t => t.name == s

/-- The section of a manifest that declares dependencies of a type. -/
def sectionName : DependencyType → String
  | .production => "dependencies"
  | .development => "devDependencies"
  | .peer => "peerDependencies"

end DependencyType

/-- A declared dependency. -/
structure Declared where
  name : String
  range : String
  type : DependencyType
  deriving DecidableEq, BEq, Repr, Inhabited

/-- What a project declares about itself. -/
structure Manifest where
  path : String
  name : Option String := none
  version : Option String := none
  declared : Table Declared := []
  scripts : Table String := []
  raw : Table Json := []
  warnings : List Warning := []
  deriving Inhabited

namespace Manifest

/-- Why there is no manifest. -/
inductive Error where
  | absent (project : String)
  | unreadable (path : String) (e : FileTree.Error)
  | invalid (path reason : String)
  | notObject (path : String)
  deriving DecidableEq, Repr

/-- The message of an error. -/
def Error.message : Error → String
  | .absent project => "package.json not found in " ++ project
  | .unreadable path e => "Cannot read " ++ path ++ ": " ++ e.message
  | .invalid path reason => "Invalid JSON in " ++ path ++ ": " ++ reason
  | .notObject path => path ++ " does not contain a JSON object"

/-- The dependency of a name. -/
def get? (m : Manifest) (name : String) : Option Declared := m.declared.get? name

/-- The name is declared. -/
def declares (m : Manifest) (name : String) : Bool := m.declared.has name

/-- The declared dependencies in order. -/
def dependencies (m : Manifest) : List Declared := m.declared.values

/-- The dependencies of a type. -/
def ofType (m : Manifest) (type : DependencyType) : List Declared :=
  m.dependencies.filter fun d => d.type == type

/-- A manifest with given dependencies, the last of a name counting. -/
def ofDeclared (path : String) (name version : Option String) (declared : List Declared)
    (scripts : Table String) : Manifest :=
  { path, name, version, scripts, declared := Table.ofPairs (declared.map fun d => (d.name, d)) }

/-! ## Reading -/

/-- Declares a dependency, or warns that it has been declared before. -/
def declare (m : Manifest) (type : DependencyType) (name : String) (range : Json) : Manifest :=
  match m.get? name with
  | some before =>
    { m with warnings := m.warnings ++ [{
        kind := .duplicateDeclaration
        message := name ++ " is declared in both " ++ before.type.sectionName ++ " and " ++
          type.sectionName
        path := some m.path }] }
  | none =>
    { m with declared := m.declared.put name { name, range := range.display, type } }

/-- Reads one section. -/
def addSection (m : Manifest) (type : DependencyType) : Manifest :=
  match m.raw.get? type.sectionName with
  | none => m
  | some .null => m
  | some (.obj entries) => entries.foldl (fun m (name, range) => m.declare type name range) m
  | some _ =>
    { m with warnings := m.warnings ++ [{
        kind := .invalidManifest
        message := type.sectionName ++ " is not an object"
        path := some m.path }] }

/-- The texts among the values of a table. -/
def textsOf (t : Table Json) : Table String :=
  t.filterMap fun (key, v) => v.string?.map fun s => (key, s)

/-- The manifest that an object describes. -/
def ofObject (path : String) (raw : Table Json) : Manifest :=
  let start : Manifest := {
    path, raw
    name := (raw.get? "name").bind Json.string?
    version := (raw.get? "version").bind Json.string?
    scripts := ((raw.get? "scripts").bind Json.members?).elim [] textsOf }
  DependencyType.all.foldl addSection start

/-- Reads the manifest of a project. -/
def load (t : FileTree) (project : String) : Except Error Manifest :=
  let path := Path.join project "package.json"
  if t.isFile path then
    match t.readJson path with
    | .error (.access e) => .error (.unreadable path e)
    | .error (.encoding e) => .error (.invalid path e.message)
    | .error (.json e) => .error (.invalid path e.message)
    | .ok (.obj raw) => .ok (ofObject path raw)
    | .ok _ => .error (.notObject path)
  else .error (.absent project)

end Manifest

end PackageAudit
