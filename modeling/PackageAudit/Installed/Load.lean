/-
PackageAudit.Installed.Load — finding the installed packages of a project.

Packages stand in folders `node_modules`, those with a scope one folder
deeper. A package may have packages of its own; they are read level by
level. One found under the same name at the same real path is known
already.
-/
import PackageAudit.FileTree.Document
import PackageAudit.Installed.Basic

namespace PackageAudit.Installed

/-- The search under way: what has been found, and the names and real paths
of the packages found so far. -/
structure Search where
  registry : Installed
  known : List (String × String) := []
  deriving Inhabited

/-- Adds a warning about a path. -/
def Search.warn (s : Search) (kind : WarningKind) (message path : String) : Search :=
  { s with registry.warnings := s.registry.warnings ++ [⟨kind, message, some path⟩] }

/-- Warns that a folder cannot be listed. -/
def Search.warnList (s : Search) (path : String) (e : FileTree.Error) : Search :=
  s.warn .permissionDenied ("Cannot list " ++ path ++ ": " ++ e.message) path

/-- The folders among the names of a folder, hidden ones left out, up to the
first name whose link cannot be followed. -/
def foldersUpTo (t : FileTree) (folder : String) :
    List String → List String × Option FileTree.Error
  | [] => ([], none)
  | name :: names =>
    if Text.begins "." name then foldersUpTo t folder names
    else
      let path := Path.join folder name
      match t.leadsToFolder path with
      | .error e => ([], some e)
      | .ok found =>
        let (rest, e) := foldersUpTo t folder names
        (if found then path :: rest else rest, e)

/-- The packages of a scope. -/
def scopeFolders (t : FileTree) (s : Search) (folder : String) : Search × List String :=
  match t.list folder with
  | .error e => (s.warnList folder e, [])
  | .ok names =>
    match foldersUpTo t folder names with
    | (folders, none) => (s, folders)
    | (folders, some e) => (s.warnList folder e, folders)

/-- The folders of packages among the names in `node_modules`. -/
def packageFoldersOf (t : FileTree) (folder : String) :
    Search → List String → Except FileTree.Error (Search × List String)
  | s, [] => .ok (s, [])
  | s, name :: names => do
    let path := Path.join folder name
    if Text.begins "." name then packageFoldersOf t folder s names
    else if Text.begins "@" name then
      let (s, inner) := scopeFolders t s path
      let (s, rest) ← packageFoldersOf t folder s names
      return (s, inner ++ rest)
    else
      let found ← t.leadsToFolder path
      let (s, rest) ← packageFoldersOf t folder s names
      return (s, if found then path :: rest else rest)

/-- The folders of packages in `node_modules`. -/
def packageFolders (t : FileTree) (s : Search) (folder : String) :
    Except FileTree.Error (Search × List String) :=
  match t.list folder with
  | .error e => .ok (s.warnList folder e, [])
  | .ok names => packageFoldersOf t folder s names

/-- What the manifest of a package says, if it has a usable one. -/
def readPackage (t : FileTree) (s : Search) (folder : String) : Search × Option (Table Json) :=
  let path := Path.join folder "package.json"
  if t.isFile path then
    match t.readJson path with
    | .error e =>
      (s.warn .invalidInstalledManifest ("Cannot load " ++ path ++ ": " ++ e.message) path, none)
    | .ok (.obj m) => (s, some m)
    | .ok _ => (s.warn .invalidInstalledManifest (path ++ " is not an object") path, none)
  else (s, none)

/-- The members of an object inside an object; what is none has no members. -/
def membersOf (m : Table Json) (key : String) : Table Json :=
  ((m.get? key).bind Json.members?).getD []

/-- The package that a manifest describes. -/
def ofManifest (m : Table Json) (name location : String) (depth : Nat) : InstalledPackage := {
  name
  version := ((m.get? "version").map Json.display).getD "0.0.0"
  location := Path.normalize location
  depth
  dependencies := membersOf m "dependencies"
  peerDependencies := membersOf m "peerDependencies"
  peerMeta := membersOf m "peerDependenciesMeta" }

/-- Reads the package in a folder. The result is the new state and the folder
of its own packages. -/
def loadPackage (t : FileTree) (parent : String) (depth : Nat) (s : Search) (folder : String) :
    Search × Option String :=
  match readPackage t s folder with
  | (s, none) => (s, none)
  | (s, some m) =>
    let name := ((m.get? "name").bind Json.string?).getD (Path.relative folder parent)
    let key := (name, t.realPath folder)
    if s.known.contains key then (s, none)
    else
      let nested := Path.join folder "node_modules"
      ({ known := key :: s.known, registry := s.registry.add (ofManifest m name folder depth) },
        if t.isFolder nested then some nested else none)

/-- Reads the packages in some folders. -/
def loadPackages (t : FileTree) (parent : String) (depth : Nat) :
    Search → List String → Search × List String
  | s, [] => (s, [])
  | s, folder :: folders =>
    let (s, nested) := loadPackage t parent depth s folder
    let (s, more) := loadPackages t parent depth s folders
    (s, nested.toList ++ more)

/-- Reads the packages of one level, given its folders `node_modules`. The
result is the new state and the folders of the next level. -/
def loadLevel (t : FileTree) (depth : Nat) :
    Search → List String → Except FileTree.Error (Search × List String)
  | s, [] => .ok (s, [])
  | s, folder :: folders => do
    let (s, packages) ← packageFolders t s folder
    let (s, nested) := loadPackages t folder depth s packages
    let (s, more) ← loadLevel t depth s folders
    return (s, nested ++ more)

/-- Reads a level and a number of levels below it. -/
def loadLevels (t : FileTree) : Nat → Nat → Search → List String → Except FileTree.Error Search
  | _, _, s, [] => .ok s
  | 0, depth, s, folders => (loadLevel t depth s folders).map (·.1)
  | below + 1, depth, s, folders => do
    let (s, nested) ← loadLevel t depth s folders
    loadLevels t below (depth + 1) s nested

/-- Finds the installed packages of a project, nested up to a depth. -/
def load (t : FileTree) (project : String) (maxDepth : Nat) : Except FileTree.Error Installed :=
  let root := Path.absolute "/" project
  let top := Path.join root "node_modules"
  if t.isFolder top then
    (loadLevels t maxDepth 0 { registry := { root, present := true } } [top]).map Search.registry
  else .ok { root }

end PackageAudit.Installed
