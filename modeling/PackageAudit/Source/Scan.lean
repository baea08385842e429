/-
PackageAudit.Source.Scan — the source files of a project.

Folders are entered in depth-first order, the entries of each by name: first
its files, then its folders. A folder is entered once, and a file reported
once, whatever number of links lead to it. What a name hides, what is left
out by default and what the patterns exclude is passed over.

The folders entered so far are known by their real paths. Each is a folder
of the tree, so no more than that many are entered, and the stack of folders
still to be seen shrinks in between.
-/
import PackageAudit.FileTree.Basic
import PackageAudit.Source.Exclusion
import PackageAudit.Source.Language
import PackageAudit.Warning

namespace PackageAudit

namespace Source

/-- Folders that hold no source files of a project. -/
def defaultExcluded : List String := [
  "node_modules", "dist", "build", "coverage", ".git", ".nyc_output",
  ".next", ".nuxt", "storybook-static", ".cache", "bower_components"]

/-- What a scan has found. -/
structure Scan where
  files : List String := []
  warnings : List Warning := []
  deriving Repr, Inhabited

/-- What a scan is told: the root, what is excluded, and how deep folders may
nest. -/
structure ScanSettings where
  root : String
  exclusion : Exclusion
  maxDepth : Int
  deriving Inhabited

/-- A scan under way: the real paths of the folders entered and of the files
reported, and what has been found. -/
structure ScanState where
  entered : List String := []
  reported : List String := []
  found : Scan := {}
  deriving Inhabited

/-- Adds a warning about a path. -/
def ScanState.warn (s : ScanState) (kind : WarningKind) (message path : String) : ScanState :=
  { s with found.warnings := s.found.warnings ++ [⟨kind, message, some path⟩] }

/-- Adds a file, unless its real path has been reported. -/
def ScanState.report (s : ScanState) (path realPath : String) : ScanState :=
  if s.reported.contains realPath then s
  else { s with
    reported := realPath :: s.reported, found.files := s.found.files ++ [path] }

/-- Looks at one name of a folder at a depth. The result is the new state and
the path of a folder to be entered. -/
def scanName (t : FileTree) (settings : ScanSettings) (folder : String) (depth : Nat)
    (s : ScanState) (name : String) : ScanState × Option String :=
  if Text.begins "." name then (s, none)
  else
    let path := Path.join folder name
    let relative := Path.relative path settings.root
    match t.kind? path with
    | .error e =>
      (s.warn .permissionDenied ("Cannot stat " ++ path ++ ": " ++ e.message) path, none)
    | .ok none => (s, none)
    | .ok (some (.folder _)) =>
      if defaultExcluded.contains name || settings.exclusion.excludes relative then (s, none)
      else if (depth : Int) + 1 > settings.maxDepth then
        (s.warn .depthLimit ("Maximum depth reached at " ++ path) path, none)
      else (s, some path)
    | .ok (some _) =>
      if (Language.ofPath? name).isNone || settings.exclusion.excludes relative then (s, none)
      else (s.report path (t.realPath path), none)

/-- Looks at the names of a folder in turn, collecting the folders to be
entered. -/
def scanNames (t : FileTree) (settings : ScanSettings) (folder : String) (depth : Nat) :
    ScanState → List String → ScanState × List String
  | s, [] => (s, [])
  | s, name :: names =>
    let (s, sub) := scanName t settings folder depth s name
    let (s, subs) := scanNames t settings folder depth s names
    (s, sub.toList ++ subs)

/-- Enters a folder, unless it has been entered. The result is the new state
and the folders inside that are to be entered. -/
def scanFolder (t : FileTree) (settings : ScanSettings) (s : ScanState) (folder : String)
    (depth : Nat) : ScanState × List String :=
  let real := t.realPath folder
  if s.entered.contains real then
    (s.warn .symlinkCycle ("Directory already visited: " ++ folder) folder, [])
  else
    let s := { s with entered := real :: s.entered }
    match t.list folder with
    | .error e =>
      (s.warn .permissionDenied ("Cannot list " ++ folder ++ ": " ++ e.message) folder, [])
    | .ok names => scanNames t settings folder depth s names

/-- Enters the folders of a stack, those inside a folder before those behind
it. The fuel bounds the number of folders. -/
def scanStack (t : FileTree) (settings : ScanSettings) :
    Nat → ScanState → List (String × Nat) → ScanState
  | 0, s, _ => s
  | _, s, [] => s
  | fuel + 1, s, (folder, depth) :: stack =>
    let (s, inside) := scanFolder t settings s folder depth
    scanStack t settings fuel s (inside.map (fun p => (p, depth + 1)) ++ stack)

end Source

mutual

/-- The number of names in a tree. -/
def Entry.size : Entry → Nat
  | .folder entries => 1 + Entry.sizes entries
  | _ => 1

/-- The number of names in some entries. -/
def Entry.sizes : List (String × Entry) → Nat
  | [] => 0
  | (_, e) :: es => e.size + Entry.sizes es

end

/-- The source files of a project. Each folder is pushed by one that is
entered for the first time, hence at most once per name of the tree. -/
def Source.scan (t : FileTree) (root : String) (patterns : List String) (maxDepth : Int) :
    Source.Scan :=
  let root := Path.absolute "/" root
  let settings : ScanSettings := { root, exclusion := .ofPatterns patterns, maxDepth }
  (scanStack t settings (t.root.size + 2) {} [(root, 0)]).found

end PackageAudit
