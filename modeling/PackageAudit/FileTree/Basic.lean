/-
PackageAudit.FileTree.Basic — trees of files, folders and links.

A path is followed component by component from the root. A link is replaced
by the components of its target; a path may lead through forty links. What
is found is an entry and its real place: the names from the root to it, free
of links.
-/
import PackageAudit.Path
import PackageAudit.Table
import PackageAudit.Text.Quoted
import PackageAudit.Text.Utf8

namespace PackageAudit

/-- What a name in a folder stands for. -/
inductive Entry where
  | file (content : Text.Octets)
  | folder (entries : List (String × Entry))
  | link (target : String)
  deriving Inhabited

namespace Entry

/-- An entry of a folder. -/
def child? (e : Entry) (name : String) : Option Entry :=
  match e with
  | .folder entries => Table.get? entries name
  | _ => none

/-- The entry at the end of a chain of names, links not followed. -/
def at? : Entry → List String → Option Entry
  | e, [] => some e
  | e, name :: names => (e.child? name).bind fun c => c.at? names

/-- Puts an entry at the end of a chain of names. Missing folders are made;
what is no folder becomes one. -/
def insert (leaf : Entry) : List String → Entry → Entry
  | [], _ => leaf
  | name :: names, e =>
    let entries := match e with
      | .folder entries => entries
      | _ => []
    .folder (Table.put entries name
      (insert leaf names ((Table.get? entries name).getD (.folder []))))

/-- Makes sure that a folder stands at the end of a chain of names. -/
def insertFolder : List String → Entry → Entry
  | [], e =>
    match e with
    | .folder _ => e
    | _ => .folder []
  | name :: names, e =>
    let entries := match e with
      | .folder entries => entries
      | _ => []
    .folder (Table.put entries name
      (insertFolder names ((Table.get? entries name).getD (.folder []))))

end Entry

/-- A tree, from its root. -/
structure FileTree where
  root : Entry
  deriving Inhabited

namespace FileTree

/-- Why a path leads nowhere, or to the wrong kind of entry. -/
inductive Fault where
  | notFound
  | notFolder
  | isFolder
  | tooManyLinks
  deriving DecidableEq, BEq, Repr

/-- The number of a fault. -/
def Fault.code : Fault → Nat
  | .notFound => 2
  | .notFolder => 20
  | .isFolder => 21
  | .tooManyLinks => 40

/-- The words for a fault. -/
def Fault.words : Fault → String
  | .notFound => "No such file or directory"
  | .notFolder => "Not a directory"
  | .isFolder => "Is a directory"
  | .tooManyLinks => "Too many levels of symbolic links"

/-- A fault of a path. -/
structure Error where
  fault : Fault
  path : String
  deriving DecidableEq, BEq, Repr

/-- The message of an error. -/
def Error.message (e : Error) : String :=
  s!"[Errno {e.fault.code}] {e.fault.words}: " ++ Text.quoted e.path

/-! ## Following paths -/

/-- An entry and the names that lead to it. -/
structure Found where
  place : List String
  entry : Entry
  deriving Inhabited

/-- Follows components from a place. A link is handed over: the place that
its target starts from, and the components still to be followed. -/
def step (t : FileTree) (onLink : List String → List String → Except Fault Found) :
    List String → List String → Except Fault Found
  | place, [] =>
    match t.root.at? place with
    | some e => .ok ⟨place, e⟩
    | none => .error .notFound
  | place, name :: rest =>
    match t.root.at? place with
    | some (.folder entries) =>
      if name == "" || name == "." then step t onLink place rest
      else if name == ".." then step t onLink place.dropLast rest
      else match Table.get? entries name with
        | none => .error .notFound
        | some (.link target) =>
          if target.isEmpty then .error .notFound
          else onLink (if Path.isAbsolute target then [] else place)
            (Path.components target ++ rest)
        | some _ => step t onLink (place ++ [name]) rest
    | some _ => .error .notFolder
    | none => .error .notFound

/-- Follows components through at most a number of links. -/
def follow (t : FileTree) : Nat → List String → List String → Except Fault Found
  | 0 => t.step fun _ _ => .error .tooManyLinks
  | links + 1 => t.step (t.follow links)

/-- What an absolute path leads to. -/
def find (t : FileTree) (path : String) : Except Fault Found :=
  if path.isEmpty then .error .notFound else t.follow 40 [] (Path.components path)

/-- The path leads somewhere. -/
def exists? (t : FileTree) (path : String) : Bool :=
  match t.find path with
  | .ok _ => true
  | .error _ => false

/-- The path leads to a file. -/
def isFile (t : FileTree) (path : String) : Bool :=
  match t.find path with
  | .ok ⟨_, .file _⟩ => true
  | _ => false

/-- The path leads to a folder. -/
def isFolder (t : FileTree) (path : String) : Bool :=
  match t.find path with
  | .ok ⟨_, .folder _⟩ => true
  | _ => false

/-- The path of a place. -/
def pathOf (place : List String) : String := "/" ++ Path.ofComponents place

/-- The real path that a path leads to; a path that leads nowhere stays what
it is. -/
def realPath (t : FileTree) (path : String) : String :=
  match t.find path with
  | .ok f => pathOf f.place
  | .error _ => Path.absolute "/" path

/-! ## Reading -/

/-- The content of a file. -/
def read (t : FileTree) (path : String) : Except Error Text.Octets :=
  match t.find path with
  | .ok ⟨_, .file content⟩ => .ok content
  | .ok _ => .error ⟨.isFolder, path⟩
  | .error f => .error ⟨f, path⟩

/-- Why a file could not be read as a text. -/
inductive ReadError where
  | access (e : Error)
  | encoding (e : Text.Utf8.Error)
  deriving DecidableEq, Repr

/-- The message of an error. -/
def ReadError.message : ReadError → String
  | .access e => e.message
  | .encoding e => e.message

/-- The text of a file, line ends unified. -/
def readText (t : FileTree) (path : String) : Except ReadError String :=
  match t.read path with
  | .error e => .error (.access e)
  | .ok octets =>
    match Text.Utf8.decode octets with
    | .error e => .error (.encoding e)
    | .ok s => .ok (String.ofList (Text.unifyLineEnds s.toList))

/-- The text of a file whatever its octets are, line ends unified. -/
def readLenient (t : FileTree) (path : String) : Except Error String :=
  (t.read path).map fun octets =>
    String.ofList (Text.unifyLineEnds (Text.Utf8.decodeLenient octets).toList)

/-- The names in a folder, sorted. -/
def list (t : FileTree) (path : String) : Except Error (List String) :=
  match t.find path with
  | .ok ⟨_, .folder entries⟩ => .ok (Text.sortTexts (Table.keys entries))
  | .ok _ => .error ⟨.notFolder, path⟩
  | .error f => .error ⟨f, path⟩

/-- What kind of entry a path leads to. One that is missing, such as the
target of a dangling link, is no fault. -/
def kind? (t : FileTree) (path : String) : Except Error (Option Entry) :=
  match t.find path with
  | .ok f => .ok (some f.entry)
  | .error .notFound => .ok none
  | .error f => .error ⟨f, path⟩

/-- The path leads to a folder; only a path that cannot be followed is a
fault. -/
def leadsToFolder (t : FileTree) (path : String) : Except Error Bool :=
  (t.kind? path).map fun
    | some (.folder _) => true
    | _ => false

/-! ## Building -/

/-- A tree with empty folders at the root. -/
def ofFolders (names : List String) : FileTree := ⟨.folder (names.map fun n => (n, .folder []))⟩

/-- Puts a file at a path. -/
def putFile (t : FileTree) (path : String) (content : Text.Octets) : FileTree :=
  ⟨Entry.insert (.file content) (Path.steps path) t.root⟩

/-- Puts a link at a path. -/
def putLink (t : FileTree) (path target : String) : FileTree :=
  ⟨Entry.insert (.link target) (Path.steps path) t.root⟩

/-- Makes a folder at a path. -/
def putFolder (t : FileTree) (path : String) : FileTree :=
  ⟨Entry.insertFolder (Path.steps path) t.root⟩

end FileTree

end PackageAudit
