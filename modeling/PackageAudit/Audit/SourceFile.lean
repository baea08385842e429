/-
PackageAudit.Audit.SourceFile — a source file with the modules that it
refers to.

A file that cannot be read has no references. A reference that cannot be
resolved stays without a module; both are warned about, and so is a file that
had to be searched for phrases.
-/
import PackageAudit.FileTree.Basic
import PackageAudit.Graph.Basic
import PackageAudit.Import.Extract
import PackageAudit.Issue
import PackageAudit.Resolve.Resolver
import PackageAudit.Warning

namespace PackageAudit

/-- A reference and the module that it stands for, if that is known. -/
structure ResolvedReference where
  reference : Reference
  module_ : Option ModuleId
  deriving DecidableEq, BEq, Repr, Inhabited

/-- A source file with its references. -/
structure SourceFile where
  path : String
  language : Option Language
  references : List ResolvedReference := []
  strategy : Import.Strategy := .structural
  deriving DecidableEq, BEq, Repr, Inhabited

namespace SourceFile

/-! ## 1. Reading -/

/-- How the specifiers of a file are resolved; the flag is for stylesheets. A
failure has a message. -/
abbrev Resolve := String → String → Bool → Except String ModuleId

/-- The way that a configuration resolves specifiers. -/
def resolveBy (t : FileTree) (c : ResolverConfig) : Resolve := fun specifier file stylesheet =>
  (Resolver.resolve t c specifier file stylesheet).mapError Regex.Error.message

/-- The warning that a reference cannot be resolved. -/
def unresolvedWarning (shown : String) (r : Reference) (reason : String) : Warning := {
  kind := .resolutionFailed
  message := "Cannot resolve " ++ Text.quoted r.specifier ++ s!" (line {r.line}): " ++ reason
  path := some shown }

/-- Resolves a reference, or warns that it cannot be resolved. -/
def resolveReference (resolve : Resolve) (file shown : String) (r : Reference) :
    ResolvedReference × List Warning :=
  match resolve r.specifier file (r.kind == .stylesheetImport) with
  | .ok m => (⟨r, some m⟩, [])
  | .error reason => (⟨r, none⟩, [unresolvedWarning shown r reason])

/-- The warning that a file cannot be read. -/
def unreadableWarning (shown : String) (e : FileTree.Error) : Warning := {
  kind := .unreadableFile
  message := "Cannot read file: " ++ e.message
  path := some shown }

/-- The warning that a file had to be searched for phrases. -/
def degradedWarning (shown : String) : Warning := {
  kind := .degradedExtraction
  message := "Syntax errors prevented structural parsing; used pattern extraction"
  path := some shown }

/-- Reads a file of a project and resolves its references. -/
def read (t : FileTree) (root : String) (resolve : Resolve) (path : String)
    (reader : Script.Reader := Script.read) : SourceFile × List Warning :=
  let language := Language.ofPath? path
  let shown := Path.relative path root
  match t.readLenient path with
  | .error e => ({ path, language }, [unreadableWarning shown e])
  | .ok content =>
    let e := Import.extract path content language reader
    let resolved := e.references.map (resolveReference resolve path shown)
    ({ path, language, references := resolved.map (·.1), strategy := e.strategy },
      (if e.degraded then [degradedWarning shown] else []) ++ resolved.flatMap (·.2))

/-! ## 2. What files refer to -/

/-- The files of the project that a file refers to. -/
def localTargets (s : SourceFile) : List String :=
  s.references.filterMap fun r => match r.module_ with
    | some (.file path) => some path
    | _ => none

/-- The graph of the references between files. -/
def graph (sources : List SourceFile) : ImportGraph :=
  .ofEdges (sources.map path) (sources.flatMap fun s => s.localTargets.map fun t => (s.path, t))

/-- The package that a reference uses, and the usage as seen from the root of
the project. -/
def usage? (root : String) (r : ResolvedReference) : Option (String × Usage) :=
  match r.module_ with
  | some (.external name false) =>
    some (name, ⟨Path.relative r.reference.file root, r.reference.line, r.reference.kind⟩)
  | _ => none

/-- The usages of each package, in the order of the first ones. -/
def usages (root : String) (sources : List SourceFile) : Table (List Usage) :=
  (sources.flatMap fun s => s.references.filterMap (usage? root)).foldl
    (fun t (name, u) => Table.update t name [] (· ++ [u])) []

/-- A reference is to a module of the runtime. -/
def isBuiltinUse (r : ResolvedReference) : Bool :=
  match r.module_ with
  | some (.external name true) => Specifier.isBuiltin name
  | _ => false

/-- Some file refers to a module of the runtime. -/
def usesBuiltin (sources : List SourceFile) : Bool :=
  sources.any fun s => s.references.any isBuiltinUse

end SourceFile

end PackageAudit
