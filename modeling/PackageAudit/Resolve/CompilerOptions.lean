/-
PackageAudit.Resolve.CompilerOptions — the base of all paths and the path
mappings of a compiler configuration.

A configuration may extend others, which may extend others in turn. They are
read depth first, the last one that a configuration names before the others,
and none twice. Settings are taken from the end of that order to its start,
so that a configuration overrides those that it extends.
-/
import PackageAudit.FileTree.Document
import PackageAudit.Json.Inspect
import PackageAudit.Resolve.Config
import PackageAudit.Source.Scan
import PackageAudit.Warning

namespace PackageAudit

/-- Why a configuration cannot be loaded at all: a value that is no text
where one is needed, arrays that contain themselves, a row of the alias table
that is no key and target, or a pattern that asks for too much. -/
inductive ConfigError where
  | unexpectedValue (value : Json)
  | endlessTarget
  | aliasRow (cells : Nat)
  | pattern (e : Regex.Error)

/-- The message of an error. -/
def ConfigError.message : ConfigError → String
  | .unexpectedValue v => "Not a text: " ++ v.inspect
  | .endlessTarget => "An array contains itself"
  | .aliasRow cells =>
    if cells < 2 then s!"not enough values to unpack (expected 2, got {cells})"
    else "too many values to unpack (expected 2)"
  | .pattern e => e.message

namespace CompilerOptions

/-- The warning that a configuration is invalid. -/
def invalid (message path : String) : Warning := ⟨.invalidConfig, message, some path⟩

/-! ## 1. The configurations that are extended -/

/-- The file that a configuration in a folder extends. -/
def extendedFile? (t : FileTree) (root folder base : String) : Option String :=
  let candidate :=
    if Text.begins "." base then Path.normalize (Path.join folder base)
    else Path.joinAll [root, "node_modules", base]
  [candidate, candidate ++ ".json", Path.join candidate "tsconfig.json"].find? t.isFile

/-- The values that say what is extended. -/
def basesOf (data : Table Json) : List Json :=
  match data.get? "extends" with
  | some (.arr xs) => xs
  | some (.str s) => [.str s]
  | _ => []

/-- The files that a configuration extends, and warnings about those that are
not there. -/
def extendedFiles (t : FileTree) (root path : String) :
    List Json → Except ConfigError (List String × List Warning)
  | [] => .ok ([], [])
  | .str base :: rest => do
    let (files, warnings) ← extendedFiles t root path rest
    match extendedFile? t root (Path.parent path) base with
    | some file => return (file :: files, warnings)
    | none =>
      return (files, invalid ("Cannot follow extends " ++ Text.quoted base) path :: warnings)
  | v :: _ => .error (.unexpectedValue v)

/-- The configurations read so far, in order, the real paths seen, and
warnings. -/
structure Chain where
  configs : List (String × Table Json) := []
  seen : List String := []
  warnings : List Warning := []
  deriving Inhabited

/-- Adds a warning. -/
def Chain.warn (c : Chain) (message path : String) : Chain :=
  { c with warnings := c.warnings ++ [invalid message path] }

/-- What a configuration file holds, if it is usable. -/
def readConfig (t : FileTree) (c : Chain) (path : String) : Chain × Option (Table Json) :=
  match t.readRelaxed path with
  | .error e => (c.warn ("Could not parse " ++ Path.base path ++ ": " ++ e.message) path, none)
  | .ok (.obj data) => ({ c with configs := c.configs ++ [(path, data)] }, some data)
  | .ok _ => (c.warn (Path.base path ++ " is not an object") path, none)

/-- Reads a configuration and those that it extends. Each call that reads a
file has seen one more; the fuel bounds their number. -/
def readChain (t : FileTree) (root : String) : Nat → Chain → String → Except ConfigError Chain
  | 0, c, _ => .ok c
  | fuel + 1, c, path => do
    let real := t.realPath path
    if c.seen.contains real then return c
    match readConfig t { c with seen := real :: c.seen } path with
    | (c, none) => return c
    | (c, some data) =>
      let (files, warnings) ← extendedFiles t root path (basesOf data)
      files.reverse.foldlM (readChain t root fuel) { c with warnings := c.warnings ++ warnings }

/-! ## 2. Settings -/

/-- The settings of a chain: the base of all paths, and the path mappings
with the folder of the file that has them. -/
structure Settings where
  baseUrl : Option String := none
  paths : Option (Table Json × String) := none
  deriving Inhabited

/-- The settings with those of one more configuration over them. -/
def Settings.override (s : Settings) (path : String) (data : Table Json) : Settings :=
  match data.get? "compilerOptions" with
  | some (.obj options) =>
    let folder := Path.parent path
    { baseUrl := match Table.get? options "baseUrl" with
        | some (.str base) => some (Path.normalize (Path.join folder base))
        | _ => s.baseUrl
      paths := match Table.get? options "paths" with
        | some (.obj m) => some (m, folder)
        | _ => s.paths }
  | _ => s

/-- The settings of a chain, its last configuration first. -/
def settingsOf (configs : List (String × Table Json)) : Settings :=
  configs.foldr (fun (path, data) s => s.override path data) {}

/-- The mapping of one pattern. -/
def mapping? (base pattern : String) (targets : Json) : Option PathMapping :=
  let place := fun (target : String) => Path.normalize (Path.join base target)
  match targets with
  | .str s => some ⟨pattern, [place s]⟩
  | .arr xs => some ⟨pattern, (xs.filterMap Json.string?).map place⟩
  | _ => none

/-- The path mappings of some settings. -/
def mappingsOf (s : Settings) : List PathMapping :=
  match s.paths with
  | none => []
  | some (m, folder) =>
    m.filterMap fun (pattern, targets) => mapping? (s.baseUrl.getD folder) pattern targets

/-- The settings of a configuration file. -/
def load (t : FileTree) (root path : String) :
    Except ConfigError (Option String × List PathMapping × List Warning) := do
  let chain ← readChain t root (t.root.size + 2) {} path
  let s := settingsOf chain.configs
  return (s.baseUrl, mappingsOf s, chain.warnings)

end CompilerOptions

end PackageAudit
