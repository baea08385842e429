/-
PackageAudit.Resolve.AliasConfig — the aliases that configuration files
declare.

Bundlers and the test runner are configured by scripts. Only what such a
script writes out is read: objects from keys to targets, and lists of
objects with a key to find and its replacement.
-/
import PackageAudit.Resolve.CompilerOptions
import PackageAudit.Script.Literal
import PackageAudit.Source.Language

namespace PackageAudit.AliasConfig

open Script (Literals Node)

/-! ## 1. Paths -/

/-- Functions whose results are paths. -/
def pathFunctions : List (List Char) :=
  ["resolve", "join", "URL", "fileURLToPath"].map String.toList

/-- A call of a function whose result is a path, or the place of the script,
at the front; `wordBefore` says that a word goes on there. -/
def mentionsPathAt (wordBefore : Bool) (cs : List Char) : Bool :=
  (!wordBefore && pathFunctions.any fun f =>
    match Text.rest? f cs with
    | some rest => (rest.dropWhile Text.isSpace).head? == some '('
    | none => false) ||
  "__dirname".toList.isPrefixOf cs || "import.meta".toList.isPrefixOf cs

/-- A text mentions a way to build a path. -/
def mentionsPath : Bool → List Char → Bool
  | _, [] => false
  | wordBefore, c :: cs =>
    mentionsPathAt wordBefore (c :: cs) || mentionsPath (Text.isWord c) cs

/-- A target names a place in the file tree: by its form, by the way it is
written, or because its first component is there. -/
def isPathTarget (t : FileTree) (root target written : String) : Bool :=
  Text.begins "." target || Text.begins "/" target || Text.begins "<rootDir>" target ||
    mentionsPath false written.toList ||
    t.exists? (Path.join root ((Path.components target).headD ""))

/-! ## 2. Aliases -/

/-- What the functions below have in common: the tree, the root of the project and how
scripts are read. -/
structure Context where
  tree : FileTree
  root : String
  reader : Script.Reader

/-- An alias from a key and a target. -/
def plainAlias (x : Context) (source : AliasSource) (key target written : String) : Alias :=
  let (key, kind) := Alias.kindOf key
  { key, target, kind, isPath := isPathTarget x.tree x.root target written, source }

/-- The target that a node stands for. -/
def targetOf (l : Literals) (n : Node) : Except ConfigError (Option String) :=
  (l.target n).mapError fun _ => .endlessTarget

/-- What reading a configuration gives: aliases, and warnings about others. -/
abbrev Found := List Alias × List Warning

/-- An alias whose key is a regular expression, or the warning that it is
none. A pattern may be refused for other reasons than how it is written. -/
def ofPattern (source : AliasSource) (path pattern flags target : String) (isPath : Bool) :
    Except ConfigError Found :=
  match Regex.Pattern.ofLiteral pattern flags with
  | .ok p =>
    .ok ([{ key := pattern, target, kind := .regex, isPath, source, pattern := some p }], [])
  | .error e =>
    if e.fault.isSyntax then .ok ([], [CompilerOptions.invalid
      ("Unsupported alias pattern /" ++ pattern ++ "/ in " ++ Path.base path ++ ": " ++ e.message)
      path])
    else .error (.pattern e)

/-- Found one after the other. -/
def Found.append (a b : Found) : Found := (a.1 ++ b.1, a.2 ++ b.2)

/-- Collects what is found for each item. -/
def collect {α : Type} (f : α → Except ConfigError Found) : List α → Except ConfigError Found
  | [] => .ok ([], [])
  | x :: xs => do return Found.append (← f x) (← collect f xs)

/-! ## 3. Bundlers -/

/-- The alias of a property. -/
def ofPair (x : Context) (source : AliasSource) (l : Literals) :
    String × Node → Except ConfigError Found := fun (key, value) => do
  match ← targetOf l value with
  | none => return ([], [])
  | some target => return ([plainAlias x source key target value.text], [])

/-- The alias of an entry of a list. -/
def ofEntry (x : Context) (source : AliasSource) (path : String) (l : Literals) (entry : Node) :
    Except ConfigError Found := do
  let fields := Table.ofPairs (((l.dereference? entry).map l.pairs).getD [])
  match fields.get? "find", fields.get? "replacement" with
  | some find, some replacement =>
    match ← targetOf l replacement with
    | none => return ([], [])
    | some target =>
      if find.kind == .regex then
        let part := fun r => ((find.child? r).map Node.text).getD ""
        ofPattern source path (part .pattern) (part .flags) target
          (isPathTarget x.tree x.root target replacement.text)
      else match Script.text? find with
        | some key => return ([plainAlias x source key target replacement.text], [])
        | none => return ([], [])
  | _, _ => return ([], [])

/-- The aliases of one alias table. -/
def ofTable (x : Context) (source : AliasSource) (path : String) (l : Literals) (n : Node) :
    Except ConfigError Found :=
  if n.kind == .array then collect (ofEntry x source path l) n.namedChildren
  else collect (ofPair x source l) (l.pairs n)

/-- The configuration files of a name. -/
def configFiles (x : Context) (stem : String) : List String :=
  ([".js", ".ts", ".mjs", ".cjs", ".mts", ".cts"].map fun e => Path.join x.root (stem ++ e)).filter
    x.tree.isFile

/-- Reads a configuration script. -/
def readScript (x : Context) (path : String) (f : Literals → Except ConfigError Found) :
    Except ConfigError Found :=
  match x.tree.readLenient path with
  | .error e =>
    .ok ([], [CompilerOptions.invalid ("Cannot read " ++ path ++ ": " ++ e.message) path])
  | .ok source => f (Literals.read x.reader (Script.Dialect.ofPath path) source)

/-- The aliases of a bundler. -/
def ofBundler (x : Context) (source : AliasSource) (stem : String) : Except ConfigError Found :=
  collect (fun path => readScript x path fun l =>
    collect (ofTable x source path l) (l.valuesOf "alias")) (configFiles x stem)

/-! ## 4. The test runner -/

/-- A pattern, its target and the file that has it. -/
structure Mapper where
  pattern : String
  target : String
  path : String

/-- The alias of a mapper. -/
def Mapper.toAlias (x : Context) (m : Mapper) : Except ConfigError Found :=
  ofPattern .jest m.path m.pattern "" m.target (isPathTarget x.tree x.root m.target m.target)

/-- The target of a value: a text, or the first of a list. -/
def mapperTarget? : Json → Option String
  | .str s => some s
  | .arr (.str s :: _) => some s
  | _ => none

/-- The mappers of a configuration object. -/
def mappersOf (path : String) (data : Json) : List Mapper :=
  match data.member? "moduleNameMapper" with
  | some (.obj table) => table.filterMap fun (pattern, v) =>
      (mapperTarget? v).map fun target => ⟨pattern, target, path⟩
  | _ => []

/-- The mappers of a JSON file; one that cannot be read has none. -/
def jsonMappers (x : Context) (name : String) (part : Json → Json) : List Mapper :=
  let path := Path.join x.root name
  if x.tree.isFile path then
    match x.tree.readRelaxed path with
    | .ok data => mappersOf path (part data)
    | .error _ => []
  else []

/-- The mappers of a property. -/
def pairMapper (path : String) (l : Literals) :
    String × Node → Except ConfigError (List Mapper) := fun (pattern, value) => do
  match ← targetOf l value with
  | some target => return [⟨pattern, target, path⟩]
  | none => return []

/-- The mappers of all configuration scripts, and warnings about scripts that
cannot be read. -/
def scriptMappers (x : Context) : List String → Except ConfigError (List Mapper × List Warning)
  | [] => .ok ([], [])
  | path :: paths => do
    let (found, warnings) ← match x.tree.readLenient path with
      | .error e => pure (([] : List Mapper),
          [CompilerOptions.invalid ("Cannot read " ++ path ++ ": " ++ e.message) path])
      | .ok source => do
        let l := Literals.read x.reader (Script.Dialect.ofPath path) source
        let lists ← ((l.valuesOf "moduleNameMapper").flatMap l.pairs).mapM (pairMapper path l)
        pure (lists.flatten, [])
    let (more, moreWarnings) ← scriptMappers x paths
    return (found ++ more, warnings ++ moreWarnings)

/-- The aliases of the test runner. -/
def ofTestRunner (x : Context) : Except ConfigError Found := do
  let fromJson := jsonMappers x "jest.config.json" id ++
    jsonMappers x "package.json" fun data => (data.member? "jest").getD .null
  let (fromScripts, warnings) ← scriptMappers x (configFiles x "jest.config")
  let (aliases, more) ← collect (Mapper.toAlias x) (fromJson ++ fromScripts)
  return (aliases, warnings ++ more)

end PackageAudit.AliasConfig
