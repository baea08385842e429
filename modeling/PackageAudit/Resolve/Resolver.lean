/-
PackageAudit.Resolve.Resolver — from specifiers to modules.

In this order: runtime modules and addresses, places in the file tree, path
mappings, aliases, what stylesheets look for, the home of the project, and
at last packages. A place is that of the first file found in the ways a
specifier may abbreviate it, or the normal form of the path.
-/
import PackageAudit.FileTree.Basic
import PackageAudit.Resolve.Config
import PackageAudit.Resolve.Specifier

namespace PackageAudit

namespace Resolver

/-! ## 1. Files -/

/-- Extensions of sources that a compiled extension may stand for. -/
def sourceExtensions : String → List String
  | ".js" => [".ts", ".tsx"]
  | ".jsx" => [".tsx"]
  | ".mjs" => [".mts"]
  | ".cjs" => [".cts"]
  | _ => []

/-- The files that a path may abbreviate: itself, with an extension, with the
extension of its source. -/
def fileCandidates (c : ResolverConfig) (path : String) : List String :=
  let (stem, ext) := Path.splitExtension path
  path :: c.extensions.map (path ++ ·) ++ (sourceExtensions ext).map (stem ++ ·)

/-- The files that stand for a folder. -/
def indexCandidates (c : ResolverConfig) (path : String) : List String :=
  c.indexFiles.map (Path.join path)

/-- The file that a path abbreviates. -/
def findFile? (t : FileTree) (c : ResolverConfig) (path : String) : Option String :=
  let path := Path.normalize path
  match (fileCandidates c path).find? t.isFile with
  | some found => some found
  | none => if t.isFolder path then (indexCandidates c path).find? t.isFile else none

/-- The file that a path abbreviates, or its normal form. -/
def locate (t : FileTree) (c : ResolverConfig) (path : String) : String :=
  (findFile? t c path).getD (Path.normalize path)

/-- Extensions of stylesheets, in the order in which they are tried. -/
def stylesheetExtensions : List String := [".scss", ".sass", ".css", ".less"]

/-- The stylesheets that a name in a folder may stand for. -/
def stylesheetCandidates (folder name : String) : List String :=
  ([name, "_" ++ name].flatMap fun n =>
    Path.join folder n :: stylesheetExtensions.map fun e => Path.join folder (n ++ e)) ++
  ["index", "_index"].flatMap fun index =>
    stylesheetExtensions.map fun e => Path.joinAll [folder, name, index ++ e]

/-- The stylesheet that a path abbreviates. -/
def findStylesheet? (t : FileTree) (path : String) : Option String :=
  let path := Path.normalize path
  (stylesheetCandidates (Path.parent path) (Path.base path)).find? t.isFile

/-- No component of a path is the folder of packages. -/
def outsidePackages (path : String) : Bool :=
  !(Path.components (String.ofList (Text.replaceChar '\\' ['/'] path.toList))).contains
    "node_modules"

/-! ## 2. Path mappings -/

/-- The mapping that a specifier fits, with the text of its star. A mapping
without a star comes first, then the one with the most characters before
it. -/
structure Selected where
  targets : List String
  catchAll : Bool
  deriving DecidableEq, Repr, Inhabited

/-- The length of a pattern before its star. -/
def frontLength (m : PathMapping) : Nat := (Text.cutAt '*' m.pattern.toList).1.length

/-- The mappings with a star that a specifier fits. -/
def fittingWildcards (mappings : List PathMapping) (spec : String) :
    List (PathMapping × List Char) :=
  mappings.filterMap fun m =>
    if m.isWildcard then (Alias.star? m.pattern.toList spec.toList).map fun s => (m, s) else none

/-- The first of the mappings with the longest front. -/
def longestFront : List (PathMapping × List Char) → Option (PathMapping × List Char)
  | [] => none
  | x :: xs => some (xs.foldl
      (fun best y => if frontLength best.1 < frontLength y.1 then y else best) x)

/-- The targets of the mapping that a specifier fits. -/
def selectMapping (mappings : List PathMapping) (spec : String) : Option Selected :=
  match mappings.find? fun m => !m.isWildcard && m.pattern == spec with
  | some m => some ⟨m.targets, false⟩
  | none => (longestFront (fittingWildcards mappings spec)).map fun (m, star) =>
      ⟨m.targets.map (Alias.fillStar star), m.pattern == "*"⟩

/-- What a found file outside the folder of packages stands for. -/
def foundOutside? (t : FileTree) (c : ResolverConfig) (path : String) : Option String :=
  (findFile? t c path).filter outsidePackages

/-- The place that the targets of a mapping name. Unless the mapping takes
everything, the first target is good even if there is no file. -/
def selectedPlace? (t : FileTree) (c : ResolverConfig) (s : Selected) : Option String :=
  match s.targets.findSome? (foundOutside? t c) with
  | some found => some found
  | none =>
    match s.targets with
    | first :: _ =>
      if !s.catchAll && outsidePackages first then some (Path.normalize first) else none
    | [] => none

/-- The place that path mappings and the base of all paths name. -/
def mappedPlace? (t : FileTree) (c : ResolverConfig) (spec : String) : Option String :=
  match (selectMapping c.pathMappings spec).bind (selectedPlace? t c) with
  | some place => some place
  | none => (c.baseUrl.filter fun base => !base.isEmpty).bind fun base =>
      foundOutside? t c (Path.join base spec)

/-! ## 3. Aliases -/

/-- The place that the target of an alias names. -/
def aliasPlace (c : ResolverConfig) (target : String) : String :=
  let target := Text.replacePart "<rootDir>" c.root target
  if Text.begins c.root target then target
  else Path.join c.root (Text.stripFrontChar '/' target)

/-- What the first alias that applies makes of a specifier. -/
def aliased? (t : FileTree) (c : ResolverConfig) (spec : String) :
    List Alias → Except Regex.Error (Option ModuleId)
  | [] => .ok none
  | a :: rest => do
    match ← a.apply spec with
    | none => aliased? t c spec rest
    | some replaced =>
      if a.isPath then return some (.file (locate t c (aliasPlace c replaced)))
      else return some (Specifier.external replaced)

/-! ## 4. Specifiers -/

/-- A specifier that names a place in the file tree. -/
def relativePlace (t : FileTree) (c : ResolverConfig) (folder spec : String) : String :=
  if Text.begins "/" spec then
    if t.exists? spec then locate t c spec
    else locate t c (Path.join c.root (Text.stripFrontChar '/' spec))
  else locate t c (Path.join folder spec)

/-- What a stylesheet means by a specifier. -/
def ofStylesheet? (t : FileTree) (folder spec : String) : Option ModuleId :=
  match Text.after? "~" spec with
  | some name =>
    if Text.begins "/" name then (findStylesheet? t (Path.join folder spec)).map .file
    else some (Specifier.external name)
  | none => (findStylesheet? t (Path.join folder spec)).map .file

/-- A specifier that no mapping and no alias concerns. -/
def unmapped (t : FileTree) (c : ResolverConfig) (folder spec : String) (stylesheet : Bool) :
    ModuleId :=
  match if stylesheet then ofStylesheet? t folder spec else none with
  | some m => m
  | none =>
    match Text.after? "~/" spec with
    | some rest => .file (locate t c (Path.join c.root rest))
    | none => Specifier.external spec

/-- The module that a specifier in a file stands for. -/
def resolve (t : FileTree) (c : ResolverConfig) (specifier file : String) (stylesheet : Bool) :
    Except Regex.Error ModuleId :=
  let spec := Specifier.stripQuery (Text.strip specifier)
  match Text.after? "node:" spec with
  | some name => .ok (.external (Specifier.packageName name) true)
  | none =>
    if Specifier.isAddress spec then .ok (.external spec true)
    else
      let folder := Path.parent file
      if Specifier.isRelative spec then .ok (.file (relativePlace t c folder spec))
      else match mappedPlace? t c spec with
        | some place => .ok (.file place)
        | none => do
          match ← aliased? t c spec c.aliases with
          | some m => return m
          | none => return unmapped t c folder spec stylesheet

end Resolver

end PackageAudit
