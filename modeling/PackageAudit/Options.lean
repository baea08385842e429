/-
PackageAudit.Options — what an audit is asked to do.

Options come as an object whose members have names in snake case or camel
case; members with other names are passed over, and of two names for one
option the later counts. A scope has several names.
-/
import PackageAudit.Json.Inspect
import PackageAudit.Manifest.Basic
import PackageAudit.Text.Glob

namespace PackageAudit

/-- Which declared dependencies an audit looks at. -/
inductive Scope where
  | all
  | only (type : DependencyType)
  deriving DecidableEq, BEq, Repr, Inhabited

namespace Scope

/-- The name of a scope. -/
def name : Scope → String
  | .all => "all"
  | .only t => t.name

/-- The names by which a scope can be asked for, sorted. -/
def names : List (String × Scope) := [
  ("all", .all), ("dependencies", .only .production), ("dev", .only .development),
  ("devDependencies", .only .development), ("development", .only .development),
  ("peer", .only .peer), ("peerDependencies", .only .peer), ("prod", .only .production),
  ("production", .only .production)]

/-- The scope of a name. -/
def ofName? (s : String) : Option Scope := names.lookup s

end Scope

/-- Declared packages that match the pattern count as used when one of the
triggers is imported. -/
structure UsageRule where
  pattern : String
  triggers : List String
  deriving DecidableEq, BEq, Repr, Inhabited

/-- The rule is about a package. -/
def UsageRule.covers (r : UsageRule) (name : String) : Bool := Text.globMatches r.pattern name

/-- The rules of tools that load their plugins by name. -/
def UsageRule.defaults : List UsageRule := [
  ⟨"@babel/*", ["@babel/core", "babel"]⟩,
  ⟨"eslint-plugin-*", ["eslint"]⟩,
  ⟨"eslint-config-*", ["eslint"]⟩,
  ⟨"*-loader", ["webpack"]⟩,
  ⟨"vite-plugin-*", ["vite"]⟩,
  ⟨"@vitejs/*", ["vite"]⟩,
  ⟨"prettier-plugin-*", ["prettier"]⟩]

/-- The registry that is asked by default. -/
def defaultRegistry : String := "https://registry.npmjs.org"

/-- What an audit is asked to do. A row of `aliases` should be two texts, a
key and a target. -/
structure Options where
  scope : Scope := .all
  includeDev : Bool := true
  checkPeers : Bool := true
  maxTraversalDepth : Nat := 5
  excludePatterns : List String := []
  checkOutdated : Bool := false
  maxWorkers : Option Nat := none
  maxScanDepth : Int := 64
  aliases : List (List Json) := []
  usageRules : List UsageRule := UsageRule.defaults
  showProgress : Bool := false
  registryUrl : String := defaultRegistry
  lookupTimeout : Int := 10
  deriving Inhabited

namespace Options

/-- Dependencies of a type are looked at. -/
def inScope (o : Options) (type : DependencyType) : Bool :=
  if type == .development && !o.includeDev then false
  else match o.scope with
    | .all => true
    | .only t => t == type

/-! ## Reading -/

/-- Why options cannot be used. -/
inductive Error where
  | unknownScope (value : Json)
  | negativeDepth
  | noWorkers

/-- The message of an error. -/
def Error.message : Error → String
  | .unknownScope v =>
    "Unknown scope " ++ v.inspect ++ "; expected one of " ++
      (Json.ofTexts (Scope.names.map (·.1))).inspect
  | .negativeDepth => "max_traversal_depth must not be negative"
  | .noWorkers => "max_workers must be at least 1"

/-- The other names of options. -/
def otherNames : List (String × String) := [
  ("includeDev", "include_dev"), ("checkPeerDependencies", "check_peer_dependencies"),
  ("maxTraversalDepth", "max_traversal_depth"), ("excludePatterns", "exclude_patterns"),
  ("checkOutdated", "check_outdated"), ("maxWorkers", "max_workers"),
  ("maxScanDepth", "max_scan_depth"), ("showProgress", "show_progress"),
  ("registryUrl", "registry_url"), ("lookupTimeout", "lookup_timeout")]

/-- The members under their first names, the last of a name counting. -/
def normalized (members : Table Json) : Table Json :=
  Table.ofPairs (members.map fun (key, v) => ((otherNames.lookup key).getD key, v))

/-- The texts of a list. A text is the list of its characters, an object that
of its names. -/
def textsOf : Json → List String
  | .arr xs => xs.filterMap Json.string?
  | .str s => s.toList.map Char.toString
  | .obj m => Table.keys m
  | _ => []

/-- The cells of a row. A row that is no list has the texts in it for cells. -/
def cellsOf : Json → List Json
  | .arr xs => xs
  | v => (textsOf v).map Json.str

/-- The rows of an alias table, given as an object or as a list. -/
def rowsOf : Json → List (List Json)
  | .obj m => m.map fun (key, v) => [.str key, v]
  | .arr xs => xs.map cellsOf
  | _ => []

/-- A rule from a pattern and a list of triggers. -/
def ruleOf? : Json → Option UsageRule
  | .arr [.str pattern, triggers] => some ⟨pattern, textsOf triggers⟩
  | _ => none

/-- The number of a value. -/
def intOf? : Json → Option Int
  | .int n => some n
  | .bool b => some (if b then 1 else 0)
  | _ => none

/-- Reads options. -/
def ofMembers (members : Table Json) : Except Error Options := do
  let m := normalized members
  let flag := fun (name : String) (d : Bool) => ((m.get? name).map Json.holds).getD d
  let number := fun (name : String) (d : Int) => ((m.get? name).bind intOf?).getD d
  let scope ← match m.get? "scope" with
    | none => pure Scope.all
    | some v =>
      match v.string?.bind Scope.ofName? with
      | some s => pure s
      | none => throw (.unknownScope v)
  let depth := number "max_traversal_depth" 5
  if depth < 0 then throw .negativeDepth
  let workers := (m.get? "max_workers").bind intOf?
  if workers.any (· < 1) then throw .noWorkers
  return {
    scope
    includeDev := flag "include_dev" true
    checkPeers := flag "check_peer_dependencies" true
    maxTraversalDepth := depth.toNat
    excludePatterns := ((m.get? "exclude_patterns").map textsOf).getD []
    checkOutdated := flag "check_outdated" false
    maxWorkers := workers.map Int.toNat
    maxScanDepth := number "max_scan_depth" 64
    aliases := ((m.get? "aliases").map rowsOf).getD []
    usageRules := match (m.get? "indirect_usage_rules").bind Json.items? with
      | some rules => rules.filterMap ruleOf?
      | none => UsageRule.defaults
    showProgress := flag "show_progress" false
    registryUrl := ((m.get? "registry_url").bind Json.string?).getD defaultRegistry
    lookupTimeout := number "lookup_timeout" 10 }

end Options

end PackageAudit
