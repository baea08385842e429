/-
PackageAudit.Resolve.Config — what the resolver goes by.
-/
import PackageAudit.Resolve.Alias

namespace PackageAudit

/-- Specifiers that fit a pattern are looked for at the targets, which are
absolute. -/
structure PathMapping where
  pattern : String
  targets : List String
  deriving DecidableEq, BEq, Repr, Inhabited

/-- The pattern has a star. -/
def PathMapping.isWildcard (m : PathMapping) : Bool := m.pattern.toList.contains '*'

/-- Extensions that a specifier may leave out, in the order in which they are
tried. -/
def defaultExtensions : List String := [
  ".ts", ".tsx", ".js", ".jsx", ".mjs", ".cjs", ".mts", ".cts",
  ".vue", ".svelte", ".json",
  ".css", ".scss", ".sass", ".less"]

/-- What the resolver goes by. -/
structure ResolverConfig where
  root : String
  extensions : List String := defaultExtensions
  baseUrl : Option String := none
  pathMappings : List PathMapping := []
  aliases : List Alias := []
  deriving Inhabited

/-- The files that stand for their folder. -/
def ResolverConfig.indexFiles (c : ResolverConfig) : List String :=
  c.extensions.map fun e => "index" ++ e

end PackageAudit
