/-
PackageAudit.Source.Exclusion — paths that an audit leaves out.

A pattern excludes a path if it is one of its components, the path itself
or a folder above it, or if it matches the whole path as a wildcard pattern.
-/
import PackageAudit.Path
import PackageAudit.Text.Glob

namespace PackageAudit

/-- Patterns without white space and slashes at their ends; blank ones are
left out. -/
structure Exclusion where
  patterns : List String
  deriving DecidableEq, Repr, Inhabited

namespace Exclusion

/-- The exclusion that a list of patterns asks for. -/
def ofPatterns (patterns : List String) : Exclusion :=
  ⟨(patterns.filter fun p => !Text.isBlank p).map fun p =>
    Text.stripBackChar '/' (Text.stripFrontChar '/' (Text.strip p))⟩

/-- A pattern excludes a path that is relative to the root. -/
def patternExcludes (path pattern : String) : Bool :=
  (Path.components path).contains pattern || path == pattern ||
    Text.begins (pattern ++ "/") path || Text.globMatches pattern path

/-- A path is left out. -/
def excludes (e : Exclusion) (path : String) : Bool := e.patterns.any (patternExcludes path)

end Exclusion

end PackageAudit
