/-
PackageAudit.Dependency.Facts — what is known about the packages of a
project, and which of them are used.

A declared package is used when it is imported. Type definitions are used
when what they describe is; those of the runtime, when any of its modules
is. Other packages are used as well when a rule says so, when a script runs
them or when the configuration of a tool names them.
-/
import PackageAudit.Dependency.Mention
import PackageAudit.Installed.Provider
import PackageAudit.Options

namespace PackageAudit

/-- What is known about the packages of a project: the declared ones, the
installed ones, and the usages of each imported one. -/
structure Facts where
  manifest : Manifest
  installed : Installed
  options : Options := {}
  project : String
  toolConfigs : List String := []
  usages : Table (List Usage) := []
  builtinImported : Bool := false
  deriving Inhabited

namespace Facts

/-- The package is imported. -/
def imports (f : Facts) (name : String) : Bool := f.usages.has name

/-- A rule says that a package is used. -/
def usedByRule (f : Facts) (name : String) : Bool :=
  f.options.usageRules.any fun r => r.covers name && r.triggers.any f.imports

/-- A script runs a package. -/
def usedInScripts (f : Facts) (name : String) : Bool :=
  f.manifest.scripts.values.any (Dependency.runBy name)

/-- The configuration of a tool names a package. -/
def usedInConfigs (f : Facts) (name : String) : Bool :=
  f.toolConfigs.any (Dependency.namedIn name)

/-- A declared package is used. -/
def isUsed (f : Facts) (name : String) : Bool :=
  if f.imports name then true
  else match Dependency.typesTarget? name with
    | some target => if target == "node" then f.builtinImported else f.imports target
    | none => f.usedByRule name || f.usedInScripts name || f.usedInConfigs name

/-- The declared packages that are used. -/
def used (f : Facts) : List Declared := f.manifest.dependencies.filter fun d => f.isUsed d.name

end Facts

end PackageAudit
