/-
PackageAudit.Import.Reference — references to modules.
-/

namespace PackageAudit

/-- How a module is referred to. -/
inductive ImportKind where
  | staticImport
  | dynamicImport
  | reExport
  | requireCall
  | requireResolve
  | stylesheetImport
  deriving DecidableEq, BEq, Repr, Inhabited

namespace ImportKind

/-- All kinds. -/
def all : List ImportKind :=
  [.staticImport, .dynamicImport, .reExport, .requireCall, .requireResolve, .stylesheetImport]

/-- The name of a kind. -/
def name : ImportKind → String
  | .staticImport => "static-import"
  | .dynamicImport => "dynamic-import"
  | .reExport => "re-export"
  | .requireCall => "require-call"
  | .requireResolve => "require-resolve"
  | .stylesheetImport => "stylesheet-import"

/-- The kind of a name. -/
def ofName? (s : String) : Option ImportKind := all.find? fun k => k.name == s

end ImportKind

/-- A module specifier as it stands in a source file. Lines count from one;
a text that is a part of another may place its first line anywhere. -/
structure Reference where
  specifier : String
  kind : ImportKind
  file : String
  line : Int
  deriving DecidableEq, BEq, Repr, Inhabited

/-- The reference some lines further down. -/
def Reference.shift (r : Reference) (lines : Int) : Reference := { r with line := r.line + lines }

end PackageAudit
