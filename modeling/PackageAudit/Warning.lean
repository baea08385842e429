/-
PackageAudit.Warning — problems that do not stop an audit.
-/
import PackageAudit.Json.Basic

namespace PackageAudit

/-- Kinds of warnings. -/
inductive WarningKind where
  | degradedExtraction
  | depthLimit
  | duplicateDeclaration
  | invalidConfig
  | invalidInstalledManifest
  | invalidManifest
  | lookupFailed
  | lowConfidenceRange
  | missingContext
  | permissionDenied
  | resolutionFailed
  | symlinkCycle
  | unreadableFile
  | other (name : String)
  deriving DecidableEq, BEq, Repr, Inhabited

/-- The name of a kind of warning. -/
def WarningKind.name : WarningKind → String
  | .degradedExtraction => "degraded-extraction"
  | .depthLimit => "depth-limit"
  | .duplicateDeclaration => "duplicate-declaration"
  | .invalidConfig => "invalid-config"
  | .invalidInstalledManifest => "invalid-installed-manifest"
  | .invalidManifest => "invalid-manifest"
  | .lookupFailed => "lookup-failed"
  | .lowConfidenceRange => "low-confidence-range"
  | .missingContext => "missing-context"
  | .permissionDenied => "permission-denied"
  | .resolutionFailed => "resolution-failed"
  | .symlinkCycle => "symlink-cycle"
  | .unreadableFile => "unreadable-file"
  | .other name => name

/-- A problem that does not stop an audit, and the path that it is about. -/
structure Warning where
  kind : WarningKind
  message : String
  path : Option String := none
  deriving DecidableEq, BEq, Repr, Inhabited

/-- A warning as a report shows it. -/
def Warning.toJson (w : Warning) : Json := .obj [
  ("kind", .str w.kind.name), ("message", .str w.message), ("path", .ofText? w.path)]

end PackageAudit
