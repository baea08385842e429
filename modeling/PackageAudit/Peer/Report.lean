/-
PackageAudit.Peer.Report — peer problems as issues and as a report section.
-/
import PackageAudit.Peer.Analysis

namespace PackageAudit.Peer

/-! ## 1. Issues -/

/-- The issue of a conflict with what is installed. -/
def DirectConflict.toIssue (c : DirectConflict) : Issue :=
  let r := c.requirement
  { kind := .peerConflict
    name := r.peerName
    severity := if r.isOptional then .medium else .high
    confidence := c.confidence
    remediation := "Install a version of " ++ r.peerName ++ " matching " ++ r.requiredRange
    details := [
      ("type", .str "direct"), ("package", .str r.requiringPackage),
      ("package_version", .str r.requiringVersion), ("required", .str r.requiredRange),
      ("installed", .str c.installedVersion)] }

/-- A requirement inside a conflict. -/
def requirementJson (r : PeerRequirement) : Json := .obj [
  ("package", .str r.requiringPackage), ("version", .str r.requiringVersion),
  ("required", .str r.requiredRange)]

/-- The issue of a conflict between packages. -/
def CrossConflict.toIssue (c : CrossConflict) : Issue := {
  kind := .peerConflict
  name := c.peer
  severity := .medium
  confidence := c.confidence
  remediation := "Align the " ++ c.peer ++ " requirements of " ++ ", ".intercalate c.packages
  details := [
    ("type", .str "cross-package"), ("packages", .ofTexts c.packages),
    ("requirements", .arr (c.requirements.map requirementJson)),
    ("suggestion", .str c.suggestion)] }

/-- The issue of a missing peer. -/
def missingIssue (r : PeerRequirement) : Issue := {
  kind := .peerMissing
  name := r.peerName
  severity := .high
  remediation := "npm install " ++ r.peerName ++ "@" ++ suggestVersion r.requiredRange
  details := [
    ("package", .str r.requiringPackage), ("package_version", .str r.requiringVersion),
    ("required", .str r.requiredRange)] }

/-- All conflicts as issues. -/
def Analysis.conflicts (a : Analysis) : List Issue :=
  a.direct.map DirectConflict.toIssue ++ a.cross.map CrossConflict.toIssue

/-- All missing peers as issues. -/
def Analysis.missingIssues (a : Analysis) : List Issue := a.missing.map missingIssue

/-! ## 2. Recommendations -/

/-- What to do about missing peers. -/
def installAdvice (a : Analysis) : List Json :=
  if a.missing.isEmpty then []
  else [.obj [
    ("priority", .str "high"), ("type", .str "install-missing"),
    ("message", .str s!"Install {a.missing.length} missing peer dependencies"),
    ("dependencies", .arr (a.missing.map fun r => .obj [
      ("name", .str r.peerName), ("version", .str (suggestVersion r.requiredRange)),
      ("reason", .str ("Required by " ++ r.requiringPackage))]))]]

/-- What to do about conflicts. -/
def conflictAdvice (a : Analysis) : List Json :=
  if a.conflicts.isEmpty then []
  else [.obj [
    ("priority", .str "medium"), ("type", .str "resolve-conflicts"),
    ("message", .str s!"Resolve {a.conflicts.length} peer dependency conflicts"),
    ("conflicts", .ofTexts (a.conflicts.map Issue.name))]]

/-- Peers that are installed in several versions. -/
def Analysis.severalVersions (a : Analysis) : List String :=
  Text.sortedSet (((a.packages.flatMap PackageChecks.checks).filter fun c =>
    c.allVersions.length > 1).map fun c => c.requirement.peerName)

/-- What to do about peers in several versions. -/
def duplicateAdvice (a : Analysis) : List Json :=
  if a.severalVersions.isEmpty then []
  else [.obj [
    ("priority", .str "low"), ("type", .str "deduplicate"),
    ("message", .str "Consider deduplicating packages with multiple versions"),
    ("packages", .ofTexts a.severalVersions)]]

/-! ## 3. The section -/

/-- A checked requirement. -/
def Check.toJson (c : Check) : Json := .obj [
  ("name", .str c.requirement.peerName), ("required", .str c.requirement.requiredRange),
  ("optional", .bool c.requirement.isOptional), ("installed", .bool c.installedVersion.isSome),
  ("installed_version", .ofText? c.installedVersion), ("compatible", .bool c.compatible),
  ("confidence", .str c.confidence.name), ("all_versions", .ofTexts c.allVersions)]

/-- A package and its requirements. -/
def PackageChecks.toJson (p : PackageChecks) : Json := .obj [
  ("name", .str p.name), ("version", .str p.version), ("location", .str p.location),
  ("peer_dependencies", .arr (p.checks.map Check.toJson))]

/-- Requirements that agree. -/
def Alignment.toJson (a : Alignment) : Json := .obj [
  ("peer", .str a.peer), ("packages", .ofTexts a.packages), ("ranges", .ofTexts a.ranges),
  ("suggestion", .str a.suggestion), ("confidence", .str a.confidence.name)]

/-- The counts of the section. -/
def Analysis.summary (a : Analysis) : Json := .obj [
  ("total_packages", .ofNat a.installedCount),
  ("packages_with_peer_deps", .ofNat a.packages.length),
  ("total_peer_deps", .ofNat a.requirementCount),
  ("conflicts", .ofNat a.conflicts.length),
  ("missing", .ofNat a.missing.length),
  ("compatible", .ofNat a.compatibleCount)]

/-- The section of a report. -/
def Analysis.toJson (a : Analysis) : Json := .obj [
  ("summary", a.summary),
  ("packages", .arr (a.packages.map PackageChecks.toJson)),
  ("conflicts", .arr (a.conflicts.map Issue.toJson)),
  ("missing", .arr (a.missingIssues.map Issue.toJson)),
  ("alignments", .arr (a.alignments.map Alignment.toJson)),
  ("recommendations", .arr (installAdvice a ++ conflictAdvice a ++ duplicateAdvice a))]

end PackageAudit.Peer
