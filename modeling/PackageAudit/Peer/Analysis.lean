/-
PackageAudit.Peer.Analysis — the peer requirements of all installed
packages.

Two passes. The first checks each requirement against the package that would
be loaded from the place of the requiring one. The second looks at the
requirements of several packages on one peer: their ranges must have a
version in common, whatever is installed.
-/
import PackageAudit.Installed.Basic
import PackageAudit.Peer.Compatibility

namespace PackageAudit.Peer

/-! ## 1. What is found -/

/-- A requirement, the version that it meets and whether it accepts it. -/
structure Check where
  requirement : PeerRequirement
  installedVersion : Option String
  compatible : Bool
  confidence : Level
  allVersions : List String
  deriving Repr, Inhabited

/-- A package and its requirements. -/
structure PackageChecks where
  name : String
  version : String
  location : String
  checks : List Check
  deriving Repr, Inhabited

/-- A requirement that does not accept what is installed. -/
structure DirectConflict where
  requirement : PeerRequirement
  installedVersion : String
  confidence : Level
  deriving Repr, Inhabited

/-- Requirements of several packages on one peer that no version meets. -/
structure CrossConflict where
  peer : String
  packages : List String
  requirements : List PeerRequirement
  confidence : Level
  suggestion : String
  deriving Repr, Inhabited

/-- Different requirements of several packages on one peer that agree. -/
structure Alignment where
  peer : String
  packages : List String
  ranges : List String
  suggestion : String
  confidence : Level
  deriving Repr, Inhabited

/-- What the two passes have found, and how much there was to look at. -/
structure Analysis where
  installedCount : Nat := 0
  requirementCount : Nat := 0
  packages : List PackageChecks := []
  compatibleCount : Nat := 0
  direct : List DirectConflict := []
  cross : List CrossConflict := []
  missing : List PeerRequirement := []
  alignments : List Alignment := []
  warnings : List Warning := []
  deriving Inhabited

/-! ## 2. Warnings -/

/-- The warning that a requirement could only be compared coarsely. -/
def coarseWarning (r : PeerRequirement) : Warning := {
  kind := .lowConfidenceRange
  message := "Cannot parse range " ++ Text.quoted r.requiredRange ++ " for " ++ r.peerName ++
    " required by " ++ r.requiringPackage ++ "; compared major versions only"
  path := some r.requiringLocation }

/-- Adds a warning unless one with its message is there. -/
def addWarning (ws : List Warning) (w : Warning) : List Warning :=
  if ws.any fun v => v.message == w.message then ws else ws ++ [w]

/-! ## 3. One requirement -/

/-- Checks a requirement. -/
def check (installed : Installed) (r : PeerRequirement) : Check :=
  let allVersions := installed.versions r.peerName
  match installed.resolveFrom? r.peerName r.requiringLocation with
  | none =>
    { requirement := r, installedVersion := none, compatible := false, confidence := .high
      allVersions }
  | some p =>
    let (compatible, confidence) := compatibility r.requiredRange p.version
    { requirement := r, installedVersion := some p.version, compatible, confidence, allVersions }

/-- A check shows a peer that is missing and not optional. -/
def Check.isMissing (c : Check) : Bool :=
  c.installedVersion.isNone && !c.requirement.isOptional

/-- The conflict that a check shows. -/
def Check.conflict? (c : Check) : Option DirectConflict :=
  match c.installedVersion with
  | some version =>
    if c.compatible then none
    else some { requirement := c.requirement, installedVersion := version
                confidence := c.confidence }
  | none => none

/-! ## 4. The first pass -/

/-- What the first pass has noted so far. -/
structure Tally where
  packages : List PackageChecks := []
  compatible : Nat := 0
  direct : List DirectConflict := []
  missing : List PeerRequirement := []
  warnings : List Warning := []

namespace Tally

/-- Notes what a check shows. -/
def note (t : Tally) (c : Check) : Tally := { t with
  compatible := if c.compatible then t.compatible + 1 else t.compatible
  direct := t.direct ++ c.conflict?.toList
  missing := if c.isMissing then t.missing ++ [c.requirement] else t.missing
  warnings := if c.confidence == .low then addWarning t.warnings (coarseWarning c.requirement)
    else t.warnings }

/-- Checks one requirement and adds its row to those of the package. -/
def checkOne (installed : Installed) (state : Tally × List Check) (r : PeerRequirement) :
    Tally × List Check :=
  let c := check installed r
  (state.1.note c, state.2 ++ [c])

/-- Checks the requirements at one location. The first of them says whose
they are. -/
def checkGroup (installed : Installed) (t : Tally) (group : String × List PeerRequirement) :
    Tally :=
  let (noted, checks) := group.2.foldl (checkOne installed) (t, [])
  let first := group.2.headD default
  { noted with packages := noted.packages ++ [
      { name := first.requiringPackage, version := first.requiringVersion
        location := Path.relative group.1 installed.root, checks }] }

end Tally

/-- Checks all requirements, location by location in the order of the first
ones. -/
def firstPass (installed : Installed) : Tally :=
  (Table.groupBy PeerRequirement.requiringLocation installed.peerRequirements).foldl
    (Tally.checkGroup installed) {}

/-! ## 5. Several requirements on one peer -/

/-- The requirements of distinct packages and ranges. -/
def distinctRequirements (rs : List PeerRequirement) : List PeerRequirement :=
  rs.foldl (fun kept r =>
    if kept.any fun k =>
        k.requiringPackage == r.requiringPackage && k.requiredRange == r.requiredRange
    then kept else kept ++ [r]) []

/-- The members that all lists have. -/
def commonMembers : List (List Nat) → List Nat
  | [] => []
  | xs :: rest => xs.filter fun x => rest.all fun ys => ys.contains x

/-- What is said about some ranges together: whether they agree, the version
to suggest if one is known, and how sure that is. -/
structure Agreement where
  agree : Bool
  suggestion : Option String
  confidence : Level

/-- Ranges agree when their intervals have one in common. If one of them
cannot be read, the major numbers of those that mention some decide. -/
def agreement (ranges : List String) : Agreement :=
  match ranges.mapM Range.parse? with
  | some rs =>
    match Range.intersect rs with
    | [] => ⟨false, none, .high⟩
    | i :: _ => ⟨true, some i.toExpression, .high⟩
  | none =>
    let majors := (ranges.map Version.coarseMajors).filter fun ms => !ms.isEmpty
    ⟨majors.isEmpty || !(commonMembers majors).isEmpty, none, .low⟩

/-- What is found about one peer. -/
inductive PeerFinding where
  | conflict (c : CrossConflict)
  | alignment (a : Alignment)
  | nothing

/-- The requirements on one peer together. -/
def crossCheck (peer : String) (requirements : List PeerRequirement) : PeerFinding × List Warning :=
  let entries := distinctRequirements requirements
  let packages := Text.sortedSet (entries.map PeerRequirement.requiringPackage)
  if packages.length < 2 then (.nothing, [])
  else
    let ranges := entries.map PeerRequirement.requiredRange
    let a := agreement ranges
    let warnings :=
      (entries.filter fun r => (Range.parse? r.requiredRange).isNone).map coarseWarning
    let finding :=
      if !a.agree then .conflict {
        peer, packages, requirements := entries, confidence := a.confidence
        suggestion := commonVersion ranges }
      else if (Text.distinct ranges).length > 1 then .alignment {
        peer, packages, ranges := Text.sortedSet ranges
        suggestion := a.suggestion.getD (commonVersion ranges), confidence := a.confidence }
      else .nothing
    (finding, warnings)

/-- The findings about all peers, by name. -/
def crossChecks (installed : Installed) : List (PeerFinding × List Warning) :=
  (Installed.byName (Table.groupBy PeerRequirement.peerName installed.peerRequirements)).map
    fun (peer, requirements) => crossCheck peer requirements

/-! ## 6. Both passes -/

/-- Checks all peer requirements. -/
def analyze (installed : Installed) : Analysis :=
  let first := firstPass installed
  let cross := crossChecks installed
  { installedCount := installed.packages.length
    requirementCount := installed.peerRequirements.length
    packages := first.packages
    compatibleCount := first.compatible
    direct := first.direct
    cross := cross.filterMap fun (f, _) => match f with
      | .conflict c => some c
      | _ => none
    missing := first.missing
    alignments := cross.filterMap fun (f, _) => match f with
      | .alignment a => some a
      | _ => none
    warnings := (cross.flatMap (·.2)).foldl addWarning first.warnings }

end PackageAudit.Peer
