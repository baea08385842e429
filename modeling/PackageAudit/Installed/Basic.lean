/-
PackageAudit.Installed.Basic — the packages found on disk.

Packages are looked up by name and by location, in an index for each. Of
several packages at one location the last one added counts; of several of one
name the shallowest is the primary one.
-/
import PackageAudit.Json.Inspect
import PackageAudit.Path
import PackageAudit.Version.Parser
import PackageAudit.Warning

namespace PackageAudit

/-- A package found on disk. -/
structure InstalledPackage where
  name : String
  version : String
  location : String
  depth : Nat := 0
  dependencies : Table Json := []
  peerDependencies : Table Json := []
  peerMeta : Table Json := []
  deriving Inhabited

/-- What an installed package requires of its surroundings. -/
structure PeerRequirement where
  requiringPackage : String
  requiringVersion : String
  requiringLocation : String
  peerName : String
  requiredRange : String
  isOptional : Bool
  deriving DecidableEq, BEq, Repr, Inhabited

namespace Version

/-- Versions by precedence, ties by their texts; texts that are no versions
come last. -/
def textAtMost (a b : String) : Bool :=
  match parse? a, parse? b with
  | some v, some w =>
    match compareKey v w with
    | .lt => true
    | .gt => false
    | .eq => decide (a ≤ b)
  | some _, none => true
  | none, some _ => false
  | none, none => decide (a ≤ b)

/-- Version texts in order. -/
def sortTexts (versions : List String) : List String := versions.mergeSort textAtMost

end Version

namespace InstalledPackage

/-- Packages by their names, those of one name in their order. -/
def indexByName (ps : List InstalledPackage) : Table (List InstalledPackage) :=
  Table.groupBy name ps

/-- Packages by their locations; of several at one location the last one. -/
def indexByLocation (ps : List InstalledPackage) : Table InstalledPackage :=
  Table.ofPairs (ps.map fun p => (Path.normalize p.location, p))

theorem nil_eq_indexByName : [] = indexByName [] := rfl

theorem nil_eq_indexByLocation : [] = indexByLocation [] := rfl

theorem indexByName_append (ps : List InstalledPackage) (p : InstalledPackage) :
    indexByName (ps ++ [p]) = (indexByName ps).update p.name [] (· ++ [p]) :=
  List.foldl_append

theorem indexByLocation_append (ps : List InstalledPackage) (p : InstalledPackage) :
    indexByLocation (ps ++ [p]) = (indexByLocation ps).put (Path.normalize p.location) p := by
  simp [indexByLocation, Table.ofPairs]

end InstalledPackage

/-- The installed packages of a project, in the order in which they were
found, with an index over their names and one over their locations. -/
structure Installed where
  root : String
  present : Bool := false
  packages : List InstalledPackage := []
  warnings : List Warning := []
  nameIndex : Table (List InstalledPackage) := InstalledPackage.indexByName packages
  locationIndex : Table InstalledPackage := InstalledPackage.indexByLocation packages
  -- without packages the proofs are constants, so that every module has the same ones
  nameIndex_eq : nameIndex = InstalledPackage.indexByName packages := by
    first | exact InstalledPackage.nil_eq_indexByName | exact rfl
  locationIndex_eq : locationIndex = InstalledPackage.indexByLocation packages := by
    first | exact InstalledPackage.nil_eq_indexByLocation | exact rfl

instance : Inhabited Installed := ⟨{ root := "" }⟩

namespace Installed

/-- Adds a package, to both indexes too. -/
def add (r : Installed) (p : InstalledPackage) : Installed where
  root := r.root
  present := r.present
  packages := r.packages ++ [p]
  warnings := r.warnings
  nameIndex := r.nameIndex.update p.name [] (· ++ [p])
  locationIndex := r.locationIndex.put (Path.normalize p.location) p
  nameIndex_eq := by rw [r.nameIndex_eq, InstalledPackage.indexByName_append]
  locationIndex_eq := by rw [r.locationIndex_eq, InstalledPackage.indexByLocation_append]

/-- The packages of a name. -/
def named (r : Installed) (name : String) : List InstalledPackage :=
  (r.nameIndex.get? name).getD []

/-- A package of the name is installed. -/
def has (r : Installed) (name : String) : Bool := r.nameIndex.has name

/-- The package at a location. -/
def atLocation? (r : Installed) (location : String) : Option InstalledPackage :=
  r.locationIndex.get? location

/-- The distinct versions of a name, in order. -/
def versions (r : Installed) (name : String) : List String :=
  Version.sortTexts (Text.distinct ((r.named name).map InstalledPackage.version))

/-- The first package stands before the second: less deep, or as deep and at
a lesser location. -/
def shallower (a b : InstalledPackage) : Bool :=
  a.depth < b.depth || (a.depth == b.depth && decide (a.location < b.location))

/-- The shallowest package of a name. -/
def primary? (r : Installed) (name : String) : Option InstalledPackage :=
  match r.named name with
  | [] => none
  | p :: ps => some (ps.foldl (fun best q => if shallower q best then q else best) p)

/-- A folder and those above it, as long as they differ. -/
def upward : Nat → String → List String
  | 0, _ => []
  | fuel + 1, folder =>
    let above := Path.parent folder
    if above == folder then [folder] else folder :: upward fuel above

/-- A folder and all folders above it. -/
def foldersAbove (folder : String) : List String := upward (folder.length + 1) folder

/-- The package of a name that is loaded from a location: the nearest one
above it, else the primary one. -/
def resolveFrom? (r : Installed) (name location : String) : Option InstalledPackage :=
  let nearest := (foldersAbove (Path.normalize location)).findSome? fun folder =>
    r.atLocation? (Path.joinAll [folder, "node_modules", name])
  nearest.or (r.primary? name)

/-- The requirement of a package on a peer. A peer is optional when its
metadata say so. -/
def requirementOf (p : InstalledPackage) (peer : String) (range : Json) : PeerRequirement := {
  requiringPackage := p.name
  requiringVersion := p.version
  requiringLocation := p.location
  peerName := peer
  requiredRange := range.display
  isOptional := (((p.peerMeta.get? peer).bind (·.member? "optional")).map Json.holds).getD false }

/-- The members of a table by name. -/
def byName {α : Type} (t : Table α) : Table α := t.mergeSort fun a b => decide (a.1 ≤ b.1)

/-- The requirements of a package, by the names of the peers. -/
def requirementsOf (p : InstalledPackage) : List PeerRequirement :=
  (byName p.peerDependencies).map fun (peer, range) => requirementOf p peer range

/-- The requirements of all packages. -/
def peerRequirements (r : Installed) : List PeerRequirement := r.packages.flatMap requirementsOf

end Installed

end PackageAudit
