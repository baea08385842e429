/-
PackageAudit.Peer.Compatibility — one requirement against one version.

A range or a version that cannot be read is compared by major numbers only,
and the answer has low confidence.
-/
import PackageAudit.Issue
import PackageAudit.Version.Coarse
import PackageAudit.Version.Interval

namespace PackageAudit.Peer

/-- A version meets a range, and how sure that is. -/
def compatibility (range version : String) : Bool × Level :=
  match Range.parse? range, Version.parse? version with
  | some r, some v => (r.admits v, .high)
  | _, _ =>
    let majors := Version.coarseMajors range
    match Version.coarseMajor? version with
    | some n => (majors.isEmpty || majors.contains n, .low)
    | none => (false, .low)

/-- The least version of a caret range, or the range as it is. -/
def suggestVersion (range : String) : String :=
  match Version.coarseMajor? range with
  | some n => if Text.begins "^" range && n != 0 then s!"^{n}.0.0" else range
  | none => range

/-- The suggestion where no version can be named. -/
def manualResolution : String := "Manual resolution required"

/-- The one major number, zero aside, that some ranges mention between
them. -/
def commonVersion (ranges : List String) : String :=
  match ((ranges.filterMap Version.coarseMajor?).filter (· != 0)).eraseDups with
  | [n] => s!"^{n}.0.0"
  | _ => manualResolution

end PackageAudit.Peer
