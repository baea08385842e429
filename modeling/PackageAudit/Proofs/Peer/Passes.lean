/-
PackageAudit.Proofs.Peer.Passes — what the two passes of the peer analysis
look at and find.

The rows of the first pass are the checks of all requirements. The second
pass looks at each peer with all the requirements on it; requirements of one
package with one range are kept once, which loses no range
(`exists_mem_distinctRequirements`). What it finds is a conflict or an
alignment as the ranges agree or not.
-/
import PackageAudit.Peer.Analysis
import PackageAudit.Proofs.Collection

namespace PackageAudit.Peer

/-! ## 1. The rows of the first pass -/

/-- The rows of an analysis. -/
def Analysis.rows (a : Analysis) : List Check := a.packages.flatMap PackageChecks.checks

/-- The places of requiring packages, in the order of their first requirements. -/
def requiringLocations (installed : Installed) : List String :=
  (installed.peerRequirements.map PeerRequirement.requiringLocation).eraseDups

/-- The requirements of the packages at one place. -/
def requirementsAt (installed : Installed) (location : String) : List PeerRequirement :=
  installed.peerRequirements.filter fun r => r.requiringLocation == location

theorem Tally.foldl_checkOne (installed : Installed) (rs : List PeerRequirement)
    (t : Tally) (rows : List Check) : rs.foldl (checkOne installed) (t, rows) =
      ((rs.map (check installed)).foldl note t, rows ++ rs.map (check installed)) := by
  induction rs generalizing t rows with
  | nil => simp
  | cons r rs ih => simp [checkOne, ih]

theorem Tally.packages_foldl_note (cs : List Check) (t : Tally) :
    (cs.foldl note t).packages = t.packages := by
  induction cs generalizing t with
  | nil => rfl
  | cons c cs ih => exact ih (t.note c)

/-- The entry of the packages at one place: the checks of the requirements
there, under the name that the first of them gives. -/
def groupChecks (installed : Installed) (group : String × List PeerRequirement) : PackageChecks :=
  let first := group.2.headD default
  { name := first.requiringPackage, version := first.requiringVersion
    location := Path.relative group.1 installed.root
    checks := group.2.map (check installed) }

theorem Tally.packages_checkGroup (installed : Installed) (t : Tally)
    (group : String × List PeerRequirement) :
    (t.checkGroup installed group).packages = t.packages ++ [groupChecks installed group] := by
  simp [checkGroup, groupChecks, foldl_checkOne, packages_foldl_note]

/-- The first pass makes one entry for each place. -/
theorem packages_firstPass (installed : Installed) :
    (firstPass installed).packages = (requiringLocations installed).map fun l =>
      groupChecks installed (l, requirementsAt installed l) := by
  have hgroups : ∀ (groups : Table (List PeerRequirement)) (t : Tally),
      (groups.foldl (Tally.checkGroup installed) t).packages =
        t.packages ++ groups.map (groupChecks installed) := by
    intro groups
    induction groups with
    | nil => simp
    | cons g groups ih =>
      intro t
      rw [List.foldl_cons, ih, Tally.packages_checkGroup]
      simp
  rw [firstPass, hgroups, Table.groupBy_eq]
  simp [requiringLocations, requirementsAt]

/-- The rows are the checks of the requirements, place by place. -/
theorem rows_analyze (installed : Installed) :
    (analyze installed).rows =
      ((requiringLocations installed).flatMap (requirementsAt installed)).map
        (check installed) := by
  have hpackages : (analyze installed).packages = _ := packages_firstPass installed
  rw [Analysis.rows, hpackages, List.flatMap_map, List.map_flatMap]
  rfl

/-- There is a row for each requirement, and no other. -/
theorem mem_rows_analyze {installed : Installed} {c : Check} :
    c ∈ (analyze installed).rows ↔ ∃ r ∈ installed.peerRequirements, check installed r = c := by
  rw [rows_analyze, List.mem_map]
  refine exists_congr fun r => and_congr_left fun _ => ?_
  simp only [requiringLocations, requirementsAt, List.mem_flatMap, List.mem_eraseDups,
    List.mem_map, List.mem_filter, beq_iff_eq]
  constructor
  · rintro ⟨_, _, hr, _⟩
    exact hr
  · intro hr
    exact ⟨r.requiringLocation, ⟨r, hr, rfl⟩, hr, rfl⟩

theorem check_of_missing {installed : Installed} {r : PeerRequirement}
    (h : installed.resolveFrom? r.peerName r.requiringLocation = none) :
    check installed r = ⟨r, none, false, .high, installed.versions r.peerName⟩ := by
  unfold check
  rw [h]

theorem check_of_installed {installed : Installed} {r : PeerRequirement} {p : InstalledPackage}
    (h : installed.resolveFrom? r.peerName r.requiringLocation = some p) :
    check installed r = ⟨r, some p.version, (compatibility r.requiredRange p.version).1,
      (compatibility r.requiredRange p.version).2, installed.versions r.peerName⟩ := by
  unfold check
  rw [h]

@[simp] theorem requirement_check (installed : Installed) (r : PeerRequirement) :
    (check installed r).requirement = r := by
  cases h : installed.resolveFrom? r.peerName r.requiringLocation with
  | none => rw [check_of_missing h]
  | some p => rw [check_of_installed h]

/-- An answer of high confidence comes from a range and a version that can be
read, and is the admission of one by the other. -/
theorem exists_of_compatibility_high {range version : String} {b : Bool}
    (h : compatibility range version = (b, .high)) :
    ∃ r v, Range.parse? range = some r ∧ Version.parse? version = some v ∧ r.admits v = b := by
  unfold compatibility at h
  split at h
  · rename_i r v hr hv
    injection h with hb _
    exact ⟨r, v, hr, hv, hb⟩
  · dsimp only at h
    split at h <;> cases h

/-- A compatible row of high confidence: the range admits the version found. -/
theorem admits_of_check {installed : Installed} {r : PeerRequirement} {w : String}
    (hw : (check installed r).installedVersion = some w)
    (hc : (check installed r).compatible = true)
    (hh : (check installed r).confidence = .high) :
    ∃ q v, Range.parse? r.requiredRange = some q ∧ Version.parse? w = some v ∧
      q.admits v = true := by
  cases h : installed.resolveFrom? r.peerName r.requiringLocation with
  | none =>
    rw [check_of_missing h] at hw
    cases hw
  | some p =>
    rw [check_of_installed h] at hw hc hh
    injection hw with hp
    subst hp
    exact exists_of_compatibility_high (Prod.ext hc hh)

/-! ## 2. The second pass -/

theorem distinctRequirements_append (rs : List PeerRequirement) (r : PeerRequirement) :
    distinctRequirements (rs ++ [r]) =
      if (distinctRequirements rs).any fun k =>
          k.requiringPackage == r.requiringPackage && k.requiredRange == r.requiredRange
      then distinctRequirements rs else distinctRequirements rs ++ [r] := by
  rw [distinctRequirements, List.foldl_append]
  rfl

theorem mem_of_mem_distinctRequirements {rs : List PeerRequirement} {r : PeerRequirement}
    (h : r ∈ distinctRequirements rs) : r ∈ rs := by
  induction rs using List.reverseRecOn with
  | nil => exact h
  | append_singleton rs q ih =>
    rw [distinctRequirements_append] at h
    split at h
    · exact List.mem_append_left _ (ih h)
    · rcases List.mem_append.mp h with hkept | hq
      · exact List.mem_append_left _ (ih hkept)
      · exact List.mem_append_right _ hq

/-- Each requirement has its package and range among those kept. -/
theorem exists_mem_distinctRequirements {rs : List PeerRequirement} {r : PeerRequirement}
    (h : r ∈ rs) : ∃ k ∈ distinctRequirements rs,
      k.requiringPackage = r.requiringPackage ∧ k.requiredRange = r.requiredRange := by
  induction rs using List.reverseRecOn with
  | nil => cases h
  | append_singleton rs q ih =>
    rw [distinctRequirements_append]
    rcases List.mem_append.mp h with hr | hq
    · obtain ⟨k, hk, hsame⟩ := ih hr
      refine ⟨k, ?_, hsame⟩
      split
      · exact hk
      · exact List.mem_append_left _ hk
    · rw [List.mem_singleton] at hq
      subst hq
      split
      · rename_i hany
        obtain ⟨k, hk, hsame⟩ := List.any_eq_true.mp hany
        rw [Bool.and_eq_true, beq_iff_eq, beq_iff_eq] at hsame
        exact ⟨k, hk, hsame⟩
      · exact ⟨r, by simp, rfl, rfl⟩

/-- The second pass looks at each peer with all the requirements on it. -/
theorem mem_crossChecks {installed : Installed} {f : PeerFinding × List Warning} :
    f ∈ crossChecks installed ↔ ∃ peer,
      (∃ r ∈ installed.peerRequirements, r.peerName = peer) ∧
      crossCheck peer (installed.peerRequirements.filter fun r => r.peerName == peer) = f := by
  simp only [crossChecks, Installed.byName, Table.groupBy_eq, List.mem_map, List.mem_mergeSort,
    List.mem_eraseDups]
  constructor
  · rintro ⟨_, ⟨peer, hpeer, rfl⟩, rfl⟩
    exact ⟨peer, hpeer, rfl⟩
  · rintro ⟨peer, hpeer, rfl⟩
    exact ⟨_, ⟨peer, hpeer, rfl⟩, rfl⟩

/-- Ranges that can be read agree when they intersect, and that is sure. -/
theorem agreement_eq_of_read {texts : List String} {ranges : List Range}
    (h : texts.mapM Range.parse? = some ranges) :
    (agreement texts).agree = Range.haveIntersection ranges ∧
      (agreement texts).confidence = .high := by
  simp only [agreement, h, Range.haveIntersection]
  cases Range.intersect ranges <;> exact ⟨rfl, rfl⟩

/-- A conflict between packages means ranges that do not agree, and carries
the major number to suggest. -/
theorem crossCheck_conflict {peer : String} {rs : List PeerRequirement} {k : CrossConflict}
    (h : (crossCheck peer rs).1 = .conflict k) :
    ∃ ranges, ranges = (distinctRequirements rs).map PeerRequirement.requiredRange ∧
      k.peer = peer ∧ k.requirements = distinctRequirements rs ∧
      (agreement ranges).agree = false ∧ k.confidence = (agreement ranges).confidence ∧
      k.suggestion = commonVersion ranges := by
  refine ⟨_, rfl, ?_⟩
  simp only [crossCheck] at h
  split at h
  · cases h
  · dsimp only at h
    split at h
    · rename_i hagree
      injection h with hk
      subst hk
      exact ⟨rfl, rfl, by simpa using hagree, rfl, rfl⟩
    · split at h <;> cases h

theorem mem_cross_analyze {installed : Installed} {k : CrossConflict} :
    k ∈ (analyze installed).cross ↔ ∃ ws, (PeerFinding.conflict k, ws) ∈ crossChecks installed := by
  simp only [analyze, List.mem_filterMap]
  constructor
  · rintro ⟨⟨f, ws⟩, hf, hk⟩
    cases f with
    | conflict c =>
      simp only [Option.some.injEq] at hk
      subst hk
      exact ⟨ws, hf⟩
    | alignment a => cases hk
    | nothing => cases hk
  · rintro ⟨ws, hf⟩
    exact ⟨_, hf, rfl⟩

/-- An alignment means ranges that agree, and carries what was said of them. -/
theorem crossCheck_alignment {peer : String} {rs : List PeerRequirement} {a : Alignment}
    (h : (crossCheck peer rs).1 = .alignment a) :
    ∃ ranges, ranges = (distinctRequirements rs).map PeerRequirement.requiredRange ∧
      a.peer = peer ∧ (agreement ranges).agree = true ∧
      a.confidence = (agreement ranges).confidence ∧
      a.suggestion = (agreement ranges).suggestion.getD (commonVersion ranges) := by
  refine ⟨_, rfl, ?_⟩
  simp only [crossCheck] at h
  split at h
  · cases h
  · dsimp only at h
    split at h
    · cases h
    · rename_i hagree
      split at h
      · injection h with ha
        subst ha
        exact ⟨rfl, by simpa using hagree, rfl, rfl⟩
      · cases h

theorem mem_alignments_analyze {installed : Installed} {a : Alignment} :
    a ∈ (analyze installed).alignments ↔
      ∃ ws, (PeerFinding.alignment a, ws) ∈ crossChecks installed := by
  simp only [analyze, List.mem_filterMap]
  constructor
  · rintro ⟨⟨f, ws⟩, hf, ha⟩
    cases f with
    | conflict c => cases ha
    | alignment b =>
      simp only [Option.some.injEq] at ha
      subst ha
      exact ⟨ws, hf⟩
    | nothing => cases ha
  · rintro ⟨ws, hf⟩
    exact ⟨_, hf, rfl⟩

end PackageAudit.Peer
