/-
PackageAudit.Proofs.Peer.Verdict — what the second pass says of a peer.

For each peer the second pass reports a conflict, an alignment or nothing.
Its verdict is that and the packages concerned and how sure it is; the version
named and the suggestion are left aside. `verdicts_analyze` says that the
reports about a peer are the verdict on the requirements on it, so there is
at most one.

The verdict is made of tests on lists: two packages that differ, two ranges
that differ, ranges that agree. Each is told by the members of the list alone
(`agreement_of_read` and `agreement_of_unread` for the last, which decides by
the gaps that ranges leave in common or by the major numbers that they
mention). So neither order nor repetition of the requirements matters, and
`verdicts_order` follows for packages that are added in another order.
-/
import PackageAudit.Proofs.Installed.Lookup
import PackageAudit.Proofs.Peer.Passes
import PackageAudit.Proofs.Version.Gap

namespace PackageAudit.Peer

/-! ## 1. Agreement -/

/-- The number is a major number of each range that mentions any. -/
def SharedMajor (ranges : List String) (n : Nat) : Prop :=
  ∀ text ∈ ranges, Version.coarseMajors text ≠ [] → n ∈ Version.coarseMajors text

instance (ranges : List String) (n : Nat) : Decidable (SharedMajor ranges n) :=
  inferInstanceAs (Decidable (∀ text ∈ ranges, Version.coarseMajors text ≠ [] →
    n ∈ Version.coarseMajors text))

/-- Ranges that can be read agree when they leave a gap in common. -/
theorem agreement_of_read {ranges : List String}
    (h : ∀ text ∈ ranges, ∃ q, Range.parse? text = some q ∧ q.Canonical) :
    (agreement ranges).confidence = .high ∧ ((agreement ranges).agree = true ↔
      ∃ g, ∀ text ∈ ranges, ∃ q, Range.parse? text = some q ∧ q.Leaves g) := by
  obtain ⟨rs, hrs, hcanonical⟩ := exists_mapM_forall h
  have hagree := agreement_eq_of_read hrs
  refine ⟨hagree.2, ?_⟩
  rw [hagree.1, Range.haveIntersection_iff hcanonical]
  refine exists_congr fun g => ⟨fun hall text ht => ?_, fun hall q hq => ?_⟩
  · obtain ⟨q, hq, hparse⟩ := exists_mem_of_mapM hrs ht
    exact ⟨q, hparse, hall q hq⟩
  · obtain ⟨text, ht, htq⟩ := exists_of_mem_mapM hrs hq
    obtain ⟨q', hq', hleaves⟩ := hall text ht
    rw [htq, Option.some.injEq] at hq'
    exact hq' ▸ hleaves

theorem exists_mem_commonMembers {lists : List (List Nat)} (h : lists ≠ []) :
    commonMembers lists ≠ [] ↔ ∃ n, ∀ ms ∈ lists, n ∈ ms := by
  cases lists with
  | nil => exact absurd rfl h
  | cons ms rest =>
    simp only [commonMembers, ne_eq, List.filter_eq_nil_iff, List.all_eq_true,
      List.contains_iff_mem, List.forall_mem_cons]
    push Not
    rfl

/-- If some range cannot be read, the ranges agree when they share a major
number. -/
theorem agreement_of_unread {ranges : List String} (h : ∃ text ∈ ranges, Range.parse? text = none) :
    (agreement ranges).confidence = .low ∧ ((agreement ranges).agree = true ↔
      ∃ n, SharedMajor ranges n) := by
  have hnone : ranges.mapM Range.parse? = none := by
    cases hrs : ranges.mapM Range.parse? with
    | none => rfl
    | some rs =>
      obtain ⟨text, ht, hunread⟩ := h
      obtain ⟨q, _, hq⟩ := exists_mem_of_mapM hrs ht
      rw [hunread] at hq
      cases hq
  refine ⟨by simp [agreement, hnone], ?_⟩
  have hmembers : ∀ n, SharedMajor ranges n ↔
      ∀ ms ∈ (ranges.map Version.coarseMajors).filter fun ms => !ms.isEmpty, n ∈ ms := by
    intro n
    simp [SharedMajor]
  simp only [hmembers, agreement, hnone, Bool.or_eq_true, List.isEmpty_iff, Bool.not_eq_true',
    List.isEmpty_eq_false_iff]
  by_cases hempty : ((ranges.map Version.coarseMajors).filter fun ms => !ms.isEmpty) = []
  · rw [hempty]
    simp
  · rw [exists_mem_commonMembers hempty, or_iff_right hempty]

/-- Agreement is told by which ranges there are. -/
theorem agreement_congr {xs ys : List String} (hmem : ∀ text, text ∈ xs ↔ text ∈ ys)
    (hc : ∀ text ∈ xs, ∀ q ∈ Range.parse? text, q.Canonical) :
    (agreement xs).agree = (agreement ys).agree ∧
      (agreement xs).confidence = (agreement ys).confidence := by
  by_cases hunread : ∃ text ∈ xs, Range.parse? text = none
  · obtain ⟨hx, hxagree⟩ := agreement_of_unread hunread
    simp only [hmem, SharedMajor] at hunread hxagree
    obtain ⟨hy, hyagree⟩ := agreement_of_unread hunread
    exact ⟨Bool.eq_iff_iff.mpr (hxagree.trans hyagree.symm), hx.trans hy.symm⟩
  · have hread : ∀ text ∈ xs, ∃ q, Range.parse? text = some q ∧ q.Canonical := by
      intro text ht
      obtain ⟨q, hq⟩ := Option.ne_none_iff_exists'.mp fun hnone => hunread ⟨text, ht, hnone⟩
      exact ⟨q, hq, hc text ht q hq⟩
    obtain ⟨hx, hxagree⟩ := agreement_of_read hread
    simp only [hmem] at hread hxagree
    obtain ⟨hy, hyagree⟩ := agreement_of_read hread
    exact ⟨Bool.eq_iff_iff.mpr (hxagree.trans hyagree.symm), hx.trans hy.symm⟩

/-! ## 2. Verdicts -/

/-- What is said of a peer: whether its requirements conflict, who makes them
and how sure that is. -/
inductive Verdict where
  | conflict (packages : List String) (confidence : Level)
  | alignment (packages : List String) (confidence : Level)
  deriving DecidableEq

/-- The conflict of a finding. -/
def PeerFinding.conflict? : PeerFinding → Option CrossConflict
  | .conflict c => some c
  | _ => none

/-- The alignment of a finding. -/
def PeerFinding.alignment? : PeerFinding → Option Alignment
  | .alignment a => some a
  | _ => none

/-- What a finding says of its peer. -/
def PeerFinding.verdict? : PeerFinding → Option Verdict
  | .conflict c => some (.conflict c.packages c.confidence)
  | .alignment a => some (.alignment a.packages a.confidence)
  | .nothing => none

/-- What an analysis says of a peer: a verdict for each conflict and each
alignment that it reports. -/
def Analysis.verdicts (a : Analysis) (peer : String) : List Verdict :=
  (a.cross.filter fun c => c.peer == peer).map (fun c => .conflict c.packages c.confidence) ++
    (a.alignments.filter fun x => x.peer == peer).map fun x => .alignment x.packages x.confidence

/-- The requirements on a peer. -/
def requirementsOn (installed : Installed) (peer : String) : List PeerRequirement :=
  installed.peerRequirements.filter fun r => r.peerName == peer

/-- The peers that something is required of, by name. -/
def requiredPeers (installed : Installed) : List String :=
  Text.sortedSet (installed.peerRequirements.map PeerRequirement.peerName)

theorem crossChecks_eq (installed : Installed) :
    crossChecks installed =
      (requiredPeers installed).map fun peer =>
        crossCheck peer (requirementsOn installed peer) := by
  have hbyName : ∀ (keys : List String) (g : String → List PeerRequirement),
      Installed.byName (keys.map fun k => (k, g k)) =
        (Text.sortTexts keys).map fun k => (k, g k) := by
    intro keys g
    have hkeys : ∀ a ∈ keys, ∀ b ∈ keys, decide (a ≤ b) = decide ((a, g a).1 ≤ (b, g b).1) :=
      fun _ _ _ _ => rfl
    exact (List.map_mergeSort hkeys).symm
  rw [crossChecks, Table.groupBy_eq, hbyName, List.map_map]
  rfl

theorem peer_of_conflict? {peer : String} {rs : List PeerRequirement} {c : CrossConflict}
    (h : (crossCheck peer rs).1.conflict? = some c) : c.peer = peer := by
  cases hf : (crossCheck peer rs).1 with
  | conflict k =>
    rw [hf] at h
    cases h
    obtain ⟨_, _, hpeer, _⟩ := crossCheck_conflict hf
    exact hpeer
  | alignment a => rw [hf] at h; cases h
  | nothing => rw [hf] at h; cases h

theorem peer_of_alignment? {peer : String} {rs : List PeerRequirement} {a : Alignment}
    (h : (crossCheck peer rs).1.alignment? = some a) : a.peer = peer := by
  cases hf : (crossCheck peer rs).1 with
  | conflict k => rw [hf] at h; cases h
  | alignment k =>
    rw [hf] at h
    cases h
    obtain ⟨_, _, hpeer, _⟩ := crossCheck_alignment hf
    exact hpeer
  | nothing => rw [hf] at h; cases h

/-- Of what is found peer by peer, the part about one peer is what is found
for that peer. -/
theorem filter_filterMap_of_key {α : Type} {key : α → String} {f : String → Option α}
    (hkey : ∀ k a, f k = some a → key a = k) {keys : List String} (hkeys : keys.Nodup)
    (k : String) :
    (keys.filterMap f).filter (fun a => key a == k) = if k ∈ keys then (f k).toList else [] := by
  induction keys with
  | nil => rfl
  | cons j keys ih =>
    obtain ⟨hj, hkeys⟩ := List.nodup_cons.mp hkeys
    have hrest := ih hkeys
    cases hfj : f j with
    | none =>
      rw [List.filterMap_cons_none hfj, hrest]
      by_cases h : k = j
      · subst h
        simp [hj, hfj]
      · simp [h]
    | some a =>
      have ha := hkey j a hfj
      rw [List.filterMap_cons_some hfj, List.filter_cons, hrest, ha]
      by_cases h : k = j
      · subst h
        simp [hj, hfj]
      · simp [h, Ne.symm h]

/-- **The reports about a peer** are the verdict on the requirements on it. -/
theorem verdicts_analyze (installed : Installed) (peer : String) :
    (analyze installed).verdicts peer =
      (crossCheck peer (requirementsOn installed peer)).1.verdict?.toList := by
  have hnodup : (requiredPeers installed).Nodup :=
    (List.mergeSort_perm _ _).nodup_iff.mpr (Table.nodup_eraseDups _)
  have hcross : (analyze installed).cross = (requiredPeers installed).filterMap fun k =>
      (crossCheck k (requirementsOn installed k)).1.conflict? := by
    simp only [analyze, crossChecks_eq, List.filterMap_map]
    rfl
  have halignments : (analyze installed).alignments = (requiredPeers installed).filterMap fun k =>
      (crossCheck k (requirementsOn installed k)).1.alignment? := by
    simp only [analyze, crossChecks_eq, List.filterMap_map]
    rfl
  rw [Analysis.verdicts, hcross, halignments,
    filter_filterMap_of_key (fun _ _ => peer_of_conflict?) hnodup,
    filter_filterMap_of_key (fun _ _ => peer_of_alignment?) hnodup]
  split
  · cases (crossCheck peer (requirementsOn installed peer)).1 <;> rfl
  · rename_i hpeer
    have hnone : requirementsOn installed peer = [] := by
      simpa [requiredPeers, Text.sortedSet, Text.sortTexts, Text.distinct, requirementsOn,
        List.filter_eq_nil_iff] using hpeer
    have hnothing : crossCheck peer [] = (.nothing, []) := by
      simp [crossCheck, distinctRequirements, Text.sortedSet, Text.sortTexts, Text.distinct]
    rw [hnone, hnothing]
    rfl

/-! ## 3. The order of packages -/

/-- What the package and the range of a requirement tell stays when only distinct
requirements are kept. -/
theorem mem_map_distinctRequirements {field : PeerRequirement → String}
    (hfield : ∀ k r : PeerRequirement, k.requiringPackage = r.requiringPackage →
      k.requiredRange = r.requiredRange → field k = field r)
    {rs : List PeerRequirement} {text : String} :
    text ∈ (distinctRequirements rs).map field ↔ text ∈ rs.map field := by
  simp only [List.mem_map]
  constructor
  · rintro ⟨k, hk, rfl⟩
    exact ⟨k, mem_of_mem_distinctRequirements hk, rfl⟩
  · rintro ⟨r, hr, rfl⟩
    obtain ⟨k, hk, hpackage, hrange⟩ := exists_mem_distinctRequirements hr
    exact ⟨k, hk, hfield k r hpackage hrange⟩

theorem mem_packages_distinctRequirements {rs : List PeerRequirement} {package : String} :
    package ∈ (distinctRequirements rs).map PeerRequirement.requiringPackage ↔
      package ∈ rs.map PeerRequirement.requiringPackage :=
  mem_map_distinctRequirements fun _ _ hpackage _ => hpackage

theorem mem_ranges_distinctRequirements {rs : List PeerRequirement} {text : String} :
    text ∈ (distinctRequirements rs).map PeerRequirement.requiredRange ↔
      text ∈ rs.map PeerRequirement.requiredRange :=
  mem_map_distinctRequirements fun _ _ _ hrange => hrange

/-- The verdict on some requirements, told from their packages and ranges. -/
theorem verdict?_crossCheck (peer : String) (rs : List PeerRequirement) :
    (crossCheck peer rs).1.verdict? =
      let packages :=
        Text.sortedSet ((distinctRequirements rs).map PeerRequirement.requiringPackage)
      let ranges := (distinctRequirements rs).map PeerRequirement.requiredRange
      if packages.length < 2 then none
      else if (agreement ranges).agree = false then
        some (.conflict packages (agreement ranges).confidence)
      else if 1 < (Text.distinct ranges).length then
        some (.alignment packages (agreement ranges).confidence)
      else none := by
  simp only [crossCheck, Bool.not_eq_true']
  split
  · rfl
  · split
    · rfl
    · split <;> rfl

/-- The verdict is told by which packages and which ranges there are. -/
theorem verdict?_congr (peer : String) {rs qs : List PeerRequirement}
    (hpackages : ∀ package, package ∈ rs.map PeerRequirement.requiringPackage ↔
      package ∈ qs.map PeerRequirement.requiringPackage)
    (hranges : ∀ text, text ∈ rs.map PeerRequirement.requiredRange ↔
      text ∈ qs.map PeerRequirement.requiredRange)
    (hc : ∀ r ∈ rs, ∀ q ∈ Range.parse? r.requiredRange, q.Canonical) :
    (crossCheck peer rs).1.verdict? = (crossCheck peer qs).1.verdict? := by
  have hsorted : Text.sortedSet ((distinctRequirements rs).map PeerRequirement.requiringPackage) =
      Text.sortedSet ((distinctRequirements qs).map PeerRequirement.requiringPackage) :=
    Text.sortedSet_congr fun package => mem_packages_distinctRequirements.trans
      ((hpackages package).trans mem_packages_distinctRequirements.symm)
  have htexts : ∀ text, text ∈ (distinctRequirements rs).map PeerRequirement.requiredRange ↔
      text ∈ (distinctRequirements qs).map PeerRequirement.requiredRange :=
    fun text => mem_ranges_distinctRequirements.trans
      ((hranges text).trans mem_ranges_distinctRequirements.symm)
  have hcanonical : ∀ text ∈ (distinctRequirements rs).map PeerRequirement.requiredRange,
      ∀ q ∈ Range.parse? text, q.Canonical := by
    intro text ht
    obtain ⟨r, hr, rfl⟩ := List.mem_map.mp ht
    exact hc r (mem_of_mem_distinctRequirements hr)
  obtain ⟨hagree, hconfidence⟩ := agreement_congr htexts hcanonical
  simp only [verdict?_crossCheck, hsorted, hagree, hconfidence,
    (Text.distinct_perm htexts).length_eq]

/-- Requirements on a peer are those of the packages, whatever their order. -/
theorem requirementsOn_perm (installed : Installed) {ps qs : List InstalledPackage}
    (h : ps.Perm qs) (peer : String) :
    (requirementsOn (ps.foldl Installed.add installed) peer).Perm
      (requirementsOn (qs.foldl Installed.add installed) peer) := by
  simp only [requirementsOn, Installed.peerRequirements, Installed.packages_foldl_add]
  exact ((h.append_left installed.packages).flatMap_right Installed.requirementsOf).filter _

/-- **The order of packages does not matter.** Packages added in another order
lead to the same verdict on each peer whose ranges are canonical: a conflict,
an alignment or nothing, between the same packages and as sure; and there is
at most one for a peer. -/
theorem verdicts_order {installed : Installed} {ps qs : List InstalledPackage} {peer : String}
    (h : ps.Perm qs) (hc : ∀ r ∈ requirementsOn (ps.foldl Installed.add installed) peer,
      ∀ q ∈ Range.parse? r.requiredRange, q.Canonical) :
    (analyze (ps.foldl Installed.add installed)).verdicts peer =
        (analyze (qs.foldl Installed.add installed)).verdicts peer ∧
      ((analyze (ps.foldl Installed.add installed)).verdicts peer).length ≤ 1 := by
  have hperm := requirementsOn_perm installed h peer
  rw [verdicts_analyze, verdicts_analyze]
  constructor
  · rw [verdict?_congr peer (fun _ => (hperm.map _).mem_iff) (fun _ => (hperm.map _).mem_iff) hc]
  · cases (crossCheck peer (requirementsOn (ps.foldl Installed.add installed) peer)).1.verdict?
    · exact Nat.zero_le 1
    · exact Nat.le_refl 1

/-- Packages with three ranges for a peer, any two of which agree. -/
def pairwisePackages : List InstalledPackage := [
  { name := "left", version := "1.0.0", location := "/p/node_modules/left"
    peerDependencies := [("core", .str ">=2.0.0-rc.1 <4")] },
  { name := "right", version := "1.4.0", location := "/p/node_modules/right"
    peerDependencies := [("core", .str "2.x || 4.1")] },
  { name := "left", version := "0.9.0", location := "/p/node_modules/right/node_modules/left"
    peerDependencies := [("core", .str "^3.1.0 || >4")] }]

theorem verdicts_pairwisePackages :
    (analyze (pairwisePackages.foldl Installed.add { root := "/p" })).verdicts "core" =
      [.conflict ["left", "right"] .high] := by
  have hkept : distinctRequirements
      (requirementsOn (pairwisePackages.foldl Installed.add { root := "/p" }) "core") = [
        ⟨"left", "1.0.0", "/p/node_modules/left", "core", ">=2.0.0-rc.1 <4", false⟩,
        ⟨"right", "1.4.0", "/p/node_modules/right", "core", "2.x || 4.1", false⟩,
        ⟨"left", "0.9.0", "/p/node_modules/right/node_modules/left", "core", "^3.1.0 || >4",
          false⟩] := by
    decide +kernel
  have hpackages : Text.sortedSet ["left", "right", "left"] = ["left", "right"] :=
    (Text.sortedSet_congr (by simp [or_comm])).trans (Text.sortedSet_eq_self (by decide))
  have hagreement : agreement [">=2.0.0-rc.1 <4", "2.x || 4.1", "^3.1.0 || >4"] =
      ⟨false, none, .high⟩ := rfl
  rw [verdicts_analyze, verdict?_crossCheck, hkept]
  simp only [List.map_cons, List.map_nil, hpackages, hagreement]
  rfl

/-- In each order only the last of the ranges shows the conflict. -/
theorem verdicts_order_pairwisePackages :
    (∀ r ∈ requirementsOn (pairwisePackages.foldl Installed.add { root := "/p" }) "core",
      ∀ q ∈ Range.parse? r.requiredRange, q.Canonical) ∧
    (analyze (pairwisePackages.reverse.foldl Installed.add { root := "/p" })).verdicts "core" =
      [.conflict ["left", "right"] .high] := by
  have hcanonical :
      ∀ r ∈ requirementsOn (pairwisePackages.foldl Installed.add { root := "/p" }) "core",
        ∀ q ∈ Range.parse? r.requiredRange, q.Canonical := by
    decide +kernel
  have horder := verdicts_order (List.reverse_perm pairwisePackages).symm hcanonical
  exact ⟨hcanonical, horder.1.symm.trans verdicts_pairwisePackages⟩

end PackageAudit.Peer
