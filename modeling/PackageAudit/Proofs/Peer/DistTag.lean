/-
PackageAudit.Proofs.Peer.DistTag — a requirement that no version is read from.

A package may require a peer by a tag such as `latest`, which is no range and
mentions no number. It admits nothing and excludes nothing, yet it changes how
the other ranges are compared: no longer by their intersection, but by the
major numbers that they mention. A range that is open towards later versions
mentions only the first of the majors that it admits, so `>=16` and `^17.0.0`
have versions in common and no major number (`conflict_openRequirements`).

`verdicts_add_tag` says what becomes of a peer whose ranges intersect: an
alignment if the ranges share a major number, otherwise a conflict, and
neither of them sure.
-/
import PackageAudit.Proofs.Peer.Verdict
import PackageAudit.Proofs.Text.Cut

namespace PackageAudit.Peer

/-! ## 1. Texts without digits -/

/-- The text has no decimal digit. -/
def Digitless (text : String) : Prop := ∀ c ∈ text.toList, Text.isDecimal c = false

instance (text : String) : Decidable (Digitless text) :=
  List.decidableBAll _ _

theorem firstNumber?_eq_none {cs : List Char} (h : ∀ c ∈ cs, Text.isDecimal c = false) :
    Version.firstNumber? cs = none := by
  have hdrop : cs.dropWhile (fun c => !Text.isDecimal c) = [] := by
    rw [List.dropWhile_eq_nil_iff]
    intro c hc
    rw [h c hc]
    rfl
  simp [Version.firstNumber?, hdrop]

theorem Digitless.coarseMajors_eq_nil {text : String} (h : Digitless text) :
    Version.coarseMajors text = [] := by
  have hpieces : (Text.splitAtPair '|' '|' text.toList).filterMap Version.firstNumber? = [] := by
    rw [List.filterMap_eq_nil_iff]
    exact fun piece hpiece =>
      firstNumber?_eq_none fun c hc => h c (Text.mem_of_mem_splitAtPair hpiece hc)
  simp [Version.coarseMajors, hpieces]

/-! ## 2. Verdicts by major numbers -/

/-- The ranges that a peer is required with. -/
def rangesOn (installed : Installed) (peer : String) : List String :=
  (requirementsOn installed peer).map PeerRequirement.requiredRange

/-- The packages that require a peer. -/
def requirersOf (installed : Installed) (peer : String) : List String :=
  Text.sortedSet ((requirementsOn installed peer).map PeerRequirement.requiringPackage)

/-- The ranges that the second pass compares for a peer: those of a package
that requires it twice with one range count once. -/
def comparedRanges (installed : Installed) (peer : String) : List String :=
  (distinctRequirements (requirementsOn installed peer)).map PeerRequirement.requiredRange

/-- The verdict on requirements of several packages with several ranges, one of
which cannot be read. -/
theorem verdict?_of_unread (peer : String) (rs : List PeerRequirement)
    (hpackages : ∃ r ∈ rs, ∃ q ∈ rs, r.requiringPackage ≠ q.requiringPackage)
    (hranges : ∃ r ∈ rs, ∃ q ∈ rs, r.requiredRange ≠ q.requiredRange)
    (hunread : ∃ r ∈ rs, Range.parse? r.requiredRange = none) :
    let packages := Text.sortedSet (rs.map PeerRequirement.requiringPackage)
    ((∃ n, SharedMajor (rs.map PeerRequirement.requiredRange) n) →
      (crossCheck peer rs).1.verdict? = some (.alignment packages .low)) ∧
    ((¬ ∃ n, SharedMajor (rs.map PeerRequirement.requiredRange) n) →
      (crossCheck peer rs).1.verdict? = some (.conflict packages .low)) := by
  intro packages
  have hsorted : Text.sortedSet ((distinctRequirements rs).map PeerRequirement.requiringPackage) =
      packages := Text.sortedSet_congr fun _ => mem_packages_distinctRequirements
  have hseveral : ¬ packages.length < 2 := by
    rw [Text.length_sortedSet, not_lt]
    obtain ⟨r, hr, q, hq, hne⟩ := hpackages
    exact Text.one_lt_length_distinct.mpr
      ⟨_, List.mem_map_of_mem hr, _, List.mem_map_of_mem hq, hne⟩
  have hdiffer : 1 < (Text.distinct
      ((distinctRequirements rs).map PeerRequirement.requiredRange)).length := by
    obtain ⟨r, hr, q, hq, hne⟩ := hranges
    exact Text.one_lt_length_distinct.mpr
      ⟨_, mem_ranges_distinctRequirements.mpr (List.mem_map_of_mem hr),
        _, mem_ranges_distinctRequirements.mpr (List.mem_map_of_mem hq), hne⟩
  obtain ⟨r, hr, hnone⟩ := hunread
  have hkept := mem_ranges_distinctRequirements.mpr (List.mem_map_of_mem hr)
  obtain ⟨hlow, hagree⟩ := agreement_of_unread ⟨_, hkept, hnone⟩
  have hshared : ∀ n, SharedMajor ((distinctRequirements rs).map PeerRequirement.requiredRange) n ↔
      SharedMajor (rs.map PeerRequirement.requiredRange) n := by
    simp only [SharedMajor, mem_ranges_distinctRequirements, implies_true]
  simp only [hshared] at hagree
  rw [verdict?_crossCheck]
  simp only [hsorted, if_neg hseveral, hlow]
  constructor
  · intro h
    rw [if_neg (by simpa using hagree.mpr h), if_pos hdiffer]
  · intro h
    rw [if_pos (by simpa using mt hagree.mp h)]

/-- Ranges that can be read and that intersect. -/
def Meet (texts : List String) : Prop :=
  ∃ ranges, texts.mapM Range.parse? = some ranges ∧ Range.haveIntersection ranges = true

instance (texts : List String) : Decidable (Meet texts) :=
  decidable_of_iff ((texts.mapM Range.parse?).any Range.haveIntersection = true)
    (Option.any_eq_true ..)

/-- Ranges that intersect show no conflict. -/
theorem not_conflict_of_meet {installed : Installed} {peer : String}
    (h : Meet (comparedRanges installed peer)) (packages : List String) (confidence : Level) :
    .conflict packages confidence ∉ (analyze installed).verdicts peer := by
  obtain ⟨ranges, hread, hmeet⟩ := h
  have hagree : (agreement (comparedRanges installed peer)).agree = true :=
    (agreement_eq_of_read hread).1.trans hmeet
  rw [comparedRanges] at hagree
  rw [verdicts_analyze, verdict?_crossCheck]
  simp only [hagree]
  split
  · simp
  · rw [if_neg (by simp)]
    split <;> simp

/-! ## 3. One more package -/

section

variable {installed : Installed} {p : InstalledPackage} {peer : String}

theorem mem_requirementsOn {r : PeerRequirement} : r ∈ requirementsOn installed peer ↔
    r ∈ installed.peerRequirements ∧ r.peerName = peer := by
  rw [requirementsOn, List.mem_filter, beq_iff_eq]

theorem mem_requirementsOn_add {r : PeerRequirement} : r ∈ requirementsOn (installed.add p) peer ↔
    r ∈ requirementsOn installed peer ∨ r ∈ Installed.requirementsOf p ∧ r.peerName = peer := by
  have hpackages : (installed.add p).packages = installed.packages ++ [p] := rfl
  simp [mem_requirementsOn, Installed.peerRequirements, hpackages, or_and_right]

/-- A requirement that mentions no number leaves the shared majors as they are. -/
theorem sharedMajor_rangesOn_add
    (htag : ∀ r ∈ Installed.requirementsOf p, r.peerName = peer → Digitless r.requiredRange)
    {n : Nat} :
    SharedMajor (rangesOn (installed.add p) peer) n ↔ SharedMajor (rangesOn installed peer) n := by
  simp only [SharedMajor, rangesOn, List.forall_mem_map, mem_requirementsOn_add]
  constructor
  · exact fun h r hr => h r (Or.inl hr)
  · rintro h r (hr | ⟨hr, hpeer⟩) hne
    · exact h r hr hne
    · exact absurd (htag r hr hpeer).coarseMajors_eq_nil hne

/-- A release that all ranges admit is a shared major, if no range admits a
release of a major that it could have mentioned and did not. -/
theorem sharedMajor_of_admits {texts : List String} {v : Version} (hv : v.prerelease = [])
    (hadmits : ∀ text ∈ texts, ∃ q, Range.parse? text = some q ∧ q.admits v = true)
    (hmentioned : ∀ text ∈ texts, Version.coarseMajors text ≠ [] → ∀ q ∈ Range.parse? text,
      ∀ w : Version, w.prerelease = [] → q.admits w = true → w.major ∈ Version.coarseMajors text) :
    SharedMajor texts v.major := by
  intro text ht hne
  obtain ⟨q, hq, hqv⟩ := hadmits text ht
  exact hmentioned text ht hne q hq v hv hqv

/-- **A tag beside ranges that intersect.** Let several packages require a peer
with ranges that intersect, and add a package that requires it by texts that
cannot be read and have no digit. There was no conflict; now there is an
alignment if the ranges share a major number, and a conflict if they do not.
Neither is sure. They do share one when all of them admit some release and
none admits a release of a major that it does not mention. -/
theorem verdicts_add_tag
    (hpackages : ∃ r ∈ requirementsOn installed peer, ∃ q ∈ requirementsOn installed peer,
      r.requiringPackage ≠ q.requiringPackage)
    (hmeet : Meet (comparedRanges installed peer))
    (hrequires : ∃ r ∈ Installed.requirementsOf p, r.peerName = peer)
    (htag : ∀ r ∈ Installed.requirementsOf p, r.peerName = peer →
      Range.parse? r.requiredRange = none ∧ Digitless r.requiredRange) :
    (∀ packages confidence,
      .conflict packages confidence ∉ (analyze installed).verdicts peer) ∧
    ((∃ n, SharedMajor (rangesOn installed peer) n) →
      (analyze (installed.add p)).verdicts peer =
        [.alignment (requirersOf (installed.add p) peer) .low]) ∧
    ((¬ ∃ n, SharedMajor (rangesOn installed peer) n) →
      (analyze (installed.add p)).verdicts peer =
        [.conflict (requirersOf (installed.add p) peer) .low]) ∧
    (∀ v : Version, v.prerelease = [] →
      (∀ text ∈ rangesOn installed peer, ∃ q, Range.parse? text = some q ∧ q.admits v = true) →
      (∀ text ∈ rangesOn installed peer, Version.coarseMajors text ≠ [] →
        ∀ q ∈ Range.parse? text, ∀ w : Version, w.prerelease = [] → q.admits w = true →
          w.major ∈ Version.coarseMajors text) →
      (analyze (installed.add p)).verdicts peer =
        [.alignment (requirersOf (installed.add p) peer) .low]) := by
  obtain ⟨r, hr, q, hq, hne⟩ := hpackages
  obtain ⟨t, ht, htpeer⟩ := hrequires
  have hrnew : r ∈ requirementsOn (installed.add p) peer := mem_requirementsOn_add.mpr (Or.inl hr)
  have hqnew : q ∈ requirementsOn (installed.add p) peer := mem_requirementsOn_add.mpr (Or.inl hq)
  have htnew : t ∈ requirementsOn (installed.add p) peer :=
    mem_requirementsOn_add.mpr (Or.inr ⟨ht, htpeer⟩)
  have hunread := (htag t ht htpeer).1
  have hdiffer : r.requiredRange ≠ t.requiredRange := by
    intro heq
    obtain ⟨ranges, hread, _⟩ := hmeet
    obtain ⟨s, _, hs⟩ := exists_mem_of_mapM hread
      (mem_ranges_distinctRequirements.mpr (List.mem_map_of_mem hr))
    rw [heq, hunread] at hs
    cases hs
  obtain ⟨halignment, hconflict⟩ := verdict?_of_unread peer _ ⟨r, hrnew, q, hqnew, hne⟩
    ⟨r, hrnew, t, htnew, hdiffer⟩ ⟨t, htnew, hunread⟩
  have hshared : (∃ n, SharedMajor (rangesOn (installed.add p) peer) n) ↔
      ∃ n, SharedMajor (rangesOn installed peer) n :=
    exists_congr fun n => sharedMajor_rangesOn_add fun r hr hpeer => (htag r hr hpeer).2
  have haligned (h : ∃ n, SharedMajor (rangesOn installed peer) n) :
      (analyze (installed.add p)).verdicts peer =
        [.alignment (requirersOf (installed.add p) peer) .low] := by
    rw [verdicts_analyze, halignment (hshared.mpr h)]
    rfl
  refine ⟨not_conflict_of_meet hmeet, haligned, fun h => ?_,
    fun v hv hadmits hmentioned => haligned ⟨v.major, sharedMajor_of_admits hv hadmits hmentioned⟩⟩
  rw [verdicts_analyze, hconflict (mt hshared.mp h)]
  rfl

end

/-- A package that requires its peer by a tag. -/
def taggedPackage : InstalledPackage := {
  name := "tagged", version := "1.0.0", location := "/p/node_modules/tagged"
  peerDependencies := [("core", .str "latest")] }

/-- Two packages whose ranges for a peer intersect and admit one major each,
which they mention. -/
def closedRequirements : Installed := {
  root := "/p"
  present := true
  packages := [
    { name := "left", version := "1.0.0", location := "/p/node_modules/left"
      peerDependencies := [("core", .str "^17.0.2")] },
    { name := "right", version := "1.4.0", location := "/p/node_modules/right"
      peerDependencies := [("core", .str "17.1 - 17.4")] }] }

/-- The ranges share the major number 17 and stay aligned. -/
theorem verdicts_add_tag_closedRequirements :
    SharedMajor (rangesOn closedRequirements "core") 17 ∧
      (analyze (closedRequirements.add taggedPackage)).verdicts "core" =
        [.alignment (requirersOf (closedRequirements.add taggedPackage) "core") .low] := by
  have hpackages : ∃ r ∈ requirementsOn closedRequirements "core",
      ∃ q ∈ requirementsOn closedRequirements "core",
        r.requiringPackage ≠ q.requiringPackage := by decide +kernel
  have hmeet : Meet (comparedRanges closedRequirements "core") := by decide +kernel
  have hrequires : ∃ r ∈ Installed.requirementsOf taggedPackage, r.peerName = "core" := by
    decide +kernel
  have htag : ∀ r ∈ Installed.requirementsOf taggedPackage, r.peerName = "core" →
      Range.parse? r.requiredRange = none ∧ Digitless r.requiredRange := by decide +kernel
  have hshared : SharedMajor (rangesOn closedRequirements "core") 17 := by decide +kernel
  exact ⟨hshared, (verdicts_add_tag hpackages hmeet hrequires htag).2.1 ⟨17, hshared⟩⟩

/-- Two packages whose ranges for a peer intersect, one of them open towards
later versions. -/
def openRequirements : Installed := {
  root := "/p"
  present := true
  packages := [
    { name := "core", version := "17.0.2", location := "/p/node_modules/core" },
    { name := "left", version := "1.0.0", location := "/p/node_modules/left"
      peerDependencies := [("core", .str ">=16")] },
    { name := "right", version := "1.4.0", location := "/p/node_modules/right"
      peerDependencies := [("core", .str "^17.0.0")] }] }

/-- A tag alone makes a conflict of ranges that intersect. -/
theorem conflict_openRequirements :
    (∃ r ∈ requirementsOn openRequirements "core", ∃ q ∈ requirementsOn openRequirements "core",
      r.requiringPackage ≠ q.requiringPackage) ∧
    Meet (comparedRanges openRequirements "core") ∧
    (Installed.requirementsOf taggedPackage).map PeerRequirement.requiredRange = ["latest"] ∧
    Range.parse? "latest" = none ∧ Version.coarseMajors "latest" = [] ∧
    (analyze (openRequirements.add taggedPackage)).verdicts "core" =
      [.conflict ["left", "right", "tagged"] .low] := by
  have hrequirements : requirementsOn (openRequirements.add taggedPackage) "core" = [
      ⟨"left", "1.0.0", "/p/node_modules/left", "core", ">=16", false⟩,
      ⟨"right", "1.4.0", "/p/node_modules/right", "core", "^17.0.0", false⟩,
      ⟨"tagged", "1.0.0", "/p/node_modules/tagged", "core", "latest", false⟩] := by
    decide +kernel
  have hpackages : Text.sortedSet ["left", "right", "tagged"] = ["left", "right", "tagged"] :=
    Text.sortedSet_eq_self (by decide)
  have hmajors : Version.coarseMajors ">=16" = [16] ∧ Version.coarseMajors "^17.0.0" = [17] := by
    decide +kernel
  have hnone : ¬ ∃ n, SharedMajor [">=16", "^17.0.0", "latest"] n := by
    rintro ⟨n, hn⟩
    have hleft := hn ">=16" (by decide) (by simp [hmajors])
    have hright := hn "^17.0.0" (by decide) (by simp [hmajors])
    simp only [hmajors, List.mem_singleton] at hleft hright
    omega
  have hconflict := (verdict?_of_unread "core" [
      ⟨"left", "1.0.0", "/p/node_modules/left", "core", ">=16", false⟩,
      ⟨"right", "1.4.0", "/p/node_modules/right", "core", "^17.0.0", false⟩,
      ⟨"tagged", "1.0.0", "/p/node_modules/tagged", "core", "latest", false⟩]
    (by decide) (by decide) (by decide)).2 hnone
  refine ⟨by decide +kernel, by decide +kernel, by decide +kernel, by decide,
    Digitless.coarseMajors_eq_nil (by decide), ?_⟩
  rw [verdicts_analyze, hrequirements, hconflict]
  simp only [List.map_cons, List.map_nil, hpackages, Option.toList_some]

end PackageAudit.Peer
