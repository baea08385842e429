/-
PackageAudit.Proofs.Peer.CommonMajor — when a suggested major is common.

Where there is no intersection to name, the version to suggest is made of the
first numbers of the ranges: if those that are not zero are all one number
`n`, it is `^n.0.0`. What the ranges admit is not asked. The number may be that
of an upper end (`<2.0.0`), and ranges that begin with one number may exclude
each other (`~1.1.0` and `~1.2.0`).

`^n.0.0` admits the releases of the major `n` and nothing else, so whether the
ranges admit one of its versions is a question about releases, which an
intersection answers (`commonVersion_common_iff`). They do if all of them
admit the later releases of that major, as its carets do. In a sure conflict
they do not, since ranges that do not intersect have no release in common:
each caret that is suggested there is wrong.
-/
import PackageAudit.Proofs.Peer.Suggestion
import PackageAudit.Proofs.Version.Components
import PackageAudit.Proofs.Version.Prerelease

namespace PackageAudit

namespace Range

variable {r : Range} {n : Nat}

/-! ## 1. The releases of a major -/

/-- What is admitted are the releases of the major. -/
def IsMajor (r : Range) (n : Nat) : Prop :=
  ∀ v, r.admits v = true ↔ v.prerelease = [] ∧ v.major = n

/-- From some minor number on, the releases of the major are admitted. -/
def AdmitsLater (r : Range) (n : Nat) : Prop :=
  ∃ k, ∀ minor, k ≤ minor → ∀ patch, r.admits ⟨n, minor, patch, []⟩ = true

theorem prerelease_eq_nil_of_caret {p : PartialVersion} {v : Version} (hp : p.prerelease = [])
    (h : p.caret.admits v = true) : v.prerelease = [] := by
  refine ComparatorSet.prerelease_eq_nil_of_admits (fun c hc hne => ?_) h
  rcases prerelease_of_mem_apply .caret p c hc with hpre | hless | hpre
  · exact absurd (hpre.trans hp) hne
  · exact hless
  · exact absurd hpre hne

/-- A caret on a release of a major that is not zero admits the releases of
the major that do not come before. -/
theorem admits_caret_iff {l v : Version} (hl : l.prerelease = []) (hmajor : 0 < l.major) :
    (PartialVersion.ofVersion l).caret.admits v = true ↔
      v.prerelease = [] ∧ v.major = l.major ∧ l.numbers ≤ v.numbers := by
  obtain ⟨major, minor, patch, _⟩ := l
  obtain rfl := hl
  have hkept : PartialVersion.kept [major, minor, patch] = 1 := by
    simp [PartialVersion.kept, Nat.pos_iff_ne_zero.mp hmajor]
  have hlength : [major, minor, patch].length ≤ 3 := le_rfl
  have hbounds (hv : v.prerelease = []) := PartialVersion.admits_caret hlength hv
  constructor
  · intro h
    have hv := prerelease_eq_nil_of_caret rfl h
    obtain ⟨hle, hsame⟩ := (hbounds hv).mp ((ComparatorSet.admits_of_release hv _).symm.trans h)
    rw [hkept] at hsame
    exact ⟨hv, (List.cons.inj hsame).1, hle⟩
  · rintro ⟨hv, hsame, hle⟩
    rw [ComparatorSet.admits_of_release hv]
    refine (hbounds hv).mpr ⟨hle, ?_⟩
    rw [hkept]
    exact congrArg (fun n => [n]) hsame

/-- A caret on a release, as it is read. -/
theorem exists_parse?_caret {l : Version} (hl : l.prerelease = []) (hmajor : 0 < l.major) :
    ∃ r, parse? (wordText (.caret, l)) = some r ∧
      ∀ v, r.admits v = true ↔ v.prerelease = [] ∧ v.major = l.major ∧ l.numbers ≤ v.numbers := by
  have hwritten : l.Written := by
    intro x hx
    rw [hl] at hx
    cases hx
  refine ⟨_, Interval.parse?_wordText .caret hwritten, fun v => ?_⟩
  rw [← admits_caret_iff hl hmajor]
  simp [admits, Operator.apply]

/-- A caret on the least version of a major, as it is written. -/
theorem wordText_caret_major (n : Nat) :
    wordText (.caret, ⟨n, 0, 0, []⟩) = s!"^{n}.0.0" := by
  have hzeros : "." ++ (toString 0 ++ ("." ++ toString 0)) = ".0.0" := by decide
  have hnumbers : Version.toText ⟨n, 0, 0, []⟩ = toString n ++ ".0.0" := by
    rw [← hzeros, ← String.append_assoc, ← String.append_assoc, ← String.append_assoc]
    rfl
  rw [wordText, hnumbers, ← String.append_assoc]
  rfl

/-- A caret on the least version of a major admits its releases. -/
theorem exists_parse?_major (hn : 0 < n) : ∃ r, parse? s!"^{n}.0.0" = some r ∧ r.IsMajor n := by
  obtain ⟨r, hr, hadmits⟩ := exists_parse?_caret (l := ⟨n, 0, 0, []⟩) rfl hn
  rw [wordText_caret_major] at hr
  refine ⟨r, hr, fun v => (hadmits v).trans (and_congr_right fun _ => ?_)⟩
  refine and_iff_left_of_imp ?_
  rintro rfl
  simp only [Version.numbers, Version.cons_le_cons, le_refl, and_true, true_and]
  omega

/-- A caret on a release admits the later ones of its major. -/
theorem exists_admitsLater_caret {l : Version} (hl : l.prerelease = []) (hmajor : 0 < l.major) :
    ∃ r, parse? (wordText (.caret, l)) = some r ∧ r.AdmitsLater l.major := by
  obtain ⟨r, hr, hadmits⟩ := exists_parse?_caret hl hmajor
  refine ⟨r, hr, l.minor + 1, fun minor hminor patch => (hadmits _).mpr ⟨rfl, rfl, ?_⟩⟩
  have hlt : l.minor < minor := hminor
  simp only [Version.numbers, Version.cons_le_cons, hlt, true_or, and_true, or_true]

theorem exists_common_later {ranges : List Range} (h : ∀ r ∈ ranges, r.AdmitsLater n) :
    ∃ k, ∀ r ∈ ranges, ∀ minor, k ≤ minor → ∀ patch, r.admits ⟨n, minor, patch, []⟩ = true := by
  induction ranges with
  | nil => exact ⟨0, by simp⟩
  | cons r ranges ih =>
    obtain ⟨⟨j, hj⟩, hrest⟩ := List.forall_mem_cons.mp h
    obtain ⟨k, hk⟩ := ih hrest
    refine ⟨max j k, List.forall_mem_cons.mpr ⟨fun minor hle => ?_, fun q hq minor hle => ?_⟩⟩
    · exact hj minor ((le_max_left j k).trans hle)
    · exact hk q hq minor ((le_max_right j k).trans hle)

/-- A version of the major that all ranges admit is a release, and there is one
exactly when an intersection contains its least release. -/
theorem IsMajor.exists_common_iff (hr : r.IsMajor n) (ranges : List Range) :
    (∃ v, r.admits v = true ∧ ∀ q ∈ ranges, q.admits v = true) ↔
      ∃ i ∈ intersect (r :: ranges), i.contains i.leastRelease = true := by
  rw [← common_release_iff]
  refine exists_congr fun v => ?_
  rw [List.forall_mem_cons]
  exact (and_iff_right_of_imp fun h => ((hr v).mp h.1).1).symm

end Range

namespace Peer

variable {texts : List String} {n : Nat}

/-! ## 2. The number that is found -/

/-- The first numbers in the texts are zero or this one, which some text has. -/
structure OneMajor (texts : List String) (n : Nat) : Prop where
  pos : 0 < n
  mentioned : ∃ text ∈ texts, Version.coarseMajor? text = some n
  only : ∀ text ∈ texts, ∀ m ∈ Version.coarseMajor? text, m = 0 ∨ m = n

theorem eraseDups_eq_singleton_iff {ns : List Nat} :
    ns.eraseDups = [n] ↔ n ∈ ns ∧ ∀ m ∈ ns, m = n := by
  constructor
  · intro h
    have hmem : ∀ m, m ∈ ns ↔ m = n := fun m => by
      rw [← List.mem_eraseDups, h, List.mem_singleton]
    exact ⟨(hmem n).mpr rfl, fun m => (hmem m).mp⟩
  · rintro ⟨hn, hall⟩
    cases ns with
    | nil => cases hn
    | cons m ms =>
      obtain ⟨rfl, hrest⟩ := List.forall_mem_cons.mp hall
      have hnone : (ms.filter fun b => !b == m) = [] := by simpa using hrest
      rw [List.eraseDups_cons, hnone, List.eraseDups_nil]

theorem majors_eq_singleton_iff :
    ((texts.filterMap Version.coarseMajor?).filter (· != 0)).eraseDups = [n] ↔
      OneMajor texts n := by
  simp only [eraseDups_eq_singleton_iff, List.mem_filter, List.mem_filterMap, bne_iff_ne]
  constructor
  · rintro ⟨⟨hmentioned, hne⟩, hall⟩
    refine ⟨Nat.pos_of_ne_zero hne, hmentioned, fun text ht m hm => ?_⟩
    exact or_iff_not_imp_left.mpr fun hm0 => hall m ⟨⟨text, ht, hm⟩, hm0⟩
  · rintro ⟨hpos, hmentioned, honly⟩
    refine ⟨⟨hmentioned, hpos.ne'⟩, ?_⟩
    rintro m ⟨⟨text, ht, hm⟩, hm0⟩
    exact (honly text ht m hm).resolve_left hm0

theorem commonVersion_of_oneMajor (h : OneMajor texts n) :
    commonVersion texts = s!"^{n}.0.0" := by
  rw [commonVersion, majors_eq_singleton_iff.mpr h]

theorem commonVersion_of_not_oneMajor (h : ∀ n, ¬ OneMajor texts n) :
    commonVersion texts = manualResolution := by
  rw [commonVersion]
  split
  · rename_i n hn
    exact absurd (majors_eq_singleton_iff.mp hn) (h n)
  · rfl

/-- A suggestion that can be read is that of one major. -/
theorem exists_oneMajor_of_parse? {r : Range} (h : Range.parse? (commonVersion texts) = some r) :
    ∃ n, OneMajor texts n ∧ r.IsMajor n := by
  by_cases hone : ∃ n, OneMajor texts n
  · obtain ⟨n, hn⟩ := hone
    obtain ⟨q, hq, hmajor⟩ := Range.exists_parse?_major hn.pos
    rw [commonVersion_of_oneMajor hn, hq, Option.some.injEq] at h
    exact ⟨n, hn, h ▸ hmajor⟩
  · have hmanual : Range.parse? manualResolution = none := rfl
    rw [commonVersion_of_not_oneMajor (not_exists.mp hone), hmanual] at h
    cases h

/-! ## 3. Common versions -/

/-- Each text is read as a range that admits the version. -/
def CommonTo (texts : List String) (v : Version) : Prop :=
  ∀ text ∈ texts, ∃ q, Range.parse? text = some q ∧ q.admits v = true

theorem commonTo_iff {ranges : List Range} (h : texts.mapM Range.parse? = some ranges)
    {v : Version} : CommonTo texts v ↔ ∀ q ∈ ranges, q.admits v = true := by
  constructor
  · intro hall q hq
    obtain ⟨text, ht, htq⟩ := exists_of_mem_mapM h hq
    obtain ⟨q', hq', hv⟩ := hall text ht
    rw [htq, Option.some.injEq] at hq'
    exact hq' ▸ hv
  · intro hall text ht
    obtain ⟨q, hq, htq⟩ := exists_mem_of_mapM h ht
    exact ⟨q, htq, hall q hq⟩

theorem exists_commonTo_of_admitsLater {r : Range} (hr : r.IsMajor n)
    (h : ∀ text ∈ texts, ∃ q, Range.parse? text = some q ∧ q.AdmitsLater n) :
    ∃ v, r.admits v = true ∧ CommonTo texts v := by
  obtain ⟨ranges, hread, hlater⟩ := exists_mapM_forall h
  obtain ⟨minor, hall⟩ := Range.exists_common_later hlater
  refine ⟨⟨n, minor, 0, []⟩, (hr _).mpr ⟨rfl, rfl⟩, (commonTo_iff hread).mpr fun q hq => ?_⟩
  exact hall q hq minor le_rfl 0

/-- The ranges of a sure conflict can be read and have no release in common,
and their first numbers make the suggestion. -/
theorem not_commonTo_of_cross {installed : Installed} {k : CrossConflict}
    (hk : k ∈ (analyze installed).cross) (hhigh : k.confidence = .high) :
    k.suggestion = commonVersion (k.requirements.map (·.requiredRange)) ∧
      (∃ qs, (k.requirements.map (·.requiredRange)).mapM Range.parse? = some qs) ∧
      ∀ v : Version, v.prerelease = [] → ¬ CommonTo (k.requirements.map (·.requiredRange)) v := by
  obtain ⟨ws, hf⟩ := mem_cross_analyze.mp hk
  obtain ⟨peer, _, hcheck⟩ := mem_crossChecks.mp hf
  obtain ⟨_, rfl, _, hentries, hdisagree, hconfidence, hsuggestion⟩ :=
    crossCheck_conflict (congrArg Prod.fst hcheck)
  rw [← hentries] at hdisagree hconfidence hsuggestion
  obtain ⟨qs, hread⟩ := exists_of_confidence_high (hconfidence.symm.trans hhigh)
  have hempty : Range.haveIntersection qs = false :=
    (agreement_eq_of_read hread).1.symm.trans hdisagree
  rw [Range.haveIntersection, Bool.not_eq_false', List.isEmpty_iff] at hempty
  refine ⟨hsuggestion, ⟨qs, hread⟩, fun v hv hall => ?_⟩
  obtain ⟨i, hi, _⟩ :=
    (Range.forall_admits_iff_of_release hv).mp ((commonTo_iff hread).mp hall)
  rw [hempty] at hi
  cases hi

/-- **When the suggested major is common.** Of ranges that can be read: no
version is suggested exactly when their first numbers do not leave one major.
Otherwise the suggestion is a caret that admits the releases of that major and
nothing else; the ranges admit one of them exactly when an interval of the
intersection with the caret contains its least release; and they do if each
admits the later releases of the major. In a conflict between packages that is
sure, no version that a suggested caret admits is admitted by all the ranges. -/
theorem commonVersion_common_iff {ranges : List Range}
    (h : texts.mapM Range.parse? = some ranges) :
    (commonVersion texts = manualResolution ↔ ∀ n, ¬ OneMajor texts n) ∧
    (∀ n, OneMajor texts n → commonVersion texts = s!"^{n}.0.0" ∧
      ∃ r, Range.parse? (commonVersion texts) = some r ∧ r.IsMajor n ∧
        ((∃ v, r.admits v = true ∧ CommonTo texts v) ↔
          ∃ i ∈ Range.intersect (r :: ranges), i.contains i.leastRelease = true) ∧
        ((∀ text ∈ texts, ∃ q, Range.parse? text = some q ∧ q.AdmitsLater n) →
          ∃ v, r.admits v = true ∧ CommonTo texts v)) ∧
    (∀ installed : Installed, ∀ k ∈ (analyze installed).cross, k.confidence = .high →
      k.suggestion = commonVersion (k.requirements.map (·.requiredRange)) ∧
      (∃ qs, (k.requirements.map (·.requiredRange)).mapM Range.parse? = some qs) ∧
      ∀ r, Range.parse? k.suggestion = some r →
        ¬ ∃ v, r.admits v = true ∧ CommonTo (k.requirements.map (·.requiredRange)) v) := by
  refine ⟨⟨fun hmanual n hn => ?_, commonVersion_of_not_oneMajor⟩, fun n hn => ?_,
    fun installed k hk hhigh => ?_⟩
  · obtain ⟨r, hr, _⟩ := Range.exists_parse?_major hn.pos
    rw [← commonVersion_of_oneMajor hn, hmanual] at hr
    cases hr
  · obtain ⟨r, hr, hmajor⟩ := Range.exists_parse?_major hn.pos
    rw [commonVersion_of_oneMajor hn]
    refine ⟨rfl, r, hr, hmajor, ?_, exists_commonTo_of_admitsLater hmajor⟩
    simp only [commonTo_iff h]
    exact hmajor.exists_common_iff ranges
  · obtain ⟨hsuggestion, hread, hnone⟩ := not_commonTo_of_cross hk hhigh
    refine ⟨hsuggestion, hread, ?_⟩
    rintro r hr ⟨v, hv, hall⟩
    rw [hsuggestion] at hr
    obtain ⟨n, _, hmajor⟩ := exists_oneMajor_of_parse? hr
    exact hnone v ((hmajor v).mp hv).1 hall

/-- Carets of one major have later and later releases in common. -/
theorem commonVersion_common_iff_carets :
    (∃ ranges, ["^16.8.0", "^16.2.0"].mapM Range.parse? = some ranges) ∧
      commonVersion ["^16.8.0", "^16.2.0"] = "^16.0.0" ∧
      ∃ r, Range.parse? "^16.0.0" = some r ∧
        ∃ v, r.admits v = true ∧ CommonTo ["^16.8.0", "^16.2.0"] v := by
  have hread : ["^16.8.0", "^16.2.0"].mapM Range.parse? = some _ := rfl
  have hone : OneMajor ["^16.8.0", "^16.2.0"] 16 :=
    ⟨by decide, ⟨"^16.8.0", by decide, by decide⟩, by decide⟩
  have hlater : ∀ text ∈ ["^16.8.0", "^16.2.0"],
      ∃ q, Range.parse? text = some q ∧ q.AdmitsLater 16 := by
    have hcarets : ["^16.8.0", "^16.2.0"] =
        [8, 2].map fun minor => Range.wordText (.caret, ⟨16, minor, 0, []⟩) := by decide
    intro text ht
    rw [hcarets, List.mem_map] at ht
    obtain ⟨minor, _, rfl⟩ := ht
    exact Range.exists_admitsLater_caret rfl (Nat.succ_pos 15)
  obtain ⟨htext, r, hr, _, _, hcommon⟩ := (commonVersion_common_iff hread).2.1 16 hone
  rw [htext] at hr
  exact ⟨⟨_, hread⟩, htext, r, hr, hcommon hlater⟩

/-- Two packages whose ranges for a peer begin with one number and exclude each
other. -/
def exclusiveRequirements : Installed := {
  root := "/p"
  present := true
  packages := [
    { name := "left", version := "1.0.0", location := "/p/node_modules/left"
      peerDependencies := [("core", .str "~1.1.0")] },
    { name := "right", version := "1.4.0", location := "/p/node_modules/right"
      peerDependencies := [("core", .str "~1.2.0")] }] }

theorem mem_cross_exclusiveRequirements :
    ⟨"core", ["left", "right"], exclusiveRequirements.peerRequirements, .high, "^1.0.0"⟩ ∈
      (analyze exclusiveRequirements).cross := by
  have hrows : exclusiveRequirements.peerRequirements = [
      ⟨"left", "1.0.0", "/p/node_modules/left", "core", "~1.1.0", false⟩,
      ⟨"right", "1.4.0", "/p/node_modules/right", "core", "~1.2.0", false⟩] := by
    decide +kernel
  have hpackages : Text.sortedSet ["left", "right"] = ["left", "right"] :=
    Text.sortedSet_eq_self (by decide)
  have hagree : agreement ["~1.1.0", "~1.2.0"] = ⟨false, none, .high⟩ := rfl
  have hcommon : commonVersion ["~1.1.0", "~1.2.0"] = "^1.0.0" := by decide
  refine mem_cross_analyze.mpr ⟨[], mem_crossChecks.mpr ⟨"core", ?_, ?_⟩⟩
  · rw [hrows]
    decide
  · have hentries : distinctRequirements
        (exclusiveRequirements.peerRequirements.filter fun r => r.peerName == "core") =
        exclusiveRequirements.peerRequirements := by
      rw [hrows]
      decide
    simp only [crossCheck, hentries]
    simp only [hrows, List.map_cons, List.map_nil, hpackages, hagree, hcommon]
    rfl

/-- Ranges of one major that exclude each other are answered with a caret, which
then stands in the conflict that they are. -/
theorem commonVersion_not_common :
    (∃ ranges, ["~1.1.0", "~1.2.0"].mapM Range.parse? = some ranges) ∧
    commonVersion ["~1.1.0", "~1.2.0"] = "^1.0.0" ∧
    (∃ r, Range.parse? "^1.0.0" = some r ∧
      ¬ ∃ v, r.admits v = true ∧ CommonTo ["~1.1.0", "~1.2.0"] v) ∧
    ∃ k ∈ (analyze exclusiveRequirements).cross,
      k.confidence = .high ∧ k.suggestion = "^1.0.0" := by
  have hread : ["~1.1.0", "~1.2.0"].mapM Range.parse? = some _ := rfl
  obtain ⟨r, hr, hmajor⟩ := Range.exists_parse?_major Nat.one_pos
  refine ⟨⟨_, hread⟩, by decide, ⟨r, hr, ?_⟩, ?_⟩
  · simp only [commonTo_iff hread]
    rw [hmajor.exists_common_iff]
    have hparse : Range.parse? "^1.0.0" = some _ := rfl
    obtain rfl := Option.some.inj (hr.symm.trans hparse)
    decide
  · exact ⟨_, mem_cross_exclusiveRequirements, rfl, rfl⟩

end Peer

end PackageAudit
