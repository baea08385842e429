/-
PackageAudit.Proofs.Version.Minimum — the least version of a range.

The least version that a range admits is looked for among the lower ends of
its intervals, with `0.0.0` for one that is absent. Whether the interval
contains the version that it starts with is not asked. It does not if its
lower end is open (`>1.2.3`), or if its upper end does not lie above `0.0.0`
(`<0.0.0`). In the second case there may be versions before `0.0.0` that the
range admits, prereleases of it (`<0.0.0-beta`); then it admits `0.0.0-0`, the
first of all versions, as well.

`minVersion?_found_iff` says that nothing else can go wrong. No release that
any range admits comes before the answer. For canonical ranges the answer is
the least version exactly when the range admits it, and admits `0.0.0-0` only
if that is the answer. A range whose intervals contain the versions that they
start with has no such trouble.
-/
import PackageAudit.Proofs.Version.Prerelease

namespace PackageAudit

namespace Version

/-! ## 1. The first version -/

/-- The version that no other one comes before. -/
def first : Version := PartialVersion.ceiling 0

theorem canonical_first : first.Canonical := by decide

theorem first_le (v : Version) : first.key ≤ v.key := by
  have hpre : prereleaseKey first.prerelease ≤ prereleaseKey v.prerelease :=
    prereleaseKey_zero_le v.prerelease
  have hmajor : first.major = 0 := rfl
  have hminor : first.minor = 0 := rfl
  have hpatch : first.patch = 0 := rfl
  simp only [key_le_iff, hpre, hmajor, hminor, hpatch, and_true]
  omega

end Version

namespace Interval

variable {i : Interval} {v : Version}

/-! ## 2. Where an interval starts -/

/-- The version with which an interval starts: its lower end, or `0.0.0`. -/
def start (i : Interval) : Version := i.lower.getD { major := 0, minor := 0, patch := 0 }

theorem start_of_lower {l : Version} (h : i.lower = some l) : i.start = l := by
  rw [start, h, Option.getD_some]

/-- An interval that contains its start admits it: a lower end names itself. -/
theorem admits_start (h : i.contains i.start = true) : i.Admits i.start := by
  refine ⟨h, ?_⟩
  cases hl : i.lower with
  | none =>
    rw [start, hl]
    exact Or.inl rfl
  | some l =>
    rw [start_of_lower hl]
    by_cases hpre : l.prerelease = []
    · exact Or.inl hpre
    · exact Or.inr ⟨l, List.mem_append_left _ (Option.mem_toList.mpr hl), hpre, rfl⟩

/-- An interval with releases as its ends admits no prerelease. -/
theorem Admits.prerelease_eq_nil (h : i.Admits v) (hends : ∀ e ∈ i.ends, e.prerelease = []) :
    v.prerelease = [] := by
  refine h.2.resolve_right ?_
  rintro ⟨e, he, hne, _⟩
  exact hne (hends e he)

/-- What is admitted does not come before the start, unless the interval has no
lower end and its upper end is a prerelease of `0.0.0`. -/
theorem start_le_of_admits (h : i.Admits v) :
    i.start.key ≤ v.key ∨
      i.lower = none ∧ v.prerelease ≠ [] ∧ v.release = (0, 0, 0) ∧
        ∃ u ∈ i.upper, u.prerelease ≠ [] ∧ u.release = (0, 0, 0) := by
  obtain ⟨hcontains, hnamed⟩ := h
  obtain ⟨hlower, _⟩ := (contains_iff i v).mp hcontains
  cases hl : i.lower with
  | some l =>
    rw [start_of_lower hl]
    exact Or.inl (hlower l hl).1
  | none =>
    refine or_iff_not_imp_left.mpr fun hbefore => ⟨rfl, ?_⟩
    rw [start, hl, Option.getD_none, not_le] at hbefore
    have hrelease : v.release = (0, 0, 0) := by
      have hnumbers := Version.release_le_of_key_le hbefore.le
      simp only [Version.release, Prod.mk.injEq] at hnumbers ⊢
      omega
    have hpre : v.prerelease ≠ [] := fun hnil =>
      absurd hbefore (not_lt.mpr (Version.key_le_of_release_le hnil (by dsimp only; omega)))
    obtain ⟨u, hu, hne, hsame⟩ := hnamed.resolve_left hpre
    rw [ends, hl, Option.toList_none, List.nil_append, Option.mem_toList] at hu
    exact ⟨hpre, hrelease, u, hu, hne, hsame.trans hrelease⟩

/-- What an interval admits that contains its start does not come before it. -/
theorem start_le_of_contains (hstart : i.contains i.start = true) (h : i.Admits v) :
    i.start.key ≤ v.key := by
  refine (start_le_of_admits h).resolve_right ?_
  rintro ⟨hl, _, _, u, hu, hne, hrelease⟩
  have hzero : i.start = { major := 0, minor := 0, patch := 0 } := by
    rw [start, hl, Option.getD_none]
  have hle : i.start.key ≤ u.key := (((contains_iff i _).mp hstart).2 u hu).key_le
  have hsame : i.start.release = u.release := by rw [hzero, hrelease]; rfl
  rw [Version.key_le_iff_of_release hsame, hzero] at hle
  exact absurd (Version.prereleaseKey_lt_nil hne) (not_lt.mpr hle)

/-- An interval that admits a version before its start admits the first one. -/
theorem admits_first (hi : i.EndsIn Version.Canonical) (h : i.Admits v)
    (hbefore : v.key < i.start.key) : i.Admits Version.first := by
  obtain ⟨hl, _, _, u, hu, hne, hrelease⟩ :=
    (start_le_of_admits h).resolve_left (not_le.mpr hbefore)
  have hfits := ((contains_iff i v).mp h.1).2 u hu
  have hcontains : i.contains Version.first = true := by
    refine (contains_iff i _).mpr ⟨by simp [hl], fun w hw => ?_⟩
    obtain rfl : w = u := Option.mem_unique hw hu
    refine hfits.of_le (Version.first_le v) fun hkey hvu => ?_
    exact Version.key_inj Version.canonical_first (hvu ▸ hi.2 w hu) hkey
  exact ⟨hcontains, Or.inr ⟨u, List.mem_append_right _ (Option.mem_toList.mpr hu), hne, hrelease⟩⟩

end Interval

namespace Range

variable {r : Range} {m : Version}

/-! ## 3. The least version -/

theorem minVersion?_eq_none_iff : r.minVersion? = none ↔ r.intervals = [] := by
  rw [minVersion?]
  cases r.intervals <;> simp [least?]

/-- The answer is the least start of an interval. -/
theorem start_of_minVersion? (h : r.minVersion? = some m) :
    (∃ i ∈ r.intervals, i.start = m) ∧ ∀ i ∈ r.intervals, m.key ≤ i.start.key := by
  have hleast : least? (r.intervals.map Interval.start) = some m := h
  cases hstarts : r.intervals.map Interval.start with
  | nil => rw [hstarts] at hleast; cases hleast
  | cons v vs =>
    obtain ⟨hmem, hle⟩ := foldl_least Version.key (fun _ _ => Version.precedes_iff) vs v
    rw [hstarts, least?, Option.some.injEq] at hleast
    rw [hleast, ← hstarts] at hmem hle
    exact ⟨List.mem_map.mp hmem, fun i hi => hle _ (List.mem_map_of_mem hi)⟩

/-- The range admits `m`, and what it admits does not come before `m`. -/
structure IsMinimum (r : Range) (m : Version) : Prop where
  admits : r.admits m = true
  atLeast : ∀ v, r.admits v = true → v.atLeast m = true
  atMost : ∀ v, r.admits v = true → v.Canonical → m.atMost v = true

/-- The answer is right: the least version that the range admits, or none if it
admits nothing. -/
structure MinimumFound (r : Range) : Prop where
  none_iff : r.minVersion? = none ↔ ∀ v, r.admits v = false
  isMinimum : ∀ m ∈ r.minVersion?, r.IsMinimum m

theorem canonical_of_minVersion? (hc : r.Canonical) (h : r.minVersion? = some m) :
    m.Canonical := by
  obtain ⟨i, hi, rfl⟩ := (start_of_minVersion? h).1
  cases hl : i.lower with
  | none =>
    rw [Interval.start, hl]
    decide
  | some l =>
    rw [Interval.start_of_lower hl]
    exact (endsIn_of_mem_intervals hc hi).1 l hl

theorem isMinimum_of_key_le (hm : m.Canonical) (hadmits : r.admits m = true)
    (hle : ∀ v, r.admits v = true → m.key ≤ v.key) : r.IsMinimum m := by
  refine ⟨hadmits, fun v hv => Version.atLeast_iff.mpr (hle v hv), fun v hv hcanonical => ?_⟩
  rw [Version.atMost_iff]
  exact (hle v hv).lt_or_eq.imp_right (Version.key_inj hm hcanonical)

section

variable (hc : r.Canonical)

include hc

theorem admits_eq_false_of_minVersion? (h : r.minVersion? = none) (v : Version) :
    r.admits v = false := by
  rw [← Bool.not_eq_true, admits_iff_exists_admits hc, minVersion?_eq_none_iff.mp h]
  simp

/-- What is admitted does not come before the answer, or the first version is
admitted as well. -/
theorem key_le_of_minVersion? (h : r.minVersion? = some m) {v : Version}
    (hv : r.admits v = true) : m.key ≤ v.key ∨ r.admits Version.first = true := by
  obtain ⟨i, hi, hadmits⟩ := (admits_iff_exists_admits hc).mp hv
  rcases le_or_gt i.start.key v.key with hle | hbefore
  · exact Or.inl (((start_of_minVersion? h).2 i hi).trans hle)
  · refine Or.inr ((admits_iff_exists_admits hc).mpr ⟨i, hi, ?_⟩)
    exact Interval.admits_first (endsIn_of_mem_intervals hc hi) hadmits hbefore

theorem minimumFound_of_isMinimum (h : ∀ m ∈ r.minVersion?, r.IsMinimum m) : r.MinimumFound := by
  refine ⟨⟨admits_eq_false_of_minVersion? hc, fun hnone => ?_⟩, h⟩
  rw [Option.eq_none_iff_forall_ne_some]
  intro m hm
  have hadmits := (h m hm).admits
  rw [hnone m] at hadmits
  cases hadmits

/-- Intervals that contain their starts lead to the least version. -/
theorem minimumFound_of_contains_start
    (h : ∀ i ∈ r.intervals, i.contains i.start = true) : r.MinimumFound := by
  refine minimumFound_of_isMinimum hc fun m hm => ?_
  obtain ⟨⟨i, hi, hstart⟩, hleast⟩ := start_of_minVersion? hm
  refine isMinimum_of_key_le (canonical_of_minVersion? hc hm) ?_ fun v hv => ?_
  · rw [admits_iff_exists_admits hc, ← hstart]
    exact ⟨i, hi, Interval.admits_start (h i hi)⟩
  · obtain ⟨j, hj, hadmits⟩ := (admits_iff_exists_admits hc).mp hv
    exact (hleast j hj).trans (Interval.start_le_of_contains (h j hj) hadmits)

end

section

variable {v : Version} (hv : v.prerelease = [])

include hv

/-- A release that is admitted lies in an interval, and not before its start. -/
theorem exists_start_le_of_release (h : r.admits v = true) :
    ∃ i ∈ r.intervals, i.start.key ≤ v.key := by
  have hall : ∀ q ∈ [r], q.admits v = true := by simpa using h
  obtain ⟨i, hi, hcontains⟩ := (forall_admits_iff_of_release hv).mp hall
  refine ⟨i, hi, (Interval.start_le_of_admits ⟨hcontains, Or.inl hv⟩).resolve_right ?_⟩
  exact fun hpre => hpre.2.1 hv

theorem admits_eq_false_of_release (h : r.minVersion? = none) : r.admits v = false := by
  rw [← Bool.not_eq_true]
  intro hadmits
  obtain ⟨i, hi, _⟩ := exists_start_le_of_release hv hadmits
  rw [minVersion?_eq_none_iff.mp h] at hi
  cases hi

theorem key_le_of_release (h : r.minVersion? = some m) (hadmits : r.admits v = true) :
    m.key ≤ v.key := by
  obtain ⟨i, hi, hle⟩ := exists_start_le_of_release hv hadmits
  exact ((start_of_minVersion? h).2 i hi).trans hle

end

/-- **When the least version is found.** Of releases: where none is answered
the range admits none, and no admitted one comes before the answer. Of all
versions of a canonical range: where none is answered the range admits none,
and an admitted one that comes before the answer is there only if `0.0.0-0` is
admitted. The answer is the least admitted version exactly when it is admitted,
and is `0.0.0-0` if that is; so whenever each interval contains its start. -/
theorem minVersion?_found_iff (r : Range) :
    (∀ v : Version, v.prerelease = [] →
      (r.minVersion? = none → r.admits v = false) ∧
      ∀ m ∈ r.minVersion?, r.admits v = true → v.atLeast m = true) ∧
    (r.Canonical →
      (r.minVersion? = none → ∀ v, r.admits v = false) ∧
      (∀ m ∈ r.minVersion?, r.admits Version.first = false →
        ∀ v, r.admits v = true → v.atLeast m = true) ∧
      (r.MinimumFound ↔ ∀ m ∈ r.minVersion?,
        r.admits m = true ∧ (r.admits Version.first = true → m = Version.first)) ∧
      ((∀ i ∈ r.intervals, i.contains i.start = true) → r.MinimumFound)) := by
  refine ⟨fun v hv => ⟨admits_eq_false_of_release hv, fun m hm hadmits => ?_⟩,
    fun hc => ⟨admits_eq_false_of_minVersion? hc, fun m hm hfirst v hv => ?_, ⟨?_, ?_⟩,
      minimumFound_of_contains_start hc⟩⟩
  · exact Version.atLeast_iff.mpr (key_le_of_release hv hm hadmits)
  · rw [Version.atLeast_iff]
    exact (key_le_of_minVersion? hc hm hv).resolve_right (by simp [hfirst])
  · intro hfound m hm
    have hminimum := hfound.isMinimum m hm
    refine ⟨hminimum.admits, fun hfirst => ?_⟩
    have hle := Version.atLeast_iff.mp (hminimum.atLeast _ hfirst)
    exact Version.key_inj (canonical_of_minVersion? hc hm) Version.canonical_first
      (le_antisymm hle (Version.first_le m))
  · intro h
    refine minimumFound_of_isMinimum hc fun m hm => ?_
    obtain ⟨hadmits, hfirst⟩ := h m hm
    refine isMinimum_of_key_le (canonical_of_minVersion? hc hm) hadmits fun v hv => ?_
    rcases key_le_of_minVersion? hc hm hv with hle | hadmitted
    · exact hle
    · rw [hfirst hadmitted]
      exact Version.first_le v

/-- Of two intervals with one start the open one does not contain it, and the
closed one does. -/
theorem minVersion?_found_iff_open_and_closed :
    ∃ r, parse? ">1.0.0-a <2 || 1.0.0-a || 3.x" = some r ∧ r.Canonical ∧ r.MinimumFound ∧
      r.minVersion? = some ⟨1, 0, 0, ["a"]⟩ := by
  refine ⟨_, rfl, by decide, ?_, by decide⟩
  exact ((minVersion?_found_iff _).2 (by decide)).2.2.1.mpr (by decide)

/-- `>1.2.3` does not admit the version that is answered for it, and `<0.0.0`
admits none although one is answered. -/
theorem minVersion?_not_found :
    (∃ r, parse? ">1.2.3" = some r ∧ r.minVersion? = some ⟨1, 2, 3, []⟩ ∧
      r.admits ⟨1, 2, 3, []⟩ = false ∧ r.IsMinimum ⟨1, 2, 4, []⟩) ∧
    ∃ r, parse? "<0.0.0" = some r ∧ r.minVersion? = some ⟨0, 0, 0, []⟩ ∧
      ∀ v, r.admits v = false := by
  constructor
  · refine ⟨_, rfl, by decide, by decide, isMinimum_of_key_le (by decide) (by decide) ?_⟩
    intro v hv
    obtain ⟨i, hi, hadmits⟩ := (admits_iff_exists_admits (by decide)).mp hv
    obtain rfl : i = { lower := some ⟨1, 2, 3, []⟩, lowerInclusive := false } :=
      List.mem_singleton.mp hi
    have hrelease : v.prerelease = [] := hadmits.prerelease_eq_nil (by decide)
    exact Interval.leastRelease_le hrelease ((Interval.contains_iff _ v).mp hadmits.1).1
  · refine ⟨_, rfl, by decide, fun v => ?_⟩
    rw [← Bool.not_eq_true, admits_iff_exists_admits (by decide)]
    rintro ⟨i, hi, hadmits⟩
    obtain rfl : i = { upper := some ⟨0, 0, 0, []⟩, upperInclusive := false } :=
      List.mem_singleton.mp hi
    have hrelease : v.prerelease = [] := hadmits.prerelease_eq_nil (by decide)
    have hleast := (Interval.exists_release_iff _).mp ⟨v, hrelease, hadmits.1⟩
    revert hleast
    decide

end Range

end PackageAudit
