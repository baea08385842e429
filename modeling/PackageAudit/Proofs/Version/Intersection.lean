/-
PackageAudit.Proofs.Version.Intersection — intersecting ranges loses no
version and adds none.

An interval keeps the stronger of two ends, found by comparing the ends with
each other. Where two different ends have one key (`1.0.0-01` and `1.0.0-1`)
each counts as stronger than the other, and the result may be wrong for a
version with that very key. So everything here is said of one version `v` and
of ends taken from a class `P` in which at most one version has the key of
`v` (`Tells P v`). There are two such classes: the canonical versions, for
any `v`, and all versions, for a `v` without prerelease part.

The walk through intervals, alternatives and ranges asks little of what lies
between two ends: the stronger of two ends must stand for both, and ends that
leave no room must have nothing between them (`Sides`). Under these conditions
`between_meet` is the step and `exists_between_intersect` the whole run over a
list of ranges, dropped empty intervals and repetitions included; for versions
they are `contains_meet` and `exists_contains_intersect`.
-/
import PackageAudit.Version.Interval
import PackageAudit.Proofs.Version.LeadingZeros

namespace PackageAudit

/-- At most one version of the class has the key of `v`. -/
def Version.Tells (P : Version → Prop) (v : Version) : Prop :=
  ∀ x y, P x → P y → x.key = v.key → y.key = v.key → x = y

theorem Version.tells_canonical (v : Version) : Version.Tells Version.Canonical v :=
  fun _ _ hx hy hxv hyv => Version.key_inj hx hy (hxv.trans hyv.symm)

theorem Version.tells_of_release {v : Version} (hv : v.prerelease = []) (P : Version → Prop) :
    Version.Tells P v :=
  fun _ _ _ _ hxv hyv => (Version.eq_of_key_eq_of_release hv hxv).trans
    (Version.eq_of_key_eq_of_release hv hyv).symm

namespace Interval

/-! ## 1. Ends -/

/-- `v` is on the inner side of a lower end. -/
def FitsLower (l : Version) (inclusive : Bool) (v : Version) : Prop :=
  l.key ≤ v.key ∧ (inclusive = false → v ≠ l)

/-- `v` is on the inner side of an upper end. -/
def FitsUpper (u : Version) (inclusive : Bool) (v : Version) : Prop :=
  v.key < u.key ∨ (inclusive = true ∧ v = u)

/-- Lying between the ends is fitting each end that is there. -/
theorem contains_iff (i : Interval) (v : Version) : i.contains v = true ↔
    (∀ l ∈ i.lower, FitsLower l i.lowerInclusive v) ∧
    (∀ u ∈ i.upper, FitsUpper u i.upperInclusive v) := by
  obtain ⟨lower, li, upper, ui⟩ := i
  rw [contains, Bool.and_eq_true]
  refine and_congr ?_ ?_
  · cases lower with
    | none => simp
    | some l =>
      cases li <;> simp [FitsLower, Version.atLeast_iff, Version.exceeds_iff]
  · cases upper with
    | none => simp
    | some u =>
      cases ui <;> simp [FitsUpper, Version.atMost_iff, Version.precedes_iff]

/-- All ends of an interval are in a class. -/
def EndsIn (P : Version → Prop) (i : Interval) : Prop :=
  (∀ l ∈ i.lower, P l) ∧ (∀ u ∈ i.upper, P u)

section

variable {P : Version → Prop} {v : Version}

/-- The stronger of two lower ends stands for both. -/
theorem fitsLower_raises (hP : Version.Tells P v) {a b : Version} (ha : P a) (hb : P b)
    (ia ib : Bool) :
    (if raises (some a) b ib then FitsLower b ib v else FitsLower a ia v) ↔
      FitsLower a ia v ∧ FitsLower b ib v := by
  simp only [raises, Bool.or_eq_true, Bool.and_eq_true, beq_iff_eq, Bool.not_eq_true',
    Version.exceeds_iff]
  split
  · rename_i h
    refine ⟨fun hbv => ⟨?_, hbv⟩, fun hv => hv.2⟩
    rcases h with ⟨hle, hne⟩ | ⟨rfl, hib⟩
    · refine ⟨hle.trans hbv.1, fun _ hva => ?_⟩
      subst hva
      exact hne (hP b v hb ha (le_antisymm hbv.1 hle) rfl)
    · exact ⟨hbv.1, fun _ => hbv.2 hib⟩
  · rename_i h
    refine ⟨fun hav => ⟨hav, ?_⟩, fun hv => hv.1⟩
    by_cases hab : b = a
    · subst hab
      exact ⟨hav.1, fun hib => absurd (Or.inr ⟨rfl, hib⟩) h⟩
    · have hlt : b.key < a.key := lt_of_not_ge fun hle => h (Or.inl ⟨hle, hab⟩)
      refine ⟨(hlt.trans_le hav.1).le, fun _ hvb => ?_⟩
      subst hvb
      exact absurd (hlt.trans_le hav.1) (lt_irrefl _)

/-- The stronger of two upper ends stands for both. -/
theorem fitsUpper_lowers (hP : Version.Tells P v) {a b : Version} (ha : P a) (hb : P b)
    (ia ib : Bool) :
    (if lowers (some a) b ib then FitsUpper b ib v else FitsUpper a ia v) ↔
      FitsUpper a ia v ∧ FitsUpper b ib v := by
  simp only [lowers, Bool.or_eq_true, Bool.and_eq_true, beq_iff_eq, Bool.not_eq_true',
    Version.precedes_iff]
  split
  · rename_i h
    refine ⟨fun hbv => ⟨?_, hbv⟩, fun hv => hv.2⟩
    rcases h with hlt | ⟨rfl, hib⟩
    · rcases hbv with hvb | ⟨_, rfl⟩
      · exact Or.inl (hvb.trans hlt)
      · exact Or.inl hlt
    · rcases hbv with hvb | ⟨hib', _⟩
      · exact Or.inl hvb
      · rw [hib] at hib'; cases hib'
  · rename_i h
    have hle : a.key ≤ b.key := not_lt.mp fun hlt => h (Or.inl hlt)
    refine ⟨fun hav => ⟨hav, ?_⟩, fun hv => hv.1⟩
    rcases hav with hva | ⟨_, rfl⟩
    · exact Or.inl (hva.trans_le hle)
    · rcases lt_or_eq_of_le hle with hlt | heq
      · exact Or.inl hlt
      · have hvb : v = b := hP v b ha hb rfl heq.symm
        subst hvb
        refine Or.inr ⟨?_, rfl⟩
        cases ib with
        | true => rfl
        | false => exact absurd (Or.inr ⟨rfl, rfl⟩) h

/-- An upper end that fits a version above a lower one that fits it leaves room. -/
theorem not_isEmpty_of_fits (hP : Version.Tells P v) {l u : Version} (hl : P l) (hu : P u)
    {li ui : Bool} (hfitsLower : FitsLower l li v) (hfitsUpper : FitsUpper u ui v) :
    isEmpty ⟨some l, li, some u, ui⟩ = false := by
  obtain ⟨hle, hne⟩ := hfitsLower
  rw [← Bool.not_eq_true]
  simp only [isEmpty, Bool.or_eq_true, Bool.and_eq_true, beq_iff_eq, Bool.not_eq_true',
    Version.exceeds_iff]
  rcases hfitsUpper with hlt | ⟨hui, rfl⟩
  · rintro (⟨hul, _⟩ | ⟨rfl, _⟩)
    · exact absurd (hlt.trans_le (hul.trans hle)) (lt_irrefl _)
    · exact absurd (hlt.trans_le hle) (lt_irrefl _)
  · rintro (⟨hvl, hlv⟩ | ⟨rfl, hboth⟩)
    · exact hlv (hP l v hl hu (le_antisymm hle hvl) rfl)
    · cases li with
      | true => simp [hui] at hboth
      | false => exact hne rfl rfl

end

/-- Two properties of ends, one of lower and one of upper ends of a class, of
which the stronger end has what both ends have, and which no two ends have
that leave nothing between them. -/
structure Sides (P : Version → Prop) (L U : Version → Bool → Prop) : Prop where
  stronger_lower : ∀ {a b : Version}, P a → P b → ∀ ia ib : Bool,
    ((if raises (some a) b ib then L b ib else L a ia) ↔ L a ia ∧ L b ib)
  stronger_upper : ∀ {a b : Version}, P a → P b → ∀ ia ib : Bool,
    ((if lowers (some a) b ib then U b ib else U a ia) ↔ U a ia ∧ U b ib)
  not_isEmpty : ∀ {l u : Version}, P l → P u → ∀ {li ui : Bool}, L l li → U u ui →
    isEmpty ⟨some l, li, some u, ui⟩ = false

/-- Each end of the interval has the property of its side. -/
def Between (L U : Version → Bool → Prop) (i : Interval) : Prop :=
  (∀ l ∈ i.lower, L l i.lowerInclusive) ∧ (∀ u ∈ i.upper, U u i.upperInclusive)

/-- A version tells the ends that it fits from the others. -/
theorem sides_fits {P : Version → Prop} {v : Version} (hP : Version.Tells P v) :
    Sides P (fun l i => FitsLower l i v) (fun u i => FitsUpper u i v) :=
  ⟨fitsLower_raises hP, fitsUpper_lowers hP, not_isEmpty_of_fits hP⟩

theorem contains_iff_between (i : Interval) (v : Version) :
    i.contains v = true ↔
      i.Between (fun l inclusive => FitsLower l inclusive v)
        fun u inclusive => FitsUpper u inclusive v :=
  contains_iff i v

/-! ## 2. Intervals -/

section

variable {P : Version → Prop} {L U : Version → Bool → Prop}

theorem forall_meetLower (h : Sides P L U) {a b : Interval} (ha : a.EndsIn P) (hb : b.EndsIn P) :
    (∀ l ∈ (meetLower a b).1, L l (meetLower a b).2) ↔
      (∀ l ∈ a.lower, L l a.lowerInclusive) ∧ (∀ l ∈ b.lower, L l b.lowerInclusive) := by
  obtain ⟨la, ia, ua, ja⟩ := a
  obtain ⟨lb, ib, ub, jb⟩ := b
  cases lb with
  | none => simp [meetLower]
  | some lb =>
    cases la with
    | none => simp [meetLower, raises]
    | some la =>
      have h := h.stronger_lower (ha.1 la rfl) (hb.1 lb rfl) ia ib
      cases hr : raises (some la) lb ib <;> simpa [meetLower, hr] using h

theorem forall_meetUpper (h : Sides P L U) {a b : Interval} (ha : a.EndsIn P) (hb : b.EndsIn P) :
    (∀ u ∈ (meetUpper a b).1, U u (meetUpper a b).2) ↔
      (∀ u ∈ a.upper, U u a.upperInclusive) ∧ (∀ u ∈ b.upper, U u b.upperInclusive) := by
  obtain ⟨la, ia, ua, ja⟩ := a
  obtain ⟨lb, ib, ub, jb⟩ := b
  cases ub with
  | none => simp [meetUpper]
  | some ub =>
    cases ua with
    | none => simp [meetUpper, lowers]
    | some ua =>
      have h := h.stronger_upper (ha.2 ua rfl) (hb.2 ub rfl) ja jb
      cases hr : lowers (some ua) ub jb <;> simpa [meetUpper, hr] using h

/-- Intersecting two intervals keeps exactly what lies in both. -/
theorem between_meet (h : Sides P L U) {a b : Interval} (ha : a.EndsIn P) (hb : b.EndsIn P) :
    (a.meet b).Between L U ↔ a.Between L U ∧ b.Between L U := by
  simp only [Between, meet]
  rw [forall_meetLower h ha hb, forall_meetUpper h ha hb]
  constructor
  · rintro ⟨⟨h₁, h₂⟩, h₃, h₄⟩
    exact ⟨⟨h₁, h₃⟩, h₂, h₄⟩
  · rintro ⟨⟨h₁, h₃⟩, h₂, h₄⟩
    exact ⟨⟨h₁, h₂⟩, h₃, h₄⟩

/-- An interval in which something lies is not found empty. -/
theorem not_isEmpty_of_between (h : Sides P L U) {i : Interval} (hi : i.EndsIn P)
    (hbetween : i.Between L U) : i.isEmpty = false := by
  obtain ⟨lower, li, upper, ui⟩ := i
  cases lower with
  | none => rfl
  | some l =>
    cases upper with
    | none => rfl
    | some u =>
      exact h.not_isEmpty (hi.1 l rfl) (hi.2 u rfl) (hbetween.1 l rfl) (hbetween.2 u rfl)

end

section

variable {P : Version → Prop} {v : Version}

/-- Intersecting two intervals keeps exactly the common versions. -/
theorem contains_meet (hP : Version.Tells P v) {a b : Interval} (ha : a.EndsIn P)
    (hb : b.EndsIn P) :
    (a.meet b).contains v = true ↔ a.contains v = true ∧ b.contains v = true := by
  rw [contains_iff_between, contains_iff_between, contains_iff_between]
  exact between_meet (sides_fits hP) ha hb

/-- Every end of an intersection is an end of one of the two. -/
theorem endsIn_meet {a b : Interval} (ha : a.EndsIn P) (hb : b.EndsIn P) :
    (a.meet b).EndsIn P := by
  constructor
  · intro l hl
    simp only [meet, meetLower] at hl
    split at hl
    · rename_i m hm
      split at hl
      · exact hb.1 l (hm.trans hl)
      · exact ha.1 l hl
    · exact ha.1 l hl
  · intro u hu
    simp only [meet, meetUpper] at hu
    split at hu
    · rename_i m hm
      split at hu
      · exact hb.2 u (hm.trans hu)
      · exact ha.2 u hu
    · exact ha.2 u hu

/-! ## 3. Comparator sets -/

theorem contains_ofComparator (c : Comparator) (v : Version) :
    (ofComparator c).contains v = true ↔ c.admits v = true := by
  obtain ⟨relation, w⟩ := c
  cases relation with
  | less => simp [ofComparator, contains, Comparator.admits]
  | atMost => simp [ofComparator, contains, Comparator.admits]
  | greater => simp [ofComparator, contains, Comparator.admits]
  | atLeast => simp [ofComparator, contains, Comparator.admits]
  | equal =>
    simp only [ofComparator, contains, Comparator.admits, if_true, Bool.and_eq_true,
      Version.atLeast_iff, Version.atMost_iff, beq_iff_eq]
    constructor
    · rintro ⟨hle, hlt | heq⟩
      · exact absurd (hlt.trans_le hle) (lt_irrefl _)
      · exact heq
    · rintro rfl
      exact ⟨le_rfl, Or.inr rfl⟩

theorem endsIn_ofComparator {c : Comparator} (hc : P c.version) : (ofComparator c).EndsIn P := by
  obtain ⟨relation, w⟩ := c
  have hw : ∀ x ∈ some w, P x := by
    intro x hx
    cases hx
    exact hc
  have hn : ∀ x ∈ (none : Option Version), P x := by
    intro x hx
    cases hx
  cases relation with
  | less => exact ⟨hn, hw⟩
  | atMost => exact ⟨hn, hw⟩
  | greater => exact ⟨hw, hn⟩
  | atLeast => exact ⟨hw, hn⟩
  | equal => exact ⟨hw, hw⟩

theorem endsIn_all : EndsIn P {} := by
  constructor
  · intro l hl; cases hl
  · intro u hu; cases hu

theorem endsIn_foldl_meet (s : ComparatorSet) (hs : ∀ c ∈ s, P c.version) (i : Interval)
    (hi : i.EndsIn P) : (s.foldl (fun i c => i.meet (ofComparator c)) i).EndsIn P := by
  induction s generalizing i with
  | nil => exact hi
  | cons c s ih =>
    exact ih (fun d hd => hs d (by simp [hd])) _
      (endsIn_meet hi (endsIn_ofComparator (hs c (by simp))))

theorem contains_foldl_meet (hP : Version.Tells P v) (s : ComparatorSet)
    (hs : ∀ c ∈ s, P c.version) (i : Interval) (hi : i.EndsIn P) :
    (s.foldl (fun i c => i.meet (ofComparator c)) i).contains v = true ↔
      i.contains v = true ∧ s.allAdmit v = true := by
  induction s generalizing i with
  | nil => simp [ComparatorSet.allAdmit]
  | cons c s ih =>
    have hc : (ofComparator c).EndsIn P := endsIn_ofComparator (hs c (by simp))
    rw [List.foldl_cons, ih (fun d hd => hs d (by simp [hd])) _ (endsIn_meet hi hc),
      contains_meet hP hi hc, contains_ofComparator]
    simp only [ComparatorSet.allAdmit, List.all_cons, Bool.and_eq_true, and_assoc]

theorem endsIn_ofSet {s : ComparatorSet} (hs : ∀ c ∈ s, P c.version) : (ofSet s).EndsIn P :=
  endsIn_foldl_meet s hs {} endsIn_all

/-- The interval of a comparator set contains what all comparators admit. -/
theorem contains_ofSet (hP : Version.Tells P v) {s : ComparatorSet} (hs : ∀ c ∈ s, P c.version) :
    (ofSet s).contains v = true ↔ s.allAdmit v = true := by
  rw [ofSet, contains_foldl_meet hP s hs {} endsIn_all]
  exact and_iff_right rfl

end

theorem beq_eq (i j : Interval) : (i == j) =
    (i.lower == j.lower && (i.lowerInclusive == j.lowerInclusive &&
      (i.upper == j.upper && i.upperInclusive == j.upperInclusive))) := rfl

instance : LawfulBEq Interval where
  rfl {i} := by simp [beq_eq]
  eq_of_beq {i j} h := by
    simp only [beq_eq, Bool.and_eq_true, beq_iff_eq] at h
    obtain ⟨h₁, h₂, h₃, h₄⟩ := h
    cases i
    cases j
    simp_all

end Interval

namespace Range

variable {P : Version → Prop} {L U : Version → Bool → Prop} {v : Version}

/-! ## 4. Ranges -/

/-- All bounds that a range names are in a class. -/
def BoundsIn (P : Version → Prop) (r : Range) : Prop := ∀ s ∈ r.sets, ∀ c ∈ s, P c.version

theorem endsIn_of_mem_intervals {r : Range} (hr : r.BoundsIn P) {i : Interval}
    (hi : i ∈ r.intervals) : i.EndsIn P := by
  simp only [intervals, List.mem_filter, List.mem_map] at hi
  obtain ⟨⟨s, hs, rfl⟩, _⟩ := hi
  exact Interval.endsIn_ofSet (hr s hs)

/-- What lies in an interval of a range lies in that of some alternative: those
left out as empty have nothing in them. -/
theorem exists_between_intervals (h : Interval.Sides P L U) {r : Range} (hr : r.BoundsIn P) :
    (∃ i ∈ r.intervals, i.Between L U) ↔ ∃ s ∈ r.sets, (Interval.ofSet s).Between L U := by
  simp only [intervals, List.mem_filter, List.mem_map]
  constructor
  · rintro ⟨i, ⟨⟨s, hs, rfl⟩, _⟩, hbetween⟩
    exact ⟨s, hs, hbetween⟩
  · rintro ⟨s, hs, hbetween⟩
    refine ⟨Interval.ofSet s, ⟨⟨s, hs, rfl⟩, ?_⟩, hbetween⟩
    rw [Interval.not_isEmpty_of_between h (Interval.endsIn_ofSet (hr s hs)) hbetween]
    rfl

theorem mem_foldl_merge (xs merged : List Interval) (j : Interval) :
    j ∈ xs.foldl (fun merged i =>
      if !i.isEmpty && !merged.contains i then merged ++ [i] else merged) merged ↔
      j ∈ merged ∨ (j ∈ xs ∧ j.isEmpty = false) := by
  induction xs generalizing merged with
  | nil => simp
  | cons x xs ih =>
    rw [List.foldl_cons, ih]
    split
    · rename_i hx
      simp only [Bool.and_eq_true, Bool.not_eq_true'] at hx
      simp only [List.mem_append, List.mem_cons, List.not_mem_nil, or_false]
      constructor
      · rintro ((hj | rfl) | ⟨hj, he⟩)
        · exact Or.inl hj
        · exact Or.inr ⟨Or.inl rfl, hx.1⟩
        · exact Or.inr ⟨Or.inr hj, he⟩
      · rintro (hj | ⟨rfl | hj, he⟩)
        · exact Or.inl (Or.inl hj)
        · exact Or.inl (Or.inr rfl)
        · exact Or.inr ⟨hj, he⟩
    · rename_i hx
      simp only [Bool.and_eq_true, Bool.not_eq_true', not_and, Bool.not_eq_false,
        List.contains_iff_mem] at hx
      simp only [List.mem_cons]
      constructor
      · rintro (hj | ⟨hj, he⟩)
        · exact Or.inl hj
        · exact Or.inr ⟨Or.inr hj, he⟩
      · rintro (hj | ⟨rfl | hj, he⟩)
        · exact Or.inl hj
        · exact Or.inl (hx he)
        · exact Or.inr ⟨hj, he⟩

/-- The members of a merge are the non-empty pairwise intersections. -/
theorem mem_meetAll {left right : List Interval} {i : Interval} :
    i ∈ meetAll left right ↔
      (∃ l ∈ left, ∃ r ∈ right, l.meet r = i) ∧ i.isEmpty = false := by
  rw [meetAll, mem_foldl_merge]
  simp [List.mem_flatMap]

theorem endsIn_meetAll {left right : List Interval} (hl : ∀ i ∈ left, i.EndsIn P)
    (hr : ∀ i ∈ right, i.EndsIn P) : ∀ i ∈ meetAll left right, i.EndsIn P := by
  intro i hi
  obtain ⟨⟨l, hlm, r, hrm, rfl⟩, _⟩ := mem_meetAll.mp hi
  exact Interval.endsIn_meet (hl l hlm) (hr r hrm)

theorem exists_between_meetAll (h : Interval.Sides P L U) {left right : List Interval}
    (hl : ∀ i ∈ left, i.EndsIn P) (hr : ∀ i ∈ right, i.EndsIn P) :
    (∃ i ∈ meetAll left right, i.Between L U) ↔
      (∃ i ∈ left, i.Between L U) ∧ (∃ i ∈ right, i.Between L U) := by
  constructor
  · rintro ⟨i, hi, hbetween⟩
    obtain ⟨⟨l, hlm, r, hrm, rfl⟩, _⟩ := mem_meetAll.mp hi
    obtain ⟨hlb, hrb⟩ := (Interval.between_meet h (hl l hlm) (hr r hrm)).mp hbetween
    exact ⟨⟨l, hlm, hlb⟩, r, hrm, hrb⟩
  · rintro ⟨⟨l, hlm, hlb⟩, r, hrm, hrb⟩
    have hbetween : (l.meet r).Between L U :=
      (Interval.between_meet h (hl l hlm) (hr r hrm)).mpr ⟨hlb, hrb⟩
    have hne : (l.meet r).isEmpty = false :=
      Interval.not_isEmpty_of_between h (Interval.endsIn_meet (hl l hlm) (hr r hrm)) hbetween
    exact ⟨l.meet r, mem_meetAll.mpr ⟨⟨l, hlm, r, hrm, rfl⟩, hne⟩, hbetween⟩

/-! ## 5. Lists of ranges -/

/-- One more range at a time: the intervals kept so far and a range each
lose only what the other does not have. -/
theorem exists_between_foldl (h : Interval.Sides P L U) (rs : List Range)
    (hrs : ∀ r ∈ rs, r.BoundsIn P) (current : List Interval) (hc : ∀ i ∈ current, i.EndsIn P) :
    (∃ i ∈ rs.foldl (fun current s => meetAll current s.intervals) current, i.Between L U) ↔
      (∃ i ∈ current, i.Between L U) ∧
        ∀ r ∈ rs, ∃ s ∈ r.sets, (Interval.ofSet s).Between L U := by
  induction rs generalizing current with
  | nil => simp
  | cons r rs ih =>
    have hr : r.BoundsIn P := hrs r (by simp)
    have hends : ∀ i ∈ r.intervals, i.EndsIn P := fun i hi => endsIn_of_mem_intervals hr hi
    rw [List.foldl_cons, ih (fun q hq => hrs q (by simp [hq])) _ (endsIn_meetAll hc hends),
      exists_between_meetAll h hc hends, exists_between_intervals h hr, and_assoc,
      List.forall_mem_cons]

theorem endsIn_foldl_meetAll (rs : List Range) (hrs : ∀ r ∈ rs, r.BoundsIn P)
    (current : List Interval) (hc : ∀ i ∈ current, i.EndsIn P) :
    ∀ i ∈ rs.foldl (fun current s => meetAll current s.intervals) current, i.EndsIn P := by
  induction rs generalizing current with
  | nil => exact hc
  | cons r rs ih =>
    have hends : ∀ i ∈ r.intervals, i.EndsIn P :=
      fun i hi => endsIn_of_mem_intervals (hrs r (by simp)) hi
    exact ih (fun q hq => hrs q (by simp [hq])) _ (endsIn_meetAll hc hends)

theorem endsIn_intersect {rs : List Range} (hrs : ∀ r ∈ rs, r.BoundsIn P) :
    ∀ i ∈ intersect rs, i.EndsIn P := by
  cases rs with
  | nil =>
    intro i hi
    rw [intersect, List.mem_singleton] at hi
    subst hi
    exact Interval.endsIn_all
  | cons r rs =>
    exact endsIn_foldl_meetAll rs (fun q hq => hrs q (by simp [hq])) _
      fun i hi => endsIn_of_mem_intervals (hrs r (by simp)) hi

/-- In the intervals of an intersection lies exactly what every range has an
alternative for. -/
theorem exists_between_intersect (h : Interval.Sides P L U) {rs : List Range}
    (hrs : ∀ r ∈ rs, r.BoundsIn P) :
    (∃ i ∈ intersect rs, i.Between L U) ↔
      ∀ r ∈ rs, ∃ s ∈ r.sets, (Interval.ofSet s).Between L U := by
  cases rs with
  | nil => simp [intersect, Interval.Between]
  | cons r rs =>
    have hr : r.BoundsIn P := hrs r (by simp)
    rw [intersect, exists_between_foldl h rs (fun q hq => hrs q (by simp [hq])) _
      (fun i hi => endsIn_of_mem_intervals hr hi), exists_between_intervals h hr,
      List.forall_mem_cons]

/-- The intervals of an intersection contain exactly the versions that every
range has an alternative for. -/
theorem exists_contains_intersect (hP : Version.Tells P v) {rs : List Range}
    (hrs : ∀ r ∈ rs, r.BoundsIn P) :
    (∃ i ∈ intersect rs, i.contains v = true) ↔
      ∀ r ∈ rs, ∃ s ∈ r.sets, s.allAdmit v = true := by
  have hbetween := exists_between_intersect (Interval.sides_fits hP) hrs
  simp only [← Interval.contains_iff_between] at hbetween
  rw [hbetween]
  refine forall₂_congr fun r hr => exists_congr fun s => and_congr_right fun hs => ?_
  exact Interval.contains_ofSet hP (hrs r hr s hs)

/-- The versions that a range names are canonical. -/
def Canonical (r : Range) : Prop := r.BoundsIn Version.Canonical

instance (r : Range) : Decidable r.Canonical :=
  inferInstanceAs (Decidable (∀ s ∈ r.sets, ∀ c ∈ s, c.version.Canonical))

/-- A version that a range admits passes all comparators of some alternative. -/
theorem exists_allAdmit_of_admits {r : Range} (h : r.admits v = true) :
    ∃ s ∈ r.sets, s.allAdmit v = true := by
  simp only [admits, List.any_eq_true, ComparatorSet.admits, Bool.and_eq_true] at h
  obtain ⟨s, hs, hv, _⟩ := h
  exact ⟨s, hs, hv⟩

/-- Canonical ranges that admit one version together intersect. -/
theorem haveIntersection_of_admits {ranges : List Range} (hc : ∀ r ∈ ranges, r.Canonical)
    (hall : ∀ r ∈ ranges, r.admits v = true) : haveIntersection ranges = true := by
  obtain ⟨i, hi, _⟩ := (exists_contains_intersect (Version.tells_canonical v) hc).mpr
    fun r hr => exists_allAdmit_of_admits (hall r hr)
  rw [haveIntersection, Bool.not_eq_true', List.isEmpty_eq_false_iff]
  exact List.ne_nil_of_mem hi

/-- **Intersection is exact.** For canonical ranges, the intervals of their
intersection contain exactly the versions that pass, in every range, all
comparators of some alternative. So ranges that admit one version together
are found to intersect. -/
theorem intersect_exact {ranges : List Range} (hc : ∀ r ∈ ranges, r.Canonical) (v : Version) :
    ((∃ i ∈ intersect ranges, i.contains v = true) ↔
      ∀ r ∈ ranges, ∃ s ∈ r.sets, s.allAdmit v = true) ∧
    ((∀ r ∈ ranges, r.admits v = true) → haveIntersection ranges = true) := by
  have hiff := exists_contains_intersect (Version.tells_canonical v) hc
  refine ⟨hiff, fun hall => ?_⟩
  obtain ⟨i, hi, _⟩ := hiff.mpr fun r hr => exists_allAdmit_of_admits (hall r hr)
  rw [haveIntersection, Bool.not_eq_true', List.isEmpty_eq_false_iff]
  exact List.ne_nil_of_mem hi

/-- Exactness at a prerelease next to an open end. -/
theorem intersect_exact_at_open_end :
    ∃ ranges, ["^1.2.0-rc.1 || >=3.0.0", ">1.2.0-rc.1 <2 || 4.x"].mapM parse? = some ranges ∧
      (∀ r ∈ ranges, r.Canonical) ∧
      (∃ i ∈ intersect ranges, i.contains ⟨1, 2, 0, ["rc", "2"]⟩ = true) ∧
      ¬ (∃ i ∈ intersect ranges, i.contains ⟨1, 2, 0, ["rc", "1"]⟩ = true) := by
  refine ⟨_, rfl, by decide, ?_, ?_⟩
  · exact (intersect_exact (by decide) _).1.mpr (by decide)
  · exact mt (intersect_exact (by decide) _).1.mp (by decide)

/-- Ends that differ in a leading zero make an interval empty that a version
lies in. -/
example : (parse? ">=1.0.0-01 <=1.0.0-1").map (fun r =>
    (intersect [r], r.admits ⟨1, 0, 0, ["1"]⟩)) = some ([], true) := by decide

end Range

end PackageAudit
