/-
PackageAudit.Proofs.Version.Gap — ranges intersect where they leave a gap in
common.

Whether ranges intersect is decided by comparing ends, and an interval that is
found not to be empty need not contain a version (`>0.0.3 <0.0.4-0`). What it
always has in it is a gap: a place just before or just behind the versions of
one key, or the one before all versions. Gaps are in a linear order, a lower
end cuts off the gaps before it and an upper end those from it on, so gaps are
on two sides in the sense of the intersection theorems (`sides_gap`).

`haveIntersection_iff` says of canonical ranges that they intersect exactly
when some gap is left by an alternative of each. Neither the order of the
ranges nor repetitions occur in that condition.
-/
import PackageAudit.Proofs.Version.Intersection

namespace PackageAudit

/-- A place between versions: before all of them, or just before or just
behind the versions of one key. -/
abbrev Version.Gap := WithBot (Version.Key ×ₗ Bool)

/-- The gap just before the versions with the key of `v`, or just behind them. -/
def Version.gap (v : Version) (behind : Bool) : Version.Gap := ↑(toLex (v.key, behind))

theorem Version.gap_le_gap {a b : Version} {x y : Bool} :
    a.gap x ≤ b.gap y ↔ a.key < b.key ∨ a.key = b.key ∧ x ≤ y := by
  rw [gap, gap, WithBot.coe_le_coe, Prod.Lex.toLex_le_toLex]

theorem Version.gap_lt_gap {a b : Version} {x y : Bool} :
    a.gap x < b.gap y ↔ a.key < b.key ∨ a.key = b.key ∧ x < y := by
  rw [gap, gap, WithBot.coe_lt_coe, Prod.Lex.toLex_lt_toLex]

namespace Interval

/-! ## 1. Ends -/

theorem gap_le_of_raises {a b : Version} {ia ib : Bool} (ha : a.Canonical) (hb : b.Canonical)
    (h : raises (some a) b ib = true) : a.gap (!ia) ≤ b.gap (!ib) := by
  simp only [raises, Bool.or_eq_true, Bool.and_eq_true, beq_iff_eq, Bool.not_eq_true',
    Version.exceeds_iff] at h
  rw [Version.gap_le_gap]
  rcases h with ⟨hle, hne⟩ | ⟨rfl, rfl⟩
  · exact Or.inl (lt_of_le_of_ne hle fun hkey => hne (Version.key_inj hb ha hkey.symm))
  · exact Or.inr ⟨rfl, Bool.le_true _⟩

theorem gap_le_of_not_raises {a b : Version} {ia ib : Bool}
    (h : ¬ raises (some a) b ib = true) : b.gap (!ib) ≤ a.gap (!ia) := by
  simp only [raises, Bool.or_eq_true, Bool.and_eq_true, beq_iff_eq, Bool.not_eq_true',
    Version.exceeds_iff, not_or, not_and, not_not] at h
  obtain ⟨hexceeds, hopen⟩ := h
  rw [Version.gap_le_gap]
  rcases lt_or_ge b.key a.key with hlt | hge
  · exact Or.inl hlt
  · obtain rfl := hexceeds hge
    have hib : ib = true := by simpa using hopen rfl
    subst hib
    exact Or.inr ⟨rfl, Bool.false_le _⟩

theorem gap_le_of_lowers {a b : Version} {ia ib : Bool}
    (h : lowers (some a) b ib = true) : b.gap ib ≤ a.gap ia := by
  simp only [lowers, Bool.or_eq_true, Bool.and_eq_true, beq_iff_eq, Bool.not_eq_true',
    Version.precedes_iff] at h
  rw [Version.gap_le_gap]
  rcases h with hlt | ⟨rfl, rfl⟩
  · exact Or.inl hlt
  · exact Or.inr ⟨rfl, Bool.false_le _⟩

theorem gap_le_of_not_lowers {a b : Version} {ia ib : Bool} (ha : a.Canonical)
    (hb : b.Canonical) (h : ¬ lowers (some a) b ib = true) : a.gap ia ≤ b.gap ib := by
  simp only [lowers, Bool.or_eq_true, Bool.and_eq_true, beq_iff_eq, Bool.not_eq_true',
    Version.precedes_iff, not_or, not_lt, not_and, Bool.not_eq_false] at h
  obtain ⟨hle, hopen⟩ := h
  rw [Version.gap_le_gap]
  rcases hle.lt_or_eq with hlt | hkey
  · exact Or.inl hlt
  · obtain rfl := Version.key_inj ha hb hkey
    exact Or.inr ⟨rfl, hopen rfl ▸ Bool.le_true _⟩

/-- Between a lower and an upper end that leave a gap there is room. -/
theorem not_isEmpty_of_gap {l u : Version} {li ui : Bool} (hl : l.Canonical) (hu : u.Canonical)
    (h : l.gap (!li) < u.gap ui) : isEmpty ⟨some l, li, some u, ui⟩ = false := by
  rw [Version.gap_lt_gap] at h
  rw [← Bool.not_eq_true]
  simp only [isEmpty, Bool.or_eq_true, Bool.and_eq_true, beq_iff_eq, Bool.not_eq_true',
    Version.exceeds_iff]
  rcases h with hlt | ⟨hkey, hends⟩
  · rintro (⟨hle, _⟩ | ⟨rfl, _⟩)
    · exact absurd (hlt.trans_le hle) (lt_irrefl _)
    · exact absurd hlt (lt_irrefl _)
  · obtain rfl := Version.key_inj hl hu hkey
    rintro (⟨_, hne⟩ | ⟨_, hopen⟩)
    · exact hne rfl
    · revert hends hopen
      cases li <;> cases ui <;> decide

/-- A gap tells the ends that it lies behind, or before, from the others. -/
theorem sides_gap (g : Version.Gap) :
    Sides Version.Canonical (fun l inclusive => l.gap (!inclusive) ≤ g)
      fun u inclusive => g < u.gap inclusive where
  stronger_lower := by
    intro a b ha hb ia ib
    split
    · rename_i h
      exact ⟨fun hg => ⟨(gap_le_of_raises ha hb h).trans hg, hg⟩, fun hg => hg.2⟩
    · rename_i h
      exact ⟨fun hg => ⟨hg, (gap_le_of_not_raises h).trans hg⟩, fun hg => hg.1⟩
  stronger_upper := by
    intro a b ha hb ia ib
    split
    · rename_i h
      exact ⟨fun hg => ⟨hg.trans_le (gap_le_of_lowers h), hg⟩, fun hg => hg.2⟩
    · rename_i h
      exact ⟨fun hg => ⟨hg, hg.trans_le (gap_le_of_not_lowers ha hb h)⟩, fun hg => hg.1⟩
  not_isEmpty := fun hl hu _ _ hlower hupper => not_isEmpty_of_gap hl hu (hlower.trans_lt hupper)

/-! ## 2. Intervals and ranges -/

/-- The gap lies between the ends. -/
def Leaves (i : Interval) (g : Version.Gap) : Prop :=
  i.Between (fun l inclusive => l.gap (!inclusive) ≤ g) fun u inclusive => g < u.gap inclusive

/-- An interval that is not found empty leaves the gap at its lower end. -/
theorem exists_leaves_of_not_isEmpty {i : Interval} (h : i.isEmpty = false) :
    ∃ g, i.Leaves g := by
  obtain ⟨lower, li, upper, ui⟩ := i
  cases lower with
  | none =>
    refine ⟨⊥, by simp, fun u _ => WithBot.bot_lt_coe _⟩
  | some l =>
    refine ⟨l.gap (!li), by simp, ?_⟩
    rintro u ⟨rfl⟩
    rw [← Bool.not_eq_true] at h
    simp only [isEmpty, Bool.or_eq_true, Bool.and_eq_true, beq_iff_eq, Bool.not_eq_true',
      Version.exceeds_iff, not_or, not_and, not_not, Bool.not_eq_false] at h
    rw [Version.gap_lt_gap]
    rcases lt_or_ge l.key u.key with hlt | hge
    · exact Or.inl hlt
    · obtain rfl := h.1 hge
      obtain ⟨rfl, rfl⟩ := h.2 rfl
      exact Or.inr ⟨rfl, Bool.false_lt_true⟩

end Interval

namespace Range

variable {ranges : List Range}

/-- Some alternative of the range leaves the gap. -/
def Leaves (r : Range) (g : Version.Gap) : Prop := ∃ s ∈ r.sets, (Interval.ofSet s).Leaves g

theorem not_isEmpty_of_mem_intersect (ranges : List Range) :
    ∀ i ∈ intersect ranges, i.isEmpty = false := by
  have hfold : ∀ (rs : List Range) (current : List Interval),
      (∀ i ∈ current, i.isEmpty = false) →
      ∀ i ∈ rs.foldl (fun current s => meetAll current s.intervals) current,
        i.isEmpty = false := by
    intro rs
    induction rs with
    | nil => exact fun _ h => h
    | cons r rs ih => exact fun _ _ => ih _ fun i hi => (mem_meetAll.mp hi).2
  cases ranges with
  | nil =>
    intro i hi
    rw [List.mem_singleton.mp hi]
    rfl
  | cons r rs =>
    exact hfold rs _ fun i hi => by simpa using (List.mem_filter.mp hi).2

/-- **Intersection by gaps.** Canonical ranges are found to intersect exactly
when some gap is left by all of them. -/
theorem haveIntersection_iff (hc : ∀ r ∈ ranges, r.Canonical) :
    haveIntersection ranges = true ↔ ∃ g, ∀ r ∈ ranges, r.Leaves g := by
  have hgap : ∀ g, (∃ i ∈ intersect ranges, i.Leaves g) ↔ ∀ r ∈ ranges, r.Leaves g :=
    fun g => exists_between_intersect (Interval.sides_gap g) hc
  simp only [← hgap, haveIntersection, Bool.not_eq_true', List.isEmpty_eq_false_iff]
  constructor
  · intro hne
    obtain ⟨i, hi⟩ := List.exists_mem_of_ne_nil _ hne
    obtain ⟨g, hg⟩ :=
      Interval.exists_leaves_of_not_isEmpty (not_isEmpty_of_mem_intersect ranges i hi)
    exact ⟨g, i, hi, hg⟩
  · rintro ⟨_, i, hi, _⟩
    exact List.ne_nil_of_mem hi

end Range

end PackageAudit
