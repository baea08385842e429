/-
PackageAudit.Proofs.Version.Prerelease — prereleases are admitted where they
are named.

Besides its bounds a comparator set asks one thing of a prerelease: that some
bound names a prerelease of the same release. An interval has only the
strongest bounds of the set. That is enough: when a version lies between a
dominated bound and the end that dominates it, all three have one release
(`named_of_between`), so the end names it as well. And `X.Y.Z-0` as an open
upper end, which is printed without its prerelease part, names nothing that
lies below it, since `0` is the least prerelease (`not_precedes_least`). So a
range admits what the printed intervals admit, prereleases included.

The bounds that operators bring along are of the same kind, releases and open
upper ends at the least prerelease. A range that mentions no prerelease
therefore admits none.
-/
import PackageAudit.Proofs.Version.CommonVersion

namespace PackageAudit

/-! ## 1. Naming -/

namespace Version

/-- One of the versions is a prerelease of the release of `v`. -/
def NamedIn (v : Version) (bs : List Version) : Prop :=
  ∃ b ∈ bs, b.prerelease ≠ [] ∧ b.release = v.release

/-- Between versions of one release, of which the greater one is a prerelease,
there are only prereleases of that release. -/
theorem named_of_between {a b c : Version} (hab : a.key ≤ b.key) (hbc : b.key ≤ c.key)
    (hrelease : c.release = a.release) (hc : c.prerelease ≠ []) :
    b.prerelease ≠ [] ∧ b.release = a.release := by
  have hb : b.release = a.release := release_eq_of_key_le hab hbc hrelease
  refine ⟨fun hnil => ?_, hb⟩
  have hparts := (key_le_iff_of_release (hb.trans hrelease.symm)).mp hbc
  rw [hnil] at hparts
  exact absurd (prereleaseKey_lt_nil hc) (not_lt.mpr hparts)

/-- No version of a release comes before its least prerelease. -/
theorem not_precedes_least {v u : Version} (hrelease : v.release = u.release)
    (hu : u.prerelease = ["0"]) : v.precedes u = false := by
  rw [← Bool.not_eq_true, precedes_iff, not_lt, key_le_iff_of_release hrelease.symm, hu]
  exact prereleaseKey_zero_le _

/-- A version of another release does not see the prerelease part of a bound. -/
theorem precedes_release_of_ne {v u : Version} (h : v.release ≠ u.release) :
    v.precedes { u with prerelease := [] } = v.precedes u := by
  have hnumbers : ¬ (v.major = u.major ∧ v.minor = u.minor ∧ v.patch = u.patch) := by
    rintro ⟨h₁, h₂, h₃⟩
    exact h (by rw [release, release, h₁, h₂, h₃])
  rw [Bool.eq_iff_iff, precedes_iff, precedes_iff]
  simp only [key, Prod.Lex.toLex_lt_toLex]
  tauto

end Version

theorem ComparatorSet.admits_iff (s : ComparatorSet) (v : Version) :
    s.admits v = true ↔
      s.allAdmit v = true ∧ (v.prerelease = [] ∨ v.NamedIn (s.map (·.version))) := by
  simp [ComparatorSet.admits, Version.NamedIn, Comparator.namesPrereleaseOf]

/-- Where the only prereleases that are named are open upper ends of operators,
no prerelease is admitted: nothing of such a release lies below the end. -/
theorem ComparatorSet.prerelease_eq_nil_of_admits {s : ComparatorSet} {v : Version}
    (hs : ∀ c ∈ s, c.version.prerelease ≠ [] →
      c.relation = .less ∧ c.version.prerelease = ["0"])
    (h : s.admits v = true) : v.prerelease = [] := by
  obtain ⟨hall, hnamed⟩ := (s.admits_iff v).mp h
  refine hnamed.resolve_right ?_
  rintro ⟨b, hb, hne, hrelease⟩
  obtain ⟨c, hc, rfl⟩ := List.mem_map.mp hb
  obtain ⟨hless, hpre⟩ := hs c hc hne
  have hbelow : c.admits v = true := List.all_eq_true.mp hall c hc
  rw [Comparator.admits, hless, Version.not_precedes_least hrelease.symm hpre] at hbelow
  cases hbelow

namespace Interval

/-- The ends that are there. -/
def ends (i : Interval) : List Version := i.lower.toList ++ i.upper.toList

/-- The version lies between the ends and, if it is a prerelease, an end names
it. -/
def Admits (i : Interval) (v : Version) : Prop :=
  i.contains v = true ∧ (v.prerelease = [] ∨ v.NamedIn i.ends)

/-! ## 2. Printed intervals -/

theorem version_bounds (i : Interval) : i.bounds.map (·.version) = i.ends := by
  obtain ⟨lower, li, upper, ui⟩ := i
  cases lower <;> cases upper <;> rfl

theorem admits_bounds (i : Interval) (v : Version) : i.bounds.admits v = true ↔ i.Admits v := by
  rw [ComparatorSet.admits_iff, allAdmit_bounds, version_bounds, Admits]

theorem admits_equal (l v : Version) : ComparatorSet.admits [⟨.equal, l⟩] v = true ↔
    Admits ⟨some l, true, some l, true⟩ v := by
  rw [ComparatorSet.admits_iff, allAdmit_equal, Admits]
  simp [Version.NamedIn, ends]

theorem precedes_of_not_isEmpty {l u : Version} {li : Bool}
    (h : isEmpty ⟨some l, li, some u, false⟩ = false) : l.precedes u = true := by
  simp only [isEmpty, Bool.or_eq_false_iff, Version.exceeds, Bool.and_eq_false_iff,
    Bool.not_eq_false', bne_eq_false_iff_eq, beq_eq_false_iff_ne, Bool.and_false] at h
  obtain ⟨hprecedes | hlu, hne | hopen⟩ := h
  · exact hprecedes
  · exact hprecedes
  · exact absurd hlu hne
  · cases hopen

theorem printed_of_not_least {i : Interval}
    (h : ∀ u ∈ i.upper, i.upperInclusive = false → u.prerelease ≠ ["0"]) : i.printed = i := by
  obtain ⟨lower, li, upper, ui⟩ := i
  cases upper with
  | none => rfl
  | some u =>
    have hkeep : (!ui && u.prerelease == ["0"]) = false := by
      cases ui with
      | true => rfl
      | false => exact beq_false_of_ne (h u rfl rfl)
    simp only [printed, Option.map_some, hkeep, Bool.false_eq_true, if_false]

section

variable {lower : Option Version} {li : Bool} {u v : Version} (hu : u.prerelease = ["0"])

include hu

theorem printed_least : printed ⟨lower, li, some u, false⟩ =
    ⟨lower, li, some { u with prerelease := [] }, false⟩ := by
  simp [printed, hu]

theorem not_contains_least (hrelease : v.release = u.release) :
    ¬ contains ⟨lower, li, some u, false⟩ v = true := by
  intro hcontains
  have hvu := Version.not_precedes_least hrelease hu
  rw [← Bool.not_eq_true, Version.precedes_iff] at hvu
  rcases ((contains_iff _ v).mp hcontains).2 u rfl with hlt | ⟨hclosed, _⟩
  · exact hvu hlt
  · cases hclosed

/-- The printed end names nothing, and no lower end has its release. -/
theorem not_namedIn_least (hne : isEmpty ⟨lower, li, some u, false⟩ = false)
    (hrelease : v.release = u.release) :
    ¬ v.NamedIn (printed ⟨lower, li, some u, false⟩).ends := by
  rintro ⟨b, hb, hnamed, hbv⟩
  rw [printed_least hu] at hb
  rcases List.mem_append.mp hb with hb | hb
  · obtain rfl := Option.mem_toList.mp hb
    have hlu := precedes_of_not_isEmpty hne
    rw [Version.not_precedes_least (hbv.trans hrelease) hu] at hlu
    cases hlu
  · rw [List.mem_singleton.mp hb] at hnamed
    exact hnamed rfl

theorem namedIn_least_iff (hrelease : v.release ≠ u.release) :
    v.NamedIn (printed ⟨lower, li, some u, false⟩).ends ↔
      v.NamedIn (ends ⟨lower, li, some u, false⟩) := by
  simp [printed_least hu, Version.NamedIn, ends, or_and_right, exists_or, hrelease.symm]

theorem admits_printed_least (hne : isEmpty ⟨lower, li, some u, false⟩ = false) :
    (printed ⟨lower, li, some u, false⟩).Admits v ↔ Admits ⟨lower, li, some u, false⟩ v := by
  by_cases hv : v.prerelease = []
  · simp only [Admits, hv, true_or, and_true]
    rw [contains_printed fun w _ => Version.precedes_release hv w]
  by_cases hrelease : v.release = u.release
  · refine iff_of_false ?_ fun h => not_contains_least hu hrelease h.1
    exact fun h => h.2.elim hv (not_namedIn_least hu hne hrelease)
  · rw [Admits, Admits, namedIn_least_iff hu hrelease, contains_printed]
    rintro w ⟨rfl⟩
    exact Version.precedes_release_of_ne hrelease

end

/-- The printed ends of an interval that is not empty admit what its ends
admit. -/
theorem admits_printed {i : Interval} (hi : i.isEmpty = false) (v : Version) :
    i.printed.Admits v ↔ i.Admits v := by
  by_cases hleast : ∀ u ∈ i.upper, i.upperInclusive = false → u.prerelease ≠ ["0"]
  · rw [printed_of_not_least hleast]
  · obtain ⟨lower, li, upper, ui⟩ := i
    push Not at hleast
    obtain ⟨u, rfl, rfl, hu⟩ := hleast
    exact admits_printed_least hu hi

/-! ## 3. Comparator sets -/

/-- A property of an interval that an intersection takes over from either side
is taken over from each comparator of a set. -/
theorem ofSet_of_mem {Q : Interval → Prop} (hmeet : ∀ i j, Q i ∨ Q j → Q (i.meet j))
    {s : ComparatorSet} {c : Comparator} (hc : c ∈ s) (h : Q (ofComparator c)) :
    Q (ofSet s) := by
  have hfold : ∀ i, (Q i ∨ ∃ c ∈ s, Q (ofComparator c)) →
      Q (s.foldl (fun i c => i.meet (ofComparator c)) i) := by
    clear hc
    induction s with
    | nil => simp
    | cons d s ih =>
      intro i hi
      refine ih _ ?_
      rcases hi with hi | ⟨e, he, hQ⟩
      · exact Or.inl (hmeet _ _ (Or.inl hi))
      · rcases List.mem_cons.mp he with rfl | he
        · exact Or.inl (hmeet _ _ (Or.inr hQ))
        · exact Or.inr ⟨e, he, hQ⟩
  exact hfold {} (Or.inr ⟨c, hc, h⟩)

section

variable {a b : Version} {ib : Bool} {i j : Interval} {k : Version.Key}

theorem key_le_of_raises (h : raises (some a) b ib = true) : a.key ≤ b.key := by
  simp only [raises, Bool.or_eq_true, Bool.and_eq_true, beq_iff_eq, Version.exceeds_iff] at h
  rcases h with ⟨hle, _⟩ | ⟨rfl, _⟩
  · exact hle
  · exact le_rfl

theorem key_le_of_not_raises (h : raises (some a) b ib = false) : b.key ≤ a.key := by
  rw [← Bool.not_eq_true] at h
  simp only [raises, Bool.or_eq_true, Version.exceeds_iff, not_or, not_and, not_not] at h
  rcases le_total b.key a.key with hle | hle
  · exact hle
  · rw [h.1 hle]

theorem key_le_of_lowers (h : lowers (some a) b ib = true) : b.key ≤ a.key := by
  simp only [lowers, Bool.or_eq_true, Bool.and_eq_true, beq_iff_eq, Version.precedes_iff] at h
  rcases h with hlt | ⟨rfl, _⟩
  · exact hlt.le
  · exact le_rfl

theorem key_le_of_not_lowers (h : lowers (some a) b ib = false) : a.key ≤ b.key := by
  rw [← Bool.not_eq_true] at h
  simp only [lowers, Bool.or_eq_true, Version.precedes_iff, not_or, not_lt] at h
  exact h.1

/-- The lower end of an intersection is at least as high as both. -/
theorem exists_lower_meet (h : (∃ l ∈ i.lower, k ≤ l.key) ∨ ∃ l ∈ j.lower, k ≤ l.key) :
    ∃ l ∈ (i.meet j).lower, k ≤ l.key := by
  obtain ⟨li, ii, _, _⟩ := i
  obtain ⟨lj, ij, _, _⟩ := j
  cases lj with
  | none => simpa [meet, meetLower] using h
  | some b =>
    cases li with
    | none => simpa [meet, meetLower, raises] using h
    | some a =>
      cases hr : raises (some a) b ij with
      | true =>
        have hle := key_le_of_raises hr
        simp only [Option.mem_some_iff, exists_eq_left'] at h
        simpa [meet, meetLower, hr] using h.elim (fun h => h.trans hle) id
      | false =>
        have hle := key_le_of_not_raises hr
        simp only [Option.mem_some_iff, exists_eq_left'] at h
        simpa [meet, meetLower, hr] using h.elim id fun h => h.trans hle

/-- The upper end of an intersection is at most as high as both. -/
theorem exists_upper_meet (h : (∃ u ∈ i.upper, u.key ≤ k) ∨ ∃ u ∈ j.upper, u.key ≤ k) :
    ∃ u ∈ (i.meet j).upper, u.key ≤ k := by
  obtain ⟨_, _, ui, ii⟩ := i
  obtain ⟨_, _, uj, ij⟩ := j
  cases uj with
  | none => simpa [meet, meetUpper] using h
  | some b =>
    cases ui with
    | none => simpa [meet, meetUpper, lowers] using h
    | some a =>
      simp only [Option.mem_some_iff, exists_eq_left'] at h
      cases hr : lowers (some a) b ij with
      | true =>
        have hle := key_le_of_lowers hr
        simpa [meet, meetUpper, hr] using h.elim (fun h => hle.trans h) id
      | false =>
        have hle := key_le_of_not_lowers hr
        simpa [meet, meetUpper, hr] using h.elim id fun h => hle.trans h

end

theorem exists_lower_ofSet {s : ComparatorSet} {c : Comparator} {b : Version} (hc : c ∈ s)
    (hb : b ∈ (ofComparator c).lower) : ∃ l ∈ (ofSet s).lower, b.key ≤ l.key :=
  ofSet_of_mem (Q := fun i => ∃ l ∈ i.lower, b.key ≤ l.key)
    (fun _ _ => exists_lower_meet) hc ⟨b, hb, le_rfl⟩

theorem exists_upper_ofSet {s : ComparatorSet} {c : Comparator} {b : Version} (hc : c ∈ s)
    (hb : b ∈ (ofComparator c).upper) : ∃ u ∈ (ofSet s).upper, u.key ≤ b.key :=
  ofSet_of_mem (Q := fun i => ∃ u ∈ i.upper, u.key ≤ b.key)
    (fun _ _ => exists_upper_meet) hc ⟨b, hb, le_rfl⟩

theorem version_mem_ofComparator (c : Comparator) :
    c.version ∈ (ofComparator c).lower ∨ c.version ∈ (ofComparator c).upper := by
  obtain ⟨relation, w⟩ := c
  cases relation with
  | less => exact Or.inr rfl
  | atMost => exact Or.inr rfl
  | greater => exact Or.inl rfl
  | atLeast => exact Or.inl rfl
  | equal => exact Or.inl rfl

theorem FitsUpper.key_le {u v : Version} {inclusive : Bool} (h : FitsUpper u inclusive v) :
    v.key ≤ u.key := by
  rcases h with hlt | ⟨_, rfl⟩
  · exact hlt.le
  · exact le_rfl

/-- A prerelease that a set admits is named by an end of its interval if it is
named at all. -/
theorem namedIn_ends_ofSet {s : ComparatorSet} {v : Version} (hv : v.prerelease ≠ [])
    (hall : s.allAdmit v = true) (hcontains : (ofSet s).contains v = true)
    (hnamed : v.NamedIn (s.map (·.version))) : v.NamedIn (ofSet s).ends := by
  obtain ⟨b, hb, hne, hrelease⟩ := hnamed
  obtain ⟨c, hc, rfl⟩ := List.mem_map.mp hb
  have hadmits : c.admits v = true := List.all_eq_true.mp hall c hc
  obtain ⟨hlower, hupper⟩ := (contains_iff _ v).mp ((contains_ofComparator c v).mpr hadmits)
  obtain ⟨hsetLower, hsetUpper⟩ := (contains_iff _ v).mp hcontains
  rcases version_mem_ofComparator c with hmem | hmem
  · -- The lower end of the set lies between the bound and the version.
    obtain ⟨l, hl, hle⟩ := exists_lower_ofSet hc hmem
    obtain ⟨hpre, hrel⟩ :=
      Version.named_of_between hle (hsetLower l hl).1 hrelease.symm hv
    exact ⟨l, List.mem_append_left _ (Option.mem_toList.mpr hl), hpre, hrel.trans hrelease⟩
  · obtain ⟨u, hu, hle⟩ := exists_upper_ofSet hc hmem
    obtain ⟨hpre, hrel⟩ :=
      Version.named_of_between (hsetUpper u hu).key_le hle hrelease hne
    exact ⟨u, List.mem_append_right _ (Option.mem_toList.mpr hu), hpre, hrel⟩

/-- Each end of the interval of a set is the version of one of its bounds. -/
theorem ends_ofSet_subset (s : ComparatorSet) : (ofSet s).ends ⊆ s.map (·.version) := by
  have hends : (ofSet s).EndsIn fun b => b ∈ s.map (·.version) :=
    endsIn_ofSet fun c hc => List.mem_map_of_mem hc
  intro b hb
  rcases List.mem_append.mp hb with hb | hb
  · exact hends.1 b (Option.mem_toList.mp hb)
  · exact hends.2 b (Option.mem_toList.mp hb)

/-- The interval of a canonical set admits what the set admits. -/
theorem admits_ofSet {s : ComparatorSet} (hs : ∀ c ∈ s, c.version.Canonical) (v : Version) :
    (ofSet s).Admits v ↔ s.admits v = true := by
  have hcontains := contains_ofSet (Version.tells_canonical v) hs
  rw [Admits, ComparatorSet.admits_iff, hcontains]
  refine and_congr_right fun hall => or_congr_right' fun hv => ⟨?_, ?_⟩
  · rintro ⟨b, hb, hnamed⟩
    exact ⟨b, ends_ofSet_subset s hb, hnamed⟩
  · exact namedIn_ends_ofSet hv hall (hcontains.mpr hall)

/-- The expression of an interval that is not empty admits what the interval
admits. -/
theorem exists_parse?_toExpression {i : Interval} (hi : i.EndsIn Version.Written)
    (hne : i.isEmpty = false) :
    ∃ r, Range.parse? i.toExpression = some r ∧ ∀ v, r.admits v = true ↔ i.Admits v := by
  obtain ⟨s, hs, hbounds⟩ := parse?_toExpression hi
  refine ⟨_, hs, fun v => ?_⟩
  have hset : (Range.mk i.toExpression [s]).admits v = s.admits v := by simp [Range.admits]
  rw [hset]
  rcases hbounds with rfl | rfl | ⟨l, rfl, rfl⟩
  · exact admits_bounds i v
  · exact (admits_bounds i.printed v).trans (admits_printed hne v)
  · exact admits_equal l v

end Interval

namespace Range

/-! ## 4. Ranges -/

/-- A canonical range admits what its intervals admit; those left out as empty
admit nothing. -/
theorem admits_iff_exists_admits {r : Range} (hc : r.Canonical) {v : Version} :
    r.admits v = true ↔ ∃ i ∈ r.intervals, i.Admits v := by
  rw [admits, List.any_eq_true]
  constructor
  · rintro ⟨s, hs, hadmits⟩
    have hset := (Interval.admits_ofSet (hc s hs) v).mpr hadmits
    have hne : (Interval.ofSet s).isEmpty = false :=
      Interval.not_isEmpty_of_between (Interval.sides_fits (Version.tells_canonical v))
        (Interval.endsIn_ofSet (hc s hs)) ((Interval.contains_iff_between _ v).mp hset.1)
    exact ⟨_, List.mem_filter.mpr ⟨List.mem_map_of_mem hs, by simp [hne]⟩, hset⟩
  · rintro ⟨i, hi, hadmits⟩
    obtain ⟨s, hs, rfl⟩ := List.mem_map.mp (List.mem_of_mem_filter hi)
    exact ⟨s, hs, (Interval.admits_ofSet (hc s hs) v).mp hadmits⟩

/-- **Intervals lose nothing.** The expressions of the intervals of a canonical
range can be read, and together they admit the versions that the range admits,
prereleases included. -/
theorem admits_iff_exists_interval {text : String} {r : Range} (h : parse? text = some r)
    (hc : r.Canonical) :
    (∀ i ∈ r.intervals, ∃ e, parse? i.toExpression = some e) ∧
    ∀ v, r.admits v = true ↔
      ∃ i ∈ r.intervals, ∃ e, parse? i.toExpression = some e ∧ e.admits v = true := by
  have hwritten := boundsIn_written_of_parse? h
  have hread : ∀ i ∈ r.intervals,
      ∃ e, parse? i.toExpression = some e ∧ ∀ v, e.admits v = true ↔ i.Admits v := by
    intro i hi
    have hne : i.isEmpty = false := by simpa using (List.mem_filter.mp hi).2
    exact Interval.exists_parse?_toExpression (endsIn_of_mem_intervals hwritten hi) hne
  refine ⟨fun i hi => (hread i hi).imp fun _ he => he.1, fun v => ?_⟩
  have hexpression : ∀ i ∈ r.intervals,
      ((∃ e, parse? i.toExpression = some e ∧ e.admits v = true) ↔ i.Admits v) := by
    intro i hi
    obtain ⟨e, he, hadmits⟩ := hread i hi
    simp [he, hadmits v]
  rw [admits_iff_exists_admits hc]
  exact exists_congr fun i => and_congr_right fun hi => (hexpression i hi).symm

/-- A prerelease above two bounds of its release, and the least prerelease at an
upper end. -/
theorem admits_iff_exists_interval_dominated :
    ∃ r, parse? ">=1.0.0-a >1.0.0-b || ^2.1.0" = some r ∧ r.Canonical ∧
      (∃ i ∈ r.intervals, ∃ e, parse? i.toExpression = some e ∧
        e.admits ⟨1, 0, 0, ["c"]⟩ = true) ∧
      ¬ ∃ i ∈ r.intervals, ∃ e, parse? i.toExpression = some e ∧
        e.admits ⟨3, 0, 0, ["0"]⟩ = true := by
  have h : parse? ">=1.0.0-a >1.0.0-b || ^2.1.0" = some ⟨">=1.0.0-a >1.0.0-b || ^2.1.0",
      [[⟨.atLeast, ⟨1, 0, 0, ["a"]⟩⟩, ⟨.greater, ⟨1, 0, 0, ["b"]⟩⟩],
        [⟨.atLeast, ⟨2, 1, 0, []⟩⟩, ⟨.less, ⟨3, 0, 0, ["0"]⟩⟩]]⟩ := by decide
  have hintervals := (admits_iff_exists_interval h (by decide)).2
  exact ⟨_, h, by decide, (hintervals _).mp (by decide), mt (hintervals _).mpr (by decide)⟩

/-! ## 5. Ranges without prereleases -/

/-- **Prereleases are opt-in.** A range with no prerelease part in any of its
partial versions admits no prerelease. -/
theorem admits_no_prerelease {text : String} {r : Range} (h : parse? text = some r)
    (hp : ∀ p ∈ partials text, p.prerelease = []) {v : Version} (hv : v.prerelease ≠ []) :
    r.admits v = false := by
  rw [← Bool.not_eq_true, admits, List.any_eq_true]
  rintro ⟨s, hs, hadmits⟩
  refine hv (ComparatorSet.prerelease_eq_nil_of_admits (fun c hc hne => ?_) hadmits)
  obtain ⟨p, hmem, _, op, happly⟩ := exists_of_mem_sets h hs hc
  rcases prerelease_of_mem_apply op p c happly with hpre | hless | hpre
  · exact absurd (hpre.trans (hp p hmem)) hne
  · exact hless
  · exact absurd hpre hne

/-- Upper ends of operators, and the least prerelease at one of them. -/
theorem admits_no_prerelease_upper_ends :
    ∃ r, parse? "1.4.2+b-1 - 2.x || <3" = some r ∧
      (∀ p ∈ partials "1.4.2+b-1 - 2.x || <3", p.prerelease = []) ∧
      r.admits ⟨3, 0, 0, ["0"]⟩ = false := by
  have h : parse? "1.4.2+b-1 - 2.x || <3" = some ⟨"1.4.2+b-1 - 2.x || <3",
      [[⟨.atLeast, ⟨1, 4, 2, []⟩⟩, ⟨.less, ⟨3, 0, 0, ["0"]⟩⟩],
        [⟨.less, ⟨3, 0, 0, ["0"]⟩⟩]]⟩ := by decide
  exact ⟨_, h, by decide, admits_no_prerelease h (by decide) (by decide)⟩

end Range

end PackageAudit
