/-
PackageAudit.Proofs.Version.CommonVersion — when ranges that intersect have a
version in common.

Whether ranges intersect is found by comparing ends, and ends that are in the
right order need not have a version between them that everybody admits. Three
things are in the way. Nothing lies below `0.0.0-0`. Nothing lies between a
release and the first prerelease of the next one (`>0.0.3 <0.0.4-0`). And a
prerelease must be named by every range, which intervals do not know.

Versions have no such gaps of their own: above each lower end there is a
least release (`leastRelease`), and of each release a least prerelease
(`leastPrerelease?`). An interval reaches a release, or a prerelease of a
given release, exactly when it contains that one. `common_version_iff` puts
this together into a test that is right for all canonical ranges.
-/
import PackageAudit.Proofs.Version.Expression

namespace PackageAudit

/-! ## 1. Keys -/

namespace Version

theorem key_le_iff {a b : Version} : a.key ≤ b.key ↔
    a.major < b.major ∨ a.major = b.major ∧ (a.minor < b.minor ∨ a.minor = b.minor ∧
      (a.patch < b.patch ∨ a.patch = b.patch ∧
        prereleaseKey a.prerelease ≤ prereleaseKey b.prerelease)) := by
  simp only [key, Prod.Lex.toLex_le_toLex]

/-- The release of the lesser version is not the greater one. -/
theorem release_le_of_key_le {a b : Version} (h : a.key ≤ b.key) :
    a.major < b.major ∨ a.major = b.major ∧
      (a.minor < b.minor ∨ a.minor = b.minor ∧ a.patch ≤ b.patch) := by
  rcases key_le_iff.mp h with h | ⟨h₁, h | ⟨h₂, h | ⟨h₃, _⟩⟩⟩
  · exact Or.inl h
  · exact Or.inr ⟨h₁, Or.inl h⟩
  · exact Or.inr ⟨h₁, Or.inr ⟨h₂, h.le⟩⟩
  · exact Or.inr ⟨h₁, Or.inr ⟨h₂, h₃.le⟩⟩

/-- A release is the greatest version of its numbers. -/
theorem key_le_of_release_le {a b : Version} (hb : b.prerelease = [])
    (h : a.major < b.major ∨ a.major = b.major ∧
      (a.minor < b.minor ∨ a.minor = b.minor ∧ a.patch ≤ b.patch)) : a.key ≤ b.key := by
  have htop : prereleaseKey a.prerelease ≤ prereleaseKey b.prerelease := by
    rw [hb]
    exact le_top
  rw [key_le_iff]
  rcases h with h | ⟨h₁, h | ⟨h₂, h₃⟩⟩
  · exact Or.inl h
  · exact Or.inr ⟨h₁, Or.inl h⟩
  · rcases h₃.lt_or_eq with h | h
    · exact Or.inr ⟨h₁, Or.inr ⟨h₂, Or.inl h⟩⟩
    · exact Or.inr ⟨h₁, Or.inr ⟨h₂, Or.inr ⟨h, htop⟩⟩⟩

theorem prereleaseKey_of_ne_nil {identifiers : List String} (h : identifiers ≠ []) :
    prereleaseKey identifiers = ↑(ranks identifiers) := by
  cases identifiers with
  | nil => exact absurd rfl h
  | cons x xs => rfl

theorem prereleaseKey_lt_nil {identifiers : List String} (h : identifiers ≠ []) :
    prereleaseKey identifiers < prereleaseKey [] := by
  rw [prereleaseKey_of_ne_nil h]
  exact WithTop.coe_lt_top _

/-- The first list behind another one is that list with one least entry more. -/
theorem append_least_le {α : Type} [LinearOrder α] {least : α} (hleast : ∀ a, least ≤ a)
    {as bs : List α} (h : as < bs) : as ++ [least] ≤ bs := by
  rw [← not_lt]
  intro hlt
  induction as generalizing bs with
  | nil =>
    cases bs with
    | nil => exact List.not_lt_nil _ h
    | cons b bs =>
      rcases List.cons_lt_cons_iff.mp hlt with hb | ⟨_, hnil⟩
      · exact absurd (hleast b) (not_le.mpr hb)
      · exact List.not_lt_nil _ hnil
  | cons a as ih =>
    cases bs with
    | nil => exact List.not_lt_nil _ h
    | cons b bs =>
      rw [List.cons_append] at hlt
      rcases List.cons_lt_cons_iff.mp h with hab | ⟨rfl, has⟩
      · rcases List.cons_lt_cons_iff.mp hlt with hba | ⟨rfl, _⟩
        · exact lt_irrefl _ (hab.trans hba)
        · exact lt_irrefl _ hab
      · rcases List.cons_lt_cons_iff.mp hlt with hba | ⟨_, hbs⟩
        · exact lt_irrefl _ hba
        · exact ih has hbs

theorem rank_zero_le (x : ℕ ⊕ₗ String) : (identifierKey "0").rank ≤ x := by
  have hzero : (identifierKey "0").rank = toLex (.inl 0) := by decide
  rw [hzero]
  obtain ⟨x, rfl⟩ := toLex.surjective x
  cases x with
  | inl n => exact Sum.Lex.inl_le_inl_iff.mpr (Nat.zero_le n)
  | inr s => exact Sum.Lex.inl_le_inr 0 s

theorem ranks_append_zero (identifiers : List String) :
    ranks (identifiers ++ ["0"]) = ranks identifiers ++ [(identifierKey "0").rank] := by
  rw [ranks, List.map_append]
  rfl

/-- `0` is the least prerelease part. -/
theorem prereleaseKey_zero_le (identifiers : List String) :
    prereleaseKey ["0"] ≤ prereleaseKey identifiers := by
  cases identifiers with
  | nil => exact le_top
  | cons x xs =>
    rw [prereleaseKey_of_ne_nil (List.cons_ne_nil _ _),
      prereleaseKey_of_ne_nil (List.cons_ne_nil _ _), WithTop.coe_le_coe]
    have hlt : [] < ranks (x :: xs) := List.nil_lt_cons _ _
    exact append_least_le rank_zero_le hlt

/-- The first prerelease part behind another one is that with a further `0`. -/
theorem prereleaseKey_append_zero_le {ps qs : List String} (hp : ps ≠ [])
    (h : prereleaseKey ps < prereleaseKey qs) :
    prereleaseKey (ps ++ ["0"]) ≤ prereleaseKey qs := by
  cases qs with
  | nil => exact le_top
  | cons q qs =>
    rw [prereleaseKey_of_ne_nil hp, prereleaseKey_of_ne_nil (List.cons_ne_nil _ _),
      WithTop.coe_lt_coe] at h
    rw [prereleaseKey_of_ne_nil (by simp), prereleaseKey_of_ne_nil (List.cons_ne_nil _ _),
      WithTop.coe_le_coe, ranks_append_zero]
    exact append_least_le rank_zero_le h

theorem prereleaseKey_lt_append_zero {ps : List String} (hp : ps ≠ []) :
    prereleaseKey ps < prereleaseKey (ps ++ ["0"]) := by
  rw [prereleaseKey_of_ne_nil hp, prereleaseKey_of_ne_nil (by simp), WithTop.coe_lt_coe,
    ranks_append_zero]
  exact lt_append_of_ne_nil _ (by simp)

end Version

namespace Interval

/-! ## 2. The least release -/

/-- A lesser version fits an upper end as well. -/
theorem FitsUpper.of_le {u v w : Version} {inclusive : Bool} (h : FitsUpper u inclusive v)
    (hle : w.key ≤ v.key) (heq : w.key = v.key → v = u → w = v) : FitsUpper u inclusive w := by
  rcases h with hlt | ⟨hi, rfl⟩
  · exact Or.inl (hle.trans_lt hlt)
  · rcases hle.lt_or_eq with hlt | hkey
    · exact Or.inl hlt
    · exact Or.inr ⟨hi, heq hkey rfl⟩

/-- The least release above a lower end: the end itself, the next release if
the end is open, or the release of a prerelease. -/
def leastRelease (i : Interval) : Version :=
  match i.lower with
  | none => { major := 0, minor := 0, patch := 0 }
  | some l =>
    if l.prerelease.isEmpty && !i.lowerInclusive then { l with patch := l.patch + 1 }
    else { l with prerelease := [] }

@[simp] theorem prerelease_leastRelease (i : Interval) : i.leastRelease.prerelease = [] := by
  unfold leastRelease
  split
  · rfl
  · split
    · rename_i h
      rw [Bool.and_eq_true, List.isEmpty_iff] at h
      exact h.1
    · rfl

theorem fitsLower_leastRelease (i : Interval) :
    ∀ l ∈ i.lower, FitsLower l i.lowerInclusive i.leastRelease := by
  intro l hl
  have hl : i.lower = some l := hl
  refine ⟨Version.key_le_of_release_le i.prerelease_leastRelease ?_, fun hopen heq => ?_⟩
  · rw [leastRelease, hl]
    dsimp only
    split <;> simp
  · have hrelease : l.prerelease = [] := heq ▸ i.prerelease_leastRelease
    simp only [leastRelease, hl, hopen, hrelease, List.isEmpty_nil, Bool.not_false, Bool.and_self,
      if_true] at heq
    exact absurd (congrArg Version.patch heq) (Nat.succ_ne_self _)

/-- No release above the lower end comes before the least one. -/
theorem leastRelease_le {i : Interval} {v : Version} (hv : v.prerelease = [])
    (h : ∀ l ∈ i.lower, FitsLower l i.lowerInclusive v) : i.leastRelease.key ≤ v.key := by
  refine Version.key_le_of_release_le hv ?_
  cases hl : i.lower with
  | none =>
    rw [leastRelease, hl]
    dsimp only
    omega
  | some l =>
    obtain ⟨hle, hne⟩ := h l hl
    have hnumbers := Version.release_le_of_key_le hle
    rw [leastRelease, hl]
    dsimp only
    split
    · rename_i hopen
      rw [Bool.and_eq_true, List.isEmpty_iff, Bool.not_eq_true'] at hopen
      have hother : ¬ (v.major = l.major ∧ v.minor = l.minor ∧ v.patch = l.patch) := by
        rintro ⟨h₁, h₂, h₃⟩
        refine hne hopen.2 ?_
        obtain ⟨x, y, z, p⟩ := v
        obtain ⟨x', y', z', p'⟩ := l
        simp_all
      dsimp only
      omega
    · exact hnumbers

/-- **Releases.** An interval contains a release exactly when it contains its
least one. -/
theorem exists_release_iff (i : Interval) :
    (∃ v : Version, v.prerelease = [] ∧ i.contains v = true) ↔
      i.contains i.leastRelease = true := by
  constructor
  · rintro ⟨v, hv, hcontains⟩
    rw [contains_iff] at hcontains ⊢
    have hle := leastRelease_le hv hcontains.1
    refine ⟨i.fitsLower_leastRelease, fun u hu => (hcontains.2 u hu).of_le hle fun hkey _ => ?_⟩
    exact Version.eq_of_key_eq_of_release hv hkey
  · intro h
    exact ⟨_, i.prerelease_leastRelease, h⟩

end Interval

/-! ## 3. The least prerelease of a release -/

/-- A canonical prerelease of the release of `b`. -/
structure Version.PrereleaseOf (b v : Version) : Prop where
  canonical : v.Canonical
  release : v.release = b.release
  ne_nil : v.prerelease ≠ []

/-- With the numbers of `b`, versions are in the order of their prerelease parts. -/
theorem Version.key_le_iff_of_release {a b : Version} (h : a.release = b.release) :
    a.key ≤ b.key ↔ prereleaseKey a.prerelease ≤ prereleaseKey b.prerelease := by
  simp only [release, Prod.mk.injEq] at h
  obtain ⟨h₁, h₂, h₃⟩ := h
  simp only [key_le_iff, h₁, h₂, h₃, lt_irrefl, false_or, true_and]

/-- Between two versions of one release there are only versions of that release. -/
theorem Version.release_eq_of_key_le {a b c : Version} (hab : a.key ≤ b.key)
    (hbc : b.key ≤ c.key) (h : c.release = a.release) : b.release = a.release := by
  have hab := release_le_of_key_le hab
  have hbc := release_le_of_key_le hbc
  simp only [release, Prod.mk.injEq] at h ⊢
  omega

namespace Interval

/-- The first of all prereleases of the release of `b`. -/
def firstPrerelease (b : Version) : Version := PartialVersion.ceiling b.major b.minor b.patch

theorem prereleaseOf_firstPrerelease (b : Version) : b.PrereleaseOf (firstPrerelease b) := by
  refine ⟨?_, rfl, List.cons_ne_nil _ _⟩
  intro x hx
  have hx : x = "0" := List.mem_singleton.mp hx
  rw [hx]
  decide

theorem firstPrerelease_le {b v : Version} (hv : b.PrereleaseOf v) :
    (firstPrerelease b).key ≤ v.key := by
  have hrelease : (firstPrerelease b).release = v.release := hv.release.symm
  exact (Version.key_le_iff_of_release hrelease).mpr (Version.prereleaseKey_zero_le _)

/-- The least prerelease of the release of `b` above a lower end: the first of
all, or the end itself, or the one that follows an open end. There is none if
the lower end is the release or above. -/
def leastPrerelease? (b : Version) (i : Interval) : Option Version :=
  match i.lower with
  | none => some (firstPrerelease b)
  | some l =>
    if l.precedes (firstPrerelease b) then some (firstPrerelease b)
    else if l.release = b.release ∧ l.prerelease ≠ [] then
      some (if i.lowerInclusive then l else { l with prerelease := l.prerelease ++ ["0"] })
    else none

theorem prereleaseOf_leastPrerelease {b w : Version} {i : Interval}
    (hi : i.EndsIn Version.Canonical) (hw : w ∈ i.leastPrerelease? b) : b.PrereleaseOf w := by
  have hw : i.leastPrerelease? b = some w := hw
  unfold leastPrerelease? at hw
  split at hw
  · cases hw
    exact prereleaseOf_firstPrerelease b
  · rename_i l hl
    have hcanonical : l.Canonical := hi.1 l hl
    split_ifs at hw with hfirst hl hinclusive
    · cases hw
      exact prereleaseOf_firstPrerelease b
    · cases hw
      exact ⟨hcanonical, hl.1, hl.2⟩
    · cases hw
      refine ⟨fun x hx => ?_, hl.1, by simp⟩
      rcases List.mem_append.mp hx with hx | hx
      · exact hcanonical x hx
      · rw [List.mem_singleton.mp hx]
        decide

theorem fitsLower_leastPrerelease {b w : Version} {i : Interval}
    (hw : w ∈ i.leastPrerelease? b) : ∀ l ∈ i.lower, FitsLower l i.lowerInclusive w := by
  intro l hl
  have hl : i.lower = some l := hl
  have hw : i.leastPrerelease? b = some w := hw
  simp only [leastPrerelease?, hl] at hw
  split_ifs at hw with hfirst hnamed hinclusive
  · cases hw
    have hlt := Version.precedes_iff.mp hfirst
    exact ⟨hlt.le, fun _ heq => hlt.ne (congrArg Version.key heq).symm⟩
  · cases hw
    exact ⟨le_rfl, fun hopen => absurd (hinclusive.symm.trans hopen) (by decide)⟩
  · cases hw
    have hlt := Version.prereleaseKey_lt_append_zero hnamed.2
    have hrelease : l.release = { l with prerelease := l.prerelease ++ ["0"] }.release := rfl
    refine ⟨(Version.key_le_iff_of_release hrelease).mpr hlt.le, fun _ heq => ?_⟩
    exact hlt.ne (congrArg (fun v => Version.prereleaseKey v.prerelease) heq).symm

/-- No prerelease above the lower end comes before the least one. -/
theorem leastPrerelease_le {b v : Version} {i : Interval} (hi : i.EndsIn Version.Canonical)
    (hv : b.PrereleaseOf v) (h : ∀ l ∈ i.lower, FitsLower l i.lowerInclusive v) :
    ∃ w ∈ i.leastPrerelease? b, w.key ≤ v.key := by
  unfold leastPrerelease?
  cases hl : i.lower with
  | none => exact ⟨_, rfl, firstPrerelease_le hv⟩
  | some l =>
    obtain ⟨hle, hne⟩ := h l hl
    dsimp only
    by_cases hfirst : l.precedes (firstPrerelease b) = true
    · rw [if_pos hfirst]
      exact ⟨_, rfl, firstPrerelease_le hv⟩
    · rw [if_neg hfirst]
      rw [Version.precedes_iff, not_lt] at hfirst
      -- The end lies between the first prerelease and `v`.
      have hrelease : l.release = (firstPrerelease b).release :=
        Version.release_eq_of_key_le hfirst hle hv.release
      have hlv : l.release = v.release := hrelease.trans hv.release.symm
      have hparts := (Version.key_le_iff_of_release hlv).mp hle
      have hnamed : l.prerelease ≠ [] := by
        intro hnil
        rw [hnil] at hparts
        exact absurd (Version.prereleaseKey_lt_nil hv.ne_nil) (not_lt.mpr hparts)
      rw [if_pos ⟨hrelease, hnamed⟩]
      refine ⟨_, rfl, ?_⟩
      cases hopen : i.lowerInclusive with
      | true => exact hle
      | false =>
        have hkey : l.key ≠ v.key := fun hkey =>
          hne hopen (Version.key_inj (hi.1 l hl) hv.canonical hkey).symm
        have hlt : Version.prereleaseKey l.prerelease < Version.prereleaseKey v.prerelease :=
          lt_of_not_ge fun hge =>
            hkey (le_antisymm hle ((Version.key_le_iff_of_release hlv.symm).mpr hge))
        have hnext : { l with prerelease := l.prerelease ++ ["0"] }.release = v.release := hlv
        exact (Version.key_le_iff_of_release hnext).mpr
          (Version.prereleaseKey_append_zero_le hnamed hlt)

/-- **Prereleases.** An interval contains a prerelease of a given release
exactly when it contains the least one. -/
theorem exists_prerelease_iff (b : Version) {i : Interval} (hi : i.EndsIn Version.Canonical) :
    (∃ v, b.PrereleaseOf v ∧ i.contains v = true) ↔
      ∃ w ∈ i.leastPrerelease? b, i.contains w = true := by
  constructor
  · rintro ⟨v, hv, hcontains⟩
    rw [contains_iff] at hcontains
    obtain ⟨w, hw, hle⟩ := leastPrerelease_le hi hv hcontains.1
    have hcanonical : w.Canonical := (prereleaseOf_leastPrerelease hi hw).canonical
    refine ⟨w, hw, (contains_iff i w).mpr ⟨fitsLower_leastPrerelease hw, fun u hu => ?_⟩⟩
    exact (hcontains.2 u hu).of_le hle fun hkey _ => Version.key_inj hcanonical hv.canonical hkey
  · rintro ⟨w, hw, hcontains⟩
    exact ⟨w, prereleaseOf_leastPrerelease hi hw, hcontains⟩

end Interval

namespace Range

/-! ## 4. Ranges that name prereleases -/

/-- The alternatives that name a prerelease of the release of `b`. -/
def naming (b : Version) (r : Range) : Range :=
  { r with sets := r.sets.filter fun s => s.any (·.namesPrereleaseOf b) }

/-- The prereleases that a range has as bounds. -/
def prereleaseBounds (r : Range) : List Version :=
  (r.sets.flatten.map (·.version)).filter fun v => !v.prerelease.isEmpty

/-- A prerelease of the release of `b` is admitted by the alternatives that
name one. -/
theorem admits_iff_naming {b v : Version} (hv : b.PrereleaseOf v) (r : Range) :
    r.admits v = true ↔ ∃ s ∈ (r.naming b).sets, s.allAdmit v = true := by
  have hname : ∀ c : Comparator, c.namesPrereleaseOf v = c.namesPrereleaseOf b := by
    intro c
    rw [Comparator.namesPrereleaseOf, hv.release]
    rfl
  have hempty : v.prerelease.isEmpty = false := by
    rw [← Bool.not_eq_true, List.isEmpty_iff]
    exact hv.ne_nil
  simp only [admits, naming, ComparatorSet.admits, hempty, hname, Bool.false_or, List.any_eq_true,
    List.mem_filter, Bool.and_eq_true]
  constructor
  · rintro ⟨s, hs, hall, hnamed⟩
    exact ⟨s, ⟨hs, hnamed⟩, hall⟩
  · rintro ⟨s, ⟨hs, hnamed⟩, hall⟩
    exact ⟨s, hs, hall, hnamed⟩

/-- A range that admits a prerelease has one of the same release as a bound. -/
theorem exists_bound_of_admits {r : Range} {v : Version} (hv : v.prerelease ≠ [])
    (h : r.admits v = true) : ∃ b ∈ r.prereleaseBounds, b.release = v.release := by
  simp only [admits, List.any_eq_true, ComparatorSet.admits, Bool.and_eq_true, Bool.or_eq_true,
    List.isEmpty_iff, Comparator.namesPrereleaseOf, beq_iff_eq] at h
  obtain ⟨s, hs, _, hnil | ⟨c, hc, hnamed, hrelease⟩⟩ := h
  · exact absurd hnil hv
  · refine ⟨c.version, List.mem_filter.mpr ⟨List.mem_map_of_mem ?_, hnamed⟩, hrelease⟩
    exact List.mem_flatten.mpr ⟨s, hs, hc⟩

theorem canonical_naming {r : Range} (hr : r.Canonical) (b : Version) : (r.naming b).Canonical :=
  fun s hs => hr s (List.mem_of_mem_filter hs)

/-! ## 5. Common versions -/

section

variable {ranges : List Range}

/-- A common release is in the intersection, the least one of an interval. -/
theorem common_release_iff : (∃ v : Version, v.prerelease = [] ∧
      ∀ r ∈ ranges, r.admits v = true) ↔
    ∃ i ∈ intersect ranges, i.contains i.leastRelease = true := by
  constructor
  · rintro ⟨v, hv, hall⟩
    obtain ⟨i, hi, hcontains⟩ := (forall_admits_iff_of_release hv).mp hall
    exact ⟨i, hi, i.exists_release_iff.mp ⟨v, hv, hcontains⟩⟩
  · rintro ⟨i, hi, hcontains⟩
    have hv : i.leastRelease.prerelease = [] := i.prerelease_leastRelease
    exact ⟨i.leastRelease, hv, (forall_admits_iff_of_release hv).mpr ⟨i, hi, hcontains⟩⟩

/-- A common prerelease of the release of `b` is in the intersection of the
alternatives that name one. -/
theorem common_prerelease_of_iff (hc : ∀ r ∈ ranges, r.Canonical) (b : Version) :
    (∃ v, b.PrereleaseOf v ∧ ∀ r ∈ ranges, r.admits v = true) ↔
      ∃ i ∈ intersect (ranges.map (naming b)), ∃ w ∈ i.leastPrerelease? b,
        i.contains w = true := by
  have hnaming : ∀ r ∈ ranges.map (naming b), r.Canonical := by
    intro r hr
    obtain ⟨q, hq, rfl⟩ := List.mem_map.mp hr
    exact canonical_naming (hc q hq) b
  have hends := endsIn_intersect hnaming
  have hadmits : ∀ v, b.PrereleaseOf v → ((∀ r ∈ ranges, r.admits v = true) ↔
      ∃ i ∈ intersect (ranges.map (naming b)), i.contains v = true) := by
    intro v hv
    rw [exists_contains_intersect (Version.tells_canonical v) hnaming]
    simp only [admits_iff_naming hv, List.forall_mem_map]
  constructor
  · rintro ⟨v, hv, hall⟩
    obtain ⟨i, hi, hcontains⟩ := (hadmits v hv).mp hall
    exact ⟨i, hi, (Interval.exists_prerelease_iff b (hends i hi)).mp ⟨v, hv, hcontains⟩⟩
  · rintro ⟨i, hi, hw⟩
    obtain ⟨v, hv, hcontains⟩ := (Interval.exists_prerelease_iff b (hends i hi)).mpr hw
    exact ⟨v, hv, (hadmits v hv).mpr ⟨i, hi, hcontains⟩⟩

/-- Only the releases of which some range names a prerelease are to be tried. -/
theorem common_prerelease_iff (hne : ranges ≠ []) (hc : ∀ r ∈ ranges, r.Canonical) :
    (∃ v : Version, v.Canonical ∧ v.prerelease ≠ [] ∧ ∀ r ∈ ranges, r.admits v = true) ↔
      ∃ b ∈ ranges.flatMap prereleaseBounds, ∃ i ∈ intersect (ranges.map (naming b)),
        ∃ w ∈ i.leastPrerelease? b, i.contains w = true := by
  constructor
  · rintro ⟨v, hcanonical, hv, hall⟩
    obtain ⟨r, hr⟩ := List.exists_mem_of_ne_nil ranges hne
    obtain ⟨b, hb, hrelease⟩ := exists_bound_of_admits hv (hall r hr)
    refine ⟨b, List.mem_flatMap.mpr ⟨r, hr, hb⟩, ?_⟩
    exact (common_prerelease_of_iff hc b).mp ⟨v, ⟨hcanonical, hrelease.symm, hv⟩, hall⟩
  · rintro ⟨b, _, hb⟩
    obtain ⟨v, hv, hall⟩ := (common_prerelease_of_iff hc b).mpr hb
    exact ⟨v, hv.canonical, hv.ne_nil, hall⟩

end

/-- **Common versions.** Ranges have a release in common exactly when some
interval of their intersection contains its least release. Canonical ranges
have a version in common exactly when they intersect and, besides, they have a
release in common or a prerelease: the intersection of the alternatives that
name a prerelease of some release contains the least one. -/
theorem common_version_iff (ranges : List Range) :
    ((∃ v : Version, v.prerelease = [] ∧ ∀ r ∈ ranges, r.admits v = true) ↔
      ∃ i ∈ intersect ranges, i.contains i.leastRelease = true) ∧
    ((∀ r ∈ ranges, r.Canonical) →
      ((∃ v : Version, v.Canonical ∧ ∀ r ∈ ranges, r.admits v = true) ↔
        haveIntersection ranges = true ∧
        ((∃ i ∈ intersect ranges, i.contains i.leastRelease = true) ∨
          ∃ b ∈ ranges.flatMap prereleaseBounds, ∃ i ∈ intersect (ranges.map (naming b)),
            ∃ w ∈ i.leastPrerelease? b, i.contains w = true))) := by
  refine ⟨common_release_iff, fun hc => ⟨?_, ?_⟩⟩
  · rintro ⟨v, hcanonical, hall⟩
    refine ⟨haveIntersection_of_admits hc hall, ?_⟩
    by_cases hv : v.prerelease = []
    · exact Or.inl (common_release_iff.mp ⟨v, hv, hall⟩)
    · by_cases hne : ranges = []
      · subst hne
        exact Or.inl ⟨{}, List.mem_singleton_self _, rfl⟩
      · exact Or.inr ((common_prerelease_iff hne hc).mp ⟨v, hcanonical, hv, hall⟩)
  · rintro ⟨_, hrelease | ⟨b, _, hb⟩⟩
    · obtain ⟨v, hv, hall⟩ := common_release_iff.mpr hrelease
      refine ⟨v, fun x hx => ?_, hall⟩
      rw [hv] at hx
      cases hx
    · obtain ⟨v, hv, hall⟩ := (common_prerelease_of_iff hc b).mpr hb
      exact ⟨v, hv.canonical, hall⟩

/-- Two ranges below one release that have prereleases of it in common and
nothing else. -/
theorem common_version_iff_at_prereleases :
    ∃ ranges, [">=1.0.0-rc.1 <1.0.0", ">1.0.0-beta <=1.0.0-rc.2"].mapM parse? = some ranges ∧
      (¬ ∃ v : Version, v.prerelease = [] ∧ ∀ r ∈ ranges, r.admits v = true) ∧
      (∀ r ∈ ranges, r.Canonical) ∧
      ∃ v : Version, v.Canonical ∧ ∀ r ∈ ranges, r.admits v = true := by
  refine ⟨_, rfl, ?_, by decide, ?_⟩
  · exact mt (common_version_iff _).1.mp (by decide)
  · exact ((common_version_iff _).2 (by decide)).mpr (by decide)

/-- `^0.0.3` and `>0.0.3` are found to intersect, between `0.0.3` and
`0.0.4-0`, where no version is. -/
theorem intersect_without_common_version :
    ∃ ranges, ["^0.0.3", ">0.0.3"].mapM parse? = some ranges ∧ haveIntersection ranges = true ∧
      ¬ ∃ v : Version, ∀ r ∈ ranges, r.admits v = true := by
  refine ⟨_, rfl, by decide, ?_⟩
  rintro ⟨v, hall⟩
  by_cases hv : v.prerelease = []
  · exact absurd (common_release_iff.mp ⟨v, hv, hall⟩) (by decide)
  · obtain ⟨b, hb, _⟩ := exists_bound_of_admits hv (hall _ (List.mem_cons_of_mem _
      List.mem_cons_self))
    revert hb
    exact List.not_mem_nil

end Range

end PackageAudit
