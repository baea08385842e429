/-
PackageAudit.Proofs.Version.LeadingZeros — when two versions have one key.

A numeric identifier compares by its number, so `01` and `1` sort alike and
are still different texts. That is the only way in which different versions
can share a key: `key_eq_iff` says that keys are equal exactly when the
versions are equal once leading zeros are dropped, and `key_inj` that on
canonical versions, whose identifiers have none, the key is injective.

The last section states how far the comparison relations are those of one
strict total order. Whatever the versions, exactly one of "before", "equal"
and "after" holds, and "before" is transitive. That "at least" is "at most"
turned around, and that equality is equality of sort keys, holds of all pairs
but those that differ in leading zeros.
-/
import PackageAudit.Proofs.Text.Digits
import PackageAudit.Proofs.Version.Precedence

namespace PackageAudit.Version

/-! ## 1. Identifiers -/

/-- A number written with a zero before another digit. -/
def hasLeadingZero (identifier : String) : Bool :=
  identifier.toList.all Char.isDigit && Text.padded identifier.toList

/-- Characters without the zeros that stand before another one. -/
def dropZeros : List Char → List Char
  | '0' :: c :: cs => dropZeros (c :: cs)
  | cs => cs

/-- An identifier, its leading zeros dropped if it is a number. -/
def identifierWithoutZeros (identifier : String) : String :=
  if identifier.toList.all Char.isDigit then String.ofList (dropZeros identifier.toList)
  else identifier

theorem dropZeros_of_not_padded {cs : List Char} (h : Text.padded cs = false) :
    dropZeros cs = cs := by
  unfold dropZeros
  split
  · simp [Text.padded] at h
  · rfl

theorem not_padded_dropZeros (cs : List Char) : Text.padded (dropZeros cs) = false := by
  fun_induction dropZeros cs with
  | case1 c cs ih => exact ih
  | case2 cs h =>
    unfold Text.padded
    split
    · rename_i d ds
      exact absurd rfl (h d ds)
    · rfl

theorem all_dropZeros {p : Char → Bool} {cs : List Char} (h : cs.all p = true) :
    (dropZeros cs).all p = true := by
  fun_induction dropZeros cs with
  | case1 c cs ih =>
    simp only [List.all_cons, Bool.and_eq_true] at h ih
    exact ih h.2
  | case2 cs _ => exact h

theorem isEmpty_dropZeros (cs : List Char) : (dropZeros cs).isEmpty = cs.isEmpty := by
  fun_induction dropZeros cs with
  | case1 c cs ih => rw [ih]; rfl
  | case2 cs _ => rfl

theorem ofDigitChars_dropZeros (cs : List Char) :
    Nat.ofDigitChars 10 (dropZeros cs) 0 = Nat.ofDigitChars 10 cs 0 := by
  fun_induction dropZeros cs with
  | case1 c cs ih => rw [ih, Nat.ofDigitChars_cons (c := '0')]; rfl
  | case2 cs _ => rfl

/-- The key of an identifier, its number read by the library. -/
theorem identifierKey_eq (x : String) :
    identifierKey x = if (!x.toList.isEmpty && x.toList.all Char.isDigit) = true
      then .number (Nat.ofDigitChars 10 x.toList 0) else .word x := rfl

/-- Dropping the zeros changes the text and not the number. -/
theorem identifierKey_withoutZeros (x : String) :
    identifierKey (identifierWithoutZeros x) = identifierKey x := by
  unfold identifierWithoutZeros
  split
  · rename_i h
    have hall := all_dropZeros h
    rw [identifierKey_eq, identifierKey_eq, String.toList_ofList, isEmpty_dropZeros, hall, h,
      ofDigitChars_dropZeros]
    cases hx : x.toList with
    | nil =>
      have : x = "" := String.toList_injective hx
      subst this
      rfl
    | cons c cs => rfl
  · rfl

theorem not_hasLeadingZero_withoutZeros (x : String) :
    hasLeadingZero (identifierWithoutZeros x) = false := by
  unfold identifierWithoutZeros
  split
  · rw [hasLeadingZero, String.toList_ofList, not_padded_dropZeros, Bool.and_false]
  · rename_i h
    rw [hasLeadingZero, Bool.eq_false_of_not_eq_true h, Bool.false_and]

theorem identifierWithoutZeros_of_not {x : String} (h : hasLeadingZero x = false) :
    identifierWithoutZeros x = x := by
  unfold identifierWithoutZeros
  split
  · rename_i hall
    rw [hasLeadingZero, hall, Bool.true_and] at h
    rw [dropZeros_of_not_padded h, String.ofList_toList]
  · rfl

/-- Without leading zeros an identifier is determined by its key. -/
theorem identifierKey_inj {x y : String} (hx : hasLeadingZero x = false)
    (hy : hasLeadingZero y = false) (h : identifierKey x = identifierKey y) : x = y := by
  rw [identifierKey_eq, identifierKey_eq] at h
  split at h
  · rename_i hdx
    split at h
    · rename_i hdy
      simp only [Bool.and_eq_true, Bool.not_eq_true', List.isEmpty_eq_false_iff] at hdx hdy
      rw [hasLeadingZero, hdx.2, Bool.true_and] at hx
      rw [hasLeadingZero, hdy.2, Bool.true_and] at hy
      injection h with hn
      apply String.toList_injective
      calc x.toList
          = Nat.toDigits 10 (Nat.ofDigitChars 10 x.toList 0) :=
            (Text.toDigits_ofDigitChars hdx.1 hdx.2 hx).symm
        _ = Nat.toDigits 10 (Nat.ofDigitChars 10 y.toList 0) := by rw [hn]
        _ = y.toList := Text.toDigits_ofDigitChars hdy.1 hdy.2 hy
    · cases h
  · split at h
    · cases h
    · injection h

theorem identifierKey_eq_iff (x y : String) :
    identifierKey x = identifierKey y ↔ identifierWithoutZeros x = identifierWithoutZeros y := by
  constructor
  · intro h
    refine identifierKey_inj (not_hasLeadingZero_withoutZeros x)
      (not_hasLeadingZero_withoutZeros y) ?_
    rw [identifierKey_withoutZeros, identifierKey_withoutZeros, h]
  · intro h
    rw [← identifierKey_withoutZeros x, h, identifierKey_withoutZeros]

/-! ## 2. Versions -/

/-- No numeric identifier has a leading zero. -/
def Canonical (v : Version) : Prop := ∀ x ∈ v.prerelease, hasLeadingZero x = false

instance (v : Version) : Decidable v.Canonical :=
  inferInstanceAs (Decidable (∀ x ∈ v.prerelease, hasLeadingZero x = false))

/-- A version, the leading zeros of its numeric identifiers dropped. -/
def withoutZeros (v : Version) : Version :=
  { v with prerelease := v.prerelease.map identifierWithoutZeros }

/-- Two versions are different, and only leading zeros make them so. -/
def DifferInZeros (a b : Version) : Prop := a ≠ b ∧ a.withoutZeros = b.withoutZeros

instance (a b : Version) : Decidable (DifferInZeros a b) :=
  inferInstanceAs (Decidable (_ ∧ _))

theorem withoutZeros_of_canonical {v : Version} (h : v.Canonical) : v.withoutZeros = v := by
  have hmap : v.prerelease.map identifierWithoutZeros = v.prerelease.map id :=
    List.map_congr_left fun x hx => identifierWithoutZeros_of_not (h x hx)
  rw [withoutZeros, hmap, List.map_id]

theorem IdentifierKey.rank_injective : Function.Injective IdentifierKey.rank := by
  intro a b h
  cases a <;> cases b <;> simp_all [rank]

theorem ranks_eq_iff (as bs : List String) :
    ranks as = ranks bs ↔ as.map identifierWithoutZeros = bs.map identifierWithoutZeros := by
  induction as generalizing bs with
  | nil => cases bs <;> simp [ranks]
  | cons a as ih =>
    cases bs with
    | nil => simp [ranks]
    | cons b bs =>
      have hih := ih bs
      simp only [ranks] at hih
      simp only [ranks, List.map_cons, List.cons.injEq, IdentifierKey.rank_injective.eq_iff,
        identifierKey_eq_iff, hih]

theorem prereleaseKey_eq_iff (as bs : List String) :
    prereleaseKey as = prereleaseKey bs ↔
      as.map identifierWithoutZeros = bs.map identifierWithoutZeros := by
  cases as with
  | nil => cases bs <;> simp [prereleaseKey]
  | cons a as =>
    cases bs with
    | nil => simp [prereleaseKey]
    | cons b bs =>
      rw [← ranks_eq_iff]
      simp only [prereleaseKey, List.isEmpty_cons, Bool.false_eq_true, if_false, WithTop.coe_inj]

/-- Keys are equal exactly when the versions are, leading zeros aside. -/
theorem key_eq_iff (a b : Version) : a.key = b.key ↔ a.withoutZeros = b.withoutZeros := by
  obtain ⟨x, y, z, p⟩ := a
  obtain ⟨x', y', z', p'⟩ := b
  simp only [key, withoutZeros, EmbeddingLike.apply_eq_iff_eq, Prod.mk.injEq, Version.mk.injEq,
    prereleaseKey_eq_iff]

/-- On canonical versions the key is injective. -/
theorem key_inj {a b : Version} (ha : a.Canonical) (hb : b.Canonical) (h : a.key = b.key) :
    a = b := by
  rw [key_eq_iff, withoutZeros_of_canonical ha, withoutZeros_of_canonical hb] at h
  exact h

/-- No other version has the key of a release. -/
theorem eq_of_key_eq_of_release {a v : Version} (hv : v.prerelease = []) (h : a.key = v.key) :
    a = v := by
  obtain ⟨x, y, z, p⟩ := a
  obtain ⟨x', y', z', p'⟩ := v
  rw [key_eq_iff] at h
  simp_all [withoutZeros]

/-! ## 3. The comparisons -/

theorem key_eq_iff_eq_of_not_differInZeros {a b : Version} (h : ¬ DifferInZeros a b) :
    a.key = b.key ↔ a = b := by
  constructor
  · intro hkey
    by_contra hne
    exact h ⟨hne, (key_eq_iff a b).mp hkey⟩
  · intro heq
    rw [heq]

/-- "At least" is "at most" turned around, but for pairs that differ in
leading zeros: there the first holds both ways and the second neither way. -/
theorem atLeast_eq_atMost_iff (a b : Version) :
    a.atLeast b = b.atMost a ↔ ¬ DifferInZeros a b := by
  rw [Bool.eq_iff_iff, atLeast_iff, atMost_iff]
  constructor
  · rintro h ⟨hne, hzeros⟩
    have hkey : a.key = b.key := (key_eq_iff a b).mpr hzeros
    rcases h.mp hkey.ge with hlt | heq
    · exact hlt.ne hkey.symm
    · exact hne heq.symm
  · intro h
    rw [le_iff_lt_or_eq, eq_comm (a := b.key), key_eq_iff_eq_of_not_differInZeros h,
      eq_comm (a := a)]

/-- Equality is equality of keys, but for pairs that differ in leading zeros. -/
theorem eq_iff_key_eq_iff (a b : Version) :
    (a = b ↔ a.key = b.key) ↔ ¬ DifferInZeros a b := by
  constructor
  · rintro h ⟨hne, hzeros⟩
    exact hne (h.mpr ((key_eq_iff a b).mpr hzeros))
  · intro h
    exact (key_eq_iff_eq_of_not_differInZeros h).symm

/-- Exactly one of "before", "equal" and "after" holds. -/
theorem count_comparisons (a b : Version) :
    [a.precedes b, a == b, a.exceeds b].count true = 1 := by
  have hself : (a == b) = true → a.precedes b = false := by
    intro h
    rw [beq_iff_eq] at h
    subst h
    rw [← Bool.not_eq_true, precedes_iff]
    exact lt_irrefl _
  rw [exceeds, bne]
  cases hp : a.precedes b with
  | true =>
    cases he : a == b with
    | true => rw [hself he] at hp; cases hp
    | false => rfl
  | false => cases a == b <;> rfl

theorem precedes_trans {a b c : Version} (hab : a.precedes b = true) (hbc : b.precedes c = true) :
    a.precedes c = true := by
  rw [precedes_iff] at hab hbc ⊢
  exact lt_trans hab hbc

/-- **How far comparison is one strict total order.** The first three laws
hold of all versions. The other two, `≥` as `≤` turned around and equality as
equality of sort keys, hold exactly of the pairs that do not differ in
leading zeros alone; so all of them hold of canonical versions. -/
theorem comparison_laws {s t : String} {a b : Version} (ha : parse? s = some a)
    (hb : parse? t = some b) :
    [a.precedes b, a == b, a.exceeds b].count true = 1 ∧
    a.atMost b = (a.precedes b || a == b) ∧
    (∀ c, a.precedes b = true → b.precedes c = true → a.precedes c = true) ∧
    (a.atLeast b = b.atMost a ↔ ¬ DifferInZeros a b) ∧
    (((a == b) = true ↔ sortKey? s = sortKey? t) ↔ ¬ DifferInZeros a b) ∧
    (a.Canonical → b.Canonical → ¬ DifferInZeros a b) := by
  refine ⟨count_comparisons a b, rfl, fun c => precedes_trans, atLeast_eq_atMost_iff a b, ?_, ?_⟩
  · rw [sortKey?, sortKey?, ha, hb, Option.map_some, Option.map_some, Option.some.injEq, beq_iff_eq]
    exact eq_iff_key_eq_iff a b
  · rintro hca hcb ⟨hne, hzeros⟩
    exact hne (key_inj hca hcb ((key_eq_iff a b).mpr hzeros))

/-- The laws at two canonical versions whose last identifiers are numbers. -/
theorem comparison_laws_numbers :
    parse? "1.0.0-rc.2" = some ⟨1, 0, 0, ["rc", "2"]⟩ ∧
    parse? "v1.0.0-rc.10+b7" = some ⟨1, 0, 0, ["rc", "10"]⟩ ∧
    (((⟨1, 0, 0, ["rc", "2"]⟩ : Version) == ⟨1, 0, 0, ["rc", "10"]⟩) = true ↔
      sortKey? "1.0.0-rc.2" = sortKey? "v1.0.0-rc.10+b7") := by
  have ha : parse? "1.0.0-rc.2" = some ⟨1, 0, 0, ["rc", "2"]⟩ := by decide
  have hb : parse? "v1.0.0-rc.10+b7" = some ⟨1, 0, 0, ["rc", "10"]⟩ := by decide
  obtain ⟨_, _, _, _, hkeys, hcanonical⟩ := comparison_laws ha hb
  exact ⟨ha, hb, hkeys.mpr (hcanonical (by decide) (by decide))⟩

/-- `1.0.0-01` and `1.0.0-1` share a sort key and are not equal; the first is
at least the second, which is not at most the first. -/
theorem leading_zero_breaks_comparison :
    ∃ a b : Version, parse? "1.0.0-01" = some a ∧ parse? "1.0.0-1" = some b ∧
      (a == b) = false ∧ sortKey? "1.0.0-01" = sortKey? "1.0.0-1" ∧
      a.atLeast b = true ∧ b.atMost a = false := by
  refine ⟨⟨1, 0, 0, ["01"]⟩, ⟨1, 0, 0, ["1"]⟩, by decide, by decide, by decide, ?_, by decide,
    by decide⟩
  rfl

end PackageAudit.Version
