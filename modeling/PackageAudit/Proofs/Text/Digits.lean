/-
PackageAudit.Proofs.Text.Digits — numbers and the digits that write them.

The library's `Nat.toDigits` writes a number and `Nat.ofDigitChars` reads one.
Reading what was written is a library lemma; here is the way back. It needs
a condition, since `007` and `7` are read alike: no zero stands before
another digit. The second section ties the reading of digits of any script
to the reading of plain ones.
-/
import PackageAudit.Text.Chars

namespace PackageAudit.Text

/-! ## 1. Writing what was read -/

theorem digitChar_toNat_sub {c : Char} (hc : c.isDigit = true) :
    Nat.digitChar (c.toNat - 48) = c := by
  have h : 48 ≤ c.toNat ∧ c.toNat ≤ 57 := Char.isDigit_iff_toNat.mp hc
  apply Char.toNat_inj.mp
  rw [Nat.toNat_digitChar_of_lt_ten (by omega)]
  omega

theorem toNat_sub_lt_ten {c : Char} (hc : c.isDigit = true) : c.toNat - 48 < 10 := by
  have h : 48 ≤ c.toNat ∧ c.toNat ≤ 57 := Char.isDigit_iff_toNat.mp hc
  omega

/-- A digit is all that its value is written with. -/
theorem toDigits_toNat_sub {c : Char} (hc : c.isDigit = true) :
    Nat.toDigits 10 (c.toNat - 48) = [c] := by
  rw [Nat.toDigits_of_lt_base (toNat_sub_lt_ten hc), digitChar_toNat_sub hc]

/-- Reading on from a number writes the further digits behind its own. -/
theorem toDigits_ofDigitChars_append (cs : List Char) (hcs : cs.all Char.isDigit = true) (n : Nat)
    (hn : 0 < n) : Nat.toDigits 10 (Nat.ofDigitChars 10 cs n) = Nat.toDigits 10 n ++ cs := by
  induction cs generalizing n with
  | nil => simp
  | cons c cs ih =>
    simp only [List.all_cons, Bool.and_eq_true] at hcs
    obtain ⟨hc, hcs⟩ := hcs
    have hlast := Nat.toDigits_append_toDigits (b := 10) (by decide) hn (toNat_sub_lt_ten hc)
    rw [toDigits_toNat_sub hc] at hlast
    rw [Nat.ofDigitChars_cons]
    calc Nat.toDigits 10 (Nat.ofDigitChars 10 cs (10 * n + (c.toNat - 48)))
        = Nat.toDigits 10 (10 * n + (c.toNat - 48)) ++ cs := ih hcs _ (by omega)
      _ = Nat.toDigits 10 n ++ c :: cs := by rw [← hlast]; simp

/-- A zero stands before another character. -/
def padded : List Char → Bool
  | '0' :: _ :: _ => true
  | _ => false

/-- Digits without a needless zero are those of the number that they write. -/
theorem toDigits_ofDigitChars {cs : List Char} (hne : cs ≠ []) (hcs : cs.all Char.isDigit = true)
    (hpad : padded cs = false) : Nat.toDigits 10 (Nat.ofDigitChars 10 cs 0) = cs := by
  cases cs with
  | nil => exact absurd rfl hne
  | cons c cs =>
    simp only [List.all_cons, Bool.and_eq_true] at hcs
    obtain ⟨hc, hcs⟩ := hcs
    rw [Nat.ofDigitChars_cons, Nat.mul_zero, Nat.zero_add]
    cases cs with
    | nil => simpa using toDigits_toNat_sub hc
    | cons d ds =>
      have hpos : 0 < c.toNat - 48 := by
        have hd : 48 ≤ c.toNat ∧ c.toNat ≤ 57 := Char.isDigit_iff_toNat.mp hc
        have hne0 : c ≠ '0' := by
          intro h
          subst h
          simp [padded] at hpad
        have : c.toNat ≠ 48 := fun h => hne0 (Char.toNat_inj.mp h)
        omega
      rw [show '0'.toNat = 48 from rfl, toDigits_ofDigitChars_append _ hcs _ hpos,
        toDigits_toNat_sub hc]
      rfl

/-! ## 2. Digits of any script -/

theorem isDecimal_eq_isDigit {c : Char} (hc : c.toNat < 128) : isDecimal c = c.isDigit := by
  rw [isDecimal, if_pos hc]

theorem isDecimal_of_isDigit {c : Char} (hc : c.isDigit = true) : isDecimal c = true := by
  have h : 48 ≤ c.toNat ∧ c.toNat ≤ 57 := Char.isDigit_iff_toNat.mp hc
  rw [isDecimal_eq_isDigit (by omega), hc]

/-- No code point lies in two tables whose ranges are apart. -/
theorem inRanges_eq_false {rs ss : List (Nat × Nat)}
    (hapart : ∀ r ∈ rs, ∀ s ∈ ss, r.2 < s.1 ∨ s.2 < r.1) {n : Nat}
    (h : inRanges rs n = true) : inRanges ss n = false := by
  simp only [inRanges, List.any_eq_true, Bool.and_eq_true, decide_eq_true_eq] at h
  obtain ⟨r, hr, hlow, hhigh⟩ := h
  simp only [inRanges, List.any_eq_false, Bool.and_eq_true, decide_eq_true_eq]
  rintro s hs ⟨hslow, hshigh⟩
  have := hapart r hr s hs
  omega

theorem isSpace_of_isDecimal {c : Char} (h : isDecimal c = true) : isSpace c = false := by
  rw [isDecimal] at h
  rw [isSpace]
  split at h
  · rename_i hascii
    have hd : 48 ≤ c.toNat ∧ c.toNat ≤ 57 := Char.isDigit_iff_toNat.mp h
    rw [if_pos hascii]
    simp only [Bool.or_eq_false_iff, Bool.and_eq_false_iff, decide_eq_false_iff_not]
    omega
  · rename_i hascii
    rw [if_neg hascii]
    exact inRanges_eq_false (by decide) h

theorem toNat_of_isAlphanum {c : Char} (h : c.isAlphanum = true) :
    (48 ≤ c.toNat ∧ c.toNat ≤ 57) ∨ (65 ≤ c.toNat ∧ c.toNat ≤ 90) ∨
      (97 ≤ c.toNat ∧ c.toNat ≤ 122) := by
  delta Char.isAlphanum Char.isAlpha Char.isUpper Char.isLower Char.isDigit at h
  simp only [Bool.or_eq_true, Bool.and_eq_true, decide_eq_true_eq, ge_iff_le,
    UInt32.le_iff_toNat_le] at h
  rcases h with (hupper | hlower) | hdigit
  · exact .inr (.inl hupper)
  · exact .inr (.inr hlower)
  · exact .inl hdigit

/-- No character of words is white space. -/
theorem isSpace_of_isWord {c : Char} (h : isWord c = true) : isSpace c = false := by
  rw [isWord] at h
  rw [isSpace]
  split at h
  · rename_i hascii
    rw [if_pos hascii]
    rw [Bool.or_eq_true, beq_iff_eq] at h
    rcases h with h | rfl
    · have := toNat_of_isAlphanum h
      simp only [Bool.or_eq_false_iff, Bool.and_eq_false_iff, decide_eq_false_iff_not]
      omega
    · decide
  · rename_i hascii
    rw [if_neg hascii]
    exact inRanges_eq_false (by decide +kernel) h

/-- Plain digits are read alike by both readers. -/
theorem decimalNumber_eq_ofDigitChars {cs : List Char} (hcs : ∀ c ∈ cs, c.isDigit = true) :
    decimalNumber cs = Nat.ofDigitChars 10 cs 0 := by
  have h : ∀ n, cs.foldl (fun n c => 10 * n + decimalValue c) n = Nat.ofDigitChars 10 cs n := by
    induction cs with
    | nil => intro n; rfl
    | cons c cs ih =>
      intro n
      have hd : 48 ≤ c.toNat ∧ c.toNat ≤ 57 := Char.isDigit_iff_toNat.mp (hcs c (by simp))
      have hv : decimalValue c = c.toNat - 48 := by rw [decimalValue, if_pos (by omega)]
      rw [List.foldl_cons, Nat.ofDigitChars_cons, hv, ih (fun d hd => hcs d (by simp [hd]))]
      rfl
  exact h 0

theorem isDigit_of_mem_toDigits {n : Nat} {c : Char} (hc : c ∈ Nat.toDigits 10 n) :
    c.isDigit = true :=
  Nat.isDigit_of_mem_toDigits (by decide) (by decide) hc

/-- The digits that write a number are read as that number. -/
theorem decimalNumber_toDigits (n : Nat) : decimalNumber (Nat.toDigits 10 n) = n := by
  rw [decimalNumber_eq_ofDigitChars fun c hc => isDigit_of_mem_toDigits hc,
    Nat.ofDigitChars_ten_toDigits]

end PackageAudit.Text
