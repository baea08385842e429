/-
PackageAudit.Proofs.Version.Text — a printed version is read back.

Reading goes from left to right over a list of characters and leaves a rest,
so each law about a part of a version is said for any rest that cannot carry
the part on: no digit behind a number, no identifier character or dot behind
identifiers. `PartialVersion.parse?_toText` puts the parts together.

A version is `Written` when its identifiers are non-empty and made of
identifier characters, as they are in everything that was read. For a whole
range this is so because each of its bounds is one that some operator on a
partial version of the text stands for (`exists_of_mem_sets`).
-/
import PackageAudit.Proofs.Collection
import PackageAudit.Proofs.Text.Cut
import PackageAudit.Proofs.Text.Digits
import PackageAudit.Proofs.Version.Intersection
import Mathlib.Data.List.TakeWhile

namespace PackageAudit

namespace Version

/-! ## 1. Characters -/

theorem toNat_of_isIdentifierChar {c : Char} (h : isIdentifierChar c = true) :
    c.toNat = 45 ∨ (48 ≤ c.toNat ∧ c.toNat ≤ 57) ∨ (65 ≤ c.toNat ∧ c.toNat ≤ 90) ∨
      (97 ≤ c.toNat ∧ c.toNat ≤ 122) := by
  rw [isIdentifierChar, Bool.or_eq_true, beq_iff_eq] at h
  rcases h with h | rfl
  · exact Or.inr (Text.toNat_of_isAlphanum h)
  · exact Or.inl rfl

/-- A character of a printed version. -/
def isVersionChar (c : Char) : Bool := isIdentifierChar c || c == '.'

theorem toNat_of_isVersionChar {c : Char} (h : isVersionChar c = true) :
    (45 ≤ c.toNat ∧ c.toNat ≤ 46) ∨ (48 ≤ c.toNat ∧ c.toNat ≤ 57) ∨
      (65 ≤ c.toNat ∧ c.toNat ≤ 90) ∨ (97 ≤ c.toNat ∧ c.toNat ≤ 122) := by
  rw [isVersionChar, Bool.or_eq_true, beq_iff_eq] at h
  rcases h with h | rfl
  · have := toNat_of_isIdentifierChar h
    omega
  · exact Or.inl (by decide)

theorem isSpace_of_isVersionChar {c : Char} (h : isVersionChar c = true) :
    Text.isSpace c = false := by
  have hr := toNat_of_isVersionChar h
  rw [Text.isSpace, if_pos (by omega)]
  simp only [Bool.or_eq_false_iff, Bool.and_eq_false_iff, decide_eq_false_iff_not]
  omega

/-! ## 2. Identifiers -/

/-- A non-empty identifier of identifier characters. -/
def WrittenIdentifier (x : String) : Prop :=
  x.toList ≠ [] ∧ ∀ c ∈ x.toList, isIdentifierChar c = true

/-- All identifiers of a version can be written. -/
def Written (v : Version) : Prop := ∀ x ∈ v.prerelease, WrittenIdentifier x

/-- Identifiers with dots between them. -/
def dotted (identifiers : List String) : List Char :=
  ['.'].intercalate (identifiers.map String.toList)

/-- What stands behind the numbers of a printed version. -/
def prereleaseText (identifiers : List String) : List Char :=
  if identifiers.isEmpty then [] else '-' :: dotted identifiers

theorem dotted_cons_cons (x y : String) (xs : List String) :
    dotted (x :: y :: xs) = x.toList ++ '.' :: dotted (y :: xs) := by
  simp [dotted, List.intercalate_cons_cons]

theorem isVersionChar_of_mem_dotted {identifiers : List String}
    (h : ∀ x ∈ identifiers, WrittenIdentifier x) :
    ∀ c ∈ dotted identifiers, isVersionChar c = true := by
  induction identifiers with
  | nil => intro c hc; simp [dotted] at hc
  | cons x xs ih =>
    have hx : ∀ c ∈ x.toList, isVersionChar c = true := by
      intro c hc
      rw [isVersionChar, (h x (by simp)).2 c hc, Bool.true_or]
    cases xs with
    | nil =>
      intro c hc
      exact hx c (by simpa [dotted] using hc)
    | cons y ys =>
      intro c hc
      rw [dotted_cons_cons, List.mem_append, List.mem_cons] at hc
      rcases hc with hc | rfl | hc
      · exact hx c hc
      · decide
      · exact ih (fun z hz => h z (by simp [hz])) c hc

/-- Dotted identifiers are read back from in front of a rest. -/
theorem identifiers?_dotted {identifiers : List String} (hne : identifiers ≠ [])
    (h : ∀ x ∈ identifiers, WrittenIdentifier x) {rest : List Char}
    (hrest : ∀ c ∈ rest.head?, isVersionChar c = false) :
    identifiers? (dotted identifiers ++ rest) = some (identifiers, rest) := by
  have hrun : (dotted identifiers ++ rest).takeWhile (fun c => isIdentifierChar c || c == '.') =
      dotted identifiers :=
    Text.takeWhile_append_stop (isVersionChar_of_mem_dotted h) hrest
  have hparts : Text.splitAt '.' (dotted identifiers) = identifiers.map String.toList := by
    refine Text.splitAt_intercalate '.' (by simpa using hne) ?_
    intro p hp hdot
    obtain ⟨x, hx, rfl⟩ := List.mem_map.mp hp
    have hchar := (h x hx).2 '.' hdot
    revert hchar
    decide
  have hnone : (identifiers.map String.toList).any (·.isEmpty) = false := by
    rw [List.any_eq_false]
    intro p hp
    obtain ⟨x, hx, rfl⟩ := List.mem_map.mp hp
    simpa using (h x hx).1
  have hback : (identifiers.map String.toList).map String.ofList = identifiers := by
    simp
  simp only [identifiers?, hrun, hparts, hnone, hback, Bool.false_eq_true, if_false,
    List.drop_left]

theorem prerelease?_prereleaseText {identifiers : List String}
    (h : ∀ x ∈ identifiers, WrittenIdentifier x) :
    prerelease? (prereleaseText identifiers) = some (identifiers, []) := by
  cases identifiers with
  | nil => rfl
  | cons x xs =>
    have hend : ∀ c ∈ ([] : List Char).head?, isVersionChar c = false := by
      intro c hc
      cases hc
    have hread := identifiers?_dotted (List.cons_ne_nil x xs) h hend
    rw [List.append_nil] at hread
    exact hread

/-! ## 3. Versions -/

/-- A number is read back from in front of a rest. -/
theorem number?_toDigits (n : Nat) {rest : List Char}
    (hrest : ∀ c ∈ rest.head?, Text.isDecimal c = false) :
    number? (Nat.toDigits 10 n ++ rest) = some (n, rest) := by
  have hrun : (Nat.toDigits 10 n ++ rest).takeWhile Text.isDecimal = Nat.toDigits 10 n :=
    Text.takeWhile_append_stop
      (fun c hc => Text.isDecimal_of_isDigit (Text.isDigit_of_mem_toDigits hc)) hrest
  have hne : (Nat.toDigits 10 n).isEmpty = false :=
    List.isEmpty_eq_false_iff.mpr Nat.toDigits_ne_nil
  simp only [number?, hrun, hne, Text.decimalNumber_toDigits, Bool.false_eq_true, if_false,
    List.drop_left]

theorem toList_toText (v : Version) : v.toText.toList =
    Nat.toDigits 10 v.major ++ '.' :: (Nat.toDigits 10 v.minor ++ '.' ::
      (Nat.toDigits 10 v.patch ++ prereleaseText v.prerelease)) := by
  have hdot : (toString ".").toList = ['.'] := rfl
  cases hp : v.prerelease.isEmpty with
  | true => simp [toText, prereleaseText, hp, hdot]
  | false => simp [toText, prereleaseText, dotted, hp, hdot]

theorem head?_toDigits (n : Nat) : ∃ c, (Nat.toDigits 10 n).head? = some c ∧ c.isDigit = true := by
  cases h : Nat.toDigits 10 n with
  | nil => exact absurd h Nat.toDigits_ne_nil
  | cons c cs => exact ⟨c, rfl, Text.isDigit_of_mem_toDigits (h ▸ List.mem_cons_self)⟩

/-- A printed version begins with a digit. -/
theorem exists_toText_eq_cons (v : Version) :
    ∃ c cs, v.toText.toList = c :: cs ∧ c.isDigit = true := by
  obtain ⟨c, hc, hdigit⟩ := head?_toDigits v.major
  rw [toList_toText]
  cases h : Nat.toDigits 10 v.major with
  | nil => exact absurd h Nat.toDigits_ne_nil
  | cons d ds =>
    rw [h] at hc
    cases hc
    exact ⟨c, _, rfl, hdigit⟩

/-- Nothing that begins with no digit is dropped in front of a printed version. -/
theorem dropWhile_toText {p : Char → Bool} (hp : ∀ c : Char, c.isDigit = true → p c = false)
    (v : Version) : v.toText.toList.dropWhile p = v.toText.toList := by
  obtain ⟨c, cs, hcs, hdigit⟩ := exists_toText_eq_cons v
  rw [hcs, List.dropWhile_cons_of_neg (by simp [hp c hdigit])]

theorem dropMarks_toText (v : Version) : dropMarks v.toText.toList = v.toText.toList := by
  refine dropWhile_toText (fun c hdigit => ?_) v
  simp only [Bool.or_eq_false_iff, beq_eq_false_iff_ne]
  refine ⟨?_, ?_⟩ <;> (rintro rfl; revert hdigit; decide)

/-- A dot ends a number. -/
theorem isDecimal_head?_dot (rest : List Char) :
    ∀ c ∈ ('.' :: rest).head?, Text.isDecimal c = false := by
  rintro c ⟨rfl⟩
  decide

/-- What stands behind the numbers ends the last of them. -/
theorem isDecimal_head?_prereleaseText (identifiers : List String) :
    ∀ c ∈ (prereleaseText identifiers).head?, Text.isDecimal c = false := by
  intro c hc
  rw [prereleaseText] at hc
  split at hc
  · cases hc
  · cases hc
    decide

/-- What was printed for a version is read as that version. -/
theorem parse?_toText {v : Version} (hv : v.Written) : parse? v.toText = some v := by
  have hspace : Text.trimFront Text.isSpace v.toText.toList = v.toText.toList :=
    dropWhile_toText
      (fun _ hdigit => Text.isSpace_of_isDecimal (Text.isDecimal_of_isDigit hdigit)) v
  simp only [parse?, hspace, dropMarks_toText]
  rw [toList_toText]
  simp only [number?_toDigits _ (isDecimal_head?_dot _),
    number?_toDigits _ (isDecimal_head?_prereleaseText _), afterDot?, prerelease?_prereleaseText hv,
    Option.bind_eq_bind, Option.bind_some, afterBuild?]
  rfl

end Version

namespace PartialVersion

/-! ## 4. Partial versions -/

/-- A version as a partial one that leaves nothing open. -/
def ofVersion (v : Version) : PartialVersion :=
  ⟨some v.major, some v.minor, some v.patch, v.prerelease⟩

@[simp] theorem version_from (v : Version) : (from_ v).version = v := rfl

@[simp] theorem version_below (v : Version) : (below v).version = v := rfl

@[simp] theorem relation_below (v : Version) : (below v).relation = .less := rfl

@[simp] theorem prerelease_floor (p : PartialVersion) : p.floor.prerelease = p.prerelease := rfl

@[simp] theorem prerelease_ceiling (major minor patch : Nat) :
    (ceiling major minor patch).prerelease = ["0"] := rfl

theorem part?_toDigits (n : Nat) {rest : List Char}
    (hrest : ∀ c ∈ rest.head?, Text.isDecimal c = false) :
    part? (Nat.toDigits 10 n ++ rest) = some (some n, rest) := by
  have hread := Version.number?_toDigits n hrest
  obtain ⟨c, hc, hdigit⟩ := Version.head?_toDigits n
  cases h : Nat.toDigits 10 n with
  | nil => exact absurd h Nat.toDigits_ne_nil
  | cons d ds =>
    rw [h] at hc hread
    cases hc
    have hopen : (c == 'x' || c == 'X' || c == '*') = false := by
      simp only [Bool.or_eq_false_iff, beq_eq_false_iff_ne]
      refine ⟨⟨?_, ?_⟩, ?_⟩ <;> (rintro rfl; revert hdigit; decide)
    rw [List.cons_append] at hread ⊢
    rw [part?, hopen, hread]
    rfl

/-- What was printed for a version is read as that version. -/
theorem parse?_toText {v : Version} (hv : v.Written) :
    parse? v.toText.toList = some (ofVersion v) := by
  simp only [parse?, Version.dropMarks_toText]
  rw [Version.toList_toText]
  simp only [part?_toDigits _ (Version.isDecimal_head?_dot _),
    part?_toDigits _ (Version.isDecimal_head?_prereleaseText _), Version.afterDot?,
    Version.prerelease?_prereleaseText hv, Option.bind_eq_bind, Option.bind_some,
    Version.afterBuild?]
  rfl

end PartialVersion

/-! ## 5. What was read can be written -/

theorem Version.written_of_identifiers? {cs rest : List Char} {identifiers : List String}
    (h : identifiers? cs = some (identifiers, rest)) : ∀ x ∈ identifiers, WrittenIdentifier x := by
  simp only [identifiers?, Option.ite_none_left_eq_some, Option.some.injEq, Prod.mk.injEq] at h
  obtain ⟨hne, rfl, rfl⟩ := h
  intro x hx
  obtain ⟨p, hp, rfl⟩ := List.mem_map.mp hx
  refine ⟨?_, fun c hc => ?_⟩
  · rw [List.any_eq_true] at hne
    intro hnil
    rw [String.toList_ofList] at hnil
    exact hne ⟨p, hp, by rw [hnil]; rfl⟩
  · rw [String.toList_ofList] at hc
    obtain ⟨hmem, hdot⟩ := Text.mem_of_mem_splitAt hp hc
    have hrun := List.mem_takeWhile_imp hmem
    rw [Bool.or_eq_true, beq_iff_eq] at hrun
    exact hrun.resolve_right hdot

theorem Version.written_of_prerelease? {cs rest : List Char} {identifiers : List String}
    (h : prerelease? cs = some (identifiers, rest)) : ∀ x ∈ identifiers, WrittenIdentifier x := by
  rw [prerelease?.eq_def] at h
  split at h
  · exact written_of_identifiers? h
  · cases h
    intro x hx
    cases hx

/-- What was read as a version can be written. -/
theorem Version.written_of_parse? {text : String} {v : Version} (h : parse? text = some v) :
    v.Written := by
  simp only [parse?, Option.bind_eq_bind, Option.bind_eq_some_iff] at h
  obtain ⟨⟨major, _⟩, _, _, _, ⟨minor, _⟩, _, _, _, ⟨patch, _⟩, _, ⟨prerelease, _⟩, hread, _, _, _,
    _, h⟩ := h
  cases h
  exact written_of_prerelease? hread

theorem PartialVersion.written_of_parse? {word : List Char} {p : PartialVersion}
    (h : parse? word = some p) : ∀ x ∈ p.prerelease, Version.WrittenIdentifier x := by
  have hnil : ∀ x ∈ ([] : List String), Version.WrittenIdentifier x := by
    intro x hx
    cases hx
  simp only [parse?, Option.bind_eq_bind, Option.bind_eq_some_iff] at h
  obtain ⟨⟨major, cs⟩, _, h⟩ := h
  split at h
  · cases h
    simp [ofParts]
  · simp only [Option.bind_eq_some_iff] at h
    obtain ⟨_, _, ⟨minor, cs⟩, _, h⟩ := h
    split at h
    · cases h
      simp [ofParts]
    · simp only [Option.bind_eq_some_iff] at h
      obtain ⟨_, _, ⟨patch, cs⟩, _, ⟨prerelease, cs⟩, hread, _, _, _, _, h⟩ := h
      cases h
      simp only [ofParts]
      split
      · exact Version.written_of_prerelease? hread
      · exact hnil

namespace Range

/-- Each bound of an operator has the prerelease part of its operand, is an
open upper end at the least prerelease, or is a release. -/
theorem prerelease_of_mem_apply (op : Operator) (p : PartialVersion) :
    ∀ c ∈ op.apply p, c.version.prerelease = p.prerelease ∨
      (c.relation = .less ∧ c.version.prerelease = ["0"]) ∨ c.version.prerelease = [] := by
  cases op with
  | bare => rw [Operator.apply, PartialVersion.completions]; split <;> simp
  | caret => rw [Operator.apply, PartialVersion.caret]; split <;> (try split_ifs) <;> simp
  | tilde => rw [Operator.apply, PartialVersion.tilde]; split <;> simp
  | above => rw [Operator.apply, PartialVersion.above]; split <;> simp
  | onward => rw [Operator.apply, PartialVersion.onward]; split <;> simp
  | under => rw [Operator.apply, PartialVersion.under]; split <;> simp
  | upTo => rw [Operator.apply, PartialVersion.upTo]; split <;> simp

theorem written_of_mem_apply (op : Operator) {word : List Char} {p : PartialVersion}
    (h : PartialVersion.parse? word = some p) : ∀ c ∈ op.apply p, c.version.Written := by
  intro c hc x hx
  rcases prerelease_of_mem_apply op p c hc with hp | ⟨_, hp⟩ | hp
  · exact PartialVersion.written_of_parse? h x (hp ▸ hx)
  · rw [hp, List.mem_singleton] at hx
    subst hx
    exact ⟨by decide, by simp [Version.isIdentifierChar]⟩
  · rw [hp] at hx
    cases hx

/-- The texts in an alternative that are read as partial versions. -/
def operands (part : List Char) : List (List Char) :=
  match Text.words part with
  | [low, ['-'], high] => [low, high]
  | _ => (Text.words (joinOperators false part)).map fun w => (operator w).2

/-- The partial versions in a range text. -/
def partials (text : String) : List PartialVersion :=
  ((Text.splitAtPair '|' '|' (dropSource (Text.trimBoth Text.isSpace text.toList))).flatMap
    fun part => operands (Text.trimBoth Text.isSpace part)).filterMap PartialVersion.parse?

theorem exists_of_mem_wordsComparators? {ws : List (List Char)} {s : ComparatorSet}
    (h : wordsComparators? ws = some s) {c : Comparator} (hc : c ∈ s) :
    ∃ w ∈ ws, ∃ p, PartialVersion.parse? (operator w).2 = some p ∧ c ∈ (operator w).1.apply p := by
  induction ws generalizing s with
  | nil =>
    cases h
    cases hc
  | cons w ws ih =>
    simp only [wordsComparators?, wordComparators?, Option.bind_eq_bind,
      Option.bind_eq_some_iff] at h
    obtain ⟨_, ⟨p, hp, hfirst⟩, rest, hrest, hs⟩ := h
    cases hfirst
    cases hs
    rcases List.mem_append.mp hc with hc | hc
    · exact ⟨w, List.mem_cons_self, p, hp, hc⟩
    · obtain ⟨x, hx, hread⟩ := ih hrest hc
      exact ⟨x, List.mem_cons_of_mem w hx, hread⟩

theorem exists_of_mem_alternative? {part : List Char} {s : ComparatorSet}
    (h : alternative? part = some s) {c : Comparator} (hc : c ∈ s) :
    ∃ w ∈ operands part, ∃ p, PartialVersion.parse? w = some p ∧
      ∃ op : Operator, c ∈ op.apply p := by
  by_cases hhyphen : ∃ low high, Text.words part = [low, ['-'], high]
  · obtain ⟨low, high, hwords⟩ := hhyphen
    rw [operands, hwords]
    simp only [alternative?, hwords, hyphenComparators?, Option.bind_eq_bind,
      Option.bind_eq_some_iff] at h
    obtain ⟨lower, hlower, upper, hupper, hs⟩ := h
    cases hs
    rcases List.mem_append.mp hc with hc | hc
    · exact ⟨low, List.mem_cons_self, lower, hlower, .onward, hc⟩
    · exact ⟨high, List.mem_cons_of_mem low List.mem_cons_self, upper, hupper, .upTo, hc⟩
  · have hread : alternative? part = wordsComparators? (Text.words (joinOperators false part)) := by
      rw [alternative?]
      split
      · exact absurd ⟨_, _, ‹_›⟩ hhyphen
      · rfl
    have hoperands : operands part =
        (Text.words (joinOperators false part)).map fun w => (operator w).2 := by
      rw [operands]
      split
      · exact absurd ⟨_, _, ‹_›⟩ hhyphen
      · rfl
    rw [hread] at h
    obtain ⟨w, hw, p, hp, hmem⟩ := exists_of_mem_wordsComparators? h hc
    exact ⟨_, hoperands ▸ List.mem_map_of_mem hw, p, hp, _, hmem⟩

/-- **Bounds come from operators.** Each bound of a range is one that some
operator on a partial version of its text stands for. -/
theorem exists_of_mem_sets {text : String} {r : Range} (h : parse? text = some r)
    {s : ComparatorSet} (hs : s ∈ r.sets) {c : Comparator} (hc : c ∈ s) :
    ∃ p ∈ partials text, (∃ w, PartialVersion.parse? w = some p) ∧
      ∃ op : Operator, c ∈ op.apply p := by
  obtain ⟨sets, hsets, rfl⟩ := Option.map_eq_some_iff.mp h
  obtain ⟨part, hpart, hread⟩ := exists_of_mem_mapM hsets hs
  obtain ⟨w, hw, p, hp, hmem⟩ := exists_of_mem_alternative? hread hc
  refine ⟨p, List.mem_filterMap.mpr ⟨w, ?_, hp⟩, ⟨w, hp⟩, hmem⟩
  exact List.mem_flatMap.mpr ⟨part, hpart, hw⟩

/-- All versions that a range names can be written. -/
theorem boundsIn_written_of_parse? {text : String} {r : Range} (h : parse? text = some r) :
    r.BoundsIn Version.Written := by
  intro s hs c hc
  obtain ⟨p, _, ⟨w, hp⟩, op, hmem⟩ := exists_of_mem_sets h hs hc
  exact written_of_mem_apply op hp c hmem

end Range

end PackageAudit
