/-
PackageAudit.Proofs.Text.Cut — the cuts of texts are the library's.

Splitting at a character is `List.splitOn`, and the words of a text are the
non-empty pieces of `List.splitOnP`. With these two equations the library's
lemmas on joined and appended lists speak about texts; the one for words is
that white space between two texts keeps their words apart. Splitting at a pair
of characters has no counterpart in the library; its laws ask that the first
character of the pair stands in no piece, so that it cannot meet a separator.
The last two sections are about the ends of a text.
-/
import PackageAudit.Text.Cut

namespace PackageAudit.Text

/-! ## 1. Pieces -/

theorem splitAt_eq_splitOn (sep : Char) (cs : List Char) : splitAt sep cs = cs.splitOn sep := by
  induction cs with
  | nil => rfl
  | cons c cs ih =>
    rw [splitAt, List.splitOn_cons_eq_if_modifyHead, ih]
    by_cases h : (c == sep) = true
    · rw [if_pos h, if_pos h]
    · rw [if_neg h, if_neg h]
      cases hs : cs.splitOn sep with
      | nil => exact absurd hs (List.splitOn_ne_nil sep cs)
      | cons p ps => rfl

/-- Splitting undoes joining. -/
theorem splitAt_intercalate (sep : Char) {parts : List (List Char)} (hne : parts ≠ [])
    (h : ∀ p ∈ parts, sep ∉ p) : splitAt sep ([sep].intercalate parts) = parts := by
  rw [splitAt_eq_splitOn, List.splitOn_intercalate sep h hne]

/-- A separator keeps the pieces of two texts apart. -/
theorem splitAt_append (sep : Char) (cs ds : List Char) :
    splitAt sep (cs ++ sep :: ds) = splitAt sep cs ++ splitAt sep ds := by
  simp only [splitAt_eq_splitOn]
  exact List.splitOnP_append_cons cs ds (beq_self_eq_true sep)

theorem mem_of_mem_splitAt {sep c : Char} {cs p : List Char} (hp : p ∈ splitAt sep cs)
    (hc : c ∈ p) : c ∈ cs ∧ c ≠ sep := by
  induction cs generalizing p with
  | nil =>
    rw [splitAt, List.mem_singleton] at hp
    subst hp
    cases hc
  | cons d ds ih =>
    rw [splitAt] at hp
    split at hp
    · rcases List.mem_cons.mp hp with rfl | hp
      · cases hc
      · obtain ⟨hmem, hne⟩ := ih hp hc
        exact ⟨List.mem_cons_of_mem _ hmem, hne⟩
    · rename_i hd
      have hds : d ≠ sep := fun h => hd (beq_iff_eq.mpr h)
      split at hp
      · rw [List.mem_singleton] at hp
        subst hp
        rw [List.mem_singleton] at hc
        subst hc
        exact ⟨List.mem_cons_self, hds⟩
      · rename_i q qs hq
        rcases List.mem_cons.mp hp with rfl | hp
        · rcases List.mem_cons.mp hc with rfl | hc
          · exact ⟨List.mem_cons_self, hds⟩
          · obtain ⟨hmem, hne⟩ := ih (hq ▸ List.mem_cons_self) hc
            exact ⟨List.mem_cons_of_mem _ hmem, hne⟩
        · obtain ⟨hmem, hne⟩ := ih (hq ▸ List.mem_cons_of_mem _ hp) hc
          exact ⟨List.mem_cons_of_mem _ hmem, hne⟩

/-! ## 2. Words -/

theorem fieldsBy_eq_filter_splitOnP (p : Char → Bool) (cs : List Char) :
    fieldsBy p cs = (cs.splitOnP p).filter fun w => !w.isEmpty := by
  induction cs with
  | nil => rfl
  | cons c cs ih =>
    rw [fieldsBy.eq_def, List.splitOnP_cons_eq_if_modifyHead]
    dsimp only
    by_cases hc : p c = true
    · rw [if_pos hc, if_pos hc, ih]
      rfl
    · rw [if_neg hc, if_neg hc]
      cases cs with
      | nil => rfl
      | cons d ds =>
        rw [List.splitOnP_cons_eq_if_modifyHead] at ih ⊢
        by_cases hd : p d = true
        · rw [if_pos hd] at ih
          simp only [if_pos hd, ih]
          rfl
        · rw [if_neg hd] at ih
          cases hs : ds.splitOnP p with
          | nil => exact absurd hs (List.splitOnP_ne_nil p ds)
          | cons w ws =>
            rw [hs] at ih
            simp only [if_neg hd, ih]
            rfl

/-- The words of a text are its pieces between white space, empty ones left
out. -/
theorem words_eq_filter_splitOnP (cs : List Char) :
    words cs = (cs.splitOnP isSpace).filter fun w => !w.isEmpty :=
  fieldsBy_eq_filter_splitOnP isSpace cs

theorem words_singleton {w : List Char} (hne : w ≠ []) (hw : ∀ c ∈ w, isSpace c = false) :
    words w = [w] := by
  rw [words_eq_filter_splitOnP, List.splitOnP_eq_singleton hw]
  simp [hne]

theorem words_cons_space {c : Char} (hc : isSpace c = true) (cs : List Char) :
    words (c :: cs) = words cs := by
  rw [words, fieldsBy.eq_def]
  exact if_pos hc

theorem ne_nil_of_mem_words {cs w : List Char} (h : w ∈ words cs) : w ≠ [] := by
  rw [words_eq_filter_splitOnP, List.mem_filter] at h
  simpa using h.2

/-- White space between two texts keeps their words apart. -/
theorem words_append_space (cs ds : List Char) {c : Char} (hc : isSpace c = true) :
    words (cs ++ c :: ds) = words cs ++ words ds := by
  simp only [words_eq_filter_splitOnP, List.splitOnP_append_cons cs ds hc, List.filter_append]

theorem words_spaces_append {front : List Char} (h : ∀ c ∈ front, isSpace c = true)
    (cs : List Char) : words (front ++ cs) = words cs := by
  induction front with
  | nil => rfl
  | cons c front ih =>
    rw [List.cons_append, words_cons_space (h c (by simp)), ih fun d hd => h d (by simp [hd])]

theorem words_append_spaces {back : List Char} (h : ∀ c ∈ back, isSpace c = true)
    (cs : List Char) : words (cs ++ back) = words cs := by
  cases back with
  | nil => rw [List.append_nil]
  | cons c back =>
    have hnone := words_spaces_append (fun d hd => h d (List.mem_cons_of_mem c hd)) []
    rw [List.append_nil] at hnone
    rw [words_append_space cs back (h c (by simp)), hnone]
    exact List.append_nil _

/-- Characters in front of the first of some words, or a word by themselves. -/
def attach (w : List Char) : List (List Char) → List (List Char)
  | [] => [w]
  | x :: xs => (w ++ x) :: xs

theorem attach_append {w : List Char} {xs : List (List Char)} (hne : xs ≠ [])
    (ys : List (List Char)) : attach w (xs ++ ys) = attach w xs ++ ys := by
  cases xs with
  | nil => exact absurd rfl hne
  | cons x xs => rfl

@[simp] theorem flatten_attach (w : List Char) (xs : List (List Char)) :
    (attach w xs).flatten = w ++ xs.flatten := by
  cases xs <;> simp [attach]

/-- A character in front of a text that begins with no white space belongs to
the first word. -/
theorem words_cons {c : Char} (hc : isSpace c = false) {cs : List Char}
    (hcs : ∀ d ∈ cs.head?, isSpace d = false) : words (c :: cs) = attach [c] (words cs) := by
  rw [words, fieldsBy.eq_def, words]
  cases cs with
  | nil => simp [fieldsBy, hc, attach]
  | cons d ds =>
    simp only [hc, hcs d rfl, Bool.false_eq_true, if_false]
    cases fieldsBy isSpace (d :: ds) <;> rfl

theorem words_cons_append_space {c d : Char} (hc : isSpace c = false) (hd : isSpace d = true)
    (cs : List Char) : words (c :: d :: cs) = [c] :: words (d :: cs) := by
  rw [words_cons_space hd]
  exact (words_append_space [c] cs hd).trans
    (congrArg (· ++ words cs) (words_singleton (by simp) (by simpa using hc)))

/-- The words of a text are its characters without the white space. -/
theorem flatten_words (cs : List Char) :
    (words cs).flatten = cs.filter fun c => !isSpace c := by
  induction cs with
  | nil => rfl
  | cons c cs ih =>
    cases hc : isSpace c with
    | true => simp [words_cons_space hc, ih, hc]
    | false =>
      rw [List.filter_cons_of_pos (by simp [hc]), ← ih]
      by_cases hcs : ∀ d ∈ cs.head?, isSpace d = false
      · rw [words_cons hc hcs, flatten_attach, List.singleton_append]
      · cases cs with
        | nil => exact absurd (by simp) hcs
        | cons d ds =>
          have hd : isSpace d = true := by simpa using hcs
          rw [words_cons_append_space hc hd, List.flatten_cons, List.singleton_append]

/-! ## 3. Separators of two characters -/

section

variable {a b : Char} {cs : List Char}

theorem exists_splitAtPair_eq_cons (a b : Char) (cs : List Char) :
    ∃ p ps, splitAtPair a b cs = p :: ps := by
  fun_cases splitAtPair a b cs <;> simp

theorem splitAtPair_ne_nil (a b : Char) (cs : List Char) : splitAtPair a b cs ≠ [] := by
  obtain ⟨p, ps, hpieces⟩ := exists_splitAtPair_eq_cons a b cs
  rw [hpieces]
  exact List.cons_ne_nil p ps

theorem splitAtPair_separator (a b : Char) (cs : List Char) :
    splitAtPair a b (a :: b :: cs) = [] :: splitAtPair a b cs := by
  simp [splitAtPair]

/-- A character that begins no separator belongs to the first piece. -/
theorem splitAtPair_character {c : Char} (h : ¬ [a, b] <+: c :: cs) :
    splitAtPair a b (c :: cs) = (splitAtPair a b cs).modifyHead (c :: ·) := by
  cases cs with
  | nil => rfl
  | cons d ds =>
    have hpair : ¬ (c == a && d == b) = true := by
      rw [Bool.and_eq_true, beq_iff_eq, beq_iff_eq]
      rintro ⟨rfl, rfl⟩
      exact h (List.prefix_append [c, d] ds)
    obtain ⟨p, ps, hpieces⟩ := exists_splitAtPair_eq_cons a b (d :: ds)
    rw [splitAtPair, if_neg hpair, hpieces]
    rfl

theorem not_separator_of_ne {c : Char} (hc : c ≠ a) (cs : List Char) : ¬ [a, b] <+: c :: cs :=
  fun h => hc (List.cons_prefix_cons.mp h).1.symm

/-- A text is empty, begins with a separator, or begins with a character that
begins none. -/
theorem splitAtPair_induction {Q : List Char → Prop} (nil : Q [])
    (separator : ∀ cs, Q cs → Q (a :: b :: cs))
    (character : ∀ c cs, ¬ [a, b] <+: c :: cs → Q cs → Q (c :: cs)) (cs : List Char) : Q cs := by
  have hcharacter : ∀ c d ds, ¬ (c == a && d == b) = true → Q (d :: ds) → Q (c :: d :: ds) := by
    intro c d ds hpair
    refine character c (d :: ds) fun h => hpair ?_
    obtain ⟨hca, hrest⟩ := List.cons_prefix_cons.mp h
    simp [← hca, ← (List.cons_prefix_cons.mp hrest).1]
  induction cs using splitAtPair.induct a b with
  | case1 => exact nil
  | case2 c => exact character c [] (by simp) nil
  | case3 c d cs hpair ih =>
    rw [Bool.and_eq_true, beq_iff_eq, beq_iff_eq] at hpair
    obtain ⟨rfl, rfl⟩ := hpair
    exact separator cs ih
  | case4 c d cs hpair _ ih => exact hcharacter c d cs hpair ih
  | case5 c d cs hpair _ _ _ ih => exact hcharacter c d cs hpair ih

theorem splitAtPair_eq_singleton (b : Char) (h : a ∉ cs) : splitAtPair a b cs = [cs] := by
  induction cs with
  | nil => rfl
  | cons c cs ih =>
    rw [List.mem_cons, not_or] at h
    rw [splitAtPair_character (not_separator_of_ne (Ne.symm h.1) cs), ih h.2]
    rfl

/-- A single piece is the whole. -/
theorem eq_of_splitAtPair_eq_singleton {p : List Char} (h : splitAtPair a b cs = [p]) :
    p = cs := by
  induction cs using splitAtPair_induction (a := a) (b := b) generalizing p with
  | nil => simpa [splitAtPair] using h.symm
  | separator cs _ =>
    rw [splitAtPair_separator, List.cons.injEq] at h
    exact absurd h.2 (splitAtPair_ne_nil a b cs)
  | character c cs hc ih =>
    obtain ⟨q, qs, hpieces⟩ := exists_splitAtPair_eq_cons a b cs
    rw [splitAtPair_character hc, hpieces, List.modifyHead_cons, List.cons.injEq] at h
    obtain ⟨rfl, rfl⟩ := h
    rw [ih hpieces]

/-- Behind pieces without the first character of a separator, the next
separator is where it is put. -/
theorem splitAtPair_append (h : ∀ p ∈ splitAtPair a b cs, a ∉ p) (ds : List Char) :
    splitAtPair a b (cs ++ a :: b :: ds) = splitAtPair a b cs ++ splitAtPair a b ds := by
  induction cs using splitAtPair_induction (a := a) (b := b) with
  | nil => exact splitAtPair_separator a b ds
  | separator cs ih =>
    rw [splitAtPair_separator] at h ⊢
    rw [List.cons_append, List.cons_append, splitAtPair_separator,
      ih fun p hp => h p (List.mem_cons_of_mem _ hp), List.cons_append]
  | character c cs hc ih =>
    obtain ⟨p, ps, hpieces⟩ := exists_splitAtPair_eq_cons a b cs
    rw [splitAtPair_character hc, hpieces, List.modifyHead_cons, List.forall_mem_cons,
      List.mem_cons, not_or] at h
    obtain ⟨⟨hca, hp⟩, hps⟩ := h
    have hrest := ih (by rw [hpieces]; exact List.forall_mem_cons.mpr ⟨hp, hps⟩)
    rw [List.cons_append, splitAtPair_character (not_separator_of_ne (Ne.symm hca) _), hrest,
      splitAtPair_character hc, hpieces]
    rfl

/-- Characters that are in no separator belong to the last piece. -/
theorem exists_splitAtPair_append {back : List Char} (ha : a ∉ back) (hb : b ∉ back)
    (cs : List Char) : ∃ init last, splitAtPair a b cs = init ++ [last] ∧
      splitAtPair a b (cs ++ back) = init ++ [last ++ back] := by
  induction cs using splitAtPair_induction (a := a) (b := b) with
  | nil => exact ⟨[], [], rfl, splitAtPair_eq_singleton b ha⟩
  | separator cs ih =>
    obtain ⟨init, last, hinit, hlast⟩ := ih
    refine ⟨[] :: init, last, ?_, ?_⟩
    · rw [splitAtPair_separator, hinit, List.cons_append]
    · rw [List.cons_append, List.cons_append, splitAtPair_separator, hlast, List.cons_append]
  | character c cs hc ih =>
    obtain ⟨init, last, hinit, hlast⟩ := ih
    have hback : ¬ [a, b] <+: c :: (cs ++ back) := by
      rw [List.cons_prefix_cons] at hc ⊢
      rintro ⟨rfl, h⟩
      cases cs with
      | nil => exact hb (h.subset List.mem_cons_self)
      | cons d ds => exact hc ⟨rfl, by simpa using h⟩
    rw [List.cons_append, splitAtPair_character hc, splitAtPair_character hback, hinit, hlast]
    cases init with
    | nil => exact ⟨[], c :: last, rfl, rfl⟩
    | cons p init => exact ⟨(c :: p) :: init, last, rfl, rfl⟩

/-- Pieces have only characters of the whole. -/
theorem mem_of_mem_splitAtPair {piece : List Char} (h : piece ∈ splitAtPair a b cs) {c : Char}
    (hc : c ∈ piece) : c ∈ cs := by
  induction cs using splitAtPair_induction (a := a) (b := b) generalizing piece with
  | nil =>
    rw [splitAtPair, List.mem_singleton] at h
    exact h ▸ hc
  | separator cs ih =>
    rw [splitAtPair_separator] at h
    rcases List.mem_cons.mp h with rfl | h
    · cases hc
    · exact List.mem_cons_of_mem _ (List.mem_cons_of_mem _ (ih h hc))
  | character d cs hd ih =>
    obtain ⟨p, ps, hpieces⟩ := exists_splitAtPair_eq_cons a b cs
    rw [hpieces] at ih
    rw [splitAtPair_character hd, hpieces, List.modifyHead_cons] at h
    rcases List.mem_cons.mp h with rfl | h
    · rcases List.mem_cons.mp hc with rfl | hc
      · exact List.mem_cons_self
      · exact List.mem_cons_of_mem d (ih List.mem_cons_self hc)
    · exact List.mem_cons_of_mem d (ih (List.mem_cons_of_mem p h) hc)

end

/-! ## 4. Ends -/

/-- Taking a run stops where the run does. -/
theorem takeWhile_append_stop {p : Char → Bool} {cs rest : List Char} (hcs : ∀ c ∈ cs, p c = true)
    (hrest : ∀ c ∈ rest.head?, p c = false) : (cs ++ rest).takeWhile p = cs := by
  rw [List.takeWhile_append_of_pos hcs]
  cases rest with
  | nil => simp
  | cons d ds =>
    have hd : p d = false := hrest d rfl
    simp [hd]

theorem exists_trimBoth (p : Char → Bool) (cs : List Char) :
    ∃ front back, cs = front ++ trimBoth p cs ++ back ∧ (∀ c ∈ front, p c = true) ∧
      ∀ c ∈ back, p c = true := by
  refine ⟨cs.takeWhile p, ((cs.dropWhile p).reverse.takeWhile p).reverse, ?_,
    List.all_eq_true.mp List.all_takeWhile, fun c hc => ?_⟩
  · rw [trimBoth, trimBack, trimFront, List.append_assoc, ← List.reverse_append,
      List.takeWhile_append_dropWhile, List.reverse_reverse, List.takeWhile_append_dropWhile]
  · exact List.all_eq_true.mp List.all_takeWhile c (List.mem_reverse.mp hc)

/-- White space at the ends of a text belongs to no word. -/
theorem words_trimBoth (cs : List Char) : words (trimBoth isSpace cs) = words cs := by
  obtain ⟨front, back, hcs, hfront, hback⟩ := exists_trimBoth isSpace cs
  rw [congrArg words hcs, words_append_spaces hback, words_spaces_append hfront]

/-! ## 5. Beginnings -/

theorem rest?_eq_some_iff {start cs rest : List Char} :
    rest? start cs = some rest ↔ cs = start ++ rest := by
  induction start generalizing cs with
  | nil => simp [rest?]
  | cons p ps ih =>
    cases cs with
    | nil => simp [rest?]
    | cons c cs =>
      rw [rest?]
      by_cases h : p = c
      · simp [h, ih]
      · simp [h, Ne.symm h]

theorem after?_eq_some_iff {start s rest : String} :
    after? start s = some rest ↔ s.toList = start.toList ++ rest.toList := by
  rw [after?, Option.map_eq_some_iff]
  constructor
  · rintro ⟨cs, hcs, rfl⟩
    rw [rest?_eq_some_iff.mp hcs, String.toList_ofList]
  · intro h
    exact ⟨rest.toList, rest?_eq_some_iff.mpr h, String.ofList_toList⟩

theorem begins_iff {start s : String} :
    begins start s = true ↔ ∃ rest, after? start s = some rest := by
  simp only [after?_eq_some_iff, begins, List.isPrefixOf_iff_prefix]
  constructor
  · rintro ⟨rest, h⟩
    exact ⟨String.ofList rest, by rw [String.toList_ofList, h]⟩
  · rintro ⟨rest, h⟩
    exact ⟨rest.toList, h.symm⟩

end PackageAudit.Text
