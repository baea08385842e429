/-
PackageAudit.Proofs.Version.Expression — an interval is printed as a range
that means the interval.

A printed expression is `*` or a list of words, each an operator and a
version. The words are read back for any list of them (`parse?_wordsText`),
so the short forms (caret, tilde, one version) and the two ends differ only
in which words they are. What remains is to compare bounds: a short form is
chosen only if its upper end is the one that its operator stands for, and an
end `<X.Y.Z-0` that is printed as `<X.Y.Z` is the same for versions without
prerelease part (`precedes_release`).
-/
import PackageAudit.Proofs.Version.Token
import PackageAudit.Proofs.Version.Words

namespace PackageAudit

/-! ## 1. Words -/

namespace Range

/-- The sign of an operator. -/
def Operator.sign : Operator → String
  | .bare => ""
  | .caret => "^"
  | .tilde => "~"
  | .above => ">"
  | .onward => ">="
  | .under => "<"
  | .upTo => "<="

/-- The ways to write an operator. -/
def Operator.signs : Operator → List String
  | .bare => ["", "="]
  | .tilde => ["~", "~>"]
  | op => [op.sign]

theorem Operator.sign_mem_signs (op : Operator) : op.sign ∈ op.signs := by
  cases op <;> simp [signs, sign]

/-- An operator in front of a version. -/
def wordText (w : Operator × Version) : String := w.1.sign ++ w.2.toText

/-- What reading asks of a piece between blanks: that it does not come apart
and that no source of a package begins with it. -/
structure IsPiece (w : List Char) : Prop where
  ne_nil : w ≠ []
  noSpace : ∀ c ∈ w, Text.isSpace c = false
  noBar : '|' ∉ w
  noSource : ∀ c ∈ w.head?, c ≠ 'w' ∧ c ≠ 'n'

/-- What reading asks of a word: that it is a piece, is no hyphen and does not
take in its neighbours. -/
structure IsWord (w : List Char) : Prop extends IsPiece w where
  notHyphen : w ≠ ['-']
  closed : ∀ c ∈ w.getLast?, isOperatorChar c = false

theorem isOperatorChar_of_isTokenChar {c : Char} (h : PartialVersion.isTokenChar c = true) :
    isOperatorChar c = false := by
  simp only [isOperatorChar, Bool.or_eq_false_iff, beq_eq_false_iff_ne]
  refine ⟨⟨⟨⟨?_, ?_⟩, ?_⟩, ?_⟩, ?_⟩ <;> (rintro rfl; revert h; decide)

theorem isPiece_hyphen : IsPiece ['-'] := ⟨by simp, by simp [Text.isSpace], by simp, by simp⟩

section

variable {word : List Char} {p : PartialVersion}

/-- A word that was read can stand between blanks and behind an operator. -/
theorem isWord_of_parse? (h : PartialVersion.parse? word = some p) : IsWord word := by
  obtain ⟨marks, first, rest, rfl, hmarks, hfirst, hchars⟩ :=
    PartialVersion.exists_marks_of_parse? h
  refine ⟨⟨by simp, ?_, ?_, ?_⟩, ?_, ?_⟩
  · intro c hc
    rcases List.mem_append.mp hc with hc | hc
    · rcases hmarks c hc with rfl | rfl <;> decide
    · exact PartialVersion.isSpace_of_isTokenChar (hchars c hc)
  · intro hbar
    rcases List.mem_append.mp hbar with hbar | hbar
    · rcases hmarks '|' hbar with hbar | hbar <;> cases hbar
    · exact absurd (hchars '|' hbar) (by decide)
  · cases marks with
    | nil =>
      rintro c ⟨rfl⟩
      refine ⟨?_, ?_⟩ <;> (rintro rfl; revert hfirst; decide)
    | cons d ds =>
      rintro c ⟨rfl⟩
      rcases hmarks d List.mem_cons_self with rfl | rfl <;> decide
  · intro hhyphen
    cases marks with
    | nil =>
      cases hhyphen
      revert hfirst
      decide
    | cons d ds => simp at hhyphen
  · intro c hc
    rw [List.getLast?_append_of_ne_nil _ (List.cons_ne_nil first rest)] at hc
    exact isOperatorChar_of_isTokenChar (hchars c (List.mem_of_getLast? hc))

/-- A word that was read begins with no operator, except that it may have a
mark that looks like one. -/
theorem exists_cons_of_parse? (h : PartialVersion.parse? word = some p)
    (hmark : word.head? ≠ some '=') : ∃ c cs, word = c :: cs ∧ isOperatorChar c = false := by
  obtain ⟨marks, first, rest, rfl, hmarks, _, hchars⟩ := PartialVersion.exists_marks_of_parse? h
  cases marks with
  | nil =>
    exact ⟨first, rest, rfl, isOperatorChar_of_isTokenChar (hchars first List.mem_cons_self)⟩
  | cons d ds =>
    refine ⟨d, ds ++ first :: rest, rfl, ?_⟩
    rcases hmarks d List.mem_cons_self with rfl | rfl
    · decide
    · exact absurd rfl hmark

theorem isOperatorChar_of_mem_signs {op : Operator} {sign : String} (h : sign ∈ op.signs) :
    ∀ c ∈ sign.toList, isOperatorChar c = true := by
  have hall : ∀ sign ∈ op.signs, ∀ c ∈ sign.toList, isOperatorChar c = true := by
    cases op <;> simp [Operator.signs, Operator.sign, isOperatorChar]
  exact hall sign h

/-- Operators in front of a word make a word. -/
theorem IsWord.append (hword : IsWord word) {sign : List Char}
    (hsign : ∀ c ∈ sign, isOperatorChar c = true) : IsWord (sign ++ word) := by
  have hplain : ∀ c ∈ sign, Text.isSpace c = false ∧ c ≠ '|' ∧ c ≠ 'w' ∧ c ≠ 'n' ∧ c ≠ '-' := by
    intro c hc
    have hop := hsign c hc
    simp only [isOperatorChar, Bool.or_eq_true, beq_iff_eq] at hop
    rcases hop with (((rfl | rfl) | rfl) | rfl) | rfl <;> decide
  refine ⟨⟨by simp [hword.ne_nil], ?_, ?_, ?_⟩, ?_, ?_⟩
  · intro c hc
    rcases List.mem_append.mp hc with hc | hc
    · exact (hplain c hc).1
    · exact hword.noSpace c hc
  · intro hbar
    rcases List.mem_append.mp hbar with hbar | hbar
    · exact (hplain '|' hbar).2.1 rfl
    · exact hword.noBar hbar
  · cases sign with
    | nil => exact hword.noSource
    | cons d ds =>
      rintro c ⟨rfl⟩
      have := hplain d List.mem_cons_self
      exact ⟨this.2.2.1, this.2.2.2.1⟩
  · cases sign with
    | nil => exact hword.notHyphen
    | cons d ds =>
      intro hhyphen
      exact (hplain d List.mem_cons_self).2.2.2.2 (List.cons.inj hhyphen).1
  · rw [List.getLast?_append_of_ne_nil _ hword.ne_nil]
    exact hword.closed

/-- The operator in front of a word is read, unless the word takes it for
another one by a mark. -/
theorem operator_sign (h : PartialVersion.parse? word = some p) (hmark : word.head? ≠ some '=')
    {op : Operator} {sign : String} (hsign : sign ∈ op.signs) :
    operator (sign.toList ++ word) = (op, word) := by
  obtain ⟨c, cs, rfl, hc⟩ := exists_cons_of_parse? h hmark
  simp only [isOperatorChar, Bool.or_eq_false_iff, beq_eq_false_iff_ne] at hc
  obtain ⟨⟨⟨⟨hcaret, htilde⟩, hless⟩, hgreater⟩, hequal⟩ := hc
  have hread : ∀ sign ∈ op.signs, operator (sign.toList ++ c :: cs) = (op, c :: cs) := by
    cases op <;>
      simp [Operator.signs, Operator.sign, operator, hcaret, htilde, hless, hgreater, hequal]
  exact hread sign hsign

theorem wordComparators?_sign (h : PartialVersion.parse? word = some p)
    (hmark : word.head? ≠ some '=') {op : Operator} {sign : String} (hsign : sign ∈ op.signs) :
    wordComparators? (sign.toList ++ word) = some (op.apply p) := by
  rw [wordComparators?, operator_sign h hmark hsign]
  simp only [h, Option.bind_eq_bind, Option.bind_some]
  rfl

end

/-- A printed version has no mark. -/
theorem head?_toText_ne (v : Version) : v.toText.toList.head? ≠ some '=' := by
  obtain ⟨c, cs, hcs, hdigit⟩ := Version.exists_toText_eq_cons v
  rw [hcs]
  rintro ⟨rfl⟩
  revert hdigit
  decide

theorem wordComparators?_wordText (op : Operator) {v : Version} (hv : v.Written) :
    wordComparators? (wordText (op, v)).toList = some (op.apply (.ofVersion v)) := by
  rw [wordText, String.toList_append]
  exact wordComparators?_sign (PartialVersion.parse?_toText hv) (head?_toText_ne v)
    op.sign_mem_signs

theorem isWord_wordText (op : Operator) {v : Version} (hv : v.Written) :
    IsWord (wordText (op, v)).toList := by
  rw [wordText, String.toList_append]
  exact (isWord_of_parse? (PartialVersion.parse?_toText hv)).append
    (isOperatorChar_of_mem_signs op.sign_mem_signs)

/-! ## 2. Words with blanks between them -/

/-- Words with blanks between them. -/
def joined (ws : List (List Char)) : List Char := [' '].intercalate ws

theorem joined_cons_cons (w x : List Char) (ws : List (List Char)) :
    joined (w :: x :: ws) = w ++ ' ' :: joined (x :: ws) := by
  simp [joined, List.intercalate_cons_cons]

section

variable {ws : List (List Char)}

theorem words_joined (hws : ∀ w ∈ ws, IsPiece w) : Text.words (joined ws) = ws := by
  induction ws with
  | nil => rfl
  | cons w ws ih =>
    have hw : IsPiece w := hws w (by simp)
    have hword : Text.words w = [w] := Text.words_singleton hw.ne_nil hw.noSpace
    cases ws with
    | nil => rw [joined, List.intercalate_singleton, hword]
    | cons x ws =>
      rw [joined_cons_cons, Text.words_append_space _ _ (by decide), hword,
        ih fun y hy => hws y (by simp [hy]), List.singleton_append]

theorem not_mem_joined {c : Char} (hblank : c ≠ ' ') (hws : ∀ w ∈ ws, c ∉ w) :
    c ∉ joined ws := by
  induction ws with
  | nil => simp [joined]
  | cons w ws ih =>
    cases ws with
    | nil => simpa [joined] using hws w (by simp)
    | cons x ws =>
      rw [joined_cons_cons, List.mem_append, List.mem_cons]
      rintro (hc | hc | hc)
      · exact hws w (by simp) hc
      · exact hblank hc
      · exact ih (fun y hy => hws y (by simp [hy])) hc

theorem alternatives_joined (hws : ∀ w ∈ ws, IsPiece w) : alternatives (joined ws) = [ws] := by
  rw [alternatives_of_not_mem (not_mem_joined (by decide) fun w hw => (hws w hw).noBar),
    words_joined hws]

theorem noSource_flatten (hws : ∀ w ∈ ws, IsPiece w) :
    ∀ c ∈ ws.flatten.head?, c ≠ 'w' ∧ c ≠ 'n' := by
  cases ws with
  | nil => simp
  | cons w ws =>
    have hw : IsPiece w := hws w (by simp)
    rw [List.flatten_cons, List.head?_append_of_ne_nil _ hw.ne_nil]
    exact hw.noSource

/-- Pieces with blanks between them are one alternative. -/
theorem sets?_joined (hws : ∀ w ∈ ws, IsPiece w) :
    sets? (joined ws) = (ofWords? ws).map fun s => [s] := by
  have hone : alternatives (joined ws) = [ws] := alternatives_joined hws
  have hsource : Sourceless (joined ws) := by
    refine sourceless_of_head ?_
    rw [hone]
    rintro _ ⟨rfl⟩
    exact noSource_flatten hws
  rw [sets?_of_sourceless hsource, hone, List.mapM_cons]
  cases ofWords? ws <;> rfl

theorem IsWord.endsOpen_eq {w : List Char} (h : IsWord w) : endsOpen w = false := by
  rw [endsOpen, Option.any_eq_false]
  intro c hc
  simp [h.closed c hc]

theorem ofWords?_of_isWord (hws : ∀ w ∈ ws, IsWord w) :
    ofWords? ws = wordsComparators? ws := by
  have hjoin : joinWords ws = ws := joinWords_eq_self fun w hw => (hws w hw).endsOpen_eq
  rw [ofWords?.eq_def, hjoin]
  split
  · exact absurd rfl (hws ['-'] (by simp)).notHyphen
  · rfl

/-- A list of words is read word by word. -/
theorem sets?_words (hws : ∀ w ∈ ws, IsWord w) :
    sets? (joined ws) = (wordsComparators? ws).map fun s => [s] := by
  rw [sets?_joined fun w hw => (hws w hw).toIsPiece, ofWords?_of_isWord hws]

end

/-! ## 3. Printed words -/

/-- Operators and versions with blanks between them. -/
def wordsText (ws : List (Operator × Version)) : String := " ".intercalate (ws.map wordText)

theorem wordsComparators?_wordText {ws : List (Operator × Version)}
    (hws : ∀ w ∈ ws, w.2.Written) :
    wordsComparators? (ws.map fun w => (wordText w).toList) =
      some (ws.flatMap fun w => w.1.apply (.ofVersion w.2)) := by
  induction ws with
  | nil => rfl
  | cons w ws ih =>
    obtain ⟨op, v⟩ := w
    rw [List.map_cons, wordsComparators?, wordComparators?_wordText op (hws (op, v) (by simp)),
      ih fun x hx => hws x (by simp [hx])]
    rfl

/-- **Printed words are read back.** A list of operators and versions is read
as one alternative, with the comparators of each operator on its version. -/
theorem parse?_wordsText {ws : List (Operator × Version)} (hws : ∀ w ∈ ws, w.2.Written) :
    parse? (wordsText ws) =
      some ⟨wordsText ws, [ws.flatMap fun w => w.1.apply (.ofVersion w.2)]⟩ := by
  have htext : (wordsText ws).toList = joined (ws.map fun w => (wordText w).toList) := by
    simp [wordsText, joined]
    rfl
  have hwords : ∀ x ∈ ws.map fun w => (wordText w).toList, IsWord x := by
    intro x hx
    obtain ⟨⟨op, v⟩, hw, rfl⟩ := List.mem_map.mp hx
    exact isWord_wordText op (hws (op, v) hw)
  rw [parse?, htext, sets?_words hwords, wordsComparators?_wordText hws]
  rfl

end Range

/-! ## 4. Bounds of complete versions -/

/-- The upper end of a caret is the one that printing compares with. -/
theorem PartialVersion.caret_ofVersion (v : Version) :
    (ofVersion v).caret = [from_ v, below (Interval.caretCeiling v)] := by
  rw [caret.eq_def, Interval.caretCeiling]
  simp only [ofVersion]
  split_ifs <;> rfl

/-- A release that comes before a version comes before the release of that
version, and the other way round. -/
theorem Version.precedes_release {v : Version} (hv : v.prerelease = []) (u : Version) :
    v.precedes { u with prerelease := [] } = v.precedes u := by
  have hlast : prereleaseKey v.prerelease = ⊤ := by rw [hv]; rfl
  rw [Bool.eq_iff_iff, precedes_iff, precedes_iff]
  simp only [key, Prod.Lex.toLex_lt_toLex, hlast, not_top_lt]

namespace Interval

/-! ## 5. Bounds -/

/-- A lower end as a comparator. -/
def lowerBounds (i : Interval) : ComparatorSet :=
  match i.lower with
  | none => []
  | some l => [⟨if i.lowerInclusive then .atLeast else .greater, l⟩]

/-- An upper end as a comparator. -/
def upperBounds (i : Interval) : ComparatorSet :=
  match i.upper with
  | none => []
  | some u => [⟨if i.upperInclusive then .atMost else .less, u⟩]

/-- The ends of an interval as comparators. -/
def bounds (i : Interval) : ComparatorSet := i.lowerBounds ++ i.upperBounds

/-- The bounds admit what lies between the ends. -/
theorem allAdmit_bounds (i : Interval) (v : Version) : i.bounds.allAdmit v = i.contains v := by
  obtain ⟨lower, li, upper, ui⟩ := i
  rw [bounds, ComparatorSet.allAdmit, List.all_append, contains]
  congr 1
  · cases lower with
    | none => rfl
    | some l => cases li <;> simp [lowerBounds, Comparator.admits]
  · cases upper with
    | none => rfl
    | some u => cases ui <;> simp [upperBounds, Comparator.admits]

/-- The interval with the ends that are printed: an open upper end at the
least prerelease is printed as its release. -/
def printed (i : Interval) : Interval :=
  { i with upper := i.upper.map fun u =>
      if !i.upperInclusive && u.prerelease == ["0"] then { u with prerelease := [] } else u }

/-- What comes before an upper end and its release alike lies between the
printed ends when it lies between the ends. -/
theorem contains_printed {i : Interval} {v : Version}
    (h : ∀ u ∈ i.upper, v.precedes { u with prerelease := [] } = v.precedes u) :
    i.printed.contains v = i.contains v := by
  obtain ⟨lower, li, upper, ui⟩ := i
  rw [printed, contains, contains]
  refine congrArg _ ?_
  cases upper with
  | none => rfl
  | some u =>
    have hu := h u rfl
    cases ui with
    | true => simp
    | false =>
      simp only [Option.map_some, Bool.not_false, Bool.true_and, Bool.false_eq_true, if_false]
      split
      · exact hu
      · rfl

/-! ## 6. Expressions -/

/-- The word of a lower end. -/
def lowerWords (i : Interval) : List (Range.Operator × Version) :=
  match i.lower with
  | none => []
  | some l => [(if i.lowerInclusive then .onward else .above, l)]

/-- The word of an upper end. -/
def upperWords (i : Interval) : List (Range.Operator × Version) :=
  match i.printed.upper with
  | none => []
  | some u => [(if i.upperInclusive then .upTo else .under, u)]

theorem boundsText_eq (i : Interval) :
    i.boundsText = Range.wordsText (i.lowerWords ++ i.upperWords) := by
  obtain ⟨lower, li, upper, ui⟩ := i
  rw [boundsText, Range.wordsText, List.map_append]
  congr 2
  · cases lower with
    | none => rfl
    | some l => cases li <;> rfl
  · cases upper with
    | none => rfl
    | some u => cases ui <;> rfl

theorem apply_words (i : Interval) :
    ((i.lowerWords ++ i.upperWords).flatMap fun w => w.1.apply (.ofVersion w.2)) =
      i.printed.bounds := by
  obtain ⟨lower, li, upper, ui⟩ := i
  rw [List.flatMap_append, bounds]
  congr 1
  · cases lower with
    | none => rfl
    | some l => cases li <;> rfl
  · cases upper with
    | none => rfl
    | some u => cases ui <;> rfl

theorem written_of_mem_words {i : Interval} (hi : i.EndsIn Version.Written) :
    ∀ w ∈ i.lowerWords ++ i.upperWords, w.2.Written := by
  obtain ⟨lower, li, upper, ui⟩ := i
  intro w hw
  rcases List.mem_append.mp hw with hw | hw
  · cases lower with
    | none => cases hw
    | some l =>
      rw [List.mem_singleton.mp hw]
      exact hi.1 l rfl
  · cases upper with
    | none => cases hw
    | some u =>
      rw [List.mem_singleton.mp hw]
      dsimp only
      split
      · intro x hx
        cases hx
      · exact hi.2 u rfl

theorem parse?_boundsText {i : Interval} (hi : i.EndsIn Version.Written) :
    Range.parse? i.boundsText = some ⟨i.boundsText, [i.printed.bounds]⟩ := by
  rw [boundsText_eq, Range.parse?_wordsText (written_of_mem_words hi), apply_words]

theorem parse?_wordText (op : Range.Operator) {v : Version} (hv : v.Written) :
    Range.parse? (Range.wordText (op, v)) =
      some ⟨Range.wordText (op, v), [op.apply (.ofVersion v)]⟩ := by
  have htext : Range.wordText (op, v) = Range.wordsText [(op, v)] := by simp [Range.wordsText]
  rw [htext, Range.parse?_wordsText (by simpa using hv), List.flatMap_singleton]

/-- **Expressions are read as bounds.** Whichever form is chosen for an
interval, it is read back as the bounds of the interval, as the printed
bounds, or as the one version in it. -/
theorem parse?_toExpression {i : Interval} (hi : i.EndsIn Version.Written) :
    ∃ s, Range.parse? i.toExpression = some ⟨i.toExpression, [s]⟩ ∧
      (s = i.bounds ∨ s = i.printed.bounds ∨
        ∃ l, i = ⟨some l, true, some l, true⟩ ∧ s = [⟨.equal, l⟩]) := by
  obtain ⟨lower, li, upper, ui⟩ := i
  cases lower with
  | none =>
    cases upper with
    | none =>
      have hall : Range.parse? "*" = some ⟨"*", [[]]⟩ := rfl
      exact ⟨[], hall, Or.inl rfl⟩
    | some u => exact ⟨_, parse?_boundsText hi, Or.inr (Or.inl rfl)⟩
  | some l =>
    have hbounds := parse?_boundsText hi
    have hl : l.Written := hi.1 l rfl
    cases upper with
    | none => exact ⟨_, hbounds, Or.inr (Or.inl rfl)⟩
    | some u =>
      simp only [toExpression]
      cases li with
      | false => exact ⟨_, hbounds, Or.inr (Or.inl rfl)⟩
      | true =>
        rw [if_pos rfl]
        split_ifs with hcaret htilde hone
        · simp only [Bool.and_eq_true, Bool.not_eq_true', beq_iff_eq] at hcaret
          obtain ⟨rfl, rfl⟩ := hcaret
          refine ⟨_, parse?_wordText .caret hl, Or.inl ?_⟩
          exact PartialVersion.caret_ofVersion l
        · simp only [Bool.and_eq_true, Bool.not_eq_true', beq_iff_eq] at htilde
          obtain ⟨rfl, rfl⟩ := htilde
          exact ⟨_, parse?_wordText .tilde hl, Or.inl rfl⟩
        · simp only [Bool.and_eq_true, beq_iff_eq] at hone
          obtain ⟨rfl, rfl⟩ := hone
          have htext : u.toText = Range.wordText (.bare, u) := by
            simp [Range.wordText, Range.Operator.sign]
          rw [htext]
          exact ⟨_, parse?_wordText .bare hl, Or.inr (Or.inr ⟨u, rfl, rfl⟩)⟩
        · exact ⟨_, hbounds, Or.inr (Or.inl rfl)⟩

/-- A single version is between ends that are both that version. -/
theorem allAdmit_equal (l v : Version) :
    ComparatorSet.allAdmit [⟨.equal, l⟩] v = contains ⟨some l, true, some l, true⟩ v := by
  have hone := contains_ofComparator ⟨.equal, l⟩ v
  rw [ofComparator, ← Bool.eq_iff_iff] at hone
  rw [hone]
  simp [ComparatorSet.allAdmit]

/-- A text is read as one alternative that admits, among the versions without
prerelease part, those of the interval. -/
def Renders (i : Interval) (text : String) : Prop :=
  ∃ s, Range.parse? text = some ⟨text, [s]⟩ ∧
    ∀ v : Version, v.prerelease = [] → (s.allAdmit v = true ↔ i.contains v = true)

/-- **Expressions mean their intervals.** Whichever form is chosen for an
interval, it is read back as a range that admits the same releases. -/
theorem renders_toExpression {i : Interval} (hi : i.EndsIn Version.Written) :
    i.Renders i.toExpression := by
  obtain ⟨s, hs, hbounds⟩ := parse?_toExpression hi
  refine ⟨s, hs, fun v hv => ?_⟩
  rcases hbounds with rfl | rfl | ⟨l, rfl, rfl⟩
  · rw [allAdmit_bounds]
  · rw [allAdmit_bounds, contains_printed fun u _ => Version.precedes_release hv u]
  · rw [allAdmit_equal]

end Interval

/-- Without a prerelease part a version is admitted by its bounds alone. -/
theorem ComparatorSet.admits_of_release {v : Version} (hv : v.prerelease = [])
    (s : ComparatorSet) : s.admits v = s.allAdmit v := by
  simp [admits, hv]

namespace Range

theorem admits_iff_of_release {v : Version} (hv : v.prerelease = []) (r : Range) :
    r.admits v = true ↔ ∃ s ∈ r.sets, s.allAdmit v = true := by
  simp [admits, ComparatorSet.admits_of_release hv]

/-- The intervals of an intersection contain the releases that all ranges
admit. -/
theorem forall_admits_iff_of_release {ranges : List Range} {v : Version}
    (hv : v.prerelease = []) :
    (∀ r ∈ ranges, r.admits v = true) ↔ ∃ i ∈ intersect ranges, i.contains v = true := by
  have hany : ∀ r ∈ ranges, r.BoundsIn fun _ => True := fun _ _ _ _ _ _ => trivial
  rw [exists_contains_intersect (Version.tells_of_release hv _) hany]
  simp only [admits_iff_of_release hv]

/-- An expression that is read back admits the releases of its interval. -/
theorem admits_iff_of_renders {i : Interval} {text : String} (h : i.Renders text) :
    ∃ r, parse? text = some r ∧
      ∀ v : Version, v.prerelease = [] → (r.admits v = true ↔ i.contains v = true) := by
  obtain ⟨s, hs, hv⟩ := h
  refine ⟨_, hs, fun v hrelease => ?_⟩
  rw [admits_iff_of_release hrelease, ← hv v hrelease]
  simp

end Range

end PackageAudit
