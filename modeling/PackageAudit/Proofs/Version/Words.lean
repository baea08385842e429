/-
PackageAudit.Proofs.Version.Words — a range is read from its words.

Reading drops the white space behind operators and then cuts an alternative
into words. It could as well cut first and then let every word that ends in an
operator take in the next one: `words_joinOperators`. So of the white space in
a range nothing matters but where it parts two words, and the sets of a range
are a function of the words of its alternatives (`sets?_of_sourceless`).
-/
import PackageAudit.Version.Range
import PackageAudit.Proofs.Text.Cut

namespace PackageAudit.Range

open Text (attach)

/-! ## 1. Operators and their words -/

/-- The word ends in an operator. -/
def endsOpen (w : List Char) : Bool := w.getLast?.any isOperatorChar

/-- Words that end in an operator take in their successors. -/
def joinWords : List (List Char) → List (List Char)
  | [] => []
  | w :: ws => if endsOpen w then attach w (joinWords ws) else w :: joinWords ws

theorem endsOpen_append {w x : List Char} (hx : x ≠ []) : endsOpen (w ++ x) = endsOpen x := by
  rw [endsOpen, endsOpen, List.getLast?_append, List.getLast?_eq_some_getLast hx]
  rfl

/-- What is joined begins with no white space behind an operator. -/
theorem head?_joinOperators (cs : List Char) :
    ∀ c ∈ (joinOperators true cs).head?, Text.isSpace c = false := by
  induction cs with
  | nil => simp [joinOperators]
  | cons c cs ih =>
    rw [joinOperators]
    cases hc : Text.isSpace c with
    | true => simpa using ih
    | false => simpa using hc

theorem joinOperators_cons {after : Bool} {c : Char} (h : (after && Text.isSpace c) = false)
    (cs : List Char) :
    joinOperators after (c :: cs) = c :: joinOperators (isOperatorChar c) cs := by
  rw [joinOperators, h]
  rfl

theorem head?_joinOperators_of_word {after : Bool} {cs : List Char}
    (h : ∀ c ∈ cs.head?, Text.isSpace c = false) :
    ∀ c ∈ (joinOperators after cs).head?, Text.isSpace c = false := by
  cases cs with
  | nil => simp [joinOperators]
  | cons c cs =>
    have hc : Text.isSpace c = false := h c rfl
    rw [joinOperators_cons (by rw [hc, Bool.and_false])]
    exact h

theorem joinWords_attach (c : Char) {ws : List (List Char)} (hws : ∀ w ∈ ws, w ≠ []) :
    joinWords (attach [c] ws) = attach [c] (joinWords ws) := by
  cases ws with
  | nil => simp [attach, joinWords]
  | cons w ws =>
    have hw : w ≠ [] := hws w List.mem_cons_self
    rw [attach, joinWords, joinWords, endsOpen_append hw]
    cases endsOpen w with
    | true => cases joinWords ws <;> simp [attach]
    | false => rfl

/-- Words that are closed stay apart. -/
theorem joinWords_eq_self {ws : List (List Char)} (hws : ∀ w ∈ ws, endsOpen w = false) :
    joinWords ws = ws := by
  induction ws with
  | nil => rfl
  | cons w ws ih =>
    rw [joinWords, hws w (by simp), ih fun x hx => hws x (by simp [hx])]
    rfl

@[simp] theorem flatten_joinWords (ws : List (List Char)) :
    (joinWords ws).flatten = ws.flatten := by
  induction ws with
  | nil => rfl
  | cons w ws ih =>
    rw [joinWords]
    split <;> simp [ih]

theorem joinWords_ne_nil {ws : List (List Char)} (h : ws ≠ []) : joinWords ws ≠ [] := by
  cases ws with
  | nil => exact absurd rfl h
  | cons w ws =>
    rw [joinWords]
    split
    · cases joinWords ws <;> simp [attach]
    · simp

/-- Behind words of which the last one is closed, joining begins anew. -/
theorem joinWords_append {xs : List (List Char)} (hne : ∀ x ∈ xs, x ≠ [])
    (hclosed : endsOpen xs.flatten = false) (ys : List (List Char)) :
    joinWords (xs ++ ys) = joinWords xs ++ joinWords ys := by
  induction xs with
  | nil => rfl
  | cons x xs ih =>
    cases xs with
    | nil =>
      have hx : endsOpen x = false := by simpa using hclosed
      simp [joinWords, hx]
    | cons y xs =>
      have hrest : (y :: xs).flatten ≠ [] := by simp [hne y (by simp)]
      rw [List.flatten_cons, endsOpen_append hrest] at hclosed
      have happend := ih (fun z hz => hne z (List.mem_cons_of_mem x hz)) hclosed
      rw [List.cons_append, joinWords, joinWords, happend]
      split
      · exact Text.attach_append (joinWords_ne_nil (List.cons_ne_nil y xs)) _
      · rfl

/-- A closed word ends a joined one. -/
theorem exists_append_mem_joinWords {w : List Char} {ws : List (List Char)} (hw : w ∈ ws)
    (hclosed : endsOpen w = false) :
    ∃ front, front ++ w ∈ joinWords ws ∧ (front = [] ∨ endsOpen front = true) := by
  induction ws with
  | nil => cases hw
  | cons x ws ih =>
    rw [joinWords]
    rcases List.mem_cons.mp hw with rfl | hw
    · exact ⟨[], by simp [hclosed], Or.inl rfl⟩
    · obtain ⟨front, hmem, hfront⟩ := ih hw
      cases hx : endsOpen x with
      | false => exact ⟨front, List.mem_cons_of_mem x hmem, hfront⟩
      | true =>
        cases hjoin : joinWords ws with
        | nil =>
          rw [hjoin] at hmem
          cases hmem
        | cons y ys =>
          rw [hjoin] at hmem
          rcases List.mem_cons.mp hmem with rfl | hmem
          · refine ⟨x ++ front, by simp [attach], Or.inr ?_⟩
            rcases hfront with rfl | hfront
            · rwa [List.append_nil]
            · have hne : front ≠ [] := by
                rintro rfl
                cases hfront
              rwa [endsOpen_append hne]
          · exact ⟨front, List.mem_cons_of_mem _ hmem, hfront⟩

/-- **Joining operators joins words.** Cutting a text whose operators were
joined is joining the words of the text. -/
theorem words_joinOperators (after : Bool) (cs : List Char) :
    Text.words (joinOperators after cs) = joinWords (Text.words cs) := by
  induction cs generalizing after with
  | nil => rfl
  | cons c cs ih =>
    cases hc : Text.isSpace c with
    | true =>
      rw [Text.words_cons_space hc]
      cases after with
      | true =>
        rw [joinOperators, hc]
        exact ih true
      | false => rw [joinOperators_cons (Bool.false_and _), Text.words_cons_space hc, ih]
    | false =>
      rw [joinOperators_cons (by rw [hc, Bool.and_false])]
      -- What follows is white space, to be dropped behind an operator, or it is not.
      by_cases hcs : ∀ d ∈ cs.head?, Text.isSpace d = false
      · rw [Text.words_cons hc (head?_joinOperators_of_word hcs), ih, Text.words_cons hc hcs,
          joinWords_attach c fun w hw => Text.ne_nil_of_mem_words hw]
      · cases cs with
        | nil => exact absurd (by simp) hcs
        | cons d ds =>
          have hd : Text.isSpace d = true := by simpa using hcs
          rw [Text.words_cons_append_space hc hd, joinWords]
          cases hop : isOperatorChar c with
          | true =>
            rw [Text.words_cons hc (head?_joinOperators _), ih]
            simp [endsOpen, hop]
          | false =>
            have hjoin := joinOperators_cons (Bool.false_and (Text.isSpace d)) ds
            rw [hjoin, Text.words_cons_append_space hc hd, ← hjoin, ih]
            simp [endsOpen, hop]

/-! ## 2. Alternatives -/

/-- The comparator set of an alternative with these words. -/
def ofWords? (ws : List (List Char)) : Option ComparatorSet :=
  match ws with
  | [low, ['-'], high] => hyphenComparators? low high
  | _ => wordsComparators? (joinWords ws)

/-- The words of `low - high`. -/
def isHyphen : List (List Char) → Bool
  | [_, ['-'], _] => true
  | _ => false

theorem isHyphen_iff {ws : List (List Char)} :
    isHyphen ws = true ↔ ∃ low high, ws = [low, ['-'], high] := by
  rw [isHyphen.eq_def]
  split
  · simp
  · rename_i hother
    simpa using fun low high => hother low high

theorem ofWords?_of_not_isHyphen {ws : List (List Char)} (h : isHyphen ws = false) :
    ofWords? ws = wordsComparators? (joinWords ws) := by
  rw [ofWords?.eq_def]
  split
  · cases h
  · rfl

theorem alternative?_eq (part : List Char) : alternative? part = ofWords? (Text.words part) := by
  rw [alternative?, words_joinOperators]
  rfl

/-- The words of each alternative. -/
def alternatives (cs : List Char) : List (List (List Char)) :=
  (Text.splitAtPair '|' '|' cs).map Text.words

theorem alternatives_of_not_mem {cs : List Char} (h : '|' ∉ cs) :
    alternatives cs = [Text.words cs] := by
  rw [alternatives, Text.splitAtPair_eq_singleton '|' h, List.map_singleton]

theorem not_mem_flatten_words {p : List Char} : '|' ∉ (Text.words p).flatten ↔ '|' ∉ p := by
  have hspace : Text.isSpace '|' = false := by decide
  simp [Text.flatten_words, hspace]

/-- A single alternative without a bar is the whole text. -/
theorem not_mem_of_alternatives {cs : List Char} {ws : List (List Char)}
    (h : alternatives cs = [ws]) (hbar : '|' ∉ ws.flatten) : '|' ∉ cs ∧ ws = Text.words cs := by
  obtain ⟨p, hp, rfl⟩ := List.map_eq_singleton_iff.mp h
  obtain rfl := Text.eq_of_splitAtPair_eq_singleton hp
  exact ⟨not_mem_flatten_words.mp hbar, rfl⟩

/-- Behind alternatives without bars the next one begins where bars are put. -/
theorem alternatives_append_bars {cs : List Char}
    (h : ∀ ws ∈ alternatives cs, '|' ∉ ws.flatten) (ds : List Char) :
    alternatives (cs ++ '|' :: '|' :: ds) = alternatives cs ++ alternatives ds := by
  have hpieces : ∀ p ∈ Text.splitAtPair '|' '|' cs, '|' ∉ p := fun p hp =>
    not_mem_flatten_words.mp (h _ (List.mem_map_of_mem hp))
  rw [alternatives, Text.splitAtPair_append hpieces, List.map_append]
  rfl

theorem alternatives_cons_space {c : Char} (hc : Text.isSpace c = true) (cs : List Char) :
    alternatives (c :: cs) = alternatives cs := by
  have hbar : c ≠ '|' := by
    rintro rfl
    revert hc
    decide
  rw [alternatives, alternatives, Text.splitAtPair_character (Text.not_separator_of_ne hbar _)]
  cases Text.splitAtPair '|' '|' cs with
  | nil => rfl
  | cons p ps => rw [List.modifyHead_cons, List.map_cons, List.map_cons, Text.words_cons_space hc]

theorem alternatives_spaces_append {front : List Char} (h : ∀ c ∈ front, Text.isSpace c = true)
    (cs : List Char) : alternatives (front ++ cs) = alternatives cs := by
  induction front with
  | nil => rfl
  | cons c front ih =>
    rw [List.cons_append, alternatives_cons_space (h c (by simp)),
      ih fun d hd => h d (by simp [hd])]

theorem alternatives_append_spaces {back : List Char} (h : ∀ c ∈ back, Text.isSpace c = true)
    (cs : List Char) : alternatives (cs ++ back) = alternatives cs := by
  have hbar : '|' ∉ back := fun hmem => absurd (h _ hmem) (by decide)
  obtain ⟨init, last, hinit, hlast⟩ := Text.exists_splitAtPair_append hbar hbar cs
  rw [alternatives, alternatives, hinit, hlast]
  simp [Text.words_append_spaces h]

/-- White space at the ends of a range belongs to no alternative. -/
theorem alternatives_trimBoth (cs : List Char) :
    alternatives (Text.trimBoth Text.isSpace cs) = alternatives cs := by
  obtain ⟨front, back, hcs, hfront, hback⟩ := Text.exists_trimBoth Text.isSpace cs
  rw [congrArg alternatives hcs, alternatives_append_spaces hback,
    alternatives_spaces_append hfront]

theorem sets?_eq (cs : List Char) :
    sets? cs = (alternatives (dropSource (Text.trimBoth Text.isSpace cs))).mapM ofWords? := by
  simp only [sets?, alternatives, List.mapM_map, alternative?_eq, Text.words_trimBoth]
  rfl

/-! ## 3. Sources -/

/-- Only a text that begins with the first letter of a source has one. -/
theorem dropSource_eq_self {cs : List Char} (h : ∀ c ∈ cs.head?, c ≠ 'w' ∧ c ≠ 'n') :
    dropSource cs = cs := by
  cases cs with
  | nil => rfl
  | cons c cs =>
    obtain ⟨hcw, hcn⟩ := h c rfl
    have hworkspace : Text.rest? "workspace:".toList (c :: cs) = none :=
      if_neg fun h => hcw (eq_of_beq h).symm
    have hnpm : Text.rest? "npm:".toList (c :: cs) = none :=
      if_neg fun h => hcn (eq_of_beq h).symm
    rw [dropSource, hworkspace, hnpm]
    rfl

/-- No source of a package is dropped from the front of the text. -/
def Sourceless (cs : List Char) : Prop :=
  dropSource (Text.trimBoth Text.isSpace cs) = Text.trimBoth Text.isSpace cs

instance (cs : List Char) : Decidable (Sourceless cs) := inferInstanceAs (Decidable (_ = _))

/-- A text whose first word begins with no letter of a source has none. -/
theorem sourceless_of_head {cs : List Char}
    (h : ∀ ws ∈ (alternatives cs).head?, ∀ c ∈ ws.flatten.head?, c ≠ 'w' ∧ c ≠ 'n') :
    Sourceless cs := by
  refine dropSource_eq_self ?_
  rw [← alternatives_trimBoth] at h
  cases htrim : Text.trimBoth Text.isSpace cs with
  | nil => simp
  | cons c ds =>
    rintro d ⟨rfl⟩
    by_cases hbar : c = '|'
    · subst hbar
      decide
    by_cases hspace : Text.isSpace c = true
    · refine ⟨?_, ?_⟩ <;> (rintro rfl; revert hspace; decide)
    rw [htrim, alternatives, Text.splitAtPair_character (Text.not_separator_of_ne hbar _)] at h
    cases hpieces : Text.splitAtPair '|' '|' ds with
    | nil => exact absurd hpieces (Text.splitAtPair_ne_nil '|' '|' ds)
    | cons p ps =>
      rw [hpieces] at h
      refine h _ rfl c ?_
      rw [Text.flatten_words, List.filter_cons_of_pos (by simpa using hspace)]
      rfl

/-- Without a source a range is read alternative by alternative. -/
theorem sets?_of_sourceless {cs : List Char} (h : Sourceless cs) :
    sets? cs = (alternatives cs).mapM ofWords? := by
  rw [sets?_eq, h, alternatives_trimBoth]

end PackageAudit.Range
