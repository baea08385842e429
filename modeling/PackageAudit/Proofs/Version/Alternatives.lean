/-
PackageAudit.Proofs.Version.Alternatives — ranges are put together as texts.

Bars between two ranges make a range of their alternatives, and a blank
between two lists of words makes a list of all their words. Three things could
go wrong where the texts meet: the operator at the end of one text could take
in the first word of the other, a bar could meet a bar, and a `-` could come to
stand between two words. None does, since words that were read are closed and
have no bar (`IsWord`), and a word `-` is read in the form `low - high` only
(`hyphen_not_mem`).
-/
import PackageAudit.Proofs.Version.Expression

namespace PackageAudit.Range

/-! ## 1. Words that were read -/

section

variable {w : List Char} {s : ComparatorSet}

theorem exists_parse?_of_wordComparators? (h : wordComparators? w = some s) :
    ∃ p, PartialVersion.parse? (operator w).2 = some p := by
  simp only [wordComparators?, Option.bind_eq_bind, Option.bind_eq_some_iff] at h
  exact h.imp fun _ hp => hp.1

/-- What is read as an operator are characters of operators. -/
theorem exists_operator_eq (w : List Char) :
    ∃ sign, w = sign ++ (operator w).2 ∧ ∀ c ∈ sign, isOperatorChar c = true := by
  fun_cases operator w
  case case1 => exact ⟨['^'], rfl, by simp [isOperatorChar]⟩
  case case2 => exact ⟨['~', '>'], rfl, by simp [isOperatorChar]⟩
  case case3 => exact ⟨['~'], rfl, by simp [isOperatorChar]⟩
  case case4 => exact ⟨['<', '='], rfl, by simp [isOperatorChar]⟩
  case case5 => exact ⟨['<'], rfl, by simp [isOperatorChar]⟩
  case case6 => exact ⟨['>', '='], rfl, by simp [isOperatorChar]⟩
  case case7 => exact ⟨['>'], rfl, by simp [isOperatorChar]⟩
  case case8 => exact ⟨['='], rfl, by simp [isOperatorChar]⟩
  case case9 => exact ⟨[], rfl, by simp⟩

theorem isWord_of_wordComparators? (h : wordComparators? w = some s) : IsWord w := by
  obtain ⟨p, hp⟩ := exists_parse?_of_wordComparators? h
  obtain ⟨sign, hw, hsign⟩ := exists_operator_eq w
  rw [hw]
  exact (isWord_of_parse? hp).append hsign

/-- A word that was read ends in the token of a partial version. -/
theorem exists_token_of_wordComparators? (h : wordComparators? w = some s) :
    ∃ front first rest, w = front ++ first :: rest ∧ PartialVersion.startsPart first = true ∧
      ∀ c ∈ first :: rest, PartialVersion.isTokenChar c = true := by
  obtain ⟨p, hp⟩ := exists_parse?_of_wordComparators? h
  obtain ⟨sign, hw, _⟩ := exists_operator_eq w
  obtain ⟨marks, first, rest, hrest, _, hfirst, hchars⟩ := PartialVersion.exists_marks_of_parse? hp
  exact ⟨sign ++ marks, first, rest, by rw [List.append_assoc, ← hrest, ← hw], hfirst, hchars⟩

theorem endsOpen_of_isTokenChar {cs : List Char}
    (h : ∀ c ∈ cs, PartialVersion.isTokenChar c = true) : endsOpen cs = false := by
  rw [endsOpen, Option.any_eq_false]
  intro c hc
  simp [isOperatorChar_of_isTokenChar (h c (List.mem_of_getLast? hc))]

/-- No `-` is read as a version, also behind an operator. -/
theorem wordComparators?_hyphen {front : List Char} (hfront : front = [] ∨ endsOpen front = true) :
    wordComparators? (front ++ ['-']) = none := by
  rw [Option.eq_none_iff_forall_ne_some]
  intro s h
  obtain ⟨marks, first, rest, hw, hfirst, hchars⟩ := exists_token_of_wordComparators? h
  -- The `-` ends the token, so it stands behind another character of it.
  rcases List.eq_nil_or_concat' rest with rfl | ⟨init, last, rfl⟩
  · rw [← (List.append_singleton_inj.mp hw).2] at hfirst
    revert hfirst
    decide
  · rw [← List.cons_append, ← List.append_assoc] at hw
    obtain rfl := (List.append_singleton_inj.mp hw).1
    have hclosed : endsOpen (marks ++ first :: init) = false := by
      rw [endsOpen_append (List.cons_ne_nil first init)]
      refine endsOpen_of_isTokenChar fun c hc => hchars c ?_
      rw [← List.cons_append]
      exact List.mem_append_left _ hc
    rcases hfront with hnil | hopen
    · simp at hnil
    · rw [hclosed] at hopen
      cases hopen

end

/-! ## 2. Alternatives that were read -/

section

variable {ws xs ys : List (List Char)} {s t : ComparatorSet}

theorem exists_of_wordsComparators? (h : wordsComparators? ws = some s) {w : List Char}
    (hw : w ∈ ws) : ∃ t, wordComparators? w = some t := by
  induction ws generalizing s with
  | nil => cases hw
  | cons x ws ih =>
    simp only [wordsComparators?, Option.bind_eq_bind, Option.bind_eq_some_iff] at h
    obtain ⟨first, hfirst, _, hrest, _⟩ := h
    rcases List.mem_cons.mp hw with rfl | hw
    · exact ⟨first, hfirst⟩
    · exact ih hrest hw

theorem isWord_of_wordsComparators? (h : wordsComparators? ws = some s) {w : List Char}
    (hw : w ∈ ws) : IsWord w :=
  (exists_of_wordsComparators? h hw).elim fun _ hread => isWord_of_wordComparators? hread

theorem wordsComparators?_append (hx : wordsComparators? xs = some s)
    (hy : wordsComparators? ys = some t) : wordsComparators? (xs ++ ys) = some (s ++ t) := by
  induction xs generalizing s with
  | nil =>
    cases hx
    exact hy
  | cons x xs ih =>
    simp only [wordsComparators?, Option.bind_eq_bind, Option.bind_eq_some_iff] at hx
    obtain ⟨c, hc, rest, hrest, hs⟩ := hx
    cases hs
    rw [List.cons_append, wordsComparators?, hc, ih hrest, List.append_assoc]
    rfl

theorem exists_pieces_of_ofWords? (h : ofWords? ws = some s) :
    ∃ xs : List (List Char), xs.flatten = ws.flatten ∧ ∀ x ∈ xs, IsPiece x := by
  cases hhyphen : isHyphen ws with
  | true =>
    obtain ⟨low, high, rfl⟩ := isHyphen_iff.mp hhyphen
    simp only [ofWords?, hyphenComparators?, Option.bind_eq_bind, Option.bind_eq_some_iff] at h
    obtain ⟨lower, hlower, upper, hupper, _⟩ := h
    refine ⟨_, rfl, ?_⟩
    simp [(isWord_of_parse? hlower).toIsPiece, isPiece_hyphen, (isWord_of_parse? hupper).toIsPiece]
  | false =>
    rw [ofWords?_of_not_isHyphen hhyphen] at h
    exact ⟨joinWords ws, flatten_joinWords ws, fun x hx =>
      (isWord_of_wordsComparators? h hx).toIsPiece⟩

theorem noBar_of_ofWords? (h : ofWords? ws = some s) : '|' ∉ ws.flatten := by
  obtain ⟨xs, hflatten, hxs⟩ := exists_pieces_of_ofWords? h
  rw [← hflatten, List.mem_flatten]
  rintro ⟨x, hx, hbar⟩
  exact (hxs x hx).noBar hbar

/-- A `-` is read between two versions only. -/
theorem hyphen_not_mem (h : ofWords? ws = some s) (hws : isHyphen ws = false) : ['-'] ∉ ws := by
  rw [ofWords?_of_not_isHyphen hws] at h
  intro hmem
  obtain ⟨front, hfront, hopen⟩ := exists_append_mem_joinWords hmem (by decide)
  obtain ⟨t, ht⟩ := exists_of_wordsComparators? h hfront
  rw [wordComparators?_hyphen hopen] at ht
  cases ht

theorem endsOpen_flatten (hws : ∀ w ∈ ws, IsWord w) : endsOpen ws.flatten = false := by
  induction ws with
  | nil => rfl
  | cons w ws ih =>
    rw [List.flatten_cons]
    by_cases hempty : ws.flatten = []
    · rw [hempty, List.append_nil]
      exact (hws w (by simp)).endsOpen_eq
    · rw [endsOpen_append hempty]
      exact ih fun x hx => hws x (by simp [hx])

/-- The last word of a list that was read is closed. -/
theorem closed_of_ofWords? (h : ofWords? ws = some s) (hws : isHyphen ws = false) :
    endsOpen ws.flatten = false := by
  rw [ofWords?_of_not_isHyphen hws] at h
  rw [← flatten_joinWords]
  exact endsOpen_flatten fun w hw => isWord_of_wordsComparators? h hw

/-- **Lists of words.** Two lists of words that are no hyphen ranges are read
one behind the other. -/
theorem ofWords?_append (hne : ∀ x ∈ xs, x ≠ []) (hx : ofWords? xs = some s)
    (hy : ofWords? ys = some t) (hxs : isHyphen xs = false) (hys : isHyphen ys = false) :
    ofWords? (xs ++ ys) = some (s ++ t) := by
  have hboth : isHyphen (xs ++ ys) = false := by
    rw [← Bool.not_eq_true, isHyphen_iff]
    rintro ⟨low, high, heq⟩
    have hmem : ['-'] ∈ xs ++ ys := by simp [heq]
    rcases List.mem_append.mp hmem with hmem | hmem
    · exact hyphen_not_mem hx hxs hmem
    · exact hyphen_not_mem hy hys hmem
  have hclosed := closed_of_ofWords? hx hxs
  rw [ofWords?_of_not_isHyphen hxs] at hx
  rw [ofWords?_of_not_isHyphen hys] at hy
  rw [ofWords?_of_not_isHyphen hboth, joinWords_append hne hclosed]
  exact wordsComparators?_append hx hy

end

/-! ## 3. Texts that were read -/

section

variable {cs : List Char} {sets : List ComparatorSet}

theorem sourceless_of_alternatives (h : (alternatives cs).mapM ofWords? = some sets) :
    Sourceless cs := by
  refine sourceless_of_head fun ws hws => ?_
  obtain ⟨s, _, hs⟩ := exists_mem_of_mapM h (List.mem_of_head? hws)
  obtain ⟨xs, hflatten, hxs⟩ := exists_pieces_of_ofWords? hs
  rw [← hflatten]
  exact noSource_flatten hxs

/-- Alternatives that can be read are read. -/
theorem sets?_of_alternatives (h : (alternatives cs).mapM ofWords? = some sets) :
    sets? cs = some sets := by
  rw [sets?_of_sourceless (sourceless_of_alternatives h), h]

theorem noBar_of_alternatives (h : (alternatives cs).mapM ofWords? = some sets) :
    ∀ ws ∈ alternatives cs, '|' ∉ ws.flatten := by
  intro ws hws
  obtain ⟨s, _, hs⟩ := exists_mem_of_mapM h hws
  exact noBar_of_ofWords? hs

/-- A single alternative that was read is the whole text. -/
theorem ofWords?_of_alternatives {s : ComparatorSet}
    (h : (alternatives cs).mapM ofWords? = some [s]) :
    '|' ∉ cs ∧ ofWords? (Text.words cs) = some s := by
  have hbar := noBar_of_alternatives h
  rw [mapM_eq_some_iff] at h
  obtain ⟨ws, hws, hs⟩ := List.map_eq_singleton_iff.mp h
  rw [hws] at hbar
  obtain ⟨hcs, rfl⟩ := not_mem_of_alternatives hws (hbar ws (by simp))
  exact ⟨hcs, hs⟩

theorem alternatives_of_parse? {text : String} {r : Range} (h : parse? text = some r)
    (hsource : Sourceless text.toList) :
    (alternatives text.toList).mapM ofWords? = some r.sets := by
  obtain ⟨sets, hsets, rfl⟩ := Option.map_eq_some_iff.mp h
  rw [← sets?_of_sourceless hsource]
  exact hsets

end

section

variable {a b : String} {ra rb : Range} (ha : parse? a = some ra) (hb : parse? b = some rb)
  (hsa : Sourceless a.toList) (hsb : Sourceless b.toList)

include ha hb hsa hsb

/-- Bars between two ranges put their alternatives one behind the other. -/
theorem parse?_bars : parse? (a ++ "||" ++ b) = some ⟨a ++ "||" ++ b, ra.sets ++ rb.sets⟩ := by
  have hra := alternatives_of_parse? ha hsa
  have hrb := alternatives_of_parse? hb hsb
  have htext : (a ++ "||" ++ b).toList = a.toList ++ '|' :: '|' :: b.toList := by simp
  have hread : (alternatives (a.toList ++ '|' :: '|' :: b.toList)).mapM ofWords? =
      some (ra.sets ++ rb.sets) := by
    rw [alternatives_append_bars (noBar_of_alternatives hra), List.mapM_append, hra, hrb]
    rfl
  rw [parse?, htext, sets?_of_alternatives hread]
  rfl

/-- A blank between two lists of words puts their comparators one behind the
other. -/
theorem parse?_blank {sa sb : ComparatorSet} (hone : ra.sets = [sa]) (hone' : rb.sets = [sb])
    (hha : isHyphen (Text.words a.toList) = false) (hhb : isHyphen (Text.words b.toList) = false) :
    parse? (a ++ " " ++ b) = some ⟨a ++ " " ++ b, [sa ++ sb]⟩ := by
  have hra := alternatives_of_parse? ha hsa
  have hrb := alternatives_of_parse? hb hsb
  rw [hone] at hra
  rw [hone'] at hrb
  obtain ⟨habar, hwa⟩ := ofWords?_of_alternatives hra
  obtain ⟨hbbar, hwb⟩ := ofWords?_of_alternatives hrb
  have htext : (a ++ " " ++ b).toList = a.toList ++ ' ' :: b.toList := by simp
  have hbar : '|' ∉ a.toList ++ ' ' :: b.toList := by simp [habar, hbbar]
  have hread : (alternatives (a.toList ++ ' ' :: b.toList)).mapM ofWords? =
      some [sa ++ sb] := by
    rw [alternatives_of_not_mem hbar, Text.words_append_space _ _ (by decide), List.mapM_cons,
      ofWords?_append (fun w hw => Text.ne_nil_of_mem_words hw) hwa hwb hha hhb]
    rfl
  rw [parse?, htext, sets?_of_alternatives hread]
  rfl

end

/-! ## 4. Bars and blanks -/

/-- **Bars are union, blanks are conjunction.** Two ranges without a source,
with bars between them, are the range of the alternatives of both. Two lists of
words with a blank between them are one alternative with the comparators of
both. -/
theorem parse?_append {a b : String} {ra rb : Range} (ha : parse? a = some ra)
    (hb : parse? b = some rb) (hsa : Sourceless a.toList) (hsb : Sourceless b.toList) :
    (∃ r, parse? (a ++ "||" ++ b) = some r ∧ r.sets = ra.sets ++ rb.sets ∧
      ∀ v, r.admits v = (ra.admits v || rb.admits v)) ∧
    ∀ sa sb, ra.sets = [sa] → rb.sets = [sb] →
      isHyphen (Text.words a.toList) = false → isHyphen (Text.words b.toList) = false →
      ∃ r, parse? (a ++ " " ++ b) = some r ∧ r.sets = [sa ++ sb] ∧
        ∀ v : Version, v.prerelease = [] → r.admits v = (ra.admits v && rb.admits v) := by
  constructor
  · refine ⟨_, parse?_bars ha hb hsa hsb, rfl, fun v => ?_⟩
    rw [admits, List.any_append]
    rfl
  · intro sa sb hone hone' hha hhb
    refine ⟨_, parse?_blank ha hb hsa hsb hone hone' hha hhb, rfl, fun v hv => ?_⟩
    simp only [admits, hone, hone', List.any_cons, List.any_nil, Bool.or_false,
      ComparatorSet.admits_of_release hv]
    exact List.all_append

/-- An operator apart from its version, an empty alternative and white space
where the texts meet. -/
theorem parse?_append_spaced :
    (∃ r, parse? ("^1.2 || " ++ "||" ++ "> 1 <2") = some r ∧ r.admits ⟨0, 0, 1, []⟩ = true) ∧
    ∃ r, parse? (" >= 1.2" ++ " " ++ "< 2.x ") = some r ∧
      r.sets = [[⟨.atLeast, ⟨1, 2, 0, []⟩⟩, ⟨.less, ⟨2, 0, 0, ["0"]⟩⟩]] ∧
      r.admits ⟨2, 0, 0, []⟩ = false := by
  have hunion : parse? "^1.2 || " = some ⟨"^1.2 || ",
      [[⟨.atLeast, ⟨1, 2, 0, []⟩⟩, ⟨.less, ⟨2, 0, 0, ["0"]⟩⟩], []]⟩ := by decide
  have hother : parse? "> 1 <2" = some ⟨"> 1 <2",
      [[⟨.atLeast, ⟨2, 0, 0, []⟩⟩, ⟨.less, ⟨2, 0, 0, ["0"]⟩⟩]]⟩ := by decide
  have hlow : parse? " >= 1.2" = some ⟨" >= 1.2", [[⟨.atLeast, ⟨1, 2, 0, []⟩⟩]]⟩ := by decide
  have hhigh : parse? "< 2.x " = some ⟨"< 2.x ", [[⟨.less, ⟨2, 0, 0, ["0"]⟩⟩]]⟩ := by decide
  constructor
  · obtain ⟨r, hr, _, hadmits⟩ := (parse?_append hunion hother (by decide) (by decide)).1
    exact ⟨r, hr, (hadmits _).trans (by decide)⟩
  · obtain ⟨r, hr, hsets, hadmits⟩ := (parse?_append hlow hhigh (by decide) (by decide)).2
      _ _ rfl rfl (by decide) (by decide)
    exact ⟨r, hr, hsets, (hadmits _ rfl).trans (by decide)⟩

end PackageAudit.Range
