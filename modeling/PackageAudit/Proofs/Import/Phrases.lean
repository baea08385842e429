/-
PackageAudit.Proofs.Import.Phrases — what the phrases of the fallback need.

The five phrases look alike from outside. Each opens with a word, behind which
white space or a parenthesis stands (`Opens`), so none begins in a name that a
quote follows, whatever words the name contains. And the phrases other than that
of imports have passed a mark of their own before they find anything, the
parenthesis of a call or the star or brace of a re-export, with no semicolon in
front of it (`Reaches`); a statement without a mark is passed over whatever
follows it.
-/
import PackageAudit.Import.Fallback
import PackageAudit.Proofs.Import.Search
import PackageAudit.Proofs.Text.Digits
import Mathlib.Data.Option.Basic

namespace PackageAudit.Import.Fallback

variable {p : Phrase String} {cs rest name : List Char} {c q : Char}
  {found : String × Nat}

/-! ## 1. Name characters -/

/-- A character of the names of modules. -/
def isNameChar (c : Char) : Bool :=
  Text.isWord c || c == '@' || c == '.' || c == '-' || c == '/'

/-- Characters that a class tells apart differ. -/
theorem ne_of_class (f : Char → Bool) {c d : Char} (hc : f c = true) (hd : f d = false) :
    c ≠ d := by
  rintro rfl
  rw [hc] at hd
  cases hd

theorem isSpace_of_isNameChar (h : isNameChar c = true) : Text.isSpace c = false := by
  simp only [isNameChar, Bool.or_eq_true, beq_iff_eq] at h
  rcases h with (((h | rfl) | rfl) | rfl) | rfl
  · exact Text.isSpace_of_isWord h
  all_goals rfl

/-! ## 2. Openings -/

/-- What a phrase takes opens with a word, and white space or a parenthesis
stands behind the word. -/
def Opens (p : Phrase String) : Prop :=
  ∀ cs found, p cs = some found → ∃ word c rest, cs = word ++ c :: rest ∧ word ≠ [] ∧
    (∀ d ∈ word, isNameChar d = true) ∧ (Text.isSpace c = true ∨ c = '(')

theorem Opens.none_of_not_name (h : Opens p) (hc : isNameChar c = false) :
    p (c :: rest) = none := by
  refine Option.eq_none_iff_forall_ne_some.mpr fun found hfound => ?_
  obtain ⟨word, d, back, heq, hne, hword, -⟩ := h _ _ hfound
  obtain ⟨e, word, rfl⟩ := List.exists_cons_of_ne_nil hne
  obtain ⟨rfl, -⟩ := List.cons.inj heq
  exact ne_of_class isNameChar (hword c List.mem_cons_self) hc rfl

/-- No phrase begins at a character that is in no name. -/
theorem Opens.quiet (h : Opens p) (hcs : cs.any isNameChar = false) : Quiet p rest cs := by
  induction cs with
  | nil => exact .nil
  | cons c cs ih =>
    rw [List.any_cons, Bool.or_eq_false_iff] at hcs
    exact .cons (h.none_of_not_name hcs.1) (ih hcs.2)

/-- Behind a name that a quote follows no word ends where a phrase needs it. -/
theorem Opens.none_of_name (h : Opens p) (hname : ∀ c ∈ name, isNameChar c = true)
    (hq : q = '\'' ∨ q = '"') : p (name ++ q :: rest) = none := by
  refine Option.eq_none_iff_forall_ne_some.mpr fun found hfound => ?_
  obtain ⟨word, d, back, heq, -, hword, hd⟩ := h _ _ hfound
  have hqname : isNameChar q = false := by rcases hq with rfl | rfl <;> rfl
  have hdname : isNameChar d = false := by
    rcases hd with hd | rfl
    · refine Bool.eq_false_iff.mpr fun hname => ?_
      rw [isSpace_of_isNameChar hname] at hd
      cases hd
    · rfl
  -- The first character that is in no name is the quote, and the one behind the word.
  have hfirst := congrArg (List.dropWhile isNameChar) heq
  rw [List.dropWhile_append_of_pos hname, List.dropWhile_append_of_pos hword,
    List.dropWhile_cons_of_neg (by simp [hqname]), List.dropWhile_cons_of_neg (by simp [hdname]),
    List.cons.injEq] at hfirst
  obtain ⟨rfl, -⟩ := hfirst
  rcases hq with rfl | rfl <;> revert hd <;> decide

/-- No phrase begins in a name that a quote follows. -/
theorem Opens.quiet_name (h : Opens p) (hname : ∀ c ∈ name, isNameChar c = true)
    (hq : q = '\'' ∨ q = '"') : Quiet p (q :: rest) name := by
  induction name with
  | nil => exact .nil
  | cons c name ih =>
    exact .cons (h.none_of_name hname hq) (ih fun d hd => hname d (List.mem_cons_of_mem c hd))

/-! ## 3. Marks -/

/-- Anything but a mark: the parenthesis of a call, or the star or brace in
which the names of a re-export begin. -/
def isPlain (c : Char) : Bool := c != '(' && c != '*' && c != '{'

/-- What a phrase takes contains a mark with no semicolon in front of it. -/
def Reaches (p : Phrase String) : Prop :=
  ∀ cs found, p cs = some found → ∃ front c rest, cs = front ++ c :: rest ∧ ';' ∉ front ∧
    isPlain c = false

theorem Reaches.none_of_mem (h : Reaches p) (hcs : cs.all isPlain = true) (hmem : ';' ∈ cs) :
    p (cs ++ rest) = none := by
  refine Option.eq_none_iff_forall_ne_some.mpr fun found hfound => ?_
  obtain ⟨front, c, back, heq, hfront, hc⟩ := h _ _ hfound
  obtain ⟨more, hmore, -⟩ | ⟨more, rfl, hmore⟩ := List.append_eq_append_iff.mp heq
  · exact hfront (hmore ▸ List.mem_append_left more hmem)
  · cases more with
    | nil =>
      rw [List.append_nil] at hmem
      exact hfront hmem
    | cons d more =>
      obtain ⟨rfl, -⟩ := List.cons.inj hmore
      rw [List.all_eq_true.mp hcs c (by simp)] at hc
      cases hc

/-- Up to a semicolon a phrase is found nowhere without a mark. -/
theorem Reaches.quiet (h : Reaches p) (hcs : (cs ++ [';']).all isPlain = true) :
    Quiet p rest (cs ++ [';']) := by
  induction cs with
  | nil => exact .cons (h.none_of_mem hcs List.mem_cons_self) .nil
  | cons c cs ih =>
    refine .cons (h.none_of_mem hcs (by simp)) (ih ?_)
    rw [List.cons_append, List.all_cons, Bool.and_eq_true] at hcs
    exact hcs.2

/-! ## 4. Imports and re-exports -/

theorem semicolon_not_mem {gap : List Char} (hgap : ∀ c ∈ gap, Text.isSpace c = true) :
    ';' ∉ gap := by
  intro hmem
  have := hgap ';' hmem
  revert this
  decide

/-- The text between `import` and its specifier begins with white space. -/
theorem isSpace_of_isClause (h : isClause ((c :: cs).takeWhile isClauseChar) = true) :
    Text.isSpace c = true := by
  rw [List.takeWhile_cons] at h
  split at h
  · rw [isClause, Bool.and_eq_true] at h
    exact h.1
  · cases h

theorem exists_of_staticImport (h : staticImport cs = some found) :
    ∃ c rest, cs = "import".toList ++ c :: rest ∧ Text.isSpace c = true := by
  unfold staticImport at h
  obtain ⟨behind, hbehind, h⟩ := Option.bind_eq_some_iff.mp h
  dsimp only at h
  obtain ⟨_, hguard, -⟩ := Option.bind_eq_some_iff.mp h
  rw [Text.rest?_eq_some_iff] at hbehind
  rw [Option.guard_eq_some'] at hguard
  cases behind with
  | nil => cases hguard
  | cons c rest => exact ⟨c, rest, hbehind, isSpace_of_isClause hguard⟩

theorem opens_staticImport : Opens staticImport := by
  intro cs found h
  obtain ⟨c, rest, rfl, hc⟩ := exists_of_staticImport h
  exact ⟨"import".toList, c, rest, rfl, by decide, List.all_eq_true.mp rfl, .inl hc⟩

/-- The word `type` may stand in front of the names. -/
theorem exists_of_type (cs : List Char) :
    ∃ front, cs = front ++ ((Text.rest? "type".toList cs).bind skipSpace1?).getD cs ∧
      ';' ∉ front := by
  cases h : (Text.rest? "type".toList cs).bind skipSpace1? with
  | none => exact ⟨[], rfl, List.not_mem_nil⟩
  | some rest =>
    obtain ⟨behind, hbehind, hrest⟩ := Option.bind_eq_some_iff.mp h
    rw [Text.rest?_eq_some_iff] at hbehind
    obtain ⟨c, gap, rfl, hc, hgap⟩ := exists_of_skipSpace1? hrest
    refine ⟨"type".toList ++ c :: gap, by simp [hbehind], ?_⟩
    rw [List.mem_append, not_or]
    refine ⟨by decide, semicolon_not_mem ?_⟩
    exact List.forall_mem_cons.mpr ⟨hc, hgap⟩

theorem exists_of_reExport (h : reExport cs = some found) :
    ∃ c gap d rest, cs = "export".toList ++ c :: (gap ++ d :: rest) ∧ Text.isSpace c = true ∧
      ';' ∉ gap ∧ isPlain d = false := by
  unfold reExport at h
  obtain ⟨behind, hbehind, hbody⟩ := Option.bind_eq_some_iff.mp h
  obtain ⟨named, hspace, hnames⟩ := Option.bind_eq_some_iff.mp hbody
  rw [Text.rest?_eq_some_iff] at hbehind
  obtain ⟨c, gap, rfl, hc, hgap⟩ := exists_of_skipSpace1? hspace
  obtain ⟨front, hfront, hsemicolon⟩ := exists_of_type named
  have hgap' : ';' ∉ gap ++ front := by
    rw [List.mem_append, not_or]
    exact ⟨semicolon_not_mem hgap, hsemicolon⟩
  dsimp only at hnames
  split at hnames
  · rename_i more hmore
    exact ⟨c, gap ++ front, '*', more, by rw [hbehind, List.append_assoc, ← hmore, ← hfront], hc,
      hgap', rfl⟩
  · rename_i more hmore
    exact ⟨c, gap ++ front, '{', more, by rw [hbehind, List.append_assoc, ← hmore, ← hfront], hc,
      hgap', rfl⟩
  · cases hnames

theorem opens_reExport : Opens reExport := by
  intro cs found h
  obtain ⟨c, gap, d, rest, rfl, hc, -⟩ := exists_of_reExport h
  exact ⟨"export".toList, c, gap ++ d :: rest, rfl, by decide, List.all_eq_true.mp rfl, .inl hc⟩

theorem reaches_reExport : Reaches reExport := by
  intro cs found h
  obtain ⟨c, gap, d, rest, rfl, hc, hgap, hd⟩ := exists_of_reExport h
  refine ⟨"export".toList ++ c :: gap, d, rest, by simp, ?_, hd⟩
  have hsemicolon : ';' ≠ c := by
    rintro rfl
    revert hc
    decide
  simp [hgap, hsemicolon]

/-! ## 5. Calls -/

theorem exists_of_firstArgument {found : String × List Char}
    (h : firstArgument cs = some found) :
    ∃ gap rest, cs = gap ++ '(' :: rest ∧ ∀ c ∈ gap, Text.isSpace c = true := by
  unfold firstArgument at h
  split at h
  · rename_i rest hrest
    obtain ⟨gap, hcs, hgap⟩ := exists_skipSpace cs
    exact ⟨gap, rest, by rw [← hrest, ← hcs], hgap⟩
  · cases h

/-- What a phrase takes is a word with a parenthesis behind it, white space
aside. -/
def Calls (p : Phrase String) (word : List Char) : Prop :=
  ∀ cs found, p cs = some found → ∃ gap rest, cs = word ++ (gap ++ '(' :: rest) ∧
    ∀ c ∈ gap, Text.isSpace c = true

theorem calls_of_bind {word : List Char}
    {k : List Char → String × List Char → Option (String × Nat)} :
    Calls (fun cs => (Text.rest? word cs).bind fun rest => (firstArgument rest).bind (k cs))
      word := by
  intro cs found h
  obtain ⟨behind, hbehind, h⟩ := Option.bind_eq_some_iff.mp h
  obtain ⟨_, hfirst, -⟩ := Option.bind_eq_some_iff.mp h
  obtain ⟨gap, rest, rfl, hgap⟩ := exists_of_firstArgument hfirst
  exact ⟨gap, rest, Text.rest?_eq_some_iff.mp hbehind, hgap⟩

theorem calls_dynamicImport : Calls dynamicImport "import".toList := calls_of_bind

theorem calls_requireCall : Calls requireCall "require".toList := calls_of_bind

theorem calls_requireResolve : Calls requireResolve "require.resolve".toList := calls_of_bind

theorem Calls.opens {word : List Char} (h : Calls p word) (hne : word ≠ [])
    (hword : word.all isNameChar = true) : Opens p := by
  rw [List.all_eq_true] at hword
  intro cs found hfound
  obtain ⟨gap, rest, rfl, hgap⟩ := h _ _ hfound
  cases gap with
  | nil => exact ⟨word, '(', rest, rfl, hne, hword, .inr rfl⟩
  | cons c gap => exact ⟨word, c, _, rfl, hne, hword, .inl (hgap c List.mem_cons_self)⟩

theorem Calls.reaches {word : List Char} (h : Calls p word) (hword : ';' ∉ word) : Reaches p := by
  intro cs found hfound
  obtain ⟨gap, rest, rfl, hgap⟩ := h _ _ hfound
  refine ⟨word ++ gap, '(', rest, by simp, ?_, rfl⟩
  rw [List.mem_append, not_or]
  exact ⟨hword, semicolon_not_mem hgap⟩

/-- Every phrase opens with a word. -/
theorem opens_of_mem_phrases {kind : ImportKind} (h : (p, kind) ∈ phrases) : Opens p := by
  simp only [phrases, List.mem_cons, List.not_mem_nil, or_false, Prod.mk.injEq] at h
  rcases h with ⟨rfl, -⟩ | ⟨rfl, -⟩ | ⟨rfl, -⟩ | ⟨rfl, -⟩ | ⟨rfl, -⟩
  · exact opens_staticImport
  · exact opens_reExport
  · exact calls_dynamicImport.opens (by decide) rfl
  · exact calls_requireCall.opens (by decide) rfl
  · exact calls_requireResolve.opens (by decide) rfl

/-- Every phrase but that of imports reaches a mark. -/
theorem reaches_of_mem_phrases {kind : ImportKind} (h : (p, kind) ∈ phrases)
    (hkind : kind ≠ .staticImport) : Reaches p := by
  simp only [phrases, List.mem_cons, List.not_mem_nil, or_false, Prod.mk.injEq] at h
  rcases h with ⟨-, rfl⟩ | ⟨rfl, -⟩ | ⟨rfl, -⟩ | ⟨rfl, -⟩ | ⟨rfl, -⟩
  · exact absurd rfl hkind
  · exact reaches_reExport
  · exact calls_dynamicImport.reaches (by decide)
  · exact calls_requireCall.reaches (by decide)
  · exact calls_requireResolve.reaches (by decide)

end PackageAudit.Import.Fallback
