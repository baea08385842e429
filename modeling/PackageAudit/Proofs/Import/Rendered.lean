/-
PackageAudit.Proofs.Import.Rendered — the fallback reads back rendered
statements.

What a phrase makes of the line of a statement is folded along the lines: it
finds the statements of its kind, each where its line begins (`findFrom_text`).
Each statement is of the kind of one phrase, so merging the finds of all phrases
by position gives the statements back in their order (`finds_text`), and the
lines before a statement are those of the statements before it
(`map_placedFrom`).

Nothing in the lines looks like a comment: the slashes of a specifier stand
behind quotes and name characters, behind which no line comment begins, and a
star stands behind no slash.
-/
import PackageAudit.Proofs.Collection
import PackageAudit.Proofs.Import.Comments
import PackageAudit.Proofs.Import.Statement

namespace PackageAudit.Import.Fallback

variable {p : Phrase String}

/-! ## 1. One phrase -/

namespace Statement

variable (s : Statement)

/-- Statements with the positions of their lines. -/
def placedFrom : Nat → List Statement → List (Nat × Statement)
  | _, [] => []
  | position, s :: statements =>
    (position, s) :: placedFrom (position + (s.line.length + 1)) statements

/-- What follows the line of a statement. -/
def below (ended : Bool) : List Statement → List Char
  | [] => if ended then ['\n'] else []
  | s :: statements => '\n' :: text ended (s :: statements)

theorem text_cons (ended : Bool) (s : Statement) (statements : List Statement) :
    text ended (s :: statements) = s.line ++ below ended statements := by
  cases statements with
  | nil => rw [text, below, List.map_cons, List.map_nil, List.intercalate_singleton]
  | cons t statements =>
    rw [text, below, text, List.map_cons, List.map_cons, List.intercalate_cons_cons,
      List.append_assoc, List.append_assoc]
    rfl

theorem getLast?_line : s.line.getLast? = some ';' := by
  rw [line, ← List.append_assoc, ← List.append_assoc, List.getLast?_concat]

/-- In the line of a statement a phrase finds the specifier if it is of the
statement's kind, and nothing else. -/
theorem findFrom_line {kind : ImportKind} (hp : (p, kind) ∈ phrases) {before : Option Char}
    (hbefore : allowed before = true) (position : Nat) (rest : List Char) :
    findFrom allowed p position before 0 (s.line ++ rest) =
      (if s.form.kind = kind then [(position, String.ofList s.specifier)] else []) ++
        findFrom allowed p (position + s.line.length) (some ';') 0 rest := by
  by_cases hkind : s.form.kind = kind
  · subst hkind
    obtain rfl := Form.eq_phrase hp
    obtain ⟨found, back, hline, hfound, hback, hsome⟩ := s.exists_taken rest
    rw [if_pos rfl, ← s.getLast?_line, hline, List.append_assoc, findFrom_hit hfound hbefore hsome,
      findFrom_quiet ((opens_of_mem_phrases hp).quiet hback), List.length_append, Nat.add_assoc,
      List.getLast?_append]
    rfl
  · rw [if_neg hkind, findFrom_quiet (s.quiet_line hp hkind rest), s.getLast?_line]
    rfl

/-- A phrase finds nothing in a line end. -/
theorem findFrom_newline (h : Opens p) (position : Nat) (before : Option Char) (cs : List Char) :
    findFrom allowed p position before 0 ('\n' :: cs) =
      findFrom allowed p (position + 1) (some '\n') 0 cs :=
  findFrom_quiet (show Quiet p cs ['\n'] from h.quiet rfl)

theorem findFrom_end (h : Opens p) (ended : Bool) (position : Nat) (before : Option Char) :
    findFrom allowed p position before 0 (if ended then ['\n'] else []) = [] := by
  cases ended with
  | false => rfl
  | true => exact findFrom_newline h position before []

/-- A phrase finds the statements of its kind, each where its line begins. -/
theorem findFrom_text {kind : ImportKind} (hp : (p, kind) ∈ phrases) (ended : Bool)
    (statements : List Statement) {before : Option Char} (hbefore : allowed before = true)
    (position : Nat) :
    findFrom allowed p position before 0 (text ended statements) =
      ((placedFrom position statements).filter fun placed => placed.2.form.kind = kind).map
        fun placed => (placed.1, String.ofList placed.2.specifier) := by
  have hopens := opens_of_mem_phrases hp
  induction statements generalizing position before with
  | nil => exact findFrom_end hopens ended position before
  | cons s statements ih =>
    have hbelow : findFrom allowed p (position + s.line.length) (some ';') 0
          (below ended statements) =
        ((placedFrom (position + (s.line.length + 1)) statements).filter
          fun placed => placed.2.form.kind = kind).map
            fun placed => (placed.1, String.ofList placed.2.specifier) := by
      cases statements with
      | nil => exact findFrom_end hopens ended _ _
      | cons t statements =>
        rw [below, findFrom_newline hopens, Nat.add_assoc]
        exact ih rfl _
    rw [text_cons, s.findFrom_line hp hbefore, hbelow, placedFrom, List.filter_cons]
    by_cases hkind : s.form.kind = kind
    · simp [hkind]
    · simp [hkind]

/-! ## 2. All phrases -/

/-- What is found of a statement at a position. -/
def find (placed : Nat × Statement) : Nat × String × ImportKind :=
  (placed.1, String.ofList placed.2.specifier, placed.2.form.kind)

theorem isBlank_specifier : Text.isBlank (String.ofList s.specifier) = false := by
  obtain ⟨c, rest, hspecifier⟩ := List.exists_cons_of_ne_nil s.nonempty
  have hc : c ∈ s.specifier := hspecifier ▸ List.mem_cons_self
  rw [Text.isBlank, String.toList_ofList, hspecifier, List.all_cons,
    isSpace_of_isNameChar (s.chars c hc), Bool.false_and]

/-- Each statement is of the kind of one phrase. -/
theorem perm_kinds (placed : List (Nat × Statement)) :
    ((phrases.map Prod.snd).flatMap fun kind => placed.filter fun x => x.2.form.kind = kind).Perm
      placed :=
  Table.perm_flatMap_filter (fun x : Nat × Statement => x.2.form.kind) (by decide)
    fun x _ => Form.kind_mem_phrases x.2.form

theorem le_of_mem_placedFrom {position : Nat} {statements : List Statement}
    {placed : Nat × Statement} (h : placed ∈ placedFrom position statements) :
    position ≤ placed.1 := by
  induction statements generalizing position with
  | nil => cases h
  | cons s statements ih =>
    rcases List.mem_cons.mp h with rfl | h
    · exact Nat.le_refl _
    · exact Nat.le_trans (Nat.le_add_right _ _) (ih h)

theorem pairwise_placedFrom (position : Nat) (statements : List Statement) :
    (placedFrom position statements).Pairwise fun a b => a.1 < b.1 := by
  induction statements generalizing position with
  | nil => exact .nil
  | cons s statements ih =>
    refine .cons (fun placed hplaced => ?_) (ih _)
    have := le_of_mem_placedFrom hplaced
    dsimp only
    omega

/-- The phrases together find every statement, in the order of the lines. -/
theorem finds_text (ended : Bool) (statements : List Statement) :
    finds (text ended statements) = (placedFrom 0 statements).map find := by
  have hfound : (phrases.flatMap fun x =>
      (findAll allowed x.1 (text ended statements)).filterMap fun y =>
        if Text.isBlank y.2 then none else some (y.1, y.2, x.2)) =
      ((phrases.map Prod.snd).flatMap fun kind =>
        (placedFrom 0 statements).filter fun x => x.2.form.kind = kind).map find := by
    rw [List.map_flatMap, List.flatMap_map]
    refine List.flatMap_congr fun x hx => ?_
    rw [findAll, findFrom_text hx ended statements rfl, List.filterMap_map, ← List.filterMap_eq_map]
    refine List.filterMap_congr fun placed hplaced => ?_
    have hkind : placed.2.form.kind = x.2 := of_decide_eq_true (List.mem_filter.mp hplaced).2
    simp only [Function.comp_apply, isBlank_specifier, Bool.false_eq_true, if_false, find, hkind]
  refine mergeSort_eq_of_pairwise_lt Prod.fst (fun _ _ => decide_eq_true_iff) ?_
    (List.pairwise_map.mpr (pairwise_placedFrom 0 statements))
  exact hfound ▸ (perm_kinds _).map find

/-! ## 3. Lines -/

theorem newlines_line (s : Statement) : Text.newlines s.line = 0 := by
  have hplain : s.line.all (· != '\n') = true := by
    refine s.all_line (fun c hc => bne_iff_ne.mpr (ne_of_class isNameChar hc rfl)) rfl ?_
    cases s.form with
    | named binding =>
      exact all_opening_named rfl fun c hc => bne_iff_ne.mpr (ne_of_class isBindingChar hc rfl)
    | bare | star | dynamic | require | resolve => rfl
  exact List.count_eq_zero.mpr fun hmem => bne_iff_ne.mp (List.all_eq_true.mp hplain _ hmem) rfl

theorem newlines_append_line (front : List Char) (s : Statement) :
    Text.newlines (front ++ (s.line ++ ['\n'])) = Text.newlines front + 1 := by
  have hline := s.newlines_line
  simp only [Text.newlines, List.count_append] at hline ⊢
  rw [hline]
  rfl

/-- Below some lines the statements are on the lines that follow. -/
theorem map_placedFrom {β : Type} (f : Nat → Statement → β) (ended : Bool) (front : List Char)
    (statements : List Statement) :
    ((placedFrom front.length statements).map fun placed =>
        f (lineAt (front ++ text ended statements) placed.1) placed.2) =
      statements.mapIdx fun i s => f (Text.newlines front + (i + 1)) s := by
  induction statements generalizing front with
  | nil => rfl
  | cons s statements ih =>
    have hfirst : lineAt (front ++ text ended (s :: statements)) front.length =
        Text.newlines front + 1 := by
      rw [lineAt, List.take_left]
    have hrest : ((placedFrom (front.length + (s.line.length + 1)) statements).map fun placed =>
        f (lineAt (front ++ text ended (s :: statements)) placed.1) placed.2) =
          statements.mapIdx fun i s => f (Text.newlines front + (i + 1 + 1)) s := by
      cases statements with
      | nil => rfl
      | cons t statements =>
        have hbelow := ih (front ++ (s.line ++ ['\n']))
        simp only [List.length_append, List.length_singleton, newlines_append_line] at hbelow
        rw [text_cons, below, ← List.singleton_append, ← List.append_assoc s.line,
          ← List.append_assoc front, hbelow]
        refine List.mapIdx_eq_mapIdx_iff.mpr fun i hi => ?_
        rw [Nat.add_right_comm, Nat.add_assoc]
    rw [placedFrom, List.map_cons, List.mapIdx_cons, hfirst, hrest]

end Statement

/-! ## 4. Comments -/

theorem scriptFree_of_isNameChar {c : Char} (h : isNameChar c = true) :
    scriptFree (some c) = false := by
  have hne : ∀ d, isNameChar d = false → (c == d) = false := fun d hd =>
    beq_false_of_ne (ne_of_class isNameChar h hd)
  simp only [scriptFree, isSpace_of_isNameChar h, hne ';' rfl, hne '{' rfl, hne '}' rfl,
    hne '(' rfl, hne ')' rfl, Bool.or_false]

namespace Statement

variable (s : Statement)

/-- Behind a quote and behind a name character no line comment begins. -/
theorem isChain_quotedName : s.quotedName.IsChain Apart := by
  have hquote : scriptFree (some s.quote) = false ∧ s.quote ≠ '*' :=
    s.quote_induction (fun q => scriptFree (some q) = false ∧ q ≠ '*') (by decide) (by decide)
  have hmem : ∀ c ∈ s.quotedName, scriptFree (some c) = false ∧ c ≠ '*' := by
    intro c hc
    simp only [quotedName, List.mem_append, List.mem_cons, List.not_mem_nil, or_false] at hc
    rcases hc with rfl | hc | rfl
    · exact hquote
    · exact ⟨scriptFree_of_isNameChar (s.chars c hc), ne_of_class isNameChar (s.chars c hc) rfl⟩
    · exact hquote
  exact (List.pairwise_of_forall_mem_list fun b hb c hc =>
    ⟨fun _ => (hmem b hb).1, fun hstar => absurd hstar (hmem c hc).2⟩).isChain

theorem slash_not_mem_opening (form : Form) : '/' ∉ form.opening := by
  have hplain : form.opening.all (· != '/') = true := by
    cases form with
    | named binding =>
      exact all_opening_named rfl fun c hc => bne_iff_ne.mpr (ne_of_class isBindingChar hc rfl)
    | bare | star | dynamic | require | resolve => rfl
  exact fun hmem => bne_iff_ne.mp (List.all_eq_true.mp hplain _ hmem) rfl

theorem isChain_line : s.line.IsChain Apart := by
  have hclosing : '/' ∉ s.form.closing ++ [';'] := fun h => by
    rcases Form.eq_or_eq_of_mem_end h with h | h <;> cases h
  have hquote : ∀ b, Apart b s.quote := fun b =>
    apart_of_ne (s.quote_induction (· ≠ '/') (by decide) (by decide))
      (s.quote_induction (· ≠ '*') (by decide) (by decide))
  rw [line, List.isChain_append, List.isChain_append]
  refine ⟨isChain_of_slash_not_mem (slash_not_mem_opening s.form), ⟨s.isChain_quotedName,
    isChain_of_slash_not_mem hclosing, fun b _ c hc => ?_⟩, fun b _ c hc => ?_⟩
  · rcases Form.eq_or_eq_of_mem_end (List.mem_of_mem_head? hc) with rfl | rfl <;>
      exact apart_of_ne (by decide) (by decide)
  · obtain rfl : s.quote = c := by simpa [quotedName] using hc
    exact hquote b

theorem head?_text {ended : Bool} {statements : List Statement} {c : Char}
    (hc : c ∈ (text ended (s :: statements)).head?) : isBindingChar c = true := by
  obtain ⟨d, rest, hopening, hd⟩ := s.form.exists_opening
  rw [text_cons, line, hopening] at hc
  obtain rfl : d = c := by simpa using hc
  exact hd

theorem head?_below {ended : Bool} {statements : List Statement} {c : Char}
    (hc : c ∈ (below ended statements).head?) : c = '\n' := by
  cases statements with
  | nil =>
    cases ended with
    | false => cases hc
    | true => exact (Option.some.inj hc).symm
  | cons s statements => exact (Option.some.inj hc).symm

theorem isChain_text (ended : Bool) (statements : List Statement) :
    (text ended statements).IsChain Apart := by
  have hend : (if ended then ['\n'] else []).IsChain Apart := by
    cases ended <;> exact isChain_of_slash_not_mem (by decide)
  induction statements with
  | nil => exact hend
  | cons s statements ih =>
    have hbelow : (below ended statements).IsChain Apart := by
      cases statements with
      | nil => exact hend
      | cons t statements =>
        refine List.isChain_cons.mpr ⟨fun c hc => ?_, ih⟩
        have hname := t.head?_text hc
        exact apart_of_ne (ne_of_class isBindingChar hname rfl)
          (ne_of_class isBindingChar hname rfl)
    rw [text_cons, List.isChain_append]
    refine ⟨s.isChain_line, hbelow, fun b _ c hc => ?_⟩
    rw [head?_below hc]
    exact apart_of_ne (by decide) (by decide)

/-- No statement is taken for a comment. -/
theorem dropScriptComments_text (ended : Bool) (statements : List Statement) :
    dropScriptComments (text ended statements) = text ended statements := by
  refine dropScriptComments_eq_self (isChain_text ended statements) fun c hc => ?_
  cases statements with
  | nil =>
    have hnewline : c = '\n' := head?_below (show c ∈ (below ended []).head? from hc)
    rw [hnewline]
    decide
  | cons s statements => exact ne_of_class isBindingChar (s.head?_text hc) rfl

end Statement

/-! ## 5. References -/

/-- **Rendered statements are read back.** Of statements one per line, with
specifiers of name characters in single or double quotes, the fallback reports
each specifier with its kind, in order, on the lines from the first. -/
theorem references_of_statements (file : String) (ended : Bool) (statements : List Statement) :
    references file (String.ofList (Statement.text ended statements)) =
      statements.mapIdx fun i s =>
        { specifier := String.ofList s.specifier
          kind := s.form.kind
          file
          line := (i + 1 : Nat) } := by
  have hlines := Statement.map_placedFrom (fun line s =>
    (⟨String.ofList s.specifier, s.form.kind, file, line⟩ : Reference)) ended [] statements
  rw [references, String.toList_ofList]
  dsimp only
  rw [Statement.dropScriptComments_text, Statement.finds_text, List.map_map]
  refine hlines.trans (List.mapIdx_eq_mapIdx_iff.mpr fun i hi => ?_)
  rw [show Text.newlines [] = 0 from rfl, Nat.zero_add]

end PackageAudit.Import.Fallback
