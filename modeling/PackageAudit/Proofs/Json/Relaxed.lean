/-
PackageAudit.Proofs.Json.Relaxed — what JSON with comments and trailing commas is
read as.

A text that the strict reader refuses is read once more, after two passes over
it. Both passes take a document to a document: the first leaves out its comments
(`dropComments_text`), and the second its trailing commas
(`dropTrailingCommas_text`). The first one knows what a literal is. The second
one does not: it takes commas out of literals too, where white space and a
closing bracket or brace follow in the literal (`Literal.thin`).
-/
import PackageAudit.Proofs.FileTree.Texts
import Mathlib.Data.List.Infix

namespace PackageAudit.Json

variable {cs rest : List Char}

/-! ## 1. Comments -/

theorem dropCommentsFrom_drop_zero (cs : List Char) :
    dropCommentsFrom (.drop 0) cs = dropComments cs := by
  cases cs <;> rfl

theorem dropCommentsFrom_keep (cs rest : List Char) :
    dropCommentsFrom (.keep cs.length) (cs ++ rest) = cs ++ dropComments rest := by
  induction cs with
  | nil => rfl
  | cons c cs ih =>
    rw [List.length_cons, List.cons_append, List.cons_append, dropCommentsFrom, ih]

theorem dropCommentsFrom_drop (cs rest : List Char) :
    dropCommentsFrom (.drop cs.length) (cs ++ rest) = dropComments rest := by
  induction cs with
  | nil => exact dropCommentsFrom_drop_zero rest
  | cons c cs ih => rw [List.length_cons, List.cons_append, dropCommentsFrom, ih]

theorem dropComments_cons {c : Char} (hc : c ≠ '"' ∧ c ≠ '/') (cs : List Char) :
    dropComments (c :: cs) = c :: dropComments cs := by
  have hspan : spanAt (c :: cs) = .keep 0 := by
    rw [spanAt]
    all_goals
      intros
      simp_all
  rw [dropComments, dropCommentsFrom]
  · rw [hspan]
    rfl
  all_goals simp

theorem dropComments_append (h : ∀ c ∈ cs, c ≠ '"' ∧ c ≠ '/') (rest : List Char) :
    dropComments (cs ++ rest) = cs ++ dropComments rest := by
  induction cs with
  | nil => rfl
  | cons c cs ih =>
    rw [List.forall_mem_cons] at h
    rw [List.cons_append, dropComments_cons h.1, ih h.2, List.cons_append]

theorem stringEnd?_cons {c : Char} (hc : c ≠ '"' ∧ c ≠ '\\') (cs : List Char) :
    stringEnd? (c :: cs) = (stringEnd? cs).map (· + 1) := by
  rw [stringEnd?]
  all_goals
    intros
    simp_all

theorem stringEnd?_append (h : ∀ c ∈ cs, c ≠ '"' ∧ c ≠ '\\') (rest : List Char) :
    stringEnd? (cs ++ rest) = (stringEnd? rest).map (· + cs.length) := by
  induction cs with
  | nil => simp
  | cons c cs ih =>
    rw [List.forall_mem_cons] at h
    rw [List.cons_append, stringEnd?_cons h.1, ih h.2, Option.map_map]
    rfl

/-- Hexadecimal digits are neither quotes nor backslashes nor commas. -/
theorem ne_of_fourHex? {a b c d : Char} {unit : Nat} (h : fourHex? [a, b, c, d] = some unit) :
    ∀ x ∈ [a, b, c, d], x ≠ '"' ∧ x ≠ '\\' ∧ x ≠ ',' := by
  have hdigits : ∀ x ∈ [a, b, c, d], ∃ n, hexValue? x = some n := by
    simp only [fourHex?, bind, Option.bind_eq_some_iff] at h
    obtain ⟨n₁, h₁, n₂, h₂, n₃, h₃, n₄, h₄, -⟩ := h
    simp [h₁, h₂, h₃, h₄]
  intro x hx
  obtain ⟨n, hn⟩ := hdigits x hx
  refine ⟨?_, ?_, ?_⟩ <;>
  · rintro rfl
    cases hn

/-- A literal ends at its quote. -/
theorem stringEnd?_body (s : Literal) (rest : List Char) :
    stringEnd? (s.body ++ '"' :: rest) = some (s.body.length + 1) := by
  induction s with
  | nil => rfl
  | cons p s ih =>
    cases p with
    | plain c hc =>
      rw [Literal.body_plain, List.cons_append, stringEnd?_cons ⟨hc.1, hc.2.1⟩, ih]
      rfl
    | escape letter c h =>
      rw [Literal.body_escape, List.cons_append, List.cons_append, stringEnd?, ih]
      rfl
    | unicode a b c d unit h =>
      have hdigits : ∀ x ∈ [a, b, c, d], x ≠ '"' ∧ x ≠ '\\' := fun x hx =>
        ⟨(ne_of_fourHex? h x hx).1, (ne_of_fourHex? h x hx).2.1⟩
      have hbody : Literal.body (.unicode a b c d unit h :: s) ++ '"' :: rest =
          '\\' :: 'u' :: ([a, b, c, d] ++ (Literal.body s ++ '"' :: rest)) := rfl
      rw [hbody, stringEnd?, stringEnd?_append hdigits, ih, Literal.body_unicode]
      rfl

/-- A literal is kept. -/
theorem dropComments_literal (s : Literal) (rest : List Char) :
    dropComments (s.text ++ rest) = s.text ++ dropComments rest := by
  have htext : s.text ++ rest = '"' :: ((s.body ++ ['"']) ++ rest) := by simp [Literal.text]
  have hspan : spanAt ('"' :: ((s.body ++ ['"']) ++ rest)) = .keep (s.body ++ ['"']).length := by
    have hend := stringEnd?_body s rest
    simp [spanAt, hend]
  rw [htext, dropComments, dropCommentsFrom, hspan]
  · dsimp only
    rw [dropCommentsFrom_keep]
    simp [Literal.text]
  all_goals simp

/-- A comment ends where it can first. -/
theorem commentEnd?_append (h : ¬ ['*', '/'] <:+: cs ++ ['*']) (rest : List Char) :
    commentEnd? (cs ++ '*' :: '/' :: rest) = some (cs.length + 2) := by
  induction cs with
  | nil => rfl
  | cons c cs ih =>
    have htail : ¬ ['*', '/'] <:+: cs ++ ['*'] := fun hinside =>
      h (hinside.trans (List.suffix_cons c _).isInfix)
    rw [List.cons_append, commentEnd?, ih htail]
    · rfl
    · rintro more rfl heq
      -- The text of the comment would have the end in it.
      cases cs with
      | nil => cases heq
      | cons d cs =>
        obtain ⟨rfl, -⟩ := List.cons.inj heq
        exact h ⟨[], cs ++ ['*'], rfl⟩

/-- A comment is left out up to the end of its line. -/
theorem dropComments_line (h : '\n' ∉ cs) (hrest : ∀ c ∈ rest.head?, c = '\n') :
    dropComments ('/' :: '/' :: (cs ++ rest)) = dropComments rest := by
  have hline : (cs ++ rest).takeWhile (· != '\n') = cs := by
    rw [List.takeWhile_append_of_pos fun c hc => by
      rw [bne_iff_ne]
      rintro rfl
      exact h hc]
    cases rest with
    | nil => simp
    | cons c rest =>
      obtain rfl : c = '\n' := hrest c rfl
      simp
  have hspan : spanAt ('/' :: '/' :: (cs ++ rest)) = .drop ('/' :: cs).length := by
    rw [spanAt, hline, List.length_cons, Nat.add_comm]
  rw [dropComments, dropCommentsFrom, hspan]
  · exact dropCommentsFrom_drop ('/' :: cs) rest
  all_goals simp

theorem dropComments_block (h : ¬ ['*', '/'] <:+: cs ++ ['*']) (rest : List Char) :
    dropComments ('/' :: '*' :: (cs ++ '*' :: '/' :: rest)) = dropComments rest := by
  have hspan : spanAt ('/' :: '*' :: (cs ++ '*' :: '/' :: rest)) =
      .drop ('*' :: (cs ++ ['*', '/'])).length := by
    simp only [spanAt, commentEnd?_append h]
    simp
    omega
  have happend : '*' :: (cs ++ '*' :: '/' :: rest) = '*' :: (cs ++ ['*', '/']) ++ rest := by simp
  rw [dropComments, dropCommentsFrom, hspan]
  · rw [happend]
    exact dropCommentsFrom_drop _ rest
  all_goals simp

/-- A gap keeps its blanks and the line ends behind its comments. -/
theorem dropComments_gap (g : Gap) (rest : List Char) :
    dropComments (g.text ++ rest) = g.blanks.text ++ dropComments rest := by
  induction g with
  | nil => rfl
  | cons f g ih =>
    rw [Gap.text_cons, List.append_assoc]
    cases f with
    | blank c hc =>
      have hne : c ≠ '"' ∧ c ≠ '/' := by
        constructor <;>
        · rintro rfl
          cases hc
      calc dropComments (c :: (Gap.text g ++ rest))
          = c :: dropComments (Gap.text g ++ rest) := dropComments_cons hne _
        _ = c :: (Gap.text (Gap.blanks g) ++ dropComments rest) := by rw [ih]
    | line cs h =>
      have htext : Filler.text (.line cs h) ++ (Gap.text g ++ rest) =
          '/' :: '/' :: (cs ++ '\n' :: (Gap.text g ++ rest)) := by simp [Filler.text]
      rw [htext, dropComments_line h (by simp), dropComments_cons (by decide), ih]
      rfl
    | block cs h =>
      have htext : Filler.text (.block cs h) ++ (Gap.text g ++ rest) =
          '/' :: '*' :: (cs ++ '*' :: '/' :: (Gap.text g ++ rest)) := by simp [Filler.text]
      rw [htext, dropComments_block h, ih]
      rfl

/-! ## 2. Commas -/

namespace Literal

/-- A literal without the commas that white space and a closing bracket or brace
follow in it. -/
def thin : Literal → Literal
  | [] => []
  | p :: s => if p.text = [','] ∧ closes (body s) = true then thin s else p :: thin s

/-- No comma of the literal stands before white space and a closing bracket or
brace in it. -/
def Clean (s : Literal) : Prop :=
  ∀ front back, s.body = front ++ ',' :: back → closes back = false

theorem clean_iff {s : Literal} : s.Clean ↔
    ∀ tail ∈ s.body.tails, tail.head? = some ',' → closes tail.tail = false := by
  constructor
  · intro h tail htail hhead
    obtain ⟨front, hfront⟩ := (List.mem_tails _ _).mp htail
    obtain ⟨back, rfl⟩ := List.head?_eq_some_iff.mp hhead
    exact h front back hfront.symm
  · intro h front back hbody
    exact h (',' :: back) ((List.mem_tails _ _).mpr ⟨front, hbody.symm⟩) rfl

instance (s : Literal) : Decidable s.Clean := decidable_of_iff _ clean_iff.symm

theorem thin_of_clean {s : Literal} (h : s.Clean) : s.thin = s := by
  induction s with
  | nil => rfl
  | cons p s ih =>
    have htail : Clean s := by
      intro front back hbody
      refine h (p.text ++ front) back ?_
      rw [body_cons, hbody, List.append_assoc]
    rw [thin, if_neg, ih htail]
    rintro ⟨hcomma, hcloses⟩
    have hbody : body (p :: s) = [] ++ ',' :: body s := by rw [body_cons, hcomma]; rfl
    cases hcloses.symm.trans (h [] (body s) hbody)

end Literal

/-- The quote at the end of a literal closes nothing. -/
theorem closes_append_quote (cs rest : List Char) : closes (cs ++ '"' :: rest) = closes cs := by
  rw [closes, closes, List.dropWhile_append]
  cases hcs : cs.dropWhile Text.isSpace with
  | nil =>
    have hquote : Text.isSpace '"' = false := by decide
    simp [hquote]
  | cons c cs => rfl

theorem dropTrailingCommas_append (h : ',' ∉ cs) (rest : List Char) :
    dropTrailingCommas (cs ++ rest) = cs ++ dropTrailingCommas rest := by
  induction cs with
  | nil => rfl
  | cons c cs ih =>
    rw [List.mem_cons, not_or] at h
    have hc : (c == ',') = false := beq_false_of_ne (Ne.symm h.1)
    rw [List.cons_append, dropTrailingCommas, hc, Bool.false_and, if_neg Bool.false_ne_true, ih h.2,
      List.cons_append]

/-- Only a piece that stands for itself can be a comma. -/
theorem Piece.comma_not_mem {p : Piece} (h : p.text ≠ [',']) : ',' ∉ p.text := by
  intro hmem
  cases p with
  | plain c hc =>
    obtain rfl : ',' = c := by simpa [Piece.text] using hmem
    exact h rfl
  | escape letter c hletter =>
    obtain rfl : ',' = letter := by simpa [Piece.text] using hmem
    cases hletter
  | unicode a b c d unit hunit =>
    have hdigit : ',' ∈ [a, b, c, d] := by simpa [Piece.text] using hmem
    exact (ne_of_fourHex? hunit ',' hdigit).2.2 rfl

/-- A literal loses commas by what stands in it alone. -/
theorem dropTrailingCommas_literal (s : Literal) (rest : List Char) :
    dropTrailingCommas (s.text ++ rest) = s.thin.text ++ dropTrailingCommas rest := by
  have hbody : dropTrailingCommas (s.body ++ '"' :: rest) =
      s.thin.body ++ '"' :: dropTrailingCommas rest := by
    induction s with
    | nil => rfl
    | cons p s ih =>
      rw [Literal.body_cons, List.append_assoc, Literal.thin]
      by_cases hcomma : p.text = [',']
      · rw [hcomma, List.singleton_append, dropTrailingCommas, closes_append_quote]
        by_cases hcloses : closes (Literal.body s) = true
        · simp [hcloses, ih]
        · simp [hcloses, ih, hcomma]
      · rw [dropTrailingCommas_append (Piece.comma_not_mem hcomma), ih, if_neg fun h => hcomma h.1,
          Literal.body_cons, List.append_assoc]
  calc dropTrailingCommas (s.text ++ rest)
      = dropTrailingCommas (['"'] ++ (s.body ++ '"' :: rest)) := by simp [Literal.text]
    _ = ['"'] ++ (s.thin.body ++ '"' :: dropTrailingCommas rest) := by
        rw [dropTrailingCommas_append (by decide), hbody]
    _ = s.thin.text ++ dropTrailingCommas rest := by simp [Literal.text]

/-- What follows a gap decides about the comma in front of it. -/
theorem closes_gap {g : Gap} (hg : g.plain = true) {c : Char} (hc : Text.isSpace c = false)
    (cs : List Char) : closes (g.text ++ c :: cs) = (c == '\x7d' || c == ']') := by
  have hspace : ∀ d ∈ g.text, Text.isSpace d = true := by
    intro d hd
    have hblank := Gap.isBlank_of_mem_text hg d hd
    simp only [isBlank, Bool.or_eq_true, beq_iff_eq] at hblank
    rcases hblank with ((rfl | rfl) | rfl) | rfl <;> decide
  rw [closes, List.dropWhile_append_of_pos hspace, List.dropWhile_cons_of_neg (by simp [hc])]

/-- No value begins with white space or a closing bracket or brace. -/
theorem not_closing_of_opens {c : Char} (hc : opens c = true) :
    Text.isSpace c = false ∧ (c == '\x7d' || c == ']') = false := by
  rw [opens, Bool.or_eq_true, List.contains_iff_mem] at hc
  rcases hc with hdigit | hmem
  · have hrange : 48 ≤ c.toNat ∧ c.toNat ≤ 57 := by
      simpa [Char.isDigit, UInt32.le_iff_toNat_le] using hdigit
    constructor
    · rw [Text.isSpace, if_pos (by omega)]
      simp only [Bool.or_eq_false_iff, Bool.and_eq_false_iff, decide_eq_false_iff_not]
      omega
    · rw [Bool.or_eq_false_iff, beq_eq_false_iff_ne, beq_eq_false_iff_ne]
      constructor <;>
      · rintro rfl
        cases hdigit
  · have hall : ∀ c ∈ ['-', '"', '[', '\x7b', 'n', 't', 'f', 'N', 'I'],
        Text.isSpace c = false ∧ (c == '\x7d' || c == ']') = false := by simp [Text.isSpace]
    exact hall c hmem

/-! ## 3. Layouts -/

/-- What a pass does to gaps, to the ends of containers and to literals. -/
structure Pass where
  gap : Gap → Gap
  ending : Ending → Ending
  literal : Literal → Literal

/-- A name after a pass. -/
def Label.through (p : Pass) (label : Label) : Label :=
  ⟨p.literal label.name, p.gap label.beforeColon, p.gap label.afterColon⟩

mutual

/-- A layout after a pass. -/
def Layout.through (p : Pass) : Layout → Layout
  | .word w h => .word w h
  | .numeral n => .numeral n
  | .literal s => .literal (p.literal s)
  | .emptyArray inside => .emptyArray (p.gap inside)
  | .array before items => .array (p.gap before) (items.through p)
  | .emptyObject inside => .emptyObject (p.gap inside)
  | .object before members => .object (p.gap before) (members.through p)

def Items.through (p : Pass) : Items → Items
  | .last x ending => .last (x.through p) (p.ending ending)
  | .cons x after before more => .cons (x.through p) (p.gap after) (p.gap before) (more.through p)

def Members.through (p : Pass) : Members → Members
  | .last label x ending =>
    .last (label.through p) (x.through p) (p.ending ending)
  | .cons label x after before more =>
    .cons (label.through p) (x.through p) (p.gap after) (p.gap before) (more.through p)

end

mutual

/-- The values of a layout come from its literals. -/
theorem Layout.valueBy_through (p : Pass) (read : Literal → String) :
    ∀ l : Layout, (l.through p).valueBy read = l.valueBy fun s => read (p.literal s)
  | .word _ _ | .numeral _ | .literal _ | .emptyArray _ | .emptyObject _ => rfl
  | .array _ items => by
    rw [Layout.through, Layout.valueBy, Layout.valueBy, Items.valuesBy_through]
  | .object _ members => by
    rw [Layout.through, Layout.valueBy, Layout.valueBy, Members.pairsBy_through]

theorem Items.valuesBy_through (p : Pass) (read : Literal → String) :
    ∀ items : Items, (items.through p).valuesBy read = items.valuesBy fun s => read (p.literal s)
  | .last x _ => by rw [Items.through, Items.valuesBy, Items.valuesBy, Layout.valueBy_through]
  | .cons x _ _ more => by
    rw [Items.through, Items.valuesBy, Items.valuesBy, Layout.valueBy_through,
      Items.valuesBy_through]

theorem Members.pairsBy_through (p : Pass) (read : Literal → String) :
    ∀ members : Members,
      (members.through p).pairsBy read = members.pairsBy fun s => read (p.literal s)
  | .last _ x _ => by
    rw [Members.through, Members.pairsBy, Members.pairsBy, Layout.valueBy_through, Label.through]
  | .cons _ x _ _ more => by
    rw [Members.through, Members.pairsBy, Members.pairsBy, Layout.valueBy_through,
      Members.pairsBy_through, Label.through]

end

/-- The first pass: comments are left out. -/
def uncomment : Pass where
  gap := Gap.blanks
  ending e := ⟨e.after.blanks, e.trailing.map Gap.blanks⟩
  literal s := s

/-- Both passes: comments are left out, then commas in front of closing brackets
and braces, in literals too. -/
def relax : Pass where
  gap := Gap.blanks
  ending e := ⟨e.after.blanks ++ e.trailing.elim [] Gap.blanks, none⟩
  literal := Literal.thin

@[simp] theorem uncomment_gap : uncomment.gap = Gap.blanks := rfl

@[simp] theorem uncomment_literal (s : Literal) : uncomment.literal s = s := rfl

@[simp] theorem relax_gap : relax.gap = Gap.blanks := rfl

@[simp] theorem relax_literal : relax.literal = Literal.thin := rfl

/-- The characters of words and numerals neither begin literals or comments nor
are they commas. -/
theorem ne_of_mem_word {w : List Char × Json} (h : w ∈ constants) :
    ∀ c ∈ w.1, c ≠ '"' ∧ c ≠ '/' ∧ c ≠ ',' := by
  have hall : ∀ w ∈ constants, ∀ c ∈ w.1, c ≠ '"' ∧ c ≠ '/' ∧ c ≠ ',' := by simp [constants]
  exact hall w h

theorem Power.mem_text (e : Power) {c : Char} (hc : c ∈ e.text) :
    c.isDigit = true ∨ c ∈ ['-', '+', '.', 'e', 'E'] := by
  rw [Power.text, List.mem_cons, List.mem_append] at hc
  rcases hc with rfl | hsign | hdigits
  · cases e.capital <;> simp
  · cases hs : e.sign <;> rw [hs] at hsign <;> simp_all [Sign.text]
  · exact Or.inl (e.isDigit c hdigits)

theorem ne_of_mem_numeral (n : Numeral) : ∀ c ∈ n.text, c ≠ '"' ∧ c ≠ '/' ∧ c ≠ ',' := by
  have hchars : ∀ c ∈ n.text, c.isDigit = true ∨ c ∈ ['-', '+', '.', 'e', 'E'] := by
    intro c hc
    simp only [Numeral.text, Numeral.signText, Numeral.partText, Numeral.powerText,
      List.mem_append] at hc
    rcases hc with ((hsign | hwhole) | hpart) | hpower
    · split at hsign <;> simp_all
    · exact Or.inl (n.isDigit_whole c hwhole)
    · split at hpart
      · cases hpart
      · rcases List.mem_cons.mp hpart with rfl | hpart
        · simp
        · exact Or.inl (n.isDigit_part c hpart)
    · cases hp : n.power with
      | none =>
        rw [hp] at hpower
        cases hpower
      | some e =>
        rw [hp] at hpower
        exact e.mem_text hpower
  intro c hc
  rcases hchars c hc with hdigit | hmem
  · refine ⟨?_, ?_, ?_⟩ <;>
    · rintro rfl
      cases hdigit
  · have hall : ∀ c ∈ ['-', '+', '.', 'e', 'E'], c ≠ '"' ∧ c ≠ '/' ∧ c ≠ ',' := by simp
    exact hall c hmem

theorem Ending.dropComments_text (e : Ending) (rest : List Char) :
    dropComments (e.text ++ rest) = (uncomment.ending e).text ++ dropComments rest := by
  obtain ⟨after, trailing⟩ := e
  cases trailing <;> simp [Ending.text, uncomment, dropComments_cons, dropComments_gap]

theorem Label.dropComments_text (label : Label) (rest : List Char) :
    dropComments (label.text ++ rest) = (label.through uncomment).text ++ dropComments rest := by
  simp [Label.text, Label.through, dropComments_literal, dropComments_cons,
    dropComments_gap]

mutual

/-- **The first pass** takes a layout to the layout without comments. -/
theorem Layout.dropComments_text : ∀ (l : Layout) (rest : List Char),
    dropComments (l.text ++ rest) = (l.through uncomment).text ++ dropComments rest
  | .word w h, rest =>
    dropComments_append (fun c hc => ⟨(ne_of_mem_word h c hc).1, (ne_of_mem_word h c hc).2.1⟩) rest
  | .numeral n, rest => dropComments_append
    (fun c hc => ⟨(ne_of_mem_numeral n c hc).1, (ne_of_mem_numeral n c hc).2.1⟩) rest
  | .literal s, rest => dropComments_literal s rest
  | .emptyArray inside, rest => by
    simp [Layout.text, Layout.through, dropComments_cons, dropComments_gap]
  | .array before items, rest => by
    simp [Layout.text, Layout.through, dropComments_cons, dropComments_gap,
      Items.dropComments_text items]
  | .emptyObject inside, rest => by
    simp [Layout.text, Layout.through, dropComments_cons, dropComments_gap]
  | .object before members, rest => by
    simp [Layout.text, Layout.through, dropComments_cons, dropComments_gap,
      Members.dropComments_text members]

theorem Items.dropComments_text : ∀ (items : Items) (rest : List Char),
    dropComments (items.text ++ rest) = (items.through uncomment).text ++ dropComments rest
  | .last x ending, rest => by
    simp [Items.text, Items.through, Layout.dropComments_text x, ending.dropComments_text]
  | .cons x after before more, rest => by
    simp [Items.text, Items.through, dropComments_cons, dropComments_gap,
      Items.dropComments_text more, Layout.dropComments_text x]

theorem Members.dropComments_text : ∀ (members : Members) (rest : List Char),
    dropComments (members.text ++ rest) = (members.through uncomment).text ++ dropComments rest
  | .last label x ending, rest => by
    simp [Members.text, Members.through, label.dropComments_text, Layout.dropComments_text x,
      ending.dropComments_text]
  | .cons label x after before more, rest => by
    simp [Members.text, Members.through, dropComments_cons, dropComments_gap,
      label.dropComments_text, Layout.dropComments_text x, Members.dropComments_text more]

end

/-- A comma that closes nothing is kept. -/
theorem dropTrailingCommas_comma (h : closes cs = false) :
    dropTrailingCommas (',' :: cs) = ',' :: dropTrailingCommas cs := by
  rw [dropTrailingCommas, h, Bool.and_false, if_neg Bool.false_ne_true]

theorem dropTrailingCommas_cons {c : Char} (h : c ≠ ',') (cs : List Char) :
    dropTrailingCommas (c :: cs) = c :: dropTrailingCommas cs :=
  have hsingle : ',' ∉ [c] := by simpa using h.symm
  dropTrailingCommas_append hsingle cs

theorem dropTrailingCommas_blanks (g : Gap) (rest : List Char) :
    dropTrailingCommas (g.blanks.text ++ rest) = g.blanks.text ++ dropTrailingCommas rest := by
  refine dropTrailingCommas_append (fun hmem => ?_) rest
  cases Gap.isBlank_of_mem_text g.plain_blanks ',' hmem

/-- The commas between items are kept. -/
theorem dropTrailingCommas_between (g : Gap) {c : Char} {tail : List Char} (htext : cs = c :: tail)
    (hc : opens c = true) (rest : List Char) :
    dropTrailingCommas (',' :: (g.blanks.text ++ (cs ++ rest))) =
      ',' :: (g.blanks.text ++ dropTrailingCommas (cs ++ rest)) := by
  obtain ⟨hspace, hclosing⟩ := not_closing_of_opens hc
  rw [dropTrailingCommas_comma, dropTrailingCommas_blanks]
  rw [htext, List.cons_append, closes_gap g.plain_blanks hspace, hclosing]

theorem Ending.dropTrailingCommas_text (e : Ending) {c : Char} (hc : c = ']' ∨ c = '\x7d')
    (rest : List Char) : dropTrailingCommas ((uncomment.ending e).text ++ c :: rest) =
      (relax.ending e).text ++ c :: dropTrailingCommas rest := by
  have hclose : dropTrailingCommas (c :: rest) = c :: dropTrailingCommas rest :=
    dropTrailingCommas_cons (by rcases hc with rfl | rfl <;> decide) rest
  obtain ⟨after, trailing⟩ := e
  cases trailing with
  | none => simp [Ending.text, uncomment, relax, dropTrailingCommas_blanks, hclose]
  | some g =>
    have hcloses : closes (g.blanks.text ++ c :: rest) = true := by
      rw [closes_gap g.plain_blanks (by rcases hc with rfl | rfl <;> decide)]
      rcases hc with rfl | rfl <;> rfl
    have hcomma : dropTrailingCommas (',' :: (g.blanks.text ++ c :: rest)) =
        g.blanks.text ++ c :: dropTrailingCommas rest := by
      rw [dropTrailingCommas, hcloses, Bool.and_true, if_pos (by decide),
        dropTrailingCommas_blanks, hclose]
    simp [Ending.text, uncomment, relax, dropTrailingCommas_blanks, hcomma]

theorem Label.dropTrailingCommas_text (label : Label) (rest : List Char) :
    dropTrailingCommas ((label.through uncomment).text ++ rest) =
      (label.through relax).text ++ dropTrailingCommas rest := by
  simp [Label.text, Label.through, dropTrailingCommas_literal,
    dropTrailingCommas_cons, dropTrailingCommas_blanks]

mutual

/-- **The second pass** takes a layout without comments to the layout without
trailing commas, and thins its literals. -/
theorem Layout.dropTrailingCommas_text : ∀ (l : Layout) (rest : List Char),
    dropTrailingCommas ((l.through uncomment).text ++ rest) =
      (l.through relax).text ++ dropTrailingCommas rest
  | .word w h, rest =>
    dropTrailingCommas_append (fun hmem => (ne_of_mem_word h ',' hmem).2.2 rfl) rest
  | .numeral n, rest =>
    dropTrailingCommas_append (fun hmem => (ne_of_mem_numeral n ',' hmem).2.2 rfl) rest
  | .literal s, rest => dropTrailingCommas_literal s rest
  | .emptyArray inside, rest => by
    simp [Layout.text, Layout.through, dropTrailingCommas_cons,
      dropTrailingCommas_blanks]
  | .array before items, rest => by
    simp [Layout.text, Layout.through, dropTrailingCommas_cons, dropTrailingCommas_blanks,
      Items.dropTrailingCommas_text items]
  | .emptyObject inside, rest => by
    simp [Layout.text, Layout.through, dropTrailingCommas_cons,
      dropTrailingCommas_blanks]
  | .object before members, rest => by
    simp [Layout.text, Layout.through, dropTrailingCommas_cons, dropTrailingCommas_blanks,
      Members.dropTrailingCommas_text members]

theorem Items.dropTrailingCommas_text : ∀ (items : Items) (rest : List Char),
    dropTrailingCommas ((items.through uncomment).text ++ ']' :: rest) =
      (items.through relax).text ++ ']' :: dropTrailingCommas rest
  | .last x ending, rest => by
    simp [Items.text, Items.through, Layout.dropTrailingCommas_text x,
      ending.dropTrailingCommas_text]
  | .cons x after before more, rest => by
    obtain ⟨c, cs, htext, hc⟩ := (more.through uncomment).exists_text_eq
    have hmore := Items.dropTrailingCommas_text more rest
    have hbetween := dropTrailingCommas_between before htext hc (']' :: rest)
    rw [hmore] at hbetween
    simp [Items.text, Items.through, Layout.dropTrailingCommas_text x, dropTrailingCommas_blanks,
      hbetween]

theorem Members.dropTrailingCommas_text : ∀ (members : Members) (rest : List Char),
    dropTrailingCommas ((members.through uncomment).text ++ '\x7d' :: rest) =
      (members.through relax).text ++ '\x7d' :: dropTrailingCommas rest
  | .last label x ending, rest => by
    simp [Members.text, Members.through, label.dropTrailingCommas_text,
      Layout.dropTrailingCommas_text x, ending.dropTrailingCommas_text]
  | .cons label x after before more, rest => by
    obtain ⟨cs, htext⟩ := (more.through uncomment).exists_text_eq
    have hmore := Members.dropTrailingCommas_text more rest
    have hbetween := dropTrailingCommas_between before htext (by decide) ('\x7d' :: rest)
    rw [hmore] at hbetween
    simp [Members.text, Members.through, label.dropTrailingCommas_text,
      Layout.dropTrailingCommas_text x, dropTrailingCommas_blanks, hbetween]

end

theorem Ending.plain_relax (e : Ending) : (relax.ending e).plain = true := by
  obtain ⟨after, trailing⟩ := e
  have happend : Gap.plain (after.blanks ++ trailing.elim [] Gap.blanks) = true := by
    rw [Gap.plain, List.all_append, Bool.and_eq_true]
    refine ⟨after.plain_blanks, ?_⟩
    cases trailing with
    | none => rfl
    | some g => exact g.plain_blanks
  simpa [Ending.plain, relax] using happend

theorem Label.plain_relax (label : Label) : (label.through relax).plain = true := by
  simp [Label.plain, Label.through, Gap.plain_blanks]

mutual

theorem Layout.plain_relax : ∀ l : Layout, (l.through relax).plain = true
  | .word _ _ | .numeral _ | .literal _ => rfl
  | .emptyArray inside | .emptyObject inside => inside.plain_blanks
  | .array before items => by
    rw [Layout.through, Layout.plain, Items.plain_relax items, Bool.and_true]
    exact before.plain_blanks
  | .object before members => by
    rw [Layout.through, Layout.plain, Members.plain_relax members, Bool.and_true]
    exact before.plain_blanks

theorem Items.plain_relax : ∀ items : Items, (items.through relax).plain = true
  | .last x ending => by
    rw [Items.through, Items.plain, Layout.plain_relax x, ending.plain_relax, Bool.and_self]
  | .cons x after before more => by
    simp [Items.through, Items.plain, Layout.plain_relax x, Items.plain_relax more,
      Gap.plain_blanks]

theorem Members.plain_relax : ∀ members : Members, (members.through relax).plain = true
  | .last label x ending => by
    rw [Members.through, Members.plain, label.plain_relax, Layout.plain_relax x,
      ending.plain_relax, Bool.and_self, Bool.and_self]
  | .cons label x after before more => by
    simp [Members.through, Members.plain, label.plain_relax, Layout.plain_relax x,
      Members.plain_relax more, Gap.plain_blanks]

end

mutual

/-- The literals of a layout, names included. -/
def Layout.literals : Layout → List Literal
  | .word _ _ | .numeral _ | .emptyArray _ | .emptyObject _ => []
  | .literal s => [s]
  | .array _ items => items.literals
  | .object _ members => members.literals

def Items.literals : Items → List Literal
  | .last x _ => x.literals
  | .cons x _ _ more => x.literals ++ more.literals

def Members.literals : Members → List Literal
  | .last label x _ => label.name :: x.literals
  | .cons label x _ _ more => label.name :: (x.literals ++ more.literals)

end

variable {read read' : Literal → String}

mutual

/-- How its literals are read decides about the value. -/
theorem Layout.valueBy_congr : ∀ {l : Layout}, (∀ s ∈ l.literals, read s = read' s) →
    l.valueBy read = l.valueBy read'
  | .word _ _, _ | .numeral _, _ | .emptyArray _, _ | .emptyObject _, _ => rfl
  | .literal s, h => congrArg Json.str (h s (List.mem_singleton.mpr rfl))
  | .array _ _, h => congrArg Json.arr (Items.valuesBy_congr h)
  | .object _ _, h =>
    congrArg (fun pairs => Json.obj (Table.ofPairs pairs)) (Members.pairsBy_congr h)

theorem Items.valuesBy_congr : ∀ {items : Items}, (∀ s ∈ items.literals, read s = read' s) →
    items.valuesBy read = items.valuesBy read'
  | .last x _, h => by
    rw [Items.valuesBy, Items.valuesBy, Layout.valueBy_congr h]
  | .cons x _ _ more, h => by
    rw [Items.literals, List.forall_mem_append] at h
    rw [Items.valuesBy, Items.valuesBy, Layout.valueBy_congr h.1, Items.valuesBy_congr h.2]

theorem Members.pairsBy_congr : ∀ {members : Members},
    (∀ s ∈ members.literals, read s = read' s) → members.pairsBy read = members.pairsBy read'
  | .last label x _, h => by
    rw [Members.literals, List.forall_mem_cons] at h
    rw [Members.pairsBy, Members.pairsBy, h.1, Layout.valueBy_congr h.2]
  | .cons label x _ _ more, h => by
    rw [Members.literals, List.forall_mem_cons, List.forall_mem_append] at h
    rw [Members.pairsBy, Members.pairsBy, h.1, Layout.valueBy_congr h.2.1,
      Members.pairsBy_congr h.2.2]

end

/-! ## 4. Documents -/

namespace Document

/-- What is left of a document after both passes. -/
def relaxed (d : Document) : Document :=
  { before := d.before.blanks, root := d.root.through relax, after := d.after.blanks }

/-- The value of a document whose literals are thinned. -/
def thinValue (d : Document) : Json := d.root.valueBy fun s => s.thin.value

theorem dropTrailingCommas_text (d : Document) :
    dropTrailingCommas (dropComments d.text) = d.relaxed.text := by
  have hlast : dropComments d.lastText = [] := by
    rw [lastText]
    cases d.last with
    | none => rfl
    | some cs =>
      have hline : dropComments ('/' :: '/' :: (cs.1 ++ [])) = dropComments [] :=
        dropComments_line cs.2 (by simp)
      rwa [List.append_nil] at hline
  have hcomments : dropComments d.text =
      d.before.blanks.text ++ ((d.root.through uncomment).text ++ d.after.blanks.text) := by
    rw [text, dropComments_gap, Layout.dropComments_text, dropComments_gap, hlast, List.append_nil]
  have hend : dropTrailingCommas d.after.blanks.text = d.after.blanks.text := by
    have hblanks := dropTrailingCommas_blanks d.after []
    rwa [List.append_nil, dropTrailingCommas, List.append_nil] at hblanks
  rw [hcomments, dropTrailingCommas_blanks, Layout.dropTrailingCommas_text, hend]
  simp [relaxed, text, lastText]

theorem plain_relaxed (d : Document) : d.relaxed.plain = true := by
  simp [relaxed, plain, Gap.plain_blanks, Layout.plain_relax]

theorem value_relaxed (d : Document) : d.relaxed.value = d.thinValue :=
  Layout.valueBy_through relax Literal.value d.root

theorem thinValue_of_clean {d : Document} (h : ∀ s ∈ d.root.literals, s.Clean) :
    d.thinValue = d.value :=
  Layout.valueBy_congr fun s hs => by rw [Literal.thin_of_clean (h s hs)]

/-- **Relaxed reading.** A document that is plain JSON is read as its value, and
every other one as its value with thinned literals. -/
theorem parseRelaxed_eq (d : Document) : parseRelaxed (String.ofList d.text) =
    .ok (if d.plain then d.value else d.thinValue) := by
  have hstrict := d.parse_eq
  rw [parseRelaxed]
  cases hplain : d.plain with
  | true =>
    rw [hplain, if_pos rfl] at hstrict
    rw [hstrict, if_pos rfl]
  | false =>
    rw [hplain, if_neg Bool.false_ne_true] at hstrict
    obtain ⟨e, he⟩ := hstrict
    have hrelaxed := d.relaxed.parse_eq
    rw [d.plain_relaxed, if_pos rfl, d.value_relaxed] at hrelaxed
    rw [he, if_neg Bool.false_ne_true]
    simpa [d.dropTrailingCommas_text] using hrelaxed

/-- **Files with comments.** A file whose text is a document is read as the value
of the document, but that its literals are thinned where the text is no plain
JSON. So the value is recovered, whatever comments and trailing commas there
are, if in no literal a comma stands before white space and a closing bracket
or brace. -/
theorem readRelaxed_document (t : FileTree) (path : String) (d : Document)
    (htext : t.readText path = .ok (String.ofList d.text)) :
    t.readRelaxed path = .ok (if d.plain then d.value else d.thinValue) ∧
    ((d.plain = true ∨ ∀ s ∈ d.root.literals, s.Clean) → t.readRelaxed path = .ok d.value) := by
  have hread : t.readRelaxed path = .ok (if d.plain then d.value else d.thinValue) := by
    rw [FileTree.readRelaxed, FileTree.readWith, htext]
    simp only [d.parseRelaxed_eq]
    rfl
  refine ⟨hread, ?_⟩
  rintro (hplain | hclean)
  · rw [hread, hplain, if_pos rfl]
  · rw [hread, thinValue_of_clean hclean, ite_self]

/-- A literal whose characters all stand for themselves. -/
def quoted (text : String)
    (h : text.toList.all fun c => c != '"' && c != '\\' && 31 < c.toNat) : Literal :=
  text.toList.pmap Piece.plain (by simpa [and_assoc] using h)

/-- An object with one member, a list, with comments and trailing commas. -/
def commented : Document where
  before := [.line " settings".toList (by decide)]
  root := .object [.blank '\n' isBlank_newline] (.last
    ⟨quoted "lib" (by decide), [], [.blank ' ' isBlank_space]⟩
    (.array [] (.cons
      (.literal (quoted "a//b, /*" (by decide))) [.block " * ".toList (by decide)] []
      (.last (.literal (quoted "[,x]" (by decide))) ⟨[], some [.blank ' ' isBlank_space]⟩)))
    ⟨[], some [.blank '\n' isBlank_newline]⟩)
  after := [.blank ' ' isBlank_space]
  last := some ⟨"end".toList, by decide⟩

/-- A tree with one file, which has that text. -/
def commentedFile : FileTree := ⟨.folder [("c.json", .file (Text.Utf8.encode
  "// settings\n\x7b\n\"lib\": [\"a//b, /*\"/* * */,\"[,x]\", ],\n\x7d //end"))]⟩

/-- Comments go, what looks like comments in literals stays. -/
theorem readRelaxed_document_commented : commentedFile.readRelaxed "/c.json" =
    .ok (.obj [("lib", .arr [.str "a//b, /*", .str "[,x]"])]) := by
  have htext : commentedFile.readText "/c.json" = .ok (String.ofList commented.text) :=
    FileTree.readText_of_find rfl (by with_unfolding_all rfl) (by decide)
  have hclean : ∀ s ∈ commented.root.literals, s.Clean := by decide
  exact (readRelaxed_document commentedFile "/c.json" commented htext).2 (Or.inr hclean)

/-- An object with a pattern, and a trailing comma. -/
def pattern : Document where
  before := []
  root := .object [] (.last ⟨quoted "files" (by decide), [], [.blank ' ' isBlank_space]⟩
    (.literal (quoted "*.\x7bts,\x7d" (by decide))) ⟨[], some [.blank ' ' isBlank_space]⟩)
  after := []

/-- The comma in the pattern is lost with the other one. -/
theorem pattern_loses_comma :
    String.ofList pattern.text = "\x7b\"files\": \"*.\x7bts,\x7d\", \x7d" ∧
      pattern.value = .obj [("files", .str "*.\x7bts,\x7d")] ∧
      parseRelaxed "\x7b\"files\": \"*.\x7bts,\x7d\", \x7d" =
        .ok (.obj [("files", .str "*.\x7bts\x7d")]) ∧
      parseRelaxed (String.ofList pattern.text) ≠ .ok pattern.value := by
  have htext : String.ofList pattern.text = "\x7b\"files\": \"*.\x7bts,\x7d\", \x7d" := by rfl
  have hvalue : pattern.value = .obj [("files", .str "*.\x7bts,\x7d")] := by rfl
  have hread : parseRelaxed "\x7b\"files\": \"*.\x7bts,\x7d\", \x7d" =
      .ok (.obj [("files", .str "*.\x7bts\x7d")]) := by
    with_unfolding_all rfl
  refine ⟨htext, hvalue, hread, ?_⟩
  rw [htext, hread, hvalue]
  simp

end Document

end PackageAudit.Json
