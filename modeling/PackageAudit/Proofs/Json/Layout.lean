/-
PackageAudit.Proofs.Json.Layout — JSON texts as they are laid out.

A layout is a value as it is written: each literal and numeral in its spelling,
each gap with its blanks and comments, and behind the last item of an array or
the last member of an object perhaps one more comma. All of that is in the tree,
and the text is read off it. The strict reader recovers the value of a layout
that has neither comments nor such commas, and refuses every other one
(`Document.parse_eq`).
-/
import PackageAudit.Proofs.Json.Token

namespace PackageAudit.Json

/-! ## 1. Layouts -/

/-- What stands between the last item of a container and its closing bracket or
brace: a gap, and perhaps a comma with one more gap. -/
structure Ending where
  after : Gap
  trailing : Option Gap := none

namespace Ending

def text (e : Ending) : List Char := e.after.text ++ e.trailing.elim [] fun g => ',' :: g.text

/-- Neither comments nor a comma. -/
def plain (e : Ending) : Bool := e.after.plain && e.trailing.isNone

end Ending

/-- The name of a member, up to the value. -/
structure Label where
  name : Literal
  beforeColon : Gap
  afterColon : Gap

namespace Label

def text (l : Label) : List Char := l.name.text ++ l.beforeColon.text ++ ':' :: l.afterColon.text

def plain (l : Label) : Bool := l.beforeColon.plain && l.afterColon.plain

end Label

mutual

/-- A value as it is written. -/
inductive Layout where
  | word (w : List Char × Json) (h : w ∈ constants)
  | numeral (n : Numeral)
  | literal (s : Literal)
  | emptyArray (inside : Gap)
  | array (before : Gap) (items : Items)
  | emptyObject (inside : Gap)
  | object (before : Gap) (members : Members)

/-- The items of an array, at least one. -/
inductive Items where
  | last (x : Layout) (ending : Ending)
  | cons (x : Layout) (after before : Gap) (more : Items)

/-- The members of an object, at least one. -/
inductive Members where
  | last (label : Label) (x : Layout) (ending : Ending)
  | cons (label : Label) (x : Layout) (after before : Gap) (more : Members)

end

mutual

/-- How a value is written. -/
def Layout.text : Layout → List Char
  | .word w _ => w.1
  | .numeral n => n.text
  | .literal s => s.text
  | .emptyArray inside => '[' :: (inside.text ++ [']'])
  | .array before items => '[' :: (before.text ++ (items.text ++ [']']))
  | .emptyObject inside => '\x7b' :: (inside.text ++ ['\x7d'])
  | .object before members => '\x7b' :: (before.text ++ (members.text ++ ['\x7d']))

def Items.text : Items → List Char
  | .last x ending => x.text ++ ending.text
  | .cons x after before more => x.text ++ (after.text ++ ',' :: (before.text ++ more.text))

def Members.text : Members → List Char
  | .last label x ending => label.text ++ (x.text ++ ending.text)
  | .cons label x after before more =>
    label.text ++ (x.text ++ (after.text ++ ',' :: (before.text ++ more.text)))

end

mutual

/-- The value of a layout, for a way to read its literals. Of two members with
one name the later counts. -/
def Layout.valueBy (read : Literal → String) : Layout → Json
  | .word w _ => w.2
  | .numeral n => n.value
  | .literal s => .str (read s)
  | .emptyArray _ => .arr []
  | .array _ items => .arr (items.valuesBy read)
  | .emptyObject _ => .obj []
  | .object _ members => .obj (Table.ofPairs (members.pairsBy read))

def Items.valuesBy (read : Literal → String) : Items → List Json
  | .last x _ => [x.valueBy read]
  | .cons x _ _ more => x.valueBy read :: more.valuesBy read

def Members.pairsBy (read : Literal → String) : Members → List (String × Json)
  | .last label x _ => [(read label.name, x.valueBy read)]
  | .cons label x _ _ more => (read label.name, x.valueBy read) :: more.pairsBy read

end

mutual

/-- A layout without comments, and without commas in front of closing brackets
and braces. -/
def Layout.plain : Layout → Bool
  | .word _ _ | .numeral _ | .literal _ => true
  | .emptyArray inside | .emptyObject inside => inside.plain
  | .array before items => before.plain && items.plain
  | .object before members => before.plain && members.plain

def Items.plain : Items → Bool
  | .last x ending => x.plain && ending.plain
  | .cons x after before more => x.plain && (after.plain && (before.plain && more.plain))

def Members.plain : Members → Bool
  | .last label x ending => label.plain && (x.plain && ending.plain)
  | .cons label x after before more =>
    label.plain && (x.plain && (after.plain && (before.plain && more.plain)))

end

/-- The value that a layout writes. -/
def Layout.value (l : Layout) : Json := l.valueBy Literal.value

/-! ## 2. First characters -/

/-- The characters that a value can begin with. -/
def opens (c : Char) : Bool :=
  c.isDigit || ['-', '"', '[', '\x7b', 'n', 't', 'f', 'N', 'I'].contains c

theorem Numeral.exists_text_eq (n : Numeral) :
    ∃ cs, (∃ d, d.isDigit = true ∧ n.text = d :: cs) ∨
      ∃ d more, d.isDigit = true ∧ cs = d :: more ∧ n.text = '-' :: cs := by
  obtain ⟨d, ds, hwhole⟩ := List.exists_cons_of_ne_nil n.whole_ne_nil
  have hd : d.isDigit = true := n.isDigit_whole d (by simp [hwhole])
  rw [text, signText, hwhole]
  cases n.negative with
  | false => exact ⟨_, Or.inl ⟨d, hd, rfl⟩⟩
  | true => exact ⟨_, Or.inr ⟨d, _, hd, rfl, rfl⟩⟩

theorem Layout.exists_text_eq (l : Layout) : ∃ c cs, l.text = c :: cs ∧ opens c = true := by
  cases l with
  | word w h =>
    simp only [constants, List.mem_cons, List.not_mem_nil, or_false] at h
    rcases h with rfl | rfl | rfl | rfl | rfl | rfl <;> exact ⟨_, _, rfl, by decide⟩
  | numeral n =>
    obtain ⟨cs, ⟨d, hd, htext⟩ | ⟨d, more, -, -, htext⟩⟩ := n.exists_text_eq
    · exact ⟨d, cs, htext, by simp [opens, hd]⟩
    · exact ⟨'-', cs, htext, by decide⟩
  | _ => exact ⟨_, _, rfl, by decide⟩

theorem starts_of_opens {c : Char} (hc : opens c = true) (cs : List Char) : Starts (c :: cs) := by
  have hblank : isBlank c = false := by
    rw [Bool.eq_false_iff]
    intro hblank
    simp only [isBlank, Bool.or_eq_true, beq_iff_eq] at hblank
    rcases hblank with ((rfl | rfl) | rfl) | rfl <;> cases hc
  rw [Starts, List.dropWhile_cons_of_neg (by rw [hblank]; exact Bool.false_ne_true)]

theorem Layout.starts (l : Layout) (rest : List Char) : Starts (l.text ++ rest) := by
  obtain ⟨c, cs, htext, hc⟩ := l.exists_text_eq
  rw [htext]
  exact starts_of_opens hc (cs ++ rest)

/-! ## 3. Values without parts -/

variable {fuel : Nat} {cs rest more : List Char}

/-- What is neither a literal nor a container is a word or a number. -/
theorem value_scalar {c : Char} (h : c ≠ '"' ∧ c ≠ '[' ∧ c ≠ '\x7b') (fuel position : Nat)
    (cs : List Char) (hword : constant? (c :: cs) = none) :
    value (fuel + 1) ⟨c :: cs, position⟩ = number ⟨c :: cs, position⟩ := by
  rw [value]
  split
  case h_4 => rw [hword]
  all_goals
    rename_i heq
    simp_all

/-- Where no word begins, there is none. -/
theorem constant?_eq_none (h : ∀ w ∈ constants, ¬ w.1 <+: cs) : constant? cs = none := by
  rw [constant?, Option.map_eq_none_iff, List.find?_eq_none]
  intro w hw hfront
  exact h w hw (List.isPrefixOf_iff_prefix.mp hfront)

theorem constant?_cons_eq_none {c : Char} (h : c ∉ ['n', 't', 'f', 'N', 'I', '-'])
    (cs : List Char) : constant? (c :: cs) = none := by
  refine constant?_eq_none fun w hw ⟨rest, hrest⟩ => h ?_
  simp only [constants, List.mem_cons, List.not_mem_nil, or_false] at hw
  rcases hw with rfl | rfl | rfl | rfl | rfl | rfl <;> rw [← (List.cons.inj hrest).1] <;> decide

/-- The one word that begins with a minus sign goes on with a letter. -/
theorem constant?_minus_eq_none {d : Char} (h : d ≠ 'I') (cs : List Char) :
    constant? ('-' :: d :: cs) = none := by
  refine constant?_eq_none fun w hw ⟨rest, hrest⟩ => ?_
  simp only [constants, List.mem_cons, List.not_mem_nil, or_false] at hw
  rcases hw with rfl | rfl | rfl | rfl | rfl | rfl
  case inr.inr.inr.inr.inr =>
    have hword : ['-', 'I'] ++ ("nfinity".toList ++ rest) = '-' :: d :: cs := hrest
    exact h (List.cons.inj (List.cons.inj hword).2).1.symm
  all_goals exact absurd (List.cons.inj hrest).1 (by decide)

/-- Where no value can begin, none is read. -/
theorem value_refuses {c : Char} (hc : opens c = false) (fuel : Nat) (cs : List Char) (v : Json)
    (rest : List Char) : Reads (value fuel) (c :: cs) false v rest := by
  refine .error fun position => ?_
  cases fuel with
  | zero => exact ⟨_, rfl⟩
  | succ fuel =>
    simp only [opens, Bool.or_eq_false_iff, List.contains_cons, List.contains_nil,
      beq_eq_false_iff_ne, and_true] at hc
    obtain ⟨hdigit, hminus, hquote, hbracket, hbrace, hn, ht, hf, hN, hI⟩ := hc
    have hword : constant? (c :: cs) = none :=
      constant?_cons_eq_none (by simp [hn, ht, hf, hN, hI, hminus]) cs
    rw [value_scalar ⟨hquote, hbracket, hbrace⟩ fuel position cs hword]
    have hzero : c ≠ '0' := by
      rintro rfl
      cases hdigit
    have hwhole : Numeral.wholeAt (c :: cs) = [] := by
      rw [Numeral.wholeAt, digitsOf, List.takeWhile_cons_of_neg (by simp [hdigit])]
      intro more heq
      exact hzero (List.cons.inj heq).1
    refine ⟨(.expectedValue, position), ?_⟩
    rw [Numeral.number_eq]
    simp [hminus, hwhole]

theorem reads_word {w : List Char × Json} (h : w ∈ constants) (fuel : Nat) (rest : List Char) :
    Reads (value (fuel + 1)) (w.1 ++ rest) true w.2 rest := by
  refine .ok fun position => ?_
  simp only [constants, List.mem_cons, List.not_mem_nil, or_false] at h
  rcases h with rfl | rfl | rfl | rfl | rfl | rfl <;> exact ⟨_, rfl⟩

theorem reads_numeral (n : Numeral) (fuel : Nat) (hrest : Delimited rest) :
    Reads (value (fuel + 1)) (n.text ++ rest) true n.value rest := by
  refine .ok fun position => ?_
  obtain ⟨next, hnext⟩ := n.reads hrest position
  refine ⟨next, ?_⟩
  rw [← hnext]
  obtain ⟨cs, ⟨d, hd, htext⟩ | ⟨d, more, hd, rfl, htext⟩⟩ := n.exists_text_eq
  · have hnot : ∀ c : Char, c.isDigit = false → d ≠ c := by
      rintro c hc rfl
      cases hd.symm.trans hc
    rw [htext, List.cons_append]
    refine value_scalar ⟨hnot _ rfl, hnot _ rfl, hnot _ rfl⟩ fuel position _
      (constant?_cons_eq_none ?_ _)
    simp [hnot]
  · have hne : d ≠ 'I' := by
      rintro rfl
      cases hd
    rw [htext, List.cons_append, List.cons_append]
    exact value_scalar (by decide) fuel position _ (constant?_minus_eq_none hne _)

theorem reads_literal (s : Literal) (fuel : Nat) (rest : List Char) :
    Reads (value (fuel + 1)) (s.text ++ rest) true (.str s.value) rest := by
  refine .ok fun position => ?_
  obtain ⟨next, hnext⟩ := s.reads rest (position + 1)
  refine ⟨next, ?_⟩
  have htext : s.text ++ rest = '"' :: (s.body ++ '"' :: rest) := by
    simp [Literal.text]
  rw [htext, value]
  have hskip : (⟨'"' :: (s.body ++ '"' :: rest), position⟩ : Cursor).skip 1 =
      ⟨s.body ++ '"' :: rest, position + 1⟩ := rfl
  simp only [hskip, hnext, Bind.bind, Except.bind]

/-! ## 4. Containers -/

/-- What follows a gap that a comma or a closing bracket or brace ends. -/
theorem Gap.delimited (g : Gap) {c : Char} (hc : c = ',' ∨ c = ']' ∨ c = '\x7d')
    (rest : List Char) : Delimited (g.text ++ c :: rest) := by
  cases g with
  | nil =>
    rintro d hd
    obtain rfl : c = d := by simpa using hd
    exact Or.inr (by rcases hc with rfl | rfl | rfl <;> simp)
  | cons f g =>
    rintro d hd
    cases f with
    | blank b hb =>
      obtain rfl : b = d := by simpa [Filler.text] using hd
      exact Or.inl hb
    | line _ _ | block _ _ =>
      obtain rfl : '/' = d := by simpa [Filler.text] using hd
      simp

theorem Ending.delimited (e : Ending) {c : Char} (hc : c = ']' ∨ c = '\x7d') (rest : List Char) :
    Delimited (e.text ++ c :: rest) := by
  obtain ⟨after, trailing⟩ := e
  cases trailing with
  | none => simpa [Ending.text] using after.delimited (Or.inr hc) rest
  | some g => simpa [Ending.text] using after.delimited (Or.inl rfl) (g.text ++ c :: rest)

/-- What is done behind an item. -/
def itemEnd (fuel count : Nat) (acc : List Json) (v : Json) (c : Cursor) :
    Outcome (List Json × Cursor) :=
  match c.rest with
  | ']' :: _ => .ok ((v :: acc).reverse, c.skip 1)
  | ',' :: _ => arrayItems (value fuel) count (c.skip 1).skipBlanks (v :: acc)
  | _ => .error (.expectedComma, c.position)

theorem arrayItems_succ (fuel count : Nat) (acc : List Json) :
    (fun c => arrayItems (value fuel) (count + 1) c acc) = fun c =>
      value fuel c >>= fun r => itemEnd fuel count acc r.1 r.2.skipBlanks := rfl

theorem arrayItems_refuses {c : Char} (hc : opens c = false) (fuel count : Nat) (acc : List Json)
    (cs : List Char) (vs : List Json) (rest : List Char) :
    Reads (fun c => arrayItems (value fuel) count c acc) (c :: cs) false vs rest := by
  cases count with
  | zero => exact .error fun position => ⟨_, rfl⟩
  | succ count => exact (value_refuses hc fuel cs .null []).bind_error _ vs rest

theorem itemEnd_refuses_slash (fuel count : Nat) (acc : List Json) (v : Json) (more : List Char)
    (vs : List Json) (rest : List Char) :
    Reads (itemEnd fuel count acc v) ('/' :: more) false vs rest :=
  .error fun _ => ⟨_, rfl⟩

/-- The next item is read behind a comma. -/
theorem reads_itemEnd_comma {fuel count : Nat} {acc vs : List Json} {v : Json} {accepts : Bool}
    (after before : Gap)
    (h : Reads (fun c => arrayItems (value fuel) count c (v :: acc)) cs accepts vs rest)
    (hcs : Starts cs) :
    Reads (fun c => itemEnd fuel count acc v c.skipBlanks)
      (after.text ++ ',' :: (before.text ++ cs)) (after.plain && (before.plain && accepts))
      vs rest :=
  .delimiter rfl (fun _ _ => rfl) (fun more => itemEnd_refuses_slash fuel count acc v more vs rest)
    (fun more => arrayItems_refuses (by decide) fuel count (v :: acc) more vs rest) after before
    h hcs

/-- The end of an array is read if there is no comma more. -/
theorem reads_itemEnd (e : Ending) (fuel count : Nat) (acc : List Json) (v : Json)
    (rest : List Char) :
    Reads (fun c => itemEnd fuel count acc v c.skipBlanks) (e.text ++ ']' :: rest) e.plain
      (v :: acc).reverse rest := by
  obtain ⟨after, trailing⟩ := e
  rw [Ending.plain, Ending.text]
  cases trailing with
  | none =>
    have hclose : Reads (itemEnd fuel count acc v) (']' :: rest) true (v :: acc).reverse rest :=
      .ok fun position => ⟨_, rfl⟩
    simpa using hclose.gap after rfl fun more => itemEnd_refuses_slash fuel count acc v more _ rest
  | some g =>
    have hcomma := reads_itemEnd_comma after g
      (arrayItems_refuses (c := ']') (by decide) fuel count (v :: acc)
      rest (v :: acc).reverse rest) rfl
    simpa using hcomma

/-- What is done behind the value of a member. -/
def memberEnd (fuel count : Nat) (acc : Table Json) (c : Cursor) : Outcome (Table Json × Cursor) :=
  match c.rest with
  | '\x7d' :: _ => .ok (acc, c.skip 1)
  | ',' :: _ => objectMembers (value fuel) count (c.skip 1).skipBlanks acc
  | _ => .error (.expectedComma, c.position)

/-- What is done behind the name of a member. -/
def memberColon (fuel count : Nat) (acc : Table Json) (name : String) (c : Cursor) :
    Outcome (Table Json × Cursor) :=
  match c.rest with
  | ':' :: _ => value fuel (c.skip 1).skipBlanks >>= fun r =>
    memberEnd fuel count (acc.put name r.1) r.2.skipBlanks
  | _ => .error (.expectedColon, c.position)

theorem objectMembers_refuses {c : Char} (hc : c ≠ '"') (fuel count : Nat) (acc : Table Json)
    (cs : List Char) (m : Table Json) (rest : List Char) :
    Reads (fun c => objectMembers (value fuel) count c acc) (c :: cs) false m rest := by
  refine .error fun position => ?_
  cases count with
  | zero => exact ⟨_, rfl⟩
  | succ count =>
    refine ⟨(.expectedName, position), ?_⟩
    rw [objectMembers]
    split
    · rename_i heq
      exact absurd (List.cons.inj heq).1 hc
    · rfl

/-- A name is read up to its colon. -/
theorem objectMembers_literal (s : Literal) (fuel count : Nat) (acc : Table Json) {m : Table Json}
    {accepts : Bool}
    (h : Reads (fun c => memberColon fuel count acc s.value c.skipBlanks) cs accepts m rest) :
    Reads (fun c => objectMembers (value fuel) (count + 1) c acc) (s.text ++ cs) accepts m
      rest := by
  have htext : s.text ++ cs = '"' :: (s.body ++ '"' :: cs) := by simp [Literal.text]
  have hname :=
    ((s.reads cs).bind (fun name c => memberColon fuel count acc name c.skipBlanks) h).skip '"'
  rw [htext]
  exact hname

/-- The value of a member is read behind a colon. -/
theorem reads_memberColon {fuel count : Nat} {acc m : Table Json} {name : String} {accepts : Bool}
    (beforeColon afterColon : Gap)
    (h : Reads (fun c => value fuel c >>= fun r =>
      memberEnd fuel count (acc.put name r.1) r.2.skipBlanks) cs accepts m rest) (hcs : Starts cs) :
    Reads (fun c => memberColon fuel count acc name c.skipBlanks)
      (beforeColon.text ++ ':' :: (afterColon.text ++ cs))
      (beforeColon.plain && (afterColon.plain && accepts)) m rest :=
  .delimiter rfl (fun _ _ => rfl) (fun _ => .error fun _ => ⟨_, rfl⟩)
    (fun more => (value_refuses (by decide) fuel more .null []).bind_error _ m rest)
    beforeColon afterColon h hcs

theorem memberEnd_refuses_slash (fuel count : Nat) (acc : Table Json) (more : List Char)
    (m : Table Json) (rest : List Char) :
    Reads (memberEnd fuel count acc) ('/' :: more) false m rest :=
  .error fun _ => ⟨_, rfl⟩

/-- The next member is read behind a comma. -/
theorem reads_memberEnd_comma {fuel count : Nat} {acc m : Table Json} {accepts : Bool}
    (after before : Gap)
    (h : Reads (fun c => objectMembers (value fuel) count c acc) cs accepts m rest)
    (hcs : Starts cs) :
    Reads (fun c => memberEnd fuel count acc c.skipBlanks)
      (after.text ++ ',' :: (before.text ++ cs)) (after.plain && (before.plain && accepts))
      m rest :=
  .delimiter rfl (fun _ _ => rfl) (fun more => memberEnd_refuses_slash fuel count acc more m rest)
    (fun more => objectMembers_refuses (by decide) fuel count acc more m rest) after before h hcs

/-- The end of an object is read if there is no comma more. -/
theorem reads_memberEnd (e : Ending) (fuel count : Nat) (acc : Table Json) (rest : List Char) :
    Reads (fun c => memberEnd fuel count acc c.skipBlanks) (e.text ++ '\x7d' :: rest) e.plain
      acc rest := by
  obtain ⟨after, trailing⟩ := e
  rw [Ending.plain, Ending.text]
  cases trailing with
  | none =>
    have hclose : Reads (memberEnd fuel count acc) ('\x7d' :: rest) true acc rest :=
      .ok fun position => ⟨_, rfl⟩
    simpa using hclose.gap after rfl fun more =>
      memberEnd_refuses_slash fuel count acc more acc rest
  | some g =>
    have hcomma := reads_memberEnd_comma after g
      (objectMembers_refuses (c := '\x7d') (by decide) fuel count acc rest acc rest) rfl
    simpa using hcomma

/-- What is done behind an opening bracket. -/
def arrayRest (fuel : Nat) (c : Cursor) : Outcome (Json × Cursor) :=
  match c.rest with
  | ']' :: _ => .ok (.arr [], c.skip 1)
  | _ => arrayItems (value fuel) (c.rest.length + 1) c [] >>= fun r => .ok (.arr r.1, r.2)

/-- What is done behind an opening brace. -/
def objectRest (fuel : Nat) (c : Cursor) : Outcome (Json × Cursor) :=
  match c.rest with
  | '\x7d' :: _ => .ok (.obj [], c.skip 1)
  | _ => objectMembers (value fuel) (c.rest.length + 1) c [] >>= fun r => .ok (.obj r.1, r.2)

/-- An array that has items is its items. -/
theorem reads_arrayRest {c : Char} {vs : List Json} {accepts : Bool} (hc : c ≠ ']')
    (h : Reads (fun cursor => arrayItems (value fuel) ((c :: cs).length + 1) cursor []) (c :: cs)
      accepts vs rest) : Reads (arrayRest fuel) (c :: cs) accepts (.arr vs) rest := by
  intro position
  have hrest : arrayRest fuel ⟨c :: cs, position⟩ =
      arrayItems (value fuel) ((c :: cs).length + 1) ⟨c :: cs, position⟩ [] >>= fun r =>
        .ok (.arr r.1, r.2) := by
    rw [arrayRest]
    split
    · rename_i heq
      exact absurd (List.cons.inj heq).1 hc
    · rfl
  rw [hrest]
  exact h.map Json.arr position

theorem reads_objectRest {c : Char} {m : Table Json} {accepts : Bool} (hc : c ≠ '\x7d')
    (h : Reads (fun cursor => objectMembers (value fuel) ((c :: cs).length + 1) cursor [])
      (c :: cs) accepts m rest) : Reads (objectRest fuel) (c :: cs) accepts (.obj m) rest := by
  intro position
  have hrest : objectRest fuel ⟨c :: cs, position⟩ =
      objectMembers (value fuel) ((c :: cs).length + 1) ⟨c :: cs, position⟩ [] >>= fun r =>
        .ok (.obj r.1, r.2) := by
    rw [objectRest]
    split
    · rename_i heq
      exact absurd (List.cons.inj heq).1 hc
    · rfl
  rw [hrest]
  exact h.map Json.obj position

/-- What is read behind an opening bracket and a gap. -/
theorem reads_bracket {v : Json} {accepts : Bool} (before : Gap)
    (h : Reads (arrayRest fuel) cs accepts v rest) (hcs : Starts cs) :
    Reads (value (fuel + 1)) ('[' :: (before.text ++ cs)) (before.plain && accepts) v rest := by
  have hslash : ∀ more, Reads (arrayRest fuel) ('/' :: more) false v rest := fun more =>
    reads_arrayRest (by decide) (arrayItems_refuses (by decide) fuel _ [] more [] rest)
  exact (h.gap before hcs hslash).skip '['

theorem reads_brace {v : Json} {accepts : Bool} (before : Gap)
    (h : Reads (objectRest fuel) cs accepts v rest) (hcs : Starts cs) :
    Reads (value (fuel + 1)) ('\x7b' :: (before.text ++ cs)) (before.plain && accepts) v rest := by
  have hslash : ∀ more, Reads (objectRest fuel) ('/' :: more) false v rest := fun more =>
    reads_objectRest (by decide) (objectMembers_refuses (by decide) fuel _ [] more [] rest)
  exact (h.gap before hcs hslash).skip '\x7b'

/-! ## 5. Reading a layout -/

theorem Items.exists_text_eq (items : Items) : ∃ c cs, items.text = c :: cs ∧ opens c = true := by
  cases items with
  | last x ending =>
    obtain ⟨c, cs, htext, hc⟩ := x.exists_text_eq
    exact ⟨c, cs ++ ending.text, by rw [Items.text, htext, List.cons_append], hc⟩
  | cons x after before more =>
    obtain ⟨c, cs, htext, hc⟩ := x.exists_text_eq
    exact ⟨c, _, by rw [Items.text, htext, List.cons_append], hc⟩

theorem Members.exists_text_eq (members : Members) : ∃ cs, members.text = '"' :: cs := by
  cases members with
  | last label x ending => exact ⟨_, rfl⟩
  | cons label x after before more => exact ⟨_, rfl⟩

theorem Items.starts (items : Items) (rest : List Char) : Starts (items.text ++ rest) := by
  obtain ⟨c, cs, htext, hc⟩ := items.exists_text_eq
  rw [htext]
  exact starts_of_opens hc (cs ++ rest)

theorem Members.starts (members : Members) (rest : List Char) : Starts (members.text ++ rest) := by
  obtain ⟨cs, htext⟩ := members.exists_text_eq
  rw [htext]
  exact starts_of_opens (by decide) (cs ++ rest)

/-- A member is read up to the end of its value. -/
theorem reads_member (label : Label) (x : Layout) {fuel count : Nat} {acc m : Table Json}
    {accepts : Bool} (hx : Reads (value fuel) (x.text ++ cs) x.plain x.value cs)
    (h : Reads (fun c => memberEnd fuel count (acc.put label.name.value x.value) c.skipBlanks) cs
      accepts m rest) :
    Reads (fun c => objectMembers (value fuel) (count + 1) c acc) (label.text ++ (x.text ++ cs))
      (label.plain && (x.plain && accepts)) m rest := by
  have hboth := hx.bind (fun v c =>
    memberEnd fuel count (acc.put label.name.value v) c.skipBlanks) h
  have hmember := objectMembers_literal label.name fuel count acc
    (reads_memberColon label.beforeColon label.afterColon hboth (x.starts cs))
  simpa [Label.text, Label.plain, Bool.and_assoc] using hmember

mutual

/-- **The strict reader** takes the text of a plain layout for its value, and
refuses the text of any other layout. -/
theorem Layout.reads : ∀ (l : Layout) (fuel : Nat) (rest : List Char), l.text.length < fuel →
    Delimited rest → Reads (value fuel) (l.text ++ rest) l.plain l.value rest
  | _, 0, _, hfuel, _ => absurd hfuel (Nat.not_lt_zero _)
  | .word w h, fuel + 1, rest, _, _ => reads_word h fuel rest
  | .numeral n, fuel + 1, rest, _, hrest => reads_numeral n fuel hrest
  | .literal s, fuel + 1, rest, _, _ => reads_literal s fuel rest
  | .emptyArray inside, fuel + 1, rest, _, _ => by
    have hclose : Reads (arrayRest fuel) (']' :: rest) true (.arr []) rest :=
      .ok fun position => ⟨_, rfl⟩
    simpa [Layout.text, Layout.plain, Layout.value, Layout.valueBy] using
      reads_bracket inside hclose rfl
  | .emptyObject inside, fuel + 1, rest, _, _ => by
    have hclose : Reads (objectRest fuel) ('\x7d' :: rest) true (.obj []) rest :=
      .ok fun position => ⟨_, rfl⟩
    simpa [Layout.text, Layout.plain, Layout.value, Layout.valueBy] using
      reads_brace inside hclose rfl
  | .array before items, fuel + 1, rest, hfuel, _ => by
    simp only [Layout.text, List.length_cons, List.length_append] at hfuel
    have hitems := Items.reads items fuel ((items.text ++ ']' :: rest).length + 1) [] rest
      (by omega) (by rw [List.length_append]; omega)
    have hinside : Reads (arrayRest fuel) (items.text ++ ']' :: rest) items.plain
        (.arr (items.valuesBy Literal.value)) rest := by
      obtain ⟨c, cs, htext, hc⟩ := items.exists_text_eq
      rw [htext, List.cons_append] at hitems ⊢
      refine reads_arrayRest ?_ hitems
      rintro rfl
      cases hc
    simpa [Layout.text, Layout.plain, Layout.value, Layout.valueBy] using
      reads_bracket before hinside (items.starts _)
  | .object before members, fuel + 1, rest, hfuel, _ => by
    simp only [Layout.text, List.length_cons, List.length_append] at hfuel
    have hmembers := Members.reads members fuel ((members.text ++ '\x7d' :: rest).length + 1) []
      rest (by omega) (by rw [List.length_append]; omega)
    have hinside : Reads (objectRest fuel) (members.text ++ '\x7d' :: rest) members.plain
        (.obj (Table.ofPairs (members.pairsBy Literal.value))) rest := by
      obtain ⟨cs, htext⟩ := members.exists_text_eq
      rw [htext, List.cons_append] at hmembers ⊢
      exact reads_objectRest (by decide) hmembers
    simpa [Layout.text, Layout.plain, Layout.value, Layout.valueBy] using
      reads_brace before hinside (members.starts _)

theorem Items.reads : ∀ (items : Items) (fuel count : Nat) (acc : List Json) (rest : List Char),
    items.text.length < fuel → items.text.length ≤ count →
    Reads (fun c => arrayItems (value fuel) count c acc) (items.text ++ ']' :: rest) items.plain
      (acc.reverse ++ items.valuesBy Literal.value) rest
  | items, _, 0, _, _, _, hcount => by
    obtain ⟨c, cs, htext, -⟩ := items.exists_text_eq
    rw [htext] at hcount
    cases hcount
  | .last x ending, fuel, count + 1, acc, rest, hfuel, _ => by
    rw [Items.text, List.length_append] at hfuel
    have hx := Layout.reads x fuel (ending.text ++ ']' :: rest) (by omega)
      (ending.delimited (Or.inl rfl) rest)
    have hboth := hx.bind (fun v c => itemEnd fuel count acc v c.skipBlanks)
      (reads_itemEnd ending fuel count acc x.value rest)
    rw [List.reverse_cons] at hboth
    rw [Items.text, List.append_assoc]
    exact hboth
  | .cons x after before more, fuel, count + 1, acc, rest, hfuel, hcount => by
    simp only [Items.text, List.length_cons, List.length_append] at hfuel hcount
    have hx := Layout.reads x fuel
      (after.text ++ ',' :: (before.text ++ (more.text ++ ']' :: rest))) (by omega)
      (after.delimited (Or.inl rfl) _)
    have hmore := Items.reads more fuel count (x.value :: acc) rest (by omega) (by omega)
    have hboth := hx.bind (fun v c => itemEnd fuel count acc v c.skipBlanks)
      (reads_itemEnd_comma after before hmore (more.starts _))
    rw [List.reverse_cons, List.append_assoc] at hboth
    simpa [Items.text, Items.plain, Items.valuesBy, Layout.value, arrayItems_succ] using hboth

theorem Members.reads : ∀ (members : Members) (fuel count : Nat) (acc : Table Json)
    (rest : List Char), members.text.length < fuel → members.text.length ≤ count →
    Reads (fun c => objectMembers (value fuel) count c acc) (members.text ++ '\x7d' :: rest)
      members.plain
      ((members.pairsBy Literal.value).foldl (fun t p => t.put p.1 p.2) acc) rest
  | members, _, 0, _, _, _, hcount => by
    obtain ⟨cs, htext⟩ := members.exists_text_eq
    rw [htext] at hcount
    cases hcount
  | .last label x ending, fuel, count + 1, acc, rest, hfuel, _ => by
    simp only [Members.text, List.length_append] at hfuel
    have hx := Layout.reads x fuel (ending.text ++ '\x7d' :: rest) (by omega)
      (ending.delimited (Or.inr rfl) rest)
    have hmember := reads_member label x hx (reads_memberEnd ending fuel count
      (acc.put label.name.value x.value) rest)
    rw [Members.text, List.append_assoc, List.append_assoc]
    exact hmember
  | .cons label x after before more, fuel, count + 1, acc, rest, hfuel, hcount => by
    simp only [Members.text, List.length_cons, List.length_append] at hfuel hcount
    have hx := Layout.reads x fuel
      (after.text ++ ',' :: (before.text ++ (more.text ++ '\x7d' :: rest))) (by omega)
      (after.delimited (Or.inl rfl) _)
    have hmore := Members.reads more fuel count (acc.put label.name.value x.value) rest (by omega)
      (by omega)
    have hmember := reads_member label x hx
      (reads_memberEnd_comma after before hmore (more.starts _))
    simpa [Members.text, Members.plain, Members.pairsBy, Layout.value] using hmember

end

/-! ## 6. Documents -/

/-- A text with one value. The end of the text may end one more comment. -/
structure Document where
  before : Gap
  root : Layout
  after : Gap
  last : Option { cs : List Char // '\n' ∉ cs } := none

namespace Document

/-- The comment that the end of the text ends. -/
def lastText (d : Document) : List Char := d.last.elim [] fun cs => '/' :: '/' :: cs.1

def text (d : Document) : List Char :=
  d.before.text ++ (d.root.text ++ (d.after.text ++ d.lastText))

/-- No comments, and no commas in front of closing brackets and braces. -/
def plain (d : Document) : Bool :=
  d.before.plain && d.root.plain && (d.after.plain && d.last.isNone)

/-- The value that a document writes. -/
def value (d : Document) : Json := d.root.value

theorem delimited_end (d : Document) : Delimited (d.after.text ++ d.lastText) := by
  rintro c hc
  cases hafter : d.after with
  | nil =>
    rw [hafter, Gap.text_nil, List.nil_append, lastText] at hc
    cases hlast : d.last with
    | none =>
      rw [hlast] at hc
      cases hc
    | some cs =>
      rw [hlast] at hc
      obtain rfl : '/' = c := by simpa using hc
      simp
  | cons f g =>
    rw [hafter] at hc
    cases f with
    | blank b hb =>
      obtain rfl : b = c := by simpa [Filler.text] using hc
      exact Or.inl hb
    | line _ _ | block _ _ =>
      obtain rfl : '/' = c := by simpa [Filler.text] using hc
      simp

/-- Behind the value only blanks are passed over. -/
theorem dropWhile_end (d : Document) :
    ((d.after.text ++ d.lastText).dropWhile isBlank).isEmpty =
      (d.after.plain && d.last.isNone) := by
  cases hplain : d.after.plain with
  | false =>
    obtain ⟨more, hmore⟩ := Gap.exists_dropWhile_text hplain d.lastText
    rw [hmore]
    rfl
  | true =>
    rw [Gap.dropWhile_text hplain, lastText]
    cases d.last <;> rfl

theorem head_ne_byteOrderMark (d : Document) : (d.text.head? == some '\ufeff') = false := by
  rw [beq_eq_false_iff_ne, text]
  intro hhead
  cases hbefore : d.before with
  | nil =>
    obtain ⟨c, cs, htext, hc⟩ := d.root.exists_text_eq
    rw [hbefore, htext] at hhead
    obtain rfl : c = '\ufeff' := by simpa using hhead
    cases hc
  | cons f g =>
    rw [hbefore] at hhead
    cases f with
    | blank b hb =>
      obtain rfl : b = '\ufeff' := by simpa [Filler.text] using hhead
      cases hb
    | line _ _ | block _ _ => simp [Filler.text] at hhead

/-- A text whose value is refused is refused for the same reason. -/
theorem parse_of_error {cs : List Char} (hhead : (cs.head? == some '\ufeff') = false)
    {f : Fault × Nat} (h : Json.value (cs.length + 1) (Cursor.skipBlanks ⟨cs, 0⟩) = .error f) :
    parse (String.ofList cs) = .error (Error.locate cs f.1 f.2) := by
  rw [parse, String.toList_ofList]
  simp [hhead, h]

/-- Only blanks may follow the value of a text. -/
theorem parse_of_ok {cs : List Char} (hhead : (cs.head? == some '\ufeff') = false)
    {v : Json} {c : Cursor}
    (h : Json.value (cs.length + 1) (Cursor.skipBlanks ⟨cs, 0⟩) = .ok (v, c)) :
    parse (String.ofList cs) = if c.skipBlanks.rest.isEmpty then .ok v
      else .error (Error.locate cs .extraData c.skipBlanks.position) := by
  rw [parse, String.toList_ofList]
  simp [hhead, h]

/-- **Strict reading.** A document without comments, and without commas in front
of closing brackets and braces, is read as its value; every other one is
refused. -/
theorem parse_eq (d : Document) : if d.plain then parse (String.ofList d.text) = .ok d.value
    else ∃ e, parse (String.ofList d.text) = .error e := by
  have hlength : d.root.text.length < d.text.length + 1 := by
    rw [text, List.length_append, List.length_append]
    omega
  have hvalue := (d.root.reads (d.text.length + 1) (d.after.text ++ d.lastText) hlength
    d.delimited_end).gap d.before (d.root.starts _)
    (fun more => value_refuses (by decide) (d.text.length + 1) more d.root.value _) 0
  rw [← text] at hvalue
  rw [plain]
  cases hplain : (d.before.plain && d.root.plain) with
  | false =>
    rw [hplain] at hvalue
    obtain ⟨fault, hfault⟩ := hvalue
    exact ⟨_, parse_of_error d.head_ne_byteOrderMark hfault⟩
  | true =>
    rw [hplain] at hvalue
    obtain ⟨next, hnext⟩ := hvalue
    rw [Bool.true_and, parse_of_ok d.head_ne_byteOrderMark hnext, ← d.dropWhile_end]
    simp only [skipBlanks_eq]
    split
    · rfl
    · exact ⟨_, rfl⟩

end Document

end PackageAudit.Json
