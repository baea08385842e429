/-
PackageAudit.Proofs.Json.Token — the tokens of a JSON text, and what may stand
between them.

A token carries the reason why it is one, so that only tokens can be written
down: a literal is made of pieces that a string may have, a numeral of digits
where digits must be. Each kind of token comes with what the strict reader makes
of it (`Reads`), whatever follows it; a gap between tokens is passed over if it
has blanks alone, and is refused at its first comment.
-/
import PackageAudit.Json.Relaxed

namespace PackageAudit.Json

/-! ## 1. Reading -/

/-- What a step of reading comes to at the front of a text, wherever that text
starts: either it takes the front for a value, and leaves the rest, or it
refuses it. -/
def Reads {α : Type} (step : Cursor → Outcome (α × Cursor)) (cs : List Char) (accepts : Bool)
    (v : α) (rest : List Char) : Prop :=
  ∀ position, if accepts then ∃ next, step ⟨cs, position⟩ = .ok (v, ⟨rest, next⟩)
    else ∃ fault, step ⟨cs, position⟩ = .error fault

variable {α β : Type} {step : Cursor → Outcome (α × Cursor)} {cs rest more : List Char} {v : α}
  {accepts accepts' : Bool}

namespace Reads

theorem ok (h : ∀ position, ∃ next, step ⟨cs, position⟩ = .ok (v, ⟨rest, next⟩)) :
    Reads step cs true v rest := h

theorem error (h : ∀ position, ∃ fault, step ⟨cs, position⟩ = .error fault) :
    Reads step cs false v rest := h

/-- What is refused at first is refused. -/
theorem bind_error (h : Reads step cs false v rest) (next : α × Cursor → Outcome (β × Cursor))
    (w : β) (more : List Char) : Reads (fun c => step c >>= next) cs false w more := by
  intro position
  obtain ⟨fault, hfault⟩ := h position
  exact ⟨fault, by simp [hfault, Bind.bind, Except.bind]⟩

/-- One character is passed over. -/
theorem skip (h : Reads step cs accepts v rest) (c : Char) :
    Reads (fun cursor => step (cursor.skip 1)) (c :: cs) accepts v rest :=
  fun position => h (position + 1)

/-- One step after the other. -/
theorem bind (h : Reads step cs accepts v rest) (next : α → Cursor → Outcome (β × Cursor)) {w : β}
    (hnext : Reads (next v) rest accepts' w more) :
    Reads (fun c => step c >>= fun r => next r.1 r.2) cs (accepts && accepts') w more := by
  intro position
  have hstep := h position
  cases accepts with
  | false =>
    obtain ⟨fault, hfault⟩ := hstep
    exact ⟨fault, by simp [hfault, Bind.bind, Except.bind]⟩
  | true =>
    obtain ⟨position', hok⟩ := hstep
    have hrest := hnext position'
    rw [Bool.true_and]
    simpa only [hok, Bind.bind, Except.bind] using hrest

/-- What is taken is made into something else. -/
theorem map (h : Reads step cs accepts v rest) (f : α → β) :
    Reads (fun c => step c >>= fun r => .ok (f r.1, r.2)) cs accepts (f v) rest := by
  have hdone : Reads (fun c => .ok (f v, c)) rest true (f v) rest :=
    .ok fun position => ⟨position, rfl⟩
  have hboth := h.bind (fun v c => .ok (f v, c)) hdone
  rwa [Bool.and_true] at hboth

end Reads

/-! ## 2. Gaps -/

theorem isBlank_space : isBlank ' ' = true := by decide

theorem isBlank_newline : isBlank '\n' = true := by decide

/-- What may stand between two tokens: a blank, a comment to the end of its
line, or a comment that ends where it can first. -/
inductive Filler where
  | blank (c : Char) (h : isBlank c = true)
  | line (cs : List Char) (h : '\n' ∉ cs)
  | block (cs : List Char) (h : ¬ ['*', '/'] <:+: cs ++ ['*'])

namespace Filler

/-- How a filler is written. A comment to the end of its line has the line end
with it. -/
def text : Filler → List Char
  | blank c _ => [c]
  | line cs _ => '/' :: '/' :: cs ++ ['\n']
  | block cs _ => '/' :: '*' :: cs ++ ['*', '/']

/-- No comment. -/
def plain : Filler → Bool
  | blank _ _ => true
  | _ => false

/-- What a filler is without comments. -/
def blanks : Filler → List Filler
  | blank c h => [blank c h]
  | line _ _ => [blank '\n' isBlank_newline]
  | block _ _ => []

end Filler

/-- Fillers one after the other. -/
abbrev Gap := List Filler

namespace Gap

/-- How a gap is written. -/
def text (g : Gap) : List Char := g.flatMap Filler.text

/-- No comments. -/
def plain (g : Gap) : Bool := g.all Filler.plain

/-- A gap without its comments. -/
def blanks (g : Gap) : Gap := g.flatMap Filler.blanks

@[simp] theorem text_nil : text [] = [] := rfl

@[simp] theorem text_cons (f : Filler) (g : Gap) : text (f :: g) = f.text ++ text g := rfl

@[simp] theorem text_append (g h : Gap) : text (g ++ h) = text g ++ text h :=
  List.flatMap_append

theorem plain_blanks (g : Gap) : plain (blanks g) = true := by
  rw [plain, blanks, List.all_flatMap, List.all_eq_true]
  rintro (_ | _ | _) _ <;> rfl

theorem isBlank_of_mem_text {g : Gap} (h : plain g = true) : ∀ c ∈ text g, isBlank c = true := by
  intro c hc
  obtain ⟨f, hf, hcf⟩ := List.mem_flatMap.mp hc
  cases f with
  | blank b hb =>
    obtain rfl := List.mem_singleton.mp hcf
    exact hb
  | line _ _ | block _ _ => cases List.all_eq_true.mp h _ hf

/-- Only a comment stops the reader in a gap. -/
theorem dropWhile_text {g : Gap} (h : plain g = true) (rest : List Char) :
    (text g ++ rest).dropWhile isBlank = rest.dropWhile isBlank :=
  List.dropWhile_append_of_pos (isBlank_of_mem_text h)

theorem exists_dropWhile_text {g : Gap} (h : plain g = false) (rest : List Char) :
    ∃ more, (text g ++ rest).dropWhile isBlank = '/' :: more := by
  induction g with
  | nil => cases h
  | cons f g ih =>
    rw [text_cons, List.append_assoc]
    cases f with
    | blank c hc =>
      obtain ⟨more, hmore⟩ := ih h
      exact ⟨more, by rw [Filler.text, List.singleton_append, List.dropWhile_cons_of_pos hc, hmore]⟩
    | line cs _ => exact ⟨_, rfl⟩
    | block cs _ => exact ⟨_, rfl⟩

end Gap

theorem skipBlanks_eq (cs : List Char) (position : Nat) :
    (⟨cs, position⟩ : Cursor).skipBlanks =
      ⟨cs.dropWhile isBlank, position + (cs.takeWhile isBlank).length⟩ := by
  have hdrop : (cs.takeWhile isBlank ++ cs.dropWhile isBlank).drop (cs.takeWhile isBlank).length =
      cs.dropWhile isBlank := List.drop_left
  rw [List.takeWhile_append_dropWhile] at hdrop
  rw [Cursor.skipBlanks, Cursor.skip, hdrop]

/-- The text does not begin with a blank. -/
def Starts (cs : List Char) : Prop := cs.dropWhile isBlank = cs

/-- A step that stops at comments, after a gap. -/
theorem Reads.gap (g : Gap) (h : Reads step cs accepts v rest) (hcs : Starts cs)
    (hslash : ∀ more, Reads step ('/' :: more) false v rest) :
    Reads (fun c => step c.skipBlanks) (g.text ++ cs) (g.plain && accepts) v rest := by
  intro position
  dsimp only
  rw [skipBlanks_eq]
  cases hg : g.plain with
  | true =>
    rw [Gap.dropWhile_text hg, hcs, Bool.true_and]
    exact h _
  | false =>
    obtain ⟨more, hmore⟩ := Gap.exists_dropWhile_text hg cs
    rw [hmore]
    exact hslash more _

/-- A step that goes on behind a delimiter, with gaps on both sides. -/
theorem Reads.delimiter {f : Cursor → Outcome (α × Cursor)} {d : Char} (hd : isBlank d = false)
    (hf : ∀ cs position,
      f ⟨d :: cs, position⟩ = step (Cursor.skip ⟨d :: cs, position⟩ 1).skipBlanks)
    (hslash : ∀ more, Reads f ('/' :: more) false v rest)
    (hslash' : ∀ more, Reads step ('/' :: more) false v rest) (after before : Gap)
    (h : Reads step cs accepts v rest) (hcs : Starts cs) :
    Reads (fun c => f c.skipBlanks) (after.text ++ d :: (before.text ++ cs))
      (after.plain && (before.plain && accepts)) v rest := by
  have hbehind : Reads f (d :: (before.text ++ cs)) (before.plain && accepts) v rest := by
    intro position
    rw [hf]
    exact (h.gap before hcs hslash').skip d position
  refine hbehind.gap after ?_ hslash
  rw [Starts, List.dropWhile_cons_of_neg (by rw [hd]; exact Bool.false_ne_true)]

/-! ## 3. Literals -/

/-- A piece of a string literal: a character that stands for itself, a backslash
with a letter, or one with four hexadecimal digits. -/
inductive Piece where
  | plain (c : Char) (h : c ≠ '"' ∧ c ≠ '\\' ∧ 31 < c.toNat)
  | escape (letter c : Char) (h : escapeChar? letter = some c)
  | unicode (a b c d : Char) (unit : Nat) (h : fourHex? [a, b, c, d] = some unit)

/-- How a piece is written. -/
def Piece.text : Piece → List Char
  | plain c _ => [c]
  | escape letter _ _ => ['\\', letter]
  | unicode a b c d _ _ => ['\\', 'u', a, b, c, d]

/-- A string literal. -/
abbrev Literal := List Piece

namespace Literal

/-- What stands between the quotes. -/
def body (s : Literal) : List Char := s.flatMap Piece.text

/-- How a literal is written. -/
def text (s : Literal) : List Char := '"' :: s.body ++ ['"']

/-- The characters that the pieces stand for: the two halves of a surrogate pair
for one, every other piece for one each. -/
def chars : Literal → List Char
  | [] => []
  | .plain c _ :: s => c :: chars s
  | .escape _ c _ :: s => c :: chars s
  | .unicode _ _ _ _ high _ :: .unicode a b c d low h :: s =>
    if 0xD800 ≤ high ∧ high ≤ 0xDBFF ∧ 0xDC00 ≤ low ∧ low ≤ 0xDFFF then
      Char.ofNat (0x10000 + (high - 0xD800) * 1024 + (low - 0xDC00)) :: chars s
    else charOfUnit high :: chars (.unicode a b c d low h :: s)
  | .unicode _ _ _ _ unit _ :: s => charOfUnit unit :: chars s

/-- The string that a literal writes. -/
def value (s : Literal) : String := String.ofList s.chars

@[simp] theorem body_nil : body [] = [] := rfl

@[simp] theorem body_cons (p : Piece) (s : Literal) : body (p :: s) = p.text ++ body s := rfl

theorem body_plain {c : Char} (h : c ≠ '"' ∧ c ≠ '\\' ∧ 31 < c.toNat) (s : Literal) :
    body (.plain c h :: s) = c :: s.body := rfl

theorem body_escape {letter c : Char} (h : escapeChar? letter = some c) (s : Literal) :
    body (.escape letter c h :: s) = '\\' :: letter :: s.body := rfl

theorem body_unicode {a b c d : Char} {unit : Nat} (h : fourHex? [a, b, c, d] = some unit)
    (s : Literal) :
    body (.unicode a b c d unit h :: s) = '\\' :: 'u' :: a :: b :: c :: d :: s.body := rfl

/-- What a `\u` escape is read as by itself: no other half follows. -/
theorem unicodeEscape_single {a b c d : Char} {unit : Nat} (h : fourHex? [a, b, c, d] = some unit)
    {more : List Char} (hmore : more ≠ [])
    (hhalf : 0xD800 ≤ unit → unit ≤ 0xDBFF → more.take 2 ≠ ['\\', 'u']) (position : Nat) :
    unicodeEscape ⟨a :: b :: c :: d :: more, position⟩ = .ok (charOfUnit unit, 4) := by
  have hfour : fourHex? (a :: b :: c :: d :: more) = some unit := h
  have hlength : ¬ (a :: b :: c :: d :: more).length < 5 := by
    have hpos := List.length_pos_iff.mpr hmore
    simp only [List.length_cons]
    omega
  unfold unicodeEscape
  rw [if_neg hlength, hfour]
  dsimp only
  rw [if_neg]
  rintro ⟨hlow, hhigh, -, htake⟩
  exact hhalf hlow hhigh htake

/-- Two halves are read as one character. -/
theorem unicodeEscape_pair {a b c d a' b' c' d' : Char} {high low : Nat}
    (hhigh : fourHex? [a, b, c, d] = some high) (hlow : fourHex? [a', b', c', d'] = some low)
    (hrange : 0xD800 ≤ high ∧ high ≤ 0xDBFF) {more : List Char} (hmore : more ≠ [])
    (position : Nat) :
    unicodeEscape ⟨a :: b :: c :: d :: '\\' :: 'u' :: a' :: b' :: c' :: d' :: more, position⟩ =
      if 0xDC00 ≤ low ∧ low ≤ 0xDFFF then
        .ok (Char.ofNat (0x10000 + (high - 0xD800) * 1024 + (low - 0xDC00)), 10)
      else .ok (charOfUnit high, 4) := by
  have hfour : ∀ more, fourHex? (a :: b :: c :: d :: more) = some high := fun _ => hhigh
  have hfour' : ∀ more, fourHex? (a' :: b' :: c' :: d' :: more) = some low := fun _ => hlow
  have hpos := List.length_pos_iff.mpr hmore
  unfold unicodeEscape
  rw [if_neg (by simp), hfour]
  have hdrop : ((a :: b :: c :: d :: '\\' :: 'u' :: a' :: b' :: c' :: d' :: more).drop 4).drop 2 =
      a' :: b' :: c' :: d' :: more := rfl
  dsimp only
  rw [if_pos ⟨hrange.1, hrange.2, by simp; omega, rfl⟩, hdrop, hfour']

/-- A character that stands for itself is read as it is. -/
theorem stringBody_plain {c : Char} (h : c ≠ '"' ∧ c ≠ '\\' ∧ 31 < c.toNat) (start fuel : Nat)
    (cs : List Char) (position : Nat) (acc : List Char) :
    stringBody start (fuel + 1) ⟨c :: cs, position⟩ acc =
      stringBody start fuel ⟨cs, position + 1⟩ (c :: acc) := by
  rw [stringBody]
  split
  case h_6 heq =>
    obtain ⟨rfl, rfl⟩ := List.cons.inj heq
    rw [if_neg (by omega)]
    rfl
  all_goals
    rename_i heq
    simp_all

theorem stringBody_escape {letter c : Char} (h : escapeChar? letter = some c) (start fuel : Nat)
    (cs : List Char) (position : Nat) (acc : List Char) :
    stringBody start (fuel + 1) ⟨'\\' :: letter :: cs, position⟩ acc =
      stringBody start fuel ⟨cs, position + 2⟩ (c :: acc) := by
  have hletter : letter ≠ 'u' := by
    rintro rfl
    cases h
  rw [stringBody]
  split
  case h_5 heq =>
    obtain ⟨-, heq⟩ := List.cons.inj heq
    obtain ⟨rfl, rfl⟩ := List.cons.inj heq
    rw [h]
    rfl
  case h_6 hother heq =>
    obtain ⟨rfl, rfl⟩ := List.cons.inj heq
    exact (hother _ _ rfl rfl).elim
  all_goals
    rename_i heq
    simp_all

theorem stringBody_unicode {c : Char} {taken : Nat} {cs rest : List Char}
    (h : ∀ position, unicodeEscape ⟨cs, position⟩ = .ok (c, taken)) (hrest : cs.drop taken = rest)
    (start fuel position : Nat) (acc : List Char) : ∃ position',
      stringBody start (fuel + 1) ⟨'\\' :: 'u' :: cs, position⟩ acc =
        stringBody start fuel ⟨rest, position'⟩ (c :: acc) := by
  refine ⟨position + (2 + taken), ?_⟩
  rw [stringBody]
  have hskip : (⟨'\\' :: 'u' :: cs, position⟩ : Cursor).skip 2 = ⟨cs, position + 2⟩ := rfl
  have hskip' : (⟨'\\' :: 'u' :: cs, position⟩ : Cursor).skip (2 + taken) =
      ⟨rest, position + (2 + taken)⟩ := by
    rw [Cursor.skip, ← hrest, Nat.add_comm 2 taken]
    rfl
  simp only [hskip, hskip', h, Bind.bind, Except.bind]

/-- The text that follows a piece begins no other half, unless a piece does. -/
theorem take_body_ne {s : Literal}
    (h : ∀ a b c d unit hunit s', s ≠ .unicode a b c d unit hunit :: s') (rest : List Char) :
    (s.body ++ '"' :: rest).take 2 ≠ ['\\', 'u'] := by
  cases s with
  | nil => simp
  | cons p s =>
    cases p with
    | plain c hc => simp [Piece.text, hc.2.1]
    | escape letter c hletter =>
      have hne : letter ≠ 'u' := by
        rintro rfl
        cases hletter
      simpa [Piece.text] using hne
    | unicode a b c d unit hunit => exact absurd rfl (h a b c d unit hunit s)

/-- **Literals.** The reader takes the characters of the pieces up to the closing
quote. -/
theorem stringBody_eq (s : Literal) (start fuel position : Nat) (acc rest : List Char)
    (hfuel : s.body.length < fuel) : ∃ next,
      stringBody start fuel ⟨s.body ++ '"' :: rest, position⟩ acc =
        .ok (String.ofList (acc.reverse ++ s.chars), ⟨rest, next⟩) := by
  have hreverse : ∀ (c : Char) (cs : List Char),
      acc.reverse ++ c :: cs = (c :: acc).reverse ++ cs := by simp
  obtain ⟨fuel, rfl⟩ : ∃ n, fuel = n + 1 := Nat.exists_eq_add_one_of_ne_zero (by omega)
  have hquote : ∀ s : Literal, s.body ++ '"' :: rest ≠ [] := fun s => by simp
  fun_induction chars s generalizing fuel position acc with
  | case1 => exact ⟨position + 1, by rw [List.append_nil]; rfl⟩
  | case2 c hc s ih =>
    rw [body_plain, List.length_cons] at hfuel
    obtain ⟨fuel, rfl⟩ : ∃ n, fuel = n + 1 := Nat.exists_eq_add_one_of_ne_zero (by omega)
    rw [body_plain, List.cons_append, stringBody_plain hc, hreverse]
    exact ih _ _ (by simp) _ (by omega)
  | case3 letter c hletter s ih =>
    rw [body_escape, List.length_cons, List.length_cons] at hfuel
    obtain ⟨fuel, rfl⟩ : ∃ n, fuel = n + 1 := Nat.exists_eq_add_one_of_ne_zero (by omega)
    rw [body_escape, List.cons_append, List.cons_append, stringBody_escape hletter, hreverse]
    exact ih _ _ (by simp) _ (by omega)
  | case4 a b c d high hhigh a' b' c' d' low hlow s hpair ih =>
    simp only [body_unicode, List.length_cons] at hfuel
    obtain ⟨fuel, rfl⟩ : ∃ n, fuel = n + 1 := Nat.exists_eq_add_one_of_ne_zero (by omega)
    have hread : ∀ position, unicodeEscape
        ⟨a :: b :: c :: d :: '\\' :: 'u' :: a' :: b' :: c' :: d' :: (body s ++ '"' :: rest),
          position⟩ = .ok (_, 10) := fun position => by
      rw [unicodeEscape_pair hhigh hlow ⟨hpair.1, hpair.2.1⟩ (hquote s), if_pos hpair.2.2]
    obtain ⟨next, hnext⟩ := stringBody_unicode hread rfl start (fuel + 1) position acc
    dsimp only
    rw [if_pos hpair, hreverse]
    simp only [body_unicode, List.cons_append, hnext]
    exact ih _ _ (by simp) _ (by omega)
  | case5 a b c d high hhigh a' b' c' d' low hlow s hpair ih =>
    simp only [body_unicode, List.length_cons] at hfuel ih
    obtain ⟨fuel, rfl⟩ : ∃ n, fuel = n + 1 := Nat.exists_eq_add_one_of_ne_zero (by omega)
    have hread : ∀ position, unicodeEscape
        ⟨a :: b :: c :: d :: '\\' :: 'u' :: a' :: b' :: c' :: d' :: (body s ++ '"' :: rest),
          position⟩ = .ok (charOfUnit high, 4) := by
      intro position
      by_cases hrange : 0xD800 ≤ high ∧ high ≤ 0xDBFF
      · rw [unicodeEscape_pair hhigh hlow hrange (hquote s),
          if_neg fun hlow => hpair ⟨hrange.1, hrange.2, hlow⟩]
      · exact unicodeEscape_single hhigh (by simp) (fun h h' => absurd ⟨h, h'⟩ hrange) position
    obtain ⟨next, hnext⟩ := stringBody_unicode hread rfl start (fuel + 1) position acc
    dsimp only
    rw [if_neg hpair, hreverse]
    simp only [body_unicode, List.cons_append, hnext]
    exact ih _ _ (by simp) _ (by omega)
  | case6 a b c d unit hunit s hother ih =>
    rw [body_unicode] at hfuel
    simp only [List.length_cons] at hfuel
    obtain ⟨fuel, rfl⟩ : ∃ n, fuel = n + 1 := Nat.exists_eq_add_one_of_ne_zero (by omega)
    obtain ⟨next, hnext⟩ := stringBody_unicode (unicodeEscape_single hunit (hquote s)
      fun _ _ => take_body_ne hother rest) rfl start (fuel + 1) position acc
    rw [body_unicode, hreverse]
    simp only [List.cons_append, hnext]
    exact ih _ _ (by simp) _ (by omega)

theorem reads (s : Literal) (rest : List Char) :
    Reads stringRest (s.body ++ '"' :: rest) true s.value rest := by
  refine .ok fun position => ?_
  rw [stringRest]
  have hfuel : s.body.length < (s.body ++ '"' :: rest).length + 1 := by
    rw [List.length_append]
    omega
  exact stringBody_eq s _ _ position [] rest hfuel

end Literal

/-! ## 4. Words and numerals -/

/-- What ends a word or a numeral: the end of the text, a blank, a comma, a
closing bracket or brace, or a comment. -/
def Delimited (cs : List Char) : Prop :=
  ∀ c ∈ cs.head?, isBlank c = true ∨ c = ',' ∨ c = ']' ∨ c = '\x7d' ∨ c = '/'

theorem Delimited.head_not_digit (h : Delimited cs) :
    ∀ c ∈ cs.head?, c.isDigit = false ∧ c ≠ '.' ∧ c ≠ 'e' ∧ c ≠ 'E' := by
  intro c hc
  rcases h c hc with hblank | rfl | rfl | rfl | rfl
  · simp only [isBlank, Bool.or_eq_true, beq_iff_eq] at hblank
    rcases hblank with ((rfl | rfl) | rfl) | rfl <;> decide
  all_goals decide

theorem digitsOf_append {digits : List Char} (hdigits : ∀ c ∈ digits, c.isDigit = true)
    (hrest : ∀ c ∈ rest.head?, c.isDigit = false) : digitsOf (digits ++ rest) = digits := by
  rw [digitsOf, List.takeWhile_append_of_pos hdigits]
  cases rest with
  | nil => simp
  | cons c rest =>
    have hc : c.isDigit = false := hrest c rfl
    simp [hc]

/-- The sign of an exponent. -/
inductive Sign where
  | none
  | plus
  | minus

def Sign.text : Sign → List Char
  | none => []
  | plus => ['+']
  | minus => ['-']

def Sign.value : Sign → Int
  | minus => -1
  | _ => 1

/-- An exponent. -/
structure Power where
  capital : Bool
  sign : Sign
  digits : List Char
  digits_ne_nil : digits ≠ []
  isDigit : ∀ c ∈ digits, c.isDigit = true

namespace Power

def text (e : Power) : List Char :=
  (if e.capital then 'E' else 'e') :: (e.sign.text ++ e.digits)

def value (e : Power) : Int := e.sign.value * Text.decimalNumber e.digits

end Power

/-- A numeral: digits without a zero in front, behind a point more digits, and
an exponent. -/
structure Numeral where
  negative : Bool
  whole : List Char
  part : List Char
  power : Option Power
  whole_ne_nil : whole ≠ []
  isDigit_whole : ∀ c ∈ whole, c.isDigit = true
  noZero : whole.head? = some '0' → whole = ['0']
  isDigit_part : ∀ c ∈ part, c.isDigit = true

namespace Numeral

def signText (n : Numeral) : List Char := if n.negative then ['-'] else []

def partText (n : Numeral) : List Char := if n.part.isEmpty then [] else '.' :: n.part

def powerText (n : Numeral) : List Char := n.power.elim [] Power.text

/-- How a numeral is written. -/
def text (n : Numeral) : List Char := n.signText ++ n.whole ++ n.partText ++ n.powerText

/-- The number that a numeral writes; it is an integer if it has neither a point
nor an exponent. -/
def value (n : Numeral) : Json :=
  if n.part.isEmpty && n.power.isNone then
    .int (if n.negative then -Text.decimalNumber n.whole else Text.decimalNumber n.whole)
  else .real (.ofDecimal n.negative (Text.decimalNumber (n.whole ++ n.part))
    ((n.power.elim 0 Power.value) - n.part.length))

/-- The digits of a whole number at the front; a zero stands alone. -/
def wholeAt (cs : List Char) : List Char :=
  match cs with
  | '0' :: _ => ['0']
  | _ => digitsOf cs

/-- The digits behind a point at the front. -/
def partAt (cs : List Char) : List Char :=
  match cs with
  | '.' :: more => digitsOf more
  | _ => []

/-- The sign at the front, what follows, and how long the sign is. -/
def signAt (cs : List Char) : Int × List Char × Nat :=
  match cs with
  | '-' :: more => (-1, more, 1)
  | '+' :: more => (1, more, 1)
  | _ => (1, cs, 0)

/-- The exponent at the front, and how long it is. -/
def powerAt (cs : List Char) : Option Int × Nat :=
  match cs with
  | e :: more =>
    if e == 'e' || e == 'E' then
      let sign := signAt more
      let digits := digitsOf sign.2.1
      if digits.isEmpty then (none, 0)
      else (some (sign.1 * Text.decimalNumber digits), 1 + sign.2.2 + digits.length)
    else (none, 0)
  | [] => (none, 0)

/-- A number is read part by part. -/
theorem number_eq (c : Cursor) : number c =
    let negative := c.rest.head? == some '-'
    let signed := if negative then 1 else 0
    let body := c.rest.drop signed
    let whole := wholeAt body
    if whole.isEmpty then .error (.expectedValue, c.position)
    else
      let afterWhole := body.drop whole.length
      let part := partAt afterWhole
      let afterPart := if part.isEmpty then afterWhole else afterWhole.drop (part.length + 1)
      let power := powerAt afterPart
      let pointLength := if part.isEmpty then 0 else part.length + 1
      let next := c.skip (signed + whole.length + pointLength + power.2)
      if part.isEmpty && power.1.isNone then
        let n : Int := Text.decimalNumber whole
        .ok (.int (if negative then -n else n), next)
      else
        .ok (.real (.ofDecimal negative (Text.decimalNumber (whole ++ part))
          (power.1.getD 0 - part.length)), next) := rfl

variable (n : Numeral)

theorem wholeAt_append (hmore : ∀ c ∈ more.head?, c.isDigit = false) :
    wholeAt (n.whole ++ more) = n.whole := by
  by_cases hzero : n.whole.head? = some '0'
  · rw [n.noZero hzero]
    rfl
  · have hdigits := digitsOf_append n.isDigit_whole hmore
    rw [wholeAt, hdigits]
    intro rest heq
    obtain ⟨c, cs, hwhole⟩ := List.exists_cons_of_ne_nil n.whole_ne_nil
    rw [hwhole] at hzero heq
    obtain ⟨rfl, -⟩ := List.cons.inj heq
    exact hzero rfl

theorem partAt_append (hmore : ∀ c ∈ more.head?, c.isDigit = false ∧ c ≠ '.') :
    partAt (n.partText ++ more) = n.part := by
  rw [partText]
  by_cases hpart : n.part = []
  · rw [hpart, List.isEmpty_nil, if_pos rfl, List.nil_append, partAt]
    rintro rest rfl
    exact (hmore '.' rfl).2 rfl
  · rw [if_neg (by simpa using hpart)]
    exact digitsOf_append n.isDigit_part fun c hc => (hmore c hc).1

theorem signAt_append (sign : Sign) {digits : List Char} (hne : digits ≠ [])
    (hdigits : ∀ c ∈ digits, c.isDigit = true) (rest : List Char) :
    signAt (sign.text ++ (digits ++ rest)) = (sign.value, digits ++ rest, sign.text.length) := by
  obtain ⟨d, digits, rfl⟩ := List.exists_cons_of_ne_nil hne
  have hd : d.isDigit = true := hdigits d List.mem_cons_self
  cases sign with
  | plus | minus => rfl
  | none =>
    rw [Sign.text, List.nil_append, signAt]
    · rfl
    all_goals
      rintro more heq
      obtain ⟨rfl, -⟩ := List.cons.inj heq
      cases hd

theorem powerAt_append (hrest : Delimited rest) :
    powerAt (n.powerText ++ rest) = (n.power.map Power.value, n.powerText.length) := by
  rw [powerText]
  cases n.power with
  | none =>
    cases rest with
    | nil => rfl
    | cons c rest =>
      obtain ⟨-, -, hlower, hupper⟩ := hrest.head_not_digit c rfl
      simp [powerAt, hlower, hupper]
  | some e =>
    obtain ⟨capital, sign, digits, hne, hdigit⟩ := e
    have hdigits := digitsOf_append hdigit fun c hc => (hrest.head_not_digit c hc).1
    have hletter : ∀ capital : Bool, ((if capital then 'E' else 'e') == 'e' ||
        (if capital then 'E' else 'e') == 'E') = true := by decide
    simp only [Option.elim_some, Power.text, List.cons_append, List.append_assoc, powerAt, hletter,
      if_true, signAt_append sign hne hdigit rest, hdigits, List.isEmpty_iff, hne, if_false]
    refine Prod.ext_iff.mpr ⟨rfl, ?_⟩
    simp only [List.length_cons, List.length_append]
    omega

/-- What follows the digits goes on neither with a digit nor with a point. -/
theorem head_powerText (hrest : Delimited rest) :
    ∀ c ∈ (n.powerText ++ rest).head?, c.isDigit = false ∧ c ≠ '.' := by
  intro c hc
  rw [powerText] at hc
  cases hpower : n.power with
  | none =>
    rw [hpower] at hc
    obtain ⟨hdigit, hpoint, -⟩ := hrest.head_not_digit c hc
    exact ⟨hdigit, hpoint⟩
  | some e =>
    rw [hpower] at hc
    obtain rfl : (if e.capital then 'E' else 'e') = c := by simpa [Power.text] using hc
    cases e.capital <;> decide

theorem head_partText (hmore : ∀ c ∈ more.head?, c.isDigit = false) :
    ∀ c ∈ (n.partText ++ more).head?, c.isDigit = false := by
  intro c hc
  rw [partText] at hc
  split at hc
  · exact hmore c hc
  · obtain rfl : '.' = c := by simpa using hc
    decide

theorem text_append (rest : List Char) : n.text ++ rest =
    n.signText ++ (n.whole ++ (n.partText ++ (n.powerText ++ rest))) := by
  simp [text]

theorem head_text (rest : List Char) : ((n.text ++ rest).head? == some '-') = n.negative := by
  obtain ⟨d, ds, hwhole⟩ := List.exists_cons_of_ne_nil n.whole_ne_nil
  have hd : d ≠ '-' := by
    rintro rfl
    have hdigit := n.isDigit_whole '-' (by simp [hwhole])
    cases hdigit
  rw [text_append, signText, hwhole]
  cases n.negative
  · simpa using hd
  · rfl

theorem drop_text (rest : List Char) : (n.text ++ rest).drop (if n.negative then 1 else 0) =
    n.whole ++ (n.partText ++ (n.powerText ++ rest)) := by
  rw [text_append, signText]
  cases n.negative <;> rfl

theorem drop_partText (more : List Char) : (if n.part.isEmpty then n.partText ++ more else
    (n.partText ++ more).drop (n.part.length + 1)) = more := by
  rw [partText]
  split
  · rfl
  · rw [List.cons_append, List.drop_succ_cons, List.drop_left]

theorem length_text : n.text.length = (if n.negative then 1 else 0) + n.whole.length +
    (if n.part.isEmpty then 0 else n.part.length + 1) + n.powerText.length := by
  rw [text, signText, partText]
  cases n.negative <;> cases n.part <;> simp <;> omega

theorem reads (hrest : Delimited rest) : Reads number (n.text ++ rest) true n.value rest := by
  refine .ok fun position => ?_
  have hpower := n.head_powerText hrest
  have hpart := n.head_partText fun c hc => (hpower c hc).1
  rw [number_eq]
  simp only [n.head_text, n.drop_text, wholeAt_append n hpart, List.drop_left,
    partAt_append n hpower, n.drop_partText, powerAt_append n hrest]
  rw [if_neg (by simpa using n.whole_ne_nil), value, ← length_text]
  -- The parts have been passed over together.
  have hskip : (⟨n.text ++ rest, position⟩ : Cursor).skip n.text.length =
      ⟨rest, position + n.text.length⟩ := by
    rw [Cursor.skip, List.drop_left]
  have hnone : (n.power.map Power.value).isNone = n.power.isNone := by simp
  have hvalue : (n.power.map Power.value).getD 0 = n.power.elim 0 Power.value := by
    cases n.power <;> rfl
  simp only [hskip, hnone, hvalue]
  split <;> exact ⟨_, rfl⟩

end Numeral

end PackageAudit.Json
