/-
PackageAudit.Regex.Matcher — finding an expression in a text.

The matcher is written by recursion on the expression, the rest of the match
being a function that it calls: when the rest fails, the next way is tried.
A round of a loop that takes nothing is its last, so a loop makes no more
rounds than its least number and one per character.
-/
import PackageAudit.Regex.Basic

namespace PackageAudit.Regex

/-- Where a match has come to: the characters before, the latest first, those
that follow, and the texts of the groups, the latest first. -/
structure Spot where
  before : List Char
  rest : List Char
  position : Nat
  groups : List (Nat × List Char)
  deriving Inhabited

/-- The text of a group. -/
def Spot.group? (s : Spot) (index : Nat) : Option (List Char) := s.groups.lookup index

/-- Passes over one character. -/
def Spot.advance? (s : Spot) (p : Char → Bool) : Option Spot :=
  match s.rest with
  | c :: cs =>
    if p c then some { s with before := c :: s.before, rest := cs, position := s.position + 1 }
    else none
  | [] => none

/-- Goes back over a number of characters. -/
def Spot.back? (s : Spot) : Nat → Option Spot
  | 0 => some s
  | n + 1 =>
    match s.before with
    | c :: cs =>
      Spot.back? { s with before := cs, rest := c :: s.rest, position := s.position - 1 } n
    | [] => none

/-- Passes over a given text. -/
def Spot.passText? (l : Letters) : List Char → Spot → Option Spot
  | [], s => some s
  | c :: cs, s => (s.advance? fun d => l.same c d).bind (Spot.passText? l cs)

/-- A place is where a match has come to. A text of no characters has no
word boundary and no place that is none. -/
def Anchor.holds (s : Spot) : Anchor → Bool
  | .textStart => s.before.isEmpty
  | .textEnd => s.rest.isEmpty
  | .lineStart => s.before.isEmpty || s.before.head? == some '\n'
  | .lineEnd => s.rest.isEmpty || s.rest.head? == some '\n'
  | .lastLineEnd => s.rest.isEmpty || s.rest == ['\n']
  | .boundary negated ascii =>
    let word := fun (c : Option Char) => (c.map (CharClass.word.holds ascii)).getD false
    !(s.before.isEmpty && s.rest.isEmpty) &&
      ((word s.before.head? != word s.rest.head?) != negated)

/-- What is left of a match: it goes on from a spot, or fails. -/
abbrev Rest := Spot → Option Spot

/-- Another round may be made after a number of rounds. `last` is where the
round before began, once the least number of rounds has been made. -/
def mayRepeat (high : Option Nat) (count : Nat) (last : Option Nat) (s : Spot) : Bool :=
  high.all (count < ·) && last != some s.position

/-- As many rounds as possible, then fewer. The fuel bounds the rounds. -/
def loopGreedy (body : Spot → Rest → Option Spot) (low : Nat) (high : Option Nat) (k : Rest) :
    Nat → Nat → Option Nat → Spot → Option Spot
  | 0, _, _, s => k s
  | fuel + 1, count, last, s =>
    if count < low then body s (loopGreedy body low high k fuel (count + 1) last)
    else if mayRepeat high count last s then
      match body s (loopGreedy body low high k fuel (count + 1) (some s.position)) with
      | some e => some e
      | none => k s
    else k s

/-- As few rounds as possible, then more. -/
def loopLazy (body : Spot → Rest → Option Spot) (low : Nat) (high : Option Nat) (k : Rest) :
    Nat → Nat → Option Nat → Spot → Option Spot
  | 0, _, _, s => k s
  | fuel + 1, count, last, s =>
    if count < low then body s (loopLazy body low high k fuel (count + 1) last)
    else match k s with
      | some e => some e
      | none =>
        if mayRepeat high count last s then
          body s (loopLazy body low high k fuel (count + 1) (some s.position))
        else none

/-- As many rounds as possible, each in its first way. -/
def loopPossessive (body : Spot → Rest → Option Spot) (low : Nat) (high : Option Nat) :
    Nat → Nat → Option Nat → Spot → Option Spot
  | 0, _, _, s => some s
  | fuel + 1, count, last, s =>
    if count < low then (body s some).bind (loopPossessive body low high fuel (count + 1) last)
    else if mayRepeat high count last s then
      match body s some with
      | some e => loopPossessive body low high fuel (count + 1) (some s.position) e
      | none => some s
    else some s

/-- Matches an expression at a spot and then the rest. -/
def matchAt : Regex → Spot → Rest → Option Spot
  | .empty, s, k => k s
  | .char t, s, k => (s.advance? t.holds).bind k
  | .seq a b, s, k => matchAt a s fun e => matchAt b e k
  | .alt a b, s, k =>
    match matchAt a s k with
    | some e => some e
    | none => matchAt b s k
  | .anchor p, s, k => if p.holds s then k s else none
  | .group i r, s, k => matchAt r s fun e =>
    k { e with groups := (i, (e.before.take (e.position - s.position)).reverse) :: e.groups }
  | .loop r low high greed, s, k =>
    let body := fun s k => matchAt r s k
    let fuel := low + s.rest.length + 2
    match greed with
    | .greedy => loopGreedy body low high k fuel 0 none s
    | .lazy => loopLazy body low high k fuel 0 none s
    | .possessive => (loopPossessive body low high fuel 0 none s).bind k
  | .lookAhead false r, s, k =>
    (matchAt r s some).bind fun e => k { s with groups := e.groups }
  | .lookAhead true r, s, k => if (matchAt r s some).isSome then none else k s
  | .lookBehind false width r, s, k =>
    (s.back? width).bind fun b => (matchAt r b some).bind fun e => k { s with groups := e.groups }
  | .lookBehind true width r, s, k =>
    if ((s.back? width).bind fun b => matchAt r b some).isSome then none else k s
  | .atomic r, s, k => (matchAt r s some).bind k
  | .backreference i l, s, k =>
    (s.group? i).bind fun text => (s.passText? l text).bind k
  | .conditional i a b, s, k => if (s.group? i).isSome then matchAt a s k else matchAt b s k

/-- A match: where it begins and ends, and the texts of the groups. -/
structure Match where
  start : Nat
  stop : Nat
  groups : List (Nat × List Char)
  deriving Repr, Inhabited

/-- The text of a group in a match. -/
def Match.group? (m : Match) (index : Nat) : Option String :=
  (m.groups.lookup index).map String.ofList

/-- A match that begins at a spot. -/
def matchFrom (r : Regex) (before : List Char) (position : Nat) (rest : List Char) :
    Option Match :=
  (matchAt r ⟨before, rest, position, []⟩ some).map fun e => ⟨position, e.position, e.groups⟩

/-- The first match at or behind a position. -/
def searchFrom (r : Regex) : List Char → Nat → List Char → Option Match
  | before, position, [] => matchFrom r before position []
  | before, position, c :: cs =>
    match matchFrom r before position (c :: cs) with
    | some m => some m
    | none => searchFrom r (c :: before) (position + 1) cs

/-- The first match of a pattern in a text. -/
def Pattern.search (p : Pattern) (text : String) : Option Match :=
  searchFrom p.root [] 0 text.toList

/-- The texts of all groups of a match, in their order. -/
def Pattern.texts (p : Pattern) (m : Match) : List (Option String) :=
  (List.range p.groups).map fun i => m.group? (i + 1)

/-- The text of a named group. -/
def Pattern.named? (p : Pattern) (m : Match) (name : String) : Option String :=
  (p.names.get? name).bind m.group?

end PackageAudit.Regex
