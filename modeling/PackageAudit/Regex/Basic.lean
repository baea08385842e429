/-
PackageAudit.Regex.Basic — regular expressions.

An expression is matched from left to right with backtracking: the first
way that succeeds counts, not the longest match. Letter case, the meaning of
the dot and of the anchors are settled when an expression is read, so that a
match depends on nothing but the expression and the text.
-/
import PackageAudit.Table
import PackageAudit.Text.Chars

namespace PackageAudit

namespace Regex

/-- The classes of characters. -/
inductive CharClass where
  | digit
  | space
  | word
  deriving DecidableEq, BEq, Repr

/-- How letters are compared: case aside or not, and whether classes and
letter case know ASCII only. -/
structure Letters where
  ignoreCase : Bool := false
  ascii : Bool := false
  deriving DecidableEq, BEq, Repr, Inhabited

/-- One way for a character to belong to a set. A range has both ends. -/
inductive CharItem where
  | code (value : Nat)
  | range (low high : Nat)
  | ofClass (c : CharClass) (negated : Bool)
  deriving DecidableEq, BEq, Repr

/-- A test of one character. -/
structure CharTest where
  items : List CharItem
  negated : Bool := false
  letters : Letters := {}
  deriving BEq, Repr

/-- Places that a match can be tied to. -/
inductive Anchor where
  | textStart
  | textEnd
  | lineStart
  | lineEnd
  | lastLineEnd
  | boundary (negated ascii : Bool)
  deriving DecidableEq, BEq, Repr

/-- Which number of rounds a loop tries first; a possessive one tries no
other. -/
inductive Greed where
  | greedy
  | lazy
  | possessive
  deriving DecidableEq, BEq, Repr

end Regex

open Regex in
/-- A regular expression. Groups are numbered from one. A look behind knows
its width. -/
inductive Regex where
  | empty
  | char (test : CharTest)
  | seq (first second : Regex)
  | alt (first second : Regex)
  | anchor (place : Anchor)
  | group (index : Nat) (body : Regex)
  | loop (body : Regex) (low : Nat) (high : Option Nat) (greed : Greed)
  | lookAhead (negated : Bool) (body : Regex)
  | lookBehind (negated : Bool) (width : Nat) (body : Regex)
  | atomic (body : Regex)
  | backreference (index : Nat) (letters : Letters)
  | conditional (index : Nat) (present absent : Regex)
  deriving Repr, Inhabited

namespace Regex

/-- Several expressions, one after the other. -/
def ofList : List Regex → Regex
  | [] => .empty
  | [r] => r
  | r :: rs => .seq r (ofList rs)

/-- A character of a class. -/
def CharClass.holds (ascii : Bool) : CharClass → Char → Bool
  | .digit, c => if ascii then c.isDigit else Text.isDecimal c
  | .space, c =>
    if ascii then c == ' ' || (9 ≤ c.toNat && c.toNat ≤ 13) else Text.isSpace c
  | .word, c => if ascii then c.isAlphanum || c == '_' else Text.isWord c

/-- The codes that a character stands for. -/
def Letters.codes (l : Letters) (c : Char) : List Nat :=
  if l.ignoreCase then
    if l.ascii then [c.toNat, c.toLower.toNat, c.toUpper.toNat] else Text.caseForms c.toNat
  else [c.toNat]

/-- A character belongs to an item. -/
def CharItem.holds (l : Letters) (c : Char) : CharItem → Bool
  | .code n => (l.codes c).contains n
  | .range low high => (l.codes c).any fun n => low ≤ n && n ≤ high
  | .ofClass k negated => k.holds l.ascii c != negated

/-- A character passes a test. -/
def CharTest.holds (t : CharTest) (c : Char) : Bool :=
  (t.items.any fun i => i.holds t.letters c) != t.negated

/-- Two characters count as the same. -/
def Letters.same (l : Letters) (a b : Char) : Bool := (l.codes a).contains b.toNat

/-! ## Width -/

/-- How many characters an expression can take: the least number, and the
greatest if there is one. -/
structure Width where
  low : Nat
  high : Option Nat
  deriving DecidableEq, Repr, Inhabited

/-- Exactly so many characters. -/
def Width.exactly (n : Nat) : Width := ⟨n, some n⟩

/-- One after the other. -/
def Width.plus (a b : Width) : Width :=
  ⟨a.low + b.low, match a.high, b.high with
    | some m, some n => some (m + n)
    | _, _ => none⟩

/-- Either of two. -/
def Width.join (a b : Width) : Width :=
  ⟨min a.low b.low, match a.high, b.high with
    | some m, some n => some (max m n)
    | _, _ => none⟩

/-- So many rounds. -/
def Width.times (a : Width) (low : Nat) (high : Option Nat) : Width :=
  ⟨a.low * low, match a.high, high with
    | some m, some n => some (m * n)
    | some 0, none => some 0
    | none, some 0 => some 0
    | _, _ => none⟩

/-- The width of an expression, given the widths of the groups before it. -/
def width (groups : Nat → Width) : Regex → Width
  | .empty => .exactly 0
  | .char _ => .exactly 1
  | .seq a b => (a.width groups).plus (b.width groups)
  | .alt a b => (a.width groups).join (b.width groups)
  | .anchor _ => .exactly 0
  | .group _ r => r.width groups
  | .loop r low high _ => (r.width groups).times low high
  | .lookAhead _ _ => .exactly 0
  | .lookBehind _ _ _ => .exactly 0
  | .atomic r => r.width groups
  | .backreference i _ => groups i
  | .conditional _ a b => (a.width groups).join (b.width groups)

/-- An expression that was read from a pattern: how many groups it has and
which numbers their names stand for. -/
structure Pattern where
  root : Regex
  groups : Nat
  names : Table Nat
  deriving Repr, Inhabited

end Regex

end PackageAudit
