/-
PackageAudit.Text.Glob — patterns with wildcards.

A star stands for any characters, slashes included, a question mark for
one, brackets for one of a set. A set that begins with an exclamation mark
takes all other characters. A hyphen between two members makes a range; a
range whose ends are in the wrong order is empty. A bracket without its end
stands for itself.
-/
import PackageAudit.Text.Cut

namespace PackageAudit.Text

namespace Glob

/-- A member of a set: the characters between two ends. -/
structure Range where
  low : Char
  high : Char
  deriving DecidableEq, BEq, Repr

/-- The range of one character. -/
def Range.single (c : Char) : Range := ⟨c, c⟩

/-- A character lies in a range. -/
def Range.holds (r : Range) (c : Char) : Bool := r.low ≤ c && c ≤ r.high

/-- A part of a pattern. -/
inductive Part where
  | star
  | any
  | char (c : Char)
  | oneOf (negated : Bool) (ranges : List Range)
  deriving DecidableEq, BEq, Repr

/-- The members of a set. A hyphen behind the first character of a member
and in front of another character makes a range. -/
def members : List Char → List Range
  | [] => []
  | [a] => [.single a]
  | [a, b] => [.single a, .single b]
  | a :: b :: c :: cs =>
    if b == '-' then (if a ≤ c then [⟨a, c⟩] else []) ++ members cs
    else .single a :: members (b :: c :: cs)
termination_by cs => cs.length

/-- The text of a set at the front, from behind its bracket, and what follows
the closing one. An exclamation mark and a bracket at the start do not close
it. -/
def setText? (cs : List Char) : Option (List Char × List Char) :=
  let lead := match cs with
    | '!' :: ']' :: _ => 2
    | '!' :: _ => 1
    | ']' :: _ => 1
    | _ => 0
  let body := (cs.drop lead).takeWhile (· != ']')
  match cs.drop (lead + body.length) with
  | _ :: rest => some (cs.take lead ++ body, rest)
  | [] => none

/-- A set without the empty ranges at its front. -/
def dropEmptyRanges : List Char → List Char
  | a :: '-' :: c :: cs => if a ≤ c then a :: '-' :: c :: cs else dropEmptyRanges cs
  | cs => cs

/-- The part that the text of a set stands for. An exclamation mark behind
empty ranges counts as if it came first; it begins no range then. -/
def setPart (text : List Char) : Part :=
  match text with
  | '!' :: more => .oneOf true (members more)
  | _ =>
    match dropEmptyRanges text with
    | '!' :: '-' :: c :: more => .oneOf true (.single '-' :: .single c :: members more)
    | '!' :: more => .oneOf true (members more)
    | _ => .oneOf false (members text)

/-- The parts of a pattern; the fuel is its length. -/
def partsFrom : Nat → List Char → List Part
  | 0, _ => []
  | _, [] => []
  | fuel + 1, '*' :: cs => .star :: partsFrom fuel cs
  | fuel + 1, '?' :: cs => .any :: partsFrom fuel cs
  | fuel + 1, '[' :: cs =>
    match setText? cs with
    | some (text, rest) => setPart text :: partsFrom fuel rest
    | none => .char '[' :: partsFrom fuel cs
  | fuel + 1, c :: cs => .char c :: partsFrom fuel cs

/-- The parts of a pattern. -/
def parts (pattern : String) : List Part := partsFrom pattern.length pattern.toList

/-- Some end of the text has the property. -/
def anyTail (p : List Char → Bool) : List Char → Bool
  | [] => p []
  | c :: cs => p (c :: cs) || anyTail p cs

/-- One character fits a part other than a star. -/
def Part.fits (c : Char) : Part → Bool
  | .star => false
  | .any => true
  | .char d => c == d
  | .oneOf negated ranges => (ranges.any fun r => r.holds c) != negated

/-- The parts match the whole text. -/
def matchesParts : List Part → List Char → Bool
  | [], cs => cs.isEmpty
  | .star :: ps, cs => anyTail (matchesParts ps) cs
  | _ :: _, [] => false
  | p :: ps, c :: cs => p.fits c && matchesParts ps cs

end Glob

/-- A pattern with wildcards matches a whole text. -/
def globMatches (pattern text : String) : Bool :=
  Glob.matchesParts (Glob.parts pattern) text.toList

end PackageAudit.Text
