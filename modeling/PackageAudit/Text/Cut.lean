/-
PackageAudit.Text.Cut — cutting texts into pieces.

Everything is said on `List Char`, so that a law about a cut is an
induction on the characters; the versions on `String` only wrap and unwrap.
-/
import PackageAudit.Text.Chars

namespace PackageAudit.Text

/-! ## 1. Ends -/

/-- Drops the characters with the property from the front. -/
def trimFront (p : Char → Bool) (cs : List Char) : List Char := cs.dropWhile p

/-- Drops the characters with the property from the end. -/
def trimBack (p : Char → Bool) (cs : List Char) : List Char :=
  (cs.reverse.dropWhile p).reverse

/-- Drops the characters with the property from both ends. -/
def trimBoth (p : Char → Bool) (cs : List Char) : List Char := trimBack p (trimFront p cs)

/-- Without white space at either end. -/
def strip (s : String) : String := String.ofList (trimBoth isSpace s.toList)

/-- Nothing but white space. -/
def isBlank (s : String) : Bool := s.toList.all isSpace

/-- Drops every `c` from the end. -/
def stripBackChar (c : Char) (s : String) : String := String.ofList (trimBack (· == c) s.toList)

/-- Drops every `c` from the front. -/
def stripFrontChar (c : Char) (s : String) : String := String.ofList (trimFront (· == c) s.toList)

/-- What follows a given beginning. -/
def rest? : List Char → List Char → Option (List Char)
  | [], cs => some cs
  | _ :: _, [] => none
  | p :: ps, c :: cs => if p == c then rest? ps cs else none

/-- What follows a given beginning of a text. -/
def after? (start s : String) : Option String := (rest? start.toList s.toList).map String.ofList

/-- The text begins with `start`. -/
def begins (start s : String) : Bool := start.toList.isPrefixOf s.toList

/-- The text ends with `tail`. -/
def ends (tail s : String) : Bool := tail.toList.isSuffixOf s.toList

/-- `part` occurs somewhere in the list. -/
def occurs (part : List Char) : List Char → Bool
  | [] => part.isEmpty
  | c :: cs => part.isPrefixOf (c :: cs) || occurs part cs

/-- `part` occurs somewhere in `s`. -/
def contains (s part : String) : Bool := occurs part.toList s.toList

/-! ## 2. Pieces -/

/-- The pieces between occurrences of one character; never empty. -/
def splitAt (sep : Char) : List Char → List (List Char)
  | [] => [[]]
  | c :: cs =>
    if c == sep then [] :: splitAt sep cs
    else match splitAt sep cs with
      | [] => [[c]]
      | p :: ps => (c :: p) :: ps

/-- The pieces of a text between occurrences of one character. -/
def pieces (sep : Char) (s : String) : List String := (splitAt sep s.toList).map String.ofList

/-- The pieces between occurrences of the two characters `a b`. -/
def splitAtPair (a b : Char) : List Char → List (List Char)
  | [] => [[]]
  | [c] => [[c]]
  | c :: d :: cs =>
    if c == a && d == b then [] :: splitAtPair a b cs
    else match splitAtPair a b (d :: cs) with
      | [] => [[c]]
      | p :: ps => (c :: p) :: ps

/-- The maximal runs of characters without the property. -/
def fieldsBy (p : Char → Bool) : List Char → List (List Char)
  | [] => []
  | c :: cs =>
    if p c then fieldsBy p cs
    else match cs with
      | [] => [[c]]
      | d :: _ =>
        if p d then [c] :: fieldsBy p cs
        else match fieldsBy p cs with
          | [] => [[c]]
          | w :: ws => (c :: w) :: ws

/-- The words of a text: maximal runs without white space. -/
def words (cs : List Char) : List (List Char) := fieldsBy isSpace cs

/-- The part before the first `sep` and the part after it; without one the
second part is empty. -/
def cutAt (sep : Char) (cs : List Char) : List Char × List Char :=
  (cs.takeWhile (· != sep), (cs.dropWhile (· != sep)).drop 1)

/-- The first `sep` becomes `new`; all else stays. -/
def replaceFirstChar (sep : Char) (new : List Char) : List Char → List Char
  | [] => []
  | c :: cs => if c == sep then new ++ cs else c :: replaceFirstChar sep new cs

/-- Every `sep` becomes `new`. -/
def replaceChar (sep : Char) (new : List Char) (cs : List Char) : List Char :=
  cs.flatMap fun c => if c == sep then new else [c]

/-- Replaces occurrences of `part` from the left; `skip` counts the
characters of an occurrence that are still to be passed over. -/
def replacePartFrom (part new : List Char) : Nat → List Char → List Char
  | _, [] => []
  | skip + 1, _ :: cs => replacePartFrom part new skip cs
  | 0, c :: cs =>
    if part.isPrefixOf (c :: cs) then new ++ replacePartFrom part new (part.length - 1) cs
    else c :: replacePartFrom part new 0 cs

/-- Every occurrence of the non-empty text `part`, from the left and without
overlap, becomes `new`. -/
def replacePart (part new s : String) : String :=
  String.ofList (replacePartFrom part.toList new.toList 0 s.toList)

/-! ## 3. Lines -/

/-- The number of line ends in a list. -/
def newlines (cs : List Char) : Nat := cs.count '\n'

/-! ## 4. Order -/

/-- Sorted by code points, equal texts kept. -/
def sortTexts (xs : List String) : List String := xs.mergeSort fun a b => decide (a ≤ b)

/-- The distinct members in the order of their first occurrence. -/
def distinct {α : Type} [BEq α] (xs : List α) : List α := xs.eraseDups

/-- The distinct members, sorted by code points. -/
def sortedSet (xs : List String) : List String := sortTexts (distinct xs)

end PackageAudit.Text
