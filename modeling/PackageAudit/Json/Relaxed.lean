/-
PackageAudit.Json.Relaxed — JSON with comments and trailing commas.

A text that is plain JSON is read as such. Otherwise comments outside of
strings are taken out, then every comma before a closing brace or bracket,
and the rest is read. A quote or a comment without an end is an ordinary
character.
-/
import PackageAudit.Json.Parser

namespace PackageAudit.Json

/-- The number of characters from behind an opening quote to behind the
closing one. -/
def stringEnd? : List Char → Option Nat
  | [] => none
  | '"' :: _ => some 1
  | '\\' :: _ :: cs => (stringEnd? cs).map (· + 2)
  | '\\' :: [] => none
  | _ :: cs => (stringEnd? cs).map (· + 1)

/-- The number of characters from behind the opening of a block comment to
behind its end. -/
def commentEnd? : List Char → Option Nat
  | '*' :: '/' :: _ => some 2
  | _ :: cs => (commentEnd? cs).map (· + 1)
  | [] => none

/-- What is to be done with the characters ahead: so many are kept, or so
many left out. -/
inductive Span where
  | keep (count : Nat)
  | drop (count : Nat)

/-- The span that begins at the front. -/
def spanAt : List Char → Span
  | '"' :: cs => .keep ((stringEnd? cs).getD 0)
  | '/' :: '/' :: cs => .drop (1 + (cs.takeWhile (· != '\n')).length)
  | '/' :: '*' :: cs =>
    match commentEnd? cs with
    | some n => .drop (1 + n)
    | none => .keep 0
  | _ => .keep 0

/-- Takes out comments. The first argument is the span that is open. -/
def dropCommentsFrom : Span → List Char → List Char
  | _, [] => []
  | .drop (n + 1), _ :: cs => dropCommentsFrom (.drop n) cs
  | .keep (n + 1), c :: cs => c :: dropCommentsFrom (.keep n) cs
  | _, c :: cs =>
    match spanAt (c :: cs) with
    | .keep n => c :: dropCommentsFrom (.keep n) cs
    | .drop n => dropCommentsFrom (.drop n) cs

/-- A text without its comments. -/
def dropComments (cs : List Char) : List Char := dropCommentsFrom (.keep 0) cs

/-- A closing brace or bracket follows, after white space. -/
def closes (cs : List Char) : Bool :=
  match cs.dropWhile Text.isSpace with
  | c :: _ => c == '\x7d' || c == ']'
  | [] => false

/-- Takes out commas before closing braces and brackets. -/
def dropTrailingCommas : List Char → List Char
  | [] => []
  | c :: cs =>
    if c == ',' && closes cs then dropTrailingCommas cs else c :: dropTrailingCommas cs

/-- Reads JSON that may have comments and trailing commas. -/
def parseRelaxed (text : String) : Except Error Json :=
  match parse text with
  | .ok v => .ok v
  | .error _ => parse (String.ofList (dropTrailingCommas (dropComments text.toList)))

end PackageAudit.Json
