/-
PackageAudit.Script.Lexeme — the words of scripts.

Every scanner looks at the front of a list of characters and answers how
many of them its lexeme takes. What a slash or a brace means depends on
what the grammar expects, so there is no token stream: the grammar asks for
the lexeme it can use.
-/
import PackageAudit.Text.Cut

namespace PackageAudit.Script.Lexeme

/-! ## 1. Characters -/

/-- A line end. -/
def isLineEnd (c : Char) : Bool := c == '\n' || c == '\r' || c == '\u2028' || c == '\u2029'

/-- White space between tokens. -/
def isSpace (c : Char) : Bool :=
  let n := c.toNat
  (9 ≤ n && n ≤ 13) || n == 32 || n == 0xA0 || n == 0x1680 || (0x2000 ≤ n && n ≤ 0x200B) ||
    n == 0x2028 || n == 0x2029 || n == 0x202F || n == 0x205F || n == 0x2060 || n == 0x3000 ||
    n == 0xFEFF

/-- The ASCII characters that no identifier holds. -/
def punctuation : List Char := ":;`\"'@#.,|^&<=>+-*/\\%?!~()[]\x7b\x7d".toList

/-- A character that may stand in an identifier, digits included. -/
def isIdentifierChar (c : Char) : Bool :=
  31 < c.toNat && !isSpace c && !punctuation.contains c

/-- A hexadecimal digit. -/
def isHex (c : Char) : Bool :=
  c.isDigit || ('a' ≤ c && c ≤ 'f') || ('A' ≤ c && c ≤ 'F')

/-! ## 2. Identifiers -/

/-- The length of a Unicode escape at the front: four hexadecimal digits or
some in braces. -/
def unicodeEscape? : List Char → Option Nat
  | '\\' :: 'u' :: '{' :: cs =>
    let ds := cs.takeWhile isHex
    if !ds.isEmpty && (cs.drop ds.length).head? == some '}' then some (ds.length + 4) else none
  | '\\' :: 'u' :: cs =>
    if (cs.take 4).length == 4 && (cs.take 4).all isHex then some 6 else none
  | _ => none

/-- The length of the identifier characters at the front; the fuel is the
length of the list. -/
def identifierRest : Nat → List Char → Nat
  | 0, _ => 0
  | _, [] => 0
  | fuel + 1, c :: cs =>
    if isIdentifierChar c then 1 + identifierRest fuel cs
    else match unicodeEscape? (c :: cs) with
      | some n => n + identifierRest fuel ((c :: cs).drop n)
      | none => 0

/-- The length of the identifier at the front; zero if there is none. -/
def identifier (cs : List Char) : Nat :=
  match cs with
  | c :: _ => if c.isDigit then 0 else identifierRest cs.length cs
  | [] => 0

/-! ## 3. Strings -/

/-- The length of an escape sequence at the front. -/
def escape? (cs : List Char) : Option Nat :=
  match cs with
  | '\\' :: 'x' :: a :: b :: _ => if isHex a && isHex b then some 4 else none
  | '\\' :: 'x' :: _ => none
  | '\\' :: 'u' :: _ => unicodeEscape? cs
  | '\\' :: '\r' :: '\n' :: _ => some 3
  | '\\' :: c :: rest =>
    if '0' ≤ c && c ≤ '7' then
      some (2 + ((rest.take 2).takeWhile fun d => '0' ≤ d && d ≤ '7').length)
    else some 2
  | _ => none

/-- The length of a string body with its closing quote. -/
def stringRest (quote : Char) : Nat → List Char → Option Nat
  | 0, _ => none
  | _, [] => none
  | fuel + 1, c :: cs =>
    if c == quote then some 1
    else if c == '\n' || c == '\r' then none
    else if c == '\\' then do
      let n ← escape? (c :: cs)
      return n + (← stringRest quote fuel ((c :: cs).drop n))
    else do return 1 + (← stringRest quote fuel cs)

/-- The length of a string at the front. -/
def string? (cs : List Char) : Option Nat :=
  match cs with
  | c :: rest => if c == '"' || c == '\'' then (stringRest c cs.length rest).map (· + 1) else none
  | [] => none

/-! ## 4. Regular expressions -/

/-- The length of a regular expression body up to its closing slash;
`inSet` says that a bracket is open. -/
def regexRest : Nat → Bool → List Char → Option Nat
  | 0, _, _ => none
  | _, _, [] => none
  | fuel + 1, inSet, c :: cs =>
    if c == '\n' then none
    else if c == '\\' then
      match cs with
      | d :: rest => if d == '\n' then none else (regexRest fuel inSet rest).map (· + 2)
      | [] => none
    else if inSet then (regexRest fuel (c != ']') cs).map (· + 1)
    else if c == '/' then some 0
    else (regexRest fuel (c == '[') cs).map (· + 1)

/-- The lengths of the pattern and the flags of a regular expression. -/
def regex? (cs : List Char) : Option (Nat × Nat) :=
  match cs with
  | '/' :: rest => do
    let n ← regexRest cs.length false rest
    guard (n != 0)
    return (n, ((rest.drop (n + 1)).takeWhile fun c => 'a' ≤ c && c ≤ 'z').length)
  | _ => none

/-! ## 5. Numbers -/

/-- The length of digits with single underscores between them. -/
def digitRun (p : Char → Bool) (cs : List Char) : Nat :=
  (cs.takeWhile fun c => p c || c == '_').length

/-- The length of an exponent at the front. -/
def exponent (cs : List Char) : Nat :=
  match cs with
  | e :: rest =>
    if e == 'e' || e == 'E' then
      let sign := match rest with
        | s :: _ => if s == '+' || s == '-' then 1 else 0
        | [] => 0
      let ds := digitRun Char.isDigit (rest.drop sign)
      if ds == 0 then 0 else 1 + sign + ds
    else 0
  | [] => 0

/-- The length of a number with a base mark. -/
def baseNumber? : List Char → Option Nat
  | '0' :: b :: rest =>
    let p : Option (Char → Bool) :=
      if b == 'x' || b == 'X' then some isHex
      else if b == 'o' || b == 'O' then some fun c => '0' ≤ c && c ≤ '7'
      else if b == 'b' || b == 'B' then some fun c => c == '0' || c == '1'
      else none
    match p with
    | some p =>
      let n := digitRun p rest
      if n == 0 then none
      else some (2 + n + if (rest.drop n).head? == some 'n' then 1 else 0)
    | none => none
  | _ => none

/-- The length of a number at the front. -/
def number? (cs : List Char) : Option Nat :=
  match baseNumber? cs with
  | some n => some n
  | none =>
    let whole := if (cs.head?.map Char.isDigit) == some true then digitRun Char.isDigit cs else 0
    match cs.drop whole with
    | '.' :: rest =>
      let part := digitRun Char.isDigit rest
      if whole == 0 && part == 0 then none
      else
        let n := whole + 1 + part
        some (n + exponent (cs.drop n))
    | rest =>
      if whole == 0 then none
      else if rest.head? == some 'n' then some (whole + 1)
      else some (whole + exponent rest)

/-- The length of template text up to its end, an escape or a substitution. -/
def templateText : List Char → Nat
  | [] => 0
  | '`' :: _ => 0
  | '\\' :: _ => 0
  | '$' :: '{' :: _ => 0
  | _ :: cs => 1 + templateText cs

/-! ## 6. Comments and markup -/

/-- The length of a block comment body with its end. -/
def blockRest : List Char → Option Nat
  | '*' :: '/' :: _ => some 2
  | _ :: cs => (blockRest cs).map (· + 1)
  | [] => none

/-- The length of a comment at the front. At the start of a line the two
comment marks of markup count as well. -/
def comment? (atLineStart : Bool) (cs : List Char) : Option Nat :=
  let toLineEnd := (cs.takeWhile fun c => !isLineEnd c).length
  match cs with
  | '/' :: '/' :: _ => some toLineEnd
  | '/' :: '*' :: rest => (blockRest rest).map (· + 2)
  | '<' :: '!' :: '-' :: '-' :: _ => if atLineStart then some toLineEnd else none
  | '-' :: '-' :: '>' :: _ => if atLineStart then some toLineEnd else none
  | _ => none

/-- The length of text between markup tags. -/
def markupText (cs : List Char) : Nat :=
  (cs.takeWhile fun c => !(c == '<' || c == '>' || c == '{' || c == '}' || c == '&')).length

/-- The length of a markup name part: an identifier with hyphens. -/
def markupName (cs : List Char) : Nat :=
  let n := identifier cs
  if n == 0 then 0 else (cs.takeWhile fun c => isIdentifierChar c || c == '-').length

/-- The length of an attribute string, which has no escapes. -/
def markupString? (cs : List Char) : Option Nat :=
  match cs with
  | q :: rest =>
    if q == '"' || q == '\'' then
      let n := (rest.takeWhile (· != q)).length
      if n < rest.length then some (n + 2) else none
    else none
  | [] => none

/-- The length of a character reference in markup. -/
def characterReference? (cs : List Char) : Option Nat :=
  match cs with
  | '&' :: '#' :: x :: rest =>
    if x == 'x' || x == 'X' then
      let n := (rest.takeWhile isHex).length
      if 1 ≤ n && n ≤ 6 && (rest.drop n).head? == some ';' then some (n + 4) else none
    else
      let n := ((x :: rest).takeWhile Char.isDigit).length
      if 1 ≤ n && n ≤ 5 && ((x :: rest).drop n).head? == some ';' then some (n + 3) else none
  | '&' :: rest =>
    let n := (rest.takeWhile Char.isAlpha).length
    if 1 ≤ n && n ≤ 30 && (rest.drop n).head? == some ';' then some (n + 2) else none
  | _ => none

end PackageAudit.Script.Lexeme
