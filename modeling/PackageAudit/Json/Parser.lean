/-
PackageAudit.Json.Parser — reading JSON documents.

The reader is strict about structure and lenient about numbers: `NaN`,
`Infinity` and `-Infinity` are accepted, and an incomplete fraction or
exponent ends the number before it. Of two members with one name the later
value counts, in the place of the first. The first fault in reading order is
reported.

A cursor is the rest of the text and its position. Reading a value takes
fuel for the depth of nesting only; a text cannot nest deeper than it is
long, so the wrapper gives enough.
-/
import PackageAudit.Json.Error
import PackageAudit.Json.Basic
import PackageAudit.Text.Cut

namespace PackageAudit.Json

/-- The rest of a text and the position where it starts. -/
structure Cursor where
  rest : List Char
  position : Nat

/-- What a step of reading comes to: a value, or a fault and its place. -/
abbrev Outcome := Except (Fault × Nat)

/-- Blanks, tabs and line ends. -/
def isBlank (c : Char) : Bool := c == ' ' || c == '\t' || c == '\n' || c == '\r'

/-- Passes over a given number of characters. -/
def Cursor.skip (c : Cursor) (n : Nat) : Cursor := ⟨c.rest.drop n, c.position + n⟩

/-- Passes over the white space of JSON. -/
def Cursor.skipBlanks (c : Cursor) : Cursor := c.skip (c.rest.takeWhile isBlank).length

/-! ## 1. Strings -/

/-- The value of a hexadecimal digit. -/
def hexValue? (c : Char) : Option Nat :=
  if '0' ≤ c ∧ c ≤ '9' then some (c.toNat - 48)
  else if 'a' ≤ c ∧ c ≤ 'f' then some (c.toNat - 87)
  else if 'A' ≤ c ∧ c ≤ 'F' then some (c.toNat - 55)
  else none

/-- The number written by four hexadecimal digits at the front. -/
def fourHex? : List Char → Option Nat
  | a :: b :: c :: d :: _ => do
    return (((← hexValue? a) * 16 + (← hexValue? b)) * 16 + (← hexValue? c)) * 16 + (← hexValue? d)
  | _ => none

/-- The character of an escape letter. -/
def escapeChar? : Char → Option Char
  | '"' => some '"'
  | '\\' => some '\\'
  | '/' => some '/'
  | 'b' => some '\x08'
  | 'f' => some '\x0c'
  | 'n' => some '\n'
  | 'r' => some '\r'
  | 't' => some '\t'
  | _ => none

/-- A half of a surrogate pair stands for no character by itself. -/
def charOfUnit (n : Nat) : Char := if 0xD800 ≤ n ∧ n ≤ 0xDFFF then '\ufffd' else Char.ofNat n

/-- A `\u` escape whose four digits start at the cursor: the character and
how many characters the escape takes from there on. -/
def unicodeEscape (c : Cursor) : Outcome (Char × Nat) :=
  -- The four digits must be followed by something: at least the closing quote.
  if c.rest.length < 5 then .error (.badUnicodeEscape, c.position - 1)
  else match fourHex? c.rest with
    | none => .error (.badUnicodeEscape, c.position - 1)
    | some high =>
      let more := c.rest.drop 4
      if 0xD800 ≤ high ∧ high ≤ 0xDBFF ∧ more.length > 6 ∧ more.take 2 = ['\\', 'u'] then
        match fourHex? (more.drop 2) with
        | none => .error (.badUnicodeEscape, c.position + 5)
        | some low =>
          if 0xDC00 ≤ low ∧ low ≤ 0xDFFF then
            .ok (Char.ofNat (0x10000 + (high - 0xD800) * 1024 + (low - 0xDC00)), 10)
          else .ok (charOfUnit high, 4)
      else .ok (charOfUnit high, 4)

/-- The characters of a string up to its closing quote. `start` is the
position of the opening quote; the fuel is the length of the rest. -/
def stringBody (start : Nat) : Nat → Cursor → List Char → Outcome (String × Cursor)
  | 0, _, _ => .error (.unclosedString, start)
  | fuel + 1, c, acc =>
    match c.rest with
    | [] => .error (.unclosedString, start)
    | '"' :: _ => .ok (String.ofList acc.reverse, c.skip 1)
    | '\\' :: [] => .error (.unclosedString, start)
    | '\\' :: 'u' :: _ => do
      let (ch, taken) ← unicodeEscape (c.skip 2)
      stringBody start fuel (c.skip (2 + taken)) (ch :: acc)
    | '\\' :: e :: _ =>
      match escapeChar? e with
      | some ch => stringBody start fuel (c.skip 2) (ch :: acc)
      | none => .error (.badEscape, c.position)
    | ch :: _ =>
      if ch.toNat ≤ 31 then .error (.controlCharacter, c.position)
      else stringBody start fuel (c.skip 1) (ch :: acc)

/-- A string whose opening quote has been read. -/
def stringRest (c : Cursor) : Outcome (String × Cursor) :=
  stringBody (c.position - 1) (c.rest.length + 1) c []

/-! ## 2. Numbers -/

/-- ASCII digits at the front. -/
def digitsOf (cs : List Char) : List Char := cs.takeWhile Char.isDigit

/-- A number at the cursor. -/
def number (c : Cursor) : Outcome (Json × Cursor) :=
  let negative := c.rest.head? == some '-'
  let signed := if negative then 1 else 0
  let body := c.rest.drop signed
  let whole := match body with
    | '0' :: _ => ['0']
    | _ => digitsOf body
  if whole.isEmpty then .error (.expectedValue, c.position)
  else
    let afterWhole := body.drop whole.length
    let part := match afterWhole with
      | '.' :: r => digitsOf r
      | _ => []
    let afterPart := if part.isEmpty then afterWhole else afterWhole.drop (part.length + 1)
    let (power, powerLength) : Option Int × Nat := match afterPart with
      | e :: r =>
        if e == 'e' || e == 'E' then
          let (sign, r', signLength) : Int × List Char × Nat := match r with
            | '-' :: r' => (-1, r', 1)
            | '+' :: r' => (1, r', 1)
            | _ => (1, r, 0)
          let ds := digitsOf r'
          if ds.isEmpty then (none, 0)
          else (some (sign * Text.decimalNumber ds), 1 + signLength + ds.length)
        else (none, 0)
      | [] => (none, 0)
    let pointLength := if part.isEmpty then 0 else part.length + 1
    let next := c.skip (signed + whole.length + pointLength + powerLength)
    if part.isEmpty && power.isNone then
      let n : Int := Text.decimalNumber whole
      .ok (.int (if negative then -n else n), next)
    else
      .ok (.real (.ofDecimal negative (Text.decimalNumber (whole ++ part))
        (power.getD 0 - part.length)), next)

/-! ## 3. Values -/

/-- The words that are values. -/
def constants : List (List Char × Json) := [
  ("null".toList, .null), ("true".toList, .bool true), ("false".toList, .bool false),
  ("NaN".toList, .real .notANumber), ("Infinity".toList, .real (.infinite false)),
  ("-Infinity".toList, .real (.infinite true))]

/-- The word at the front, if it is a value. -/
def constant? (cs : List Char) : Option (Nat × Json) :=
  (constants.find? fun w => w.1.isPrefixOf cs).map fun w => (w.1.length, w.2)

/-- The items of an array after the first blanks, up to its bracket. -/
def arrayItems (value : Cursor → Outcome (Json × Cursor)) :
    Nat → Cursor → List Json → Outcome (List Json × Cursor)
  | 0, c, _ => .error (.expectedValue, c.position)
  | fuel + 1, c, acc => do
    let (v, c) ← value c
    let c := c.skipBlanks
    match c.rest with
    | ']' :: _ => .ok ((v :: acc).reverse, c.skip 1)
    | ',' :: _ => arrayItems value fuel (c.skip 1).skipBlanks (v :: acc)
    | _ => .error (.expectedComma, c.position)

/-- The members of an object after the first blanks, up to its brace. -/
def objectMembers (value : Cursor → Outcome (Json × Cursor)) :
    Nat → Cursor → Table Json → Outcome (Table Json × Cursor)
  | 0, c, _ => .error (.expectedName, c.position)
  | fuel + 1, c, acc =>
    match c.rest with
    | '"' :: _ => do
      let (name, c) ← stringRest (c.skip 1)
      let c := c.skipBlanks
      match c.rest with
      | ':' :: _ => do
        let (v, c) ← value (c.skip 1).skipBlanks
        let c := c.skipBlanks
        match c.rest with
        | '}' :: _ => .ok (acc.put name v, c.skip 1)
        | ',' :: _ => objectMembers value fuel (c.skip 1).skipBlanks (acc.put name v)
        | _ => .error (.expectedComma, c.position)
      | _ => .error (.expectedColon, c.position)
    | _ => .error (.expectedName, c.position)

/-- A value at the cursor; the fuel bounds the depth of nesting. -/
def value : Nat → Cursor → Outcome (Json × Cursor)
  | 0, c => .error (.expectedValue, c.position)
  | fuel + 1, c =>
    match c.rest with
    | '"' :: _ => do
      let (s, c) ← stringRest (c.skip 1)
      .ok (.str s, c)
    | '[' :: _ =>
      let c := (c.skip 1).skipBlanks
      match c.rest with
      | ']' :: _ => .ok (.arr [], c.skip 1)
      | _ => do
        let (xs, c) ← arrayItems (value fuel) (c.rest.length + 1) c []
        .ok (.arr xs, c)
    | '{' :: _ =>
      let c := (c.skip 1).skipBlanks
      match c.rest with
      | '}' :: _ => .ok (.obj [], c.skip 1)
      | _ => do
        let (m, c) ← objectMembers (value fuel) (c.rest.length + 1) c []
        .ok (.obj m, c)
    | cs =>
      match constant? cs with
      | some (n, v) => .ok (v, c.skip n)
      | none => number c

/-- The value that a whole text writes. -/
def parse (text : String) : Except Error Json :=
  let cs := text.toList
  let located := fun (f : Fault × Nat) => Error.locate cs f.1 f.2
  if cs.head? == some '\ufeff' then .error (located (.byteOrderMark, 0))
  else match value (cs.length + 1) (Cursor.skipBlanks ⟨cs, 0⟩) with
    | .error f => .error (located f)
    | .ok (v, c) =>
      let c := c.skipBlanks
      if c.rest.isEmpty then .ok v else .error (located (.extraData, c.position))

end PackageAudit.Json
