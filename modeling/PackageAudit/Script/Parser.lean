/-
PackageAudit.Script.Parser — the machinery under the grammar of scripts.

A parser step takes a state and either fails or goes on. The state stands at
the next token: white space and comments before it have been passed over,
the comments waiting to be put in front of that token. Nodes under
construction collect in a frame; closing a frame makes them the children of
one node. Failure changes nothing, so trying another way is free.

Which scripts are accepted is what a generalized parser accepts without
repairing the text. The rules for a missing semicolon follow: one may be
left out before a closing brace, at the end, and at a line end unless the
next line starts with something that could continue the statement.
-/
import PackageAudit.Script.Lexeme
import PackageAudit.Script.Node

namespace PackageAudit.Script

/-- The variants of the language. -/
inductive Dialect where
  | javascript
  | typescript
  | tsx
  deriving DecidableEq, BEq, Repr, Inhabited

/-- The dialect has types. -/
def Dialect.hasTypes : Dialect → Bool
  | .javascript => false
  | _ => true

/-- The dialect has markup. -/
def Dialect.hasMarkup : Dialect → Bool
  | .typescript => false
  | _ => true

/-- A place in the source. -/
structure Place where
  rest : List Char
  offset : Nat
  line : Nat
  deriving Inhabited

/-- Moves a place over a number of characters. -/
def Place.advance (p : Place) (n : Nat) : Place :=
  { rest := p.rest.drop n, offset := p.offset + n
    line := p.line + (p.rest.take n).count '\n' }

/-- The state of the parser. `here` is at the next token and `last` right
after the previous one; `waiting` are the comments between, the latest
first. `frame` are the nodes of the node under construction, the latest
first, which began at `start`. In an `enclosed` place no semicolon can be
left out. -/
structure State where
  here : Place
  last : Place
  waiting : List Node
  newline : Bool
  frame : List Node
  start : Place
  enclosed : Bool
  inTernary : Bool
  dialect : Dialect

/-- A parser step. -/
abbrev P := StateT State Option

namespace P

/-! ## 1. Tokens -/

/-- A leaf of the tree between two places. -/
def leaf (kind : Kind) (from_ : Place) (n : Nat) : Node :=
  .node kind none from_.line (String.ofList (from_.rest.take n)) []

/-- Passes over white space and comments: the new place, the comments and
whether a line ended. The fuel is the length of the rest. -/
def skipTrivia : Nat → Place → List Node → Bool → Place × List Node × Bool
  | 0, p, comments, newline => (p, comments, newline)
  | fuel + 1, p, comments, newline =>
    match p.rest with
    | [] => (p, comments, newline)
    | c :: _ =>
      if Lexeme.isSpace c then
        skipTrivia fuel (p.advance 1) comments (newline || Lexeme.isLineEnd c)
      else match Lexeme.comment? (newline || p.offset == 0) p.rest with
        | some n =>
          let body := p.rest.take n
          skipTrivia fuel (p.advance n) (leaf .comment p n :: comments)
            (newline || (body.take 2 == ['/', '*'] && body.any Lexeme.isLineEnd))
        | none => (p, comments, newline)

/-- The state after passing over what stands before the next token. -/
def settle (s : State) (p : Place) : State :=
  let (here, comments, newline) := skipTrivia (p.rest.length + 1) p [] false
  { s with here, last := p, waiting := comments, newline }

/-- Takes the next `n` characters as a leaf and goes to the next token. -/
def take (kind : Kind) (n : Nat) : P Unit := fun s =>
  some ((), settle { s with frame := leaf kind s.here n :: (s.waiting ++ s.frame) }
    (s.here.advance n))

/-- Takes the next `n` characters as a leaf and stays right behind them. -/
def takeRaw (kind : Kind) (n : Nat) : P Unit := fun s =>
  let p := s.here.advance n
  some ((), { s with
    frame := leaf kind s.here n :: (s.waiting ++ s.frame)
    here := p, last := p, waiting := [], newline := false })

/-- Goes back to the place right behind the previous token. -/
def unsettle : P Unit := modify fun s => { s with here := s.last, waiting := [], newline := false }

/-- The characters from the next token on. -/
def ahead : P (List Char) := return (← get).here.rest

/-- The next characters are these. -/
def sees (text : String) : P Bool := return text.toList.isPrefixOf (← ahead)

/-- The next token is the mark `text` and no longer mark that starts with it
and goes on with one of `longer`. -/
def seesMark (text : String) (longer : String) : P Bool := do
  match Text.rest? text.toList (← ahead) with
  | some (c :: _) => return !longer.toList.contains c
  | some [] => return true
  | none => return false

/-- Takes a mark, which must not be continued by one of `longer`. -/
def mark (text : String) (longer : String := "") : P Unit := do
  guard (← seesMark text longer)
  take .token text.length

/-- The identifier or keyword at the next token; empty if there is none. -/
def word : P String := do
  let cs ← ahead
  return String.ofList (cs.take (Lexeme.identifier cs))

/-- The next token is this keyword. -/
def seesWord (w : String) : P Bool := return (← word) == w

/-- Takes a keyword. -/
def keyword (w : String) : P Unit := do
  guard (← seesWord w)
  take .token w.length

/-- The characters behind the next token of `n` characters, trivia passed
over, and whether a line ends before them. -/
def behind (n : Nat) : P (List Char × Bool) := do
  let s ← get
  let t := settle s (s.here.advance n)
  return (t.here.rest, t.newline)

/-- What stands behind the next word. -/
def behindWord : P (List Char × Bool) := do behind (← word).length

/-! ## 2. Choice and repetition -/

/-- Tries a step; on failure nothing has happened. -/
def attempt (p : P Unit) : P Bool := fun s =>
  match p s with
  | some (_, t) => some (true, t)
  | none => some (false, s)

/-- A step that may be missing. -/
def optional (p : P Unit) : P Unit := do let _ ← attempt p

/-- Repeats a step until it fails; the fuel bounds the count. -/
def repeatFor : Nat → P Unit → P Unit
  | 0, _ => pure ()
  | fuel + 1, p => do if ← attempt p then repeatFor fuel p

/-- Repeats a step until it fails. Every repeated step takes a token. -/
def many (p : P Unit) : P Unit := do repeatFor (((← ahead).length) + 1) p

/-- A step that must be possible, without taking it. -/
def lookahead (p : P Unit) : P Bool := fun s => some ((p s).isSome, s)

/-! ## 3. Nodes -/

/-- Runs a step in a frame of its own that begins at the next token. The
comments before it belong to the frame around. -/
def inFrame (p : P Unit) : P Unit := fun s =>
  match p { s with frame := [], waiting := [], start := s.here } with
  | none => none
  | some (_, t) =>
    some ((), { t with frame := t.frame ++ s.waiting ++ s.frame, start := s.start })

/-- Makes one node of everything in the frame. -/
def close (kind : Kind) : P Unit := modify fun s =>
  let text := String.ofList (s.start.rest.take (s.last.offset - s.start.offset))
  { s with frame := [.node kind none s.start.line text s.frame.reverse] }

/-- One node of everything that a step takes. -/
def node (kind : Kind) (p : P Unit) : P Unit := inFrame do p; close kind

/-- Gives a role to the node that a step makes. -/
def role (r : Role) (p : P Unit) : P Unit := do
  p
  modify fun s => match s.frame with
    | n :: frame => { s with frame := n.withRole r :: frame }
    | [] => s

/-- Gives a role to the first node of the frame. -/
def roleFirst (r : Role) : P Unit := modify fun s =>
  match s.frame.reverse with
  | n :: frame => { s with frame := (n.withRole r :: frame).reverse }
  | [] => s

/-- The kind of the node made last in the frame. -/
def lastKind : P (Option Kind) := return (← get).frame.head?.map Node.kind

/-- Runs a step where no semicolon can be left out. -/
def enclosed (p : P Unit) : P Unit := do
  let outer := (← get).enclosed
  let ternary := (← get).inTernary
  modify fun s => { s with enclosed := true, inTernary := false }
  p
  modify fun s => { s with enclosed := outer, inTernary := ternary }

/-- Runs a step where semicolons can be left out. -/
def open_ (p : P Unit) : P Unit := do
  let outer := (← get).enclosed
  let ternary := (← get).inTernary
  modify fun s => { s with enclosed := false, inTernary := false }
  p
  modify fun s => { s with enclosed := outer, inTernary := ternary }

/-- The dialect has types. -/
def typed : P Bool := return (← get).dialect.hasTypes

/-- Takes a step in dialects with types only. -/
def ifTyped (p : P Unit) : P Unit := do if ← typed then p

/-! ## 4. Semicolons -/

/-- `cs` begins with one of the operators `in` and `instanceof`, or with a
word that does so. -/
def continuesWithIn : List Char → Bool
  | 'i' :: 'n' :: cs =>
    match cs with
    | [] => true
    | c :: _ =>
      if !c.isAlpha then true
      else match Text.rest? "stanceof".toList cs with
        | some rest => match rest with
          | [] => true
          | d :: _ => !d.isAlpha
        | none => false
  | _ => false

/-- A line that begins so lets the line before end without a semicolon.
`continuable` says that an expression stands before, which a bracket
continues; dialects without types let a bracket continue everything. -/
def endsStatementBefore (dialect : Dialect) (continuable : Bool) (cs : List Char) : Bool :=
  match cs with
  | [] => true
  | c :: rest =>
    let next := rest.head?
    if c == '`' then dialect.hasTypes
    else if c == '(' || c == '[' then dialect.hasTypes && !continuable
    else if ",:;*%><=?^|&/".toList.contains c then false
    else if c == '.' then !dialect.hasTypes && (next.map Char.isDigit) == some true
    else if c == '+' then next == some '+'
    else if c == '-' then next == some '-'
    else if c == '!' then next != some '='
    else !continuesWithIn cs

/-- A semicolon stands here or may be left out here. -/
def seesSemicolon (continuable : Bool) : P Bool := do
  let s ← get
  return match s.here.rest with
    | [] => true
    | c :: _ => c == ';' || c == '}' ||
        (s.newline && endsStatementBefore s.dialect continuable s.here.rest)

/-- Takes a semicolon or leaves it out. -/
def semicolonAfter (continuable : Bool) : P Unit := do
  if ← sees ";" then take .token 1
  else guard (← seesSemicolon continuable)

/-- The end of a statement whose last part is an expression. -/
def semicolon : P Unit := semicolonAfter true

/-- The end of a statement whose last part is none. -/
def plainSemicolon : P Unit := semicolonAfter false

/-- The statement before may end here because a line ends, which an operator
that is a word does not continue. -/
def cutByLine : P Bool := do
  let s ← get
  return s.newline && !s.enclosed && endsStatementBefore s.dialect true s.here.rest

/-! ## 5. Lists -/

/-- Steps with commas between them, at least one. -/
def commas1 (p : P Unit) : P Unit := do
  p
  many do mark ","; p

/-- Steps with commas between them, perhaps none, and perhaps a last comma. -/
def commas (p : P Unit) : P Unit := do
  optional (commas1 p)
  optional (mark ",")

/-- Steps with commas between them, any of which may be missing. -/
def sparse (p : P Unit) : P Unit := do
  optional p
  many do mark ","; optional p

end P

/-! ## 6. Words -/

/-- Words that are no identifiers. -/
def reservedWords : List String := [
  "break", "case", "catch", "class", "const", "continue", "debugger", "default", "delete", "do",
  "else", "export", "extends", "false", "finally", "for", "function", "if", "import", "in",
  "instanceof", "new", "null", "return", "super", "switch", "this", "throw", "true", "try",
  "typeof", "var", "void", "while", "with"]

namespace P

/-- Takes an identifier that is no reserved word. -/
def name (kind : Kind := .identifier) : P Unit := do
  let w ← word
  guard (!w.isEmpty && !reservedWords.contains w)
  take kind w.length

/-- Takes a name that is declared, or listed. Where there are types, words are
reserved only where they mean something. -/
def declaredName : P Unit := do
  if (← get).dialect.hasTypes then
    let w ← word
    guard (!w.isEmpty)
    take .identifier w.length
  else name

/-- Takes any word. -/
def anyWord (kind : Kind) : P Unit := do
  let w ← word
  guard (!w.isEmpty)
  take kind w.length

/-- Takes a private name such as `#x`. -/
def privateName : P Unit := do
  match ← ahead with
  | '#' :: cs =>
    let n := Lexeme.identifier cs
    guard (n != 0)
    take .literal (n + 1)
  | _ => failure

/-- Takes a string. -/
def string : P Unit := do
  match Lexeme.string? (← ahead) with
  | some n => take .string n
  | none => failure

/-- Takes a number. -/
def number : P Unit := do
  match Lexeme.number? (← ahead) with
  | some n => take .literal n
  | none => failure

end P

/-- The rules of the grammar that refer to each other. -/
inductive Rule where
  | statement
  | block
  | expression
  | assignment
  | unary
  | pattern
  | type
  | primaryType
  | arguments
  | template
  | markupElement
  | declaration
  | callSignature
  | typeArguments
  | classBody
  | objectType
  deriving DecidableEq, BEq, Repr

/-- Rules by their name. -/
abbrev Rules := Rule → P Unit

end PackageAudit.Script
