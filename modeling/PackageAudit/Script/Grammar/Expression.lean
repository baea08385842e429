/-
PackageAudit.Script.Grammar.Expression — expressions, patterns and markup.

Binary operators are read from left to right without regard to their
precedence: which scripts are accepted does not depend on it, and nothing
that the audit looks for does. What can be assigned to is checked, since
there acceptance does depend on the form.
-/
import PackageAudit.Script.Parser

namespace PackageAudit.Script.Grammar

open P

/-! ## 1. Small parts -/

/-- Any of several steps, the first that succeeds. -/
def oneOf : List (P Unit) → P Unit
  | [] => failure
  | p :: ps => do if !(← attempt p) then oneOf ps

/-- The name of a property. -/
def propertyName (g : Rules) : P Unit := do
  match ← ahead with
  | '[' :: _ => node .clause do
      take .token 1
      enclosed (g .assignment)
      mark "]"
  | '"' :: _ => string
  | '\'' :: _ => string
  | '#' :: _ => privateName
  | _ => oneOf [anyWord .propertyIdentifier, number]

/-- A property name can begin with these characters. -/
def beginsName (cs : List Char) : Bool :=
  match cs with
  | [] => false
  | c :: _ => c == '[' || c == '"' || c == '\'' || c == '#' || c == '*' || c.isDigit ||
      Lexeme.identifier cs != 0

/-- Takes words that modify the name behind them. -/
def modifiers (words : List String) : P Unit := many do
  if ← sees "*" then take .token 1
  else
    let w ← word
    guard (words.contains w && beginsName (← behindWord).1)
    take .token w.length

/-- A spread or a single expression. -/
def spreadOr (g : Rules) (p : P Unit) : P Unit := do
  if ← sees "..." then node .expression do
    take .token 3
    g .assignment
  else p

/-- The arguments of a call. -/
def arguments (g : Rules) : P Unit := node .arguments do
  mark "("
  enclosed (sparse (spreadOr g (g .assignment)))
  mark ")"

/-- The initial value behind an equals sign. -/
def initializer (g : Rules) : P Unit := do
  mark "=" "=>"
  role .value (g .assignment)

/-- A type behind a colon. -/
def typeMark (g : Rules) : P Unit := node .clause do
  mark ":"
  g .type

/-! ## 2. Patterns -/

/-- A member of an object pattern. -/
def patternMember (g : Rules) : P Unit := node .pattern do
  if ← sees "..." then
    take .token 3
    g .pattern
  else if ← attempt (do propertyName g; mark ":") then
    g .pattern
    optional (initializer g)
  else
    name
    optional (initializer g)

/-- An element of an array pattern. -/
def patternElement (g : Rules) : P Unit := do
  g .pattern
  optional (initializer g)

/-- The rest of a name that is assigned to: members and subscripts. -/
def accessors (g : Rules) : P Unit := many do
  if ← seesMark "." "." then
    roleFirst .object
    take .token 1
    role .property (oneOf [privateName, anyWord .propertyIdentifier])
    close .memberExpression
  else
    mark "["
    enclosed (g .expression)
    mark "]"
    close .subscriptExpression

/-- A pattern. -/
def pattern (g : Rules) : P Unit := do
  match ← ahead with
  | '{' :: _ => node .pattern do
      take .token 1
      enclosed (sparse (patternMember g))
      mark "\x7d"
  | '[' :: _ => node .pattern do
      take .token 1
      enclosed (sparse (patternElement g))
      mark "]"
  | '.' :: _ => node .pattern do
      mark "..."
      g .pattern
  | _ => inFrame do
      if ← seesWord "this" then take .literal 4 else name
      accessors g

/-! ## 3. Functions -/

/-- A decorator: a name, its members, and perhaps arguments. -/
def decorator (g : Rules) : P Unit := node .clause do
  mark "@"
  if ← sees "(" then node .parenthesizedExpression do
    mark "("
    enclosed (g .expression)
    mark ")"
  else inFrame do
    name
    many do
      roleFirst .object
      mark "." "."
      role .property (anyWord .propertyIdentifier)
      close .memberExpression
    optional do
      roleFirst .function
      ifTyped (optional (g .typeArguments))
      role .arguments (g .arguments)
      close .callExpression

/-- One parameter. -/
def parameter (g : Rules) : P Unit := node .pattern do
  ifTyped do
    many (decorator g)
    many do
      let w ← word
      guard (["public", "private", "protected", "override", "readonly"].contains w)
      let next := (← behindWord).1
      guard (Lexeme.identifier next != 0 || next.head? == some '{' || next.head? == some '[')
      take .token w.length
  g .pattern
  ifTyped do
    optional (mark "?")
    optional (typeMark g)
  optional (initializer g)

/-- The parameters of a function. -/
def parameters (g : Rules) : P Unit := node .pattern do
  mark "("
  enclosed (commas (parameter g))
  mark ")"

/-- A header `(...) =>` or `x =>`, perhaps with `async` before it. -/
def arrowHeader (g : Rules) : P Unit := do
  if ← seesWord "async" then
    let (next, newline) ← behindWord
    if !newline && (next.head? == some '(' || next.head? == some '<' ||
        Lexeme.identifier next != 0) then
      take .token 5
  let s ← get
  match s.here.rest with
  | '(' :: _ =>
    if s.inTernary || !s.dialect.hasTypes then parameters g else g .callSignature
  | '<' :: _ => do guard (← typed); g .callSignature
  | _ => name
  mark "=>"

/-- The body of an arrow function. A brace opens a block, unless only an
object can be meant. -/
def arrowBody (g : Rules) : P Unit := do
  if ← sees "\x7b" then oneOf [g .block, g .assignment] else g .assignment

/-- An arrow function. -/
def arrow (g : Rules) : P Unit := do
  arrowHeader g
  arrowBody g
  close .expression

/-- `function`, a name if any, parameters and a body. -/
def functionExpression (g : Rules) : P Unit := do
  if ← seesWord "async" then
    guard ((← behindWord).1.take 8 == "function".toList)
    take .token 5
  keyword "function"
  optional (mark "*")
  optional name
  g .callSignature
  g .block
  close .expression

/-! ## 4. Literals -/

/-- A part of a template. -/
def templatePart (g : Rules) : P Unit := do
  let cs ← ahead
  match cs with
  | '$' :: '{' :: _ => inFrame do
      take .token 2
      enclosed (g .expression)
      guard (← sees "\x7d")
      takeRaw .token 1
      close .templateSubstitution
  | '\\' :: _ =>
    match Lexeme.escape? cs with
    | some n => takeRaw .literal n
    | none => failure
  | _ =>
    let n := Lexeme.templateText cs
    guard (n != 0)
    takeRaw .literal n

/-- A template. -/
def template (g : Rules) : P Unit := inFrame do
  guard (← sees "`")
  takeRaw .token 1
  many (templatePart g)
  guard (← sees "`")
  take .token 1
  close .templateString

/-- A regular expression. -/
def regex : P Unit := node .regex do
  match Lexeme.regex? (← ahead) with
  | none => failure
  | some (pattern, flags) =>
    takeRaw .token 1
    role .pattern (takeRaw .regexPattern pattern)
    if flags == 0 then take .token 1
    else
      takeRaw .token 1
      role .flags (take .regexFlags flags)

/-- Words before the name of a method. -/
def methodWords : List String :=
  ["async", "get", "set", "static", "public", "private", "protected", "override", "readonly"]

/-- A member of an object: a spread, a method, a pair or a bare name. -/
def objectMember (g : Rules) : P Unit := do
  if ← sees "..." then spreadOr g failure
  else if (← lookahead (do name; oneOf [mark ",", mark "\x7d"])) then
    node .member name
  else inFrame do
    modifiers (if ← typed then methodWords else methodWords.take 4)
    let plain := (← get).frame.isEmpty
    propertyName g
    if plain && (← seesMark ":" "") then
      roleFirst .key
      take .token 1
      role .value (g .assignment)
      close .pair
    else
      ifTyped (optional (mark "?"))
      g .callSignature
      g .block
      close .member

/-- An object. -/
def object (g : Rules) : P Unit := node .object do
  mark "\x7b"
  enclosed (sparse (objectMember g))
  mark "\x7d"

/-- An array. -/
def array (g : Rules) : P Unit := node .array do
  mark "["
  enclosed (sparse (spreadOr g (g .assignment)))
  mark "]"

/-- An expression in parentheses, which may carry a type. -/
def parenthesized (g : Rules) : P Unit := node .parenthesizedExpression do
  mark "("
  enclosed do
    g .expression
    ifTyped (optional (typeMark g))
  mark ")"

/-! ## 5. Markup -/

/-- A name of an element or attribute, with members or a namespace. -/
def markupName (members : Bool) : P Unit := do
  let n := Lexeme.markupName (← ahead)
  guard (n != 0)
  take .markup n
  if ← seesMark ":" "" then
    take .token 1
    let m := Lexeme.markupName (← ahead)
    guard (m != 0)
    take .markup m
  else if members then many do
    mark "."
    anyWord .markup

/-- An expression in braces; may be empty or a spread. `raw` says that text
follows. -/
def markupBraces (g : Rules) (raw : Bool) : P Unit := inFrame do
  mark "\x7b"
  enclosed (optional (spreadOr g (g .expression)))
  guard (← sees "\x7d")
  if raw then takeRaw .token 1 else take .token 1
  close .markup

/-- An attribute of an element. -/
def markupAttribute (g : Rules) : P Unit := do
  if ← sees "\x7b" then markupBraces g false
  else node .markup do
    markupName false
    optional do
      mark "="
      if ← sees "\x7b" then markupBraces g false
      else if ← sees "<" then g .markupElement
      else match Lexeme.markupString? (← ahead) with
        | some n => take .string n
        | none => failure

/-- Something between an opening and a closing tag. -/
def markupChild (g : Rules) : P Unit := do
  let cs ← ahead
  match cs with
  | '{' :: _ => markupBraces g true
  | '&' :: _ =>
    match Lexeme.characterReference? cs with
    | some n => takeRaw .markup n
    | none => failure
  | '<' :: _ => do
    guard (!(← sees "</"))
    g .markupElement
    unsettle
  | _ =>
    let n := Lexeme.markupText cs
    guard (n != 0)
    takeRaw .markup n

/-- An element: an opening tag, children and a closing tag, whose name is
not compared, or one tag that closes itself. -/
def markupElement (g : Rules) : P Unit := node .markup do
  mark "<"
  if !(← sees ">") then
    markupName true
    ifTyped (optional (g .typeArguments))
    many (markupAttribute g)
  if ← sees "/>" then take .token 2
  else
    guard (← sees ">")
    takeRaw .token 1
    many (markupChild g)
    guard (← sees "</")
    take .token 2
    optional (markupName true)
    mark ">"

/-! ## 6. Primary expressions -/

/-- A class expression. -/
def classExpression (g : Rules) : P Unit := do
  many (decorator g)
  keyword "class"
  g .classBody
  close .expression

/-- A member of what stands before. -/
def memberStep : P Unit := do
  roleFirst .object
  mark "." "."
  role .property (oneOf [privateName, anyWord .propertyIdentifier])
  close .memberExpression

/-- A subscript of what stands before. -/
def subscriptStep (g : Rules) : P Unit := do
  mark "["
  enclosed (g .expression)
  mark "]"
  close .subscriptExpression

/-- A call of what stands before. -/
def callStep (g : Rules) : P Unit := do
  roleFirst .function
  ifTyped (optional (g .typeArguments))
  role .arguments (g .arguments)
  close .callExpression

/-- A template behind a tag. -/
def taggedStep (g : Rules) : P Unit := do
  guard (← sees "`")
  guard (!(← cutByLine))
  roleFirst .function
  role .arguments (g .template)
  close .callExpression

/-- An optional member, subscript or call of what stands before. -/
def optionalStep (g : Rules) : P Unit := do
  guard (← seesMark "?." "0123456789")
  if ((← behind 2).1).head? == some '(' || ((← behind 2).1).head? == some '<' then
    roleFirst .function
    take .token 2
    ifTyped (optional (g .typeArguments))
    role .arguments (g .arguments)
    close .callExpression
  else if ((← behind 2).1).head? == some '[' then
    take .token 2
    subscriptStep g
  else
    roleFirst .object
    take .token 2
    role .property (oneOf [privateName, anyWord .propertyIdentifier])
    close .memberExpression

/-- An exclamation mark behind an expression. -/
def nonNullStep : P Unit := do
  guard (← typed)
  guard (!(← get).newline)
  mark "!" "="
  close .nonNullExpression

/-- What can follow type arguments that belong to no call. -/
def followsInstantiation : P Bool := do
  let s ← get
  return match s.here.rest with
    | [] => true
    | c :: _ => s.newline || ";,)]:.\x7d\x7b?=|&".toList.contains c

/-- Type arguments of an expression that is not called. -/
def instantiationStep (g : Rules) : P Unit := do
  guard (← typed)
  guard (← sees "<")
  g .typeArguments
  guard ((← followsInstantiation) || (← seesWord "implements") || (← seesWord "as"))
  close .expression

/-- The continuations of a primary expression that is constructed. -/
def constructorSteps (g : Rules) : P Unit := many do
  oneOf [memberStep, subscriptStep g, taggedStep g, nonNullStep]

/-- The continuations of a primary expression. -/
def callSteps (g : Rules) : P Unit := many do
  oneOf [callStep g, memberStep, subscriptStep g, taggedStep g, optionalStep g, nonNullStep,
    instantiationStep g]

/-- `import` as a function or as an object. -/
def importKeyword : P Unit := do
  let next := (← behindWord).1
  guard (next.head? == some '(' || (next.head? == some '.'))
  take .importKeyword 6

/-- A primary expression that is a word. -/
def primaryWord (g : Rules) (w : String) (constructed : P Unit) : P Unit := do
  if w == "function" then functionExpression g
  else if w == "class" then classExpression g
  else if w == "new" then constructed
  else if w == "import" then importKeyword
  else if ["this", "super", "null", "true", "false"].contains w then take .literal w.length
  else
    if w == "async" then
      oneOf [functionExpression g, do arrowHeader g; arrowBody g; close .expression, name]
    else if (← lookahead (do name; mark "=>")) then arrow g
    else name

/-- A primary expression without its continuations. -/
def primary (g : Rules) (constructed : P Unit) : P Unit := do
  let cs ← ahead
  match cs with
  | [] => failure
  | c :: rest =>
    if c == '(' then
      if ← attempt (arrowHeader g) then
        arrowBody g
        close .expression
      else parenthesized g
    else if c == '[' then array g
    else if c == '{' then object g
    else if c == '`' then g .template
    else if c == '/' then regex
    else if c == '"' || c == '\'' then string
    else if c == '#' then privateName
    else if c == '@' then classExpression g
    else if c == '<' then
      if ← attempt (do guard (← typed); arrowHeader g) then
        arrowBody g
        close .expression
      else
        guard (← get).dialect.hasMarkup
        g .markupElement
    else if c.isDigit || (c == '.' && (rest.head?.map Char.isDigit) == some true) then number
    else
      let w ← word
      guard (!w.isEmpty)
      primaryWord g w constructed

/-- `new` with a constructor and perhaps arguments; a constructor is no call. -/
def construction (g : Rules) : Nat → P Unit
  | 0 => failure
  | fuel + 1 => inFrame do
    keyword "new"
    if ← sees "." then
      take .token 1
      keyword "target"
      close .expression
    else
      inFrame do
        primary g (construction g fuel)
        constructorSteps g
      ifTyped (optional (g .typeArguments))
      optional (role .arguments (g .arguments))
      close .newExpression

/-- A primary expression with its continuations. -/
def leftHandSide (g : Rules) : P Unit := inFrame do
  primary g (construction g ((← ahead).length + 1))
  callSteps g

/-! ## 7. Operators -/

/-- Operators before an operand. -/
def unaryMark : P Unit := do
  oneOf [mark "++", mark "--", mark "!", mark "~", mark "+", mark "-", keyword "typeof",
    keyword "void", keyword "delete"]

/-- An operand with its unary operators. -/
def unary (g : Rules) : P Unit := inFrame do
  if ← attempt (do unaryMark; g .unary) then close .expression
  else if ← attempt (do keyword "await"; g .unary) then close .expression
  else if ← attempt (do
      guard ((← get).dialect == .typescript)
      guard (← sees "<")
      guard (!(← lookahead (arrowHeader g)))
      g .typeArguments
      g .unary) then close .expression
  else
    leftHandSide g
    optional do
      guard (!(← get).newline)
      oneOf [mark "++", mark "--"]
      close .expression

/-- All marks that operators are made of, longer ones first. -/
def operatorMarks : List String := [
  ">>>=", "===", "!==", "**=", "<<=", ">>=", ">>>", "&&=", "||=", "??=", "=>", "==", "!=", "<=",
  ">=", "&&", "||", "??", "?.", "++", "--", "+=", "-=", "*=", "/=", "%=", "&=", "|=", "^=", "**",
  "<<", ">>", "+", "-", "*", "/", "%", "<", ">", "&", "|", "^", "="]

/-- Marks between two operands. -/
def binaryMarks : List String := [
  "===", "!==", ">>>", "==", "!=", "<=", ">=", "&&", "||", "??", "**", "<<", ">>", "+", "-", "*",
  "/", "%", "<", ">", "&", "|", "^"]

/-- Marks between a place and its new value. -/
def assignmentMarks : List String := [
  "+=", "-=", "*=", "/=", "%=", "^=", "&=", "|=", ">>=", ">>>=", "<<=", "**=", "&&=", "||=", "??="]

/-- The longest operator mark at the next token. -/
def operatorMark : P String := do
  let cs ← ahead
  return (operatorMarks.find? fun m => m.toList.isPrefixOf cs).getD ""

/-- One binary operator and its right operand. -/
def binaryStep (g : Rules) : P Unit := do
  let m ← operatorMark
  if binaryMarks.contains m then
    take .token m.length
    g .unary
    close .expression
  else
    let w ← word
    if w == "in" || w == "instanceof" then
      take .token w.length
      g .unary
      close .expression
    else
      guard (← typed)
      guard (!(← cutByLine))
      guard (w == "as" || w == "satisfies")
      take .token w.length
      if w == "as" && (← seesWord "const") then take .type 5 else g .type
      close (if w == "as" then .asExpression else .satisfiesExpression)

/-- Operands with binary operators between them. -/
def binary (g : Rules) : P Unit := do
  g .unary
  many (binaryStep g)

/-- A binary expression, or a choice by one. -/
def conditional (g : Rules) : P Unit := do
  binary g
  optional do
    guard ((← seesMark "?" ".?") || (← lookahead (do
      guard (← sees "?."); guard (((← behind 2).1.head?.map Char.isDigit) == some true))))
    take .token 1
    if !(← attempt (do g .assignment; mark ":")) then
      let outer := (← get).inTernary
      modify fun s => { s with inTernary := true }
      g .assignment
      modify fun s => { s with inTernary := outer }
      mark ":"
    g .assignment
    close .expression

/-- `yield` and what it gives out. -/
def yield_ (g : Rules) : P Unit := do
  keyword "yield"
  if ← attempt (mark "*") then g .assignment
  else if !(← seesSemicolon false) then optional (g .assignment)
  close .expression

/-- The kinds of expressions that can be assigned to. -/
def isAssignable (k : Option Kind) (dialect : Dialect) : Bool :=
  match k with
  | some .identifier | some .memberExpression | some .subscriptExpression
  | some .parenthesizedExpression => true
  | some .nonNullExpression => dialect.hasTypes
  | _ => false

/-- A pattern in brackets or braces and an equals sign. -/
def patternTarget (g : Rules) : P Unit := do
  let c := (← ahead).head?
  guard (c == some '{' || c == some '[')
  g .pattern
  mark "=" "=>"

/-- An operator that assigns, behind a place. -/
def assignmentMark : P Unit := do
  let s ← get
  guard (s.frame.length == 1 && isAssignable (← lastKind) s.dialect)
  let m ← operatorMark
  guard (m == "=" || assignmentMarks.contains m)
  take .token m.length

/-- An expression without commas. -/
def assignment (g : Rules) : P Unit := inFrame do
  if !(← attempt (yield_ g)) then
    if ← attempt (patternTarget g) then
      g .assignment
      close .expression
    else
      conditional g
      if ← attempt assignmentMark then
        g .assignment
        close .expression

/-- An expression, perhaps several with commas between them. -/
def expression (g : Rules) : P Unit := inFrame do
  g .assignment
  if ← seesMark "," "" then
    many do mark ","; g .assignment
    close .expression

end PackageAudit.Script.Grammar
