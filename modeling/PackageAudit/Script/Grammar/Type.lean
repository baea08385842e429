/-
PackageAudit.Script.Grammar.Type — types.

Members of a union or an intersection are read without regard to their
precedence. A type that names a module by `import` can be followed by member
names only: neither type arguments nor brackets apply to it.
-/
import PackageAudit.Script.Grammar.Expression

namespace PackageAudit.Script.Grammar

open P

/-! ## 1. Names -/

/-- Names with dots between them. -/
def dottedName : P Unit := do
  declaredName
  many do
    mark "." "."
    anyWord .propertyIdentifier

/-- `import(...)`, its members and further calls. -/
def importType (g : Rules) : P Unit := inFrame do
  importKeyword
  roleFirst .function
  role .arguments (g .arguments)
  close .callExpression
  many do
    roleFirst .object
    mark "." "."
    role .property (oneOf [privateName, anyWord .propertyIdentifier])
    close .memberExpression

/-- The type of an expression: `typeof` and a name or an import. -/
def typeQuery (g : Rules) : P Unit := do
  keyword "typeof"
  if ← seesWord "import" then importType g
  else inFrame do
    oneOf [name, keyword "this"]
    many do
      oneOf [
        do mark "." "."; oneOf [privateName, anyWord .propertyIdentifier],
        do mark "?." "0123456789"; oneOf [privateName, anyWord .propertyIdentifier],
        do
          guard (!(← get).newline)
          mark "["
          oneOf [string, number, anyWord .type]
          mark "]"]
    optional (g .typeArguments)
    close .type

/-- Types in angle brackets. -/
def typeArguments (g : Rules) : P Unit := node .type do
  mark "<"
  enclosed do
    commas1 (g .type)
    optional (mark ",")
  mark ">"

/-- Type parameters in angle brackets. -/
def typeParameters (g : Rules) : P Unit := node .type do
  mark "<"
  enclosed do
    commas1 do
      optional do
        guard (Lexeme.identifier (← behindWord).1 != 0)
        keyword "const"
      name
      optional do
        oneOf [keyword "extends", mark ":"]
        g .type
      optional do
        mark "=" "=>"
        g .type
    optional (mark ",")
  mark ">"

/-! ## 2. Signatures -/

/-- `x is T`. -/
def typePredicate (g : Rules) : P Unit := node .type do
  oneOf [name, keyword "this"]
  keyword "is"
  g .type

/-- `asserts x` and `asserts x is T`. -/
def assertion (g : Rules) : P Unit := node .type do
  keyword "asserts"
  oneOf [typePredicate g, name, keyword "this"]

/-- What a function returns. -/
def returnType (g : Rules) : P Unit := do oneOf [assertion g, typePredicate g, g .type]

/-- The parameters of a function, with type parameters before and a return
type behind them where there are types. -/
def callSignature (g : Rules) : P Unit := do
  if ← typed then
    optional (typeParameters g)
    parameters g
    optional do
      mark ":"
      returnType g
  else parameters g

/-- The header of a function type. -/
def functionTypeHeader (g : Rules) : P Unit := do
  optional (typeParameters g)
  parameters g
  mark "=>"

/-! ## 3. Object types -/

/-- The key of an index signature. -/
def indexKey (g : Rules) : P Unit := do
  mark "["
  enclosed do
    name
    if ← attempt (mark ":") then g .type
    else
      keyword "in"
      g .type
      optional do
        keyword "as"
        g .type
  mark "]"

/-- An index signature or a mapped type. -/
def indexSignature (g : Rules) : P Unit := node .member do
  optional do
    optional (oneOf [mark "-", mark "+"])
    keyword "readonly"
  indexKey g
  oneOf [mark ":", mark "?:", mark "-?:", mark "+?:", do mark "?"; mark ":",
    do oneOf [mark "-", mark "+"]; mark "?"; mark ":"]
  g .type

/-- A property or a method of an object type. -/
def propertySignature (g : Rules) : P Unit := node .member do
  modifiers ["public", "private", "protected", "static", "override", "readonly", "async", "get",
    "set"]
  propertyName g
  optional (mark "?")
  let next := (← ahead).head?
  if next == some '(' || next == some '<' then g .callSignature
  else optional (typeMark g)

/-- A member of an object type. -/
def typeMember (g : Rules) : P Unit := do
  let cs ← ahead
  if cs.head? == some '(' || cs.head? == some '<' then node .member (g .callSignature)
  else if ← attempt (node .member do
      keyword "new"
      let next := (← ahead).head?
      guard (next == some '(' || next == some '<')
      g .callSignature) then pure ()
  else oneOf [indexSignature g, propertySignature g]

/-- The members of an object type or an interface. -/
def objectType (g : Rules) : P Unit := node .type do
  let exact ← sees "\x7b|"
  take .token (if exact then 2 else 1)
  open_ do
    optional (oneOf [mark ",", mark ";"])
    many do
      typeMember g
      if !(← attempt (mark ",")) then plainSemicolon
  if exact then mark "|\x7d" else mark "\x7d"

/-! ## 4. Types -/

/-- A member of a tuple type. -/
def tupleMember (g : Rules) : P Unit := do
  let named : P Unit := node .type do
    optional (mark "...")
    name
    optional (mark "?")
    mark ":"
    g .type
  let bare : P Unit := node .type do
    if ← attempt (mark "...") then g .type
    else
      g .type
      optional (mark "?")
  oneOf [named, bare]

/-- A part of a template type. -/
def templateTypePart (g : Rules) : P Unit := do
  let cs ← ahead
  match cs with
  | '$' :: '{' :: _ => inFrame do
      take .token 2
      enclosed (g .type)
      guard (← sees "\x7d")
      takeRaw .token 1
      close .type
  | '\\' :: _ => takeRaw .type 1
  | _ =>
    let n := Lexeme.templateText cs
    guard (n != 0)
    takeRaw .type n

/-- Words that begin a type and are no names of types. -/
def typeWords : List String := ["keyof", "readonly", "infer", "abstract", "new", "import"]

/-- A type without operators around it. -/
def primaryTypeStart (g : Rules) : P Unit := do
  let cs ← ahead
  match cs with
  | '(' :: _ => do
    mark "("
    enclosed (g .type)
    mark ")"
  | '{' :: _ => g .objectType
  | '[' :: _ => do
    mark "["
    enclosed (sparse (tupleMember g))
    mark "]"
  | '`' :: _ => do
    takeRaw .token 1
    many (templateTypePart g)
    guard (← sees "`")
    take .token 1
  | '*' :: _ => mark "*"
  | '?' :: _ => do mark "?"; g .primaryType
  | '-' :: _ => do mark "-"; number
  | '+' :: _ => do mark "+"; number
  | '"' :: _ => string
  | '\'' :: _ => string
  | _ =>
    if ← attempt number then pure ()
    else
      let w ← word
      if w == "typeof" then typeQuery g
      else if ["void", "null", "true", "false", "this", "const"].contains w then
        take .type w.length
      else if w == "unique" then
        keyword "unique"
        keyword "symbol"
      else
        guard (!typeWords.contains w)
        dottedName
        optional (g .typeArguments)

/-- A type with brackets behind it. -/
def primaryType (g : Rules) : P Unit := inFrame do
  primaryTypeStart g
  close .type
  many do
    let s ← get
    guard (!s.newline || s.enclosed)
    mark "["
    enclosed (optional (g .type))
    mark "]"
    close .type

/-- A bar or an ampersand. -/
def typeOperator : P Unit := oneOf [mark "|" "|\x7d", mark "&" "&"]

/-- An operand of a union: a function, or a type with its operators. -/
def typeOperand (g : Rules) : Nat → P Unit
  | 0 => failure
  | fuel + 1 => inFrame do
    let w ← word
    if ← attempt (functionTypeHeader g) then
      returnType g
      close .type
    else if w == "abstract" || w == "new" then
      optional (keyword "abstract")
      keyword "new"
      functionTypeHeader g
      g .type
      close .type
    else if w == "keyof" || w == "readonly" then
      take .token w.length
      many typeOperator
      guard (w == "readonly" || !(← lookahead (functionTypeHeader g)))
      typeOperand g fuel
      close .type
    else if w == "infer" then
      take .token w.length
      declaredName
      optional do
        keyword "extends"
        typeOperand g fuel
        guard (!(← seesMark "?" ""))
      close .type
    else if w == "import" then importType g
    else g .primaryType

/-- Operands with bars and ampersands between them and before the first.
Several of these may stand in a row. -/
def typeUnion (g : Rules) : P Unit := do
  let operand : P Unit := do
    many typeOperator
    typeOperand g ((← ahead).length + 1)
  operand
  many do
    typeOperator
    operand
    close .type

/-- A type, perhaps chosen by a condition. -/
def type (g : Rules) : P Unit := inFrame do
  typeUnion g
  if (← get).frame.length != 1 then close .type
  optional do
    keyword "extends"
    inFrame (typeUnion g)
    mark "?"
    g .type
    mark ":"
    g .type
    close .type

end PackageAudit.Script.Grammar
