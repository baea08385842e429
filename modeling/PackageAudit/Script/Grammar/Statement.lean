/-
PackageAudit.Script.Grammar.Statement — statements, declarations, imports
and exports.

Only the form is checked: a name may be declared twice, and a `return`, an
`await` or a `break` may stand anywhere.
-/
import PackageAudit.Script.Grammar.Class

namespace PackageAudit.Script.Grammar

open P

/-! ## 1. Imports and exports -/

/-- `from` and the module. -/
def fromClause : P Unit := do
  keyword "from"
  role .source string

/-- A name that a module exports: a word or a string. -/
def exportName : P Unit := do
  oneOf [declaredName, string, keyword "default"]

/-- One name of an import list. -/
def importSpecifier : P Unit := node .clause do
  let plain : P Unit := do
    oneOf [
      do exportName; keyword "as"; declaredName,
      do guard ((← word) != "default"); declaredName]
    let next := (← ahead).head?
    guard (next == some ',' || next == some '}')
  let modified : P Unit := do
    guard (← typed)
    oneOf [keyword "type", keyword "typeof"]
    plain
  oneOf [modified, plain]

/-- A list of imported names. -/
def namedImports : P Unit := node .clause do
  mark "\x7b"
  enclosed (commas importSpecifier)
  mark "\x7d"

/-- All exports of a module under one name. -/
def namespaceImport : P Unit := node .clause do
  mark "*"
  keyword "as"
  declaredName

/-- What an import binds. -/
def importClause : P Unit := node .clause do
  oneOf [
    namespaceImport,
    namedImports,
    do
      declaredName
      optional do
        mark ","
        oneOf [namespaceImport, namedImports]]

/-- `x = require('...')`. -/
def importRequireClause : P Unit := node .importRequireClause do
  name
  mark "=" "=>"
  keyword "require"
  mark "("
  role .source string
  mark ")"

/-- An import statement. -/
def importStatement (g : Rules) : P Unit := node .importStatement do
  keyword "import"
  let body : P Unit := do
    oneOf [
      role .source string,
      do importClause; fromClause,
      do guard (← typed); importRequireClause]
  let modified : P Unit := do
    guard (← typed)
    oneOf [keyword "type", keyword "typeof"]
    body
  oneOf [body, modified]
  optional do
    guard (!(← get).newline)
    keyword "with"
    object g
  plainSemicolon

/-- `import x = A.B`. -/
def importAlias : P Unit := node .declaration do
  keyword "import"
  declaredName
  mark "=" "=>"
  dottedName
  plainSemicolon

/-- One name of an export list. -/
def exportSpecifier : P Unit := node .clause do
  let plain : P Unit := do
    exportName
    optional do
      keyword "as"
      exportName
    let next := (← ahead).head?
    guard (next == some ',' || next == some '}')
  let modified : P Unit := do
    guard (← typed)
    oneOf [keyword "type", keyword "typeof"]
    plain
  oneOf [modified, plain]

/-- A list of exported names. -/
def exportClause : P Unit := node .clause do
  mark "\x7b"
  enclosed (commas exportSpecifier)
  mark "\x7d"

/-- An exported expression behind `default`. -/
def defaultValue (g : Rules) : P Unit := do
  role .value (g .assignment)
  semicolon

/-- A function or class without a name behind `default`, or a declaration. -/
def defaultExport (g : Rules) : P Unit := do
  oneOf [g .declaration, defaultValue g]

/-- An export statement. -/
def exportStatement (g : Rules) : P Unit := node .exportStatement do
  many (decorator g)
  keyword "export"
  let cs ← ahead
  if cs.head? == some '*' then
    mark "*"
    optional do
      keyword "as"
      exportName
    fromClause
    plainSemicolon
  else if cs.head? == some '{' then
    exportClause
    optional fromClause
    plainSemicolon
  else if ← attempt (keyword "default") then defaultExport g
  else
    oneOf [
      do
        guard (← typed)
        keyword "type"
        exportClause
        optional fromClause
        plainSemicolon,
      do
        guard (← typed)
        mark "=" "=>"
        g .assignment
        semicolon,
      do
        guard (← typed)
        keyword "as"
        keyword "namespace"
        declaredName
        plainSemicolon,
      g .declaration]

/-! ## 2. Declarations -/

/-- A declared name or pattern. -/
def binding (g : Rules) : P Unit := do
  let c := (← ahead).head?
  if c == some '{' || c == some '[' then g .pattern else declaredName

/-- A variable with its type and value. -/
def variableDeclarator (g : Rules) : P Unit := node .variableDeclarator do
  role .name (binding g)
  ifTyped do
    optional (mark "!" "=")
    optional (typeMark g)
  optional (initializer g)

/-- A declaration of variables. -/
def variableDeclaration (g : Rules) : P Unit := node .declaration do
  let w ← word
  guard (w == "var" || w == "let" || w == "const" || w == "using")
  if w == "let" || w == "using" then
    let (next, newline) ← behindWord
    guard (Lexeme.identifier next != 0 || (w == "let" &&
      (next.head? == some '{' || next.head? == some '[')))
    guard (w == "let" || !newline)
  take .token w.length
  guard (!((← typed) && w == "const" && (← seesWord "enum")))
  commas1 (variableDeclarator g)
  let last := (← get).frame.head?
  semicolonAfter (last.any fun n => (n.child? .value).isSome)

/-- A function with a name; without a body where there are types. -/
def functionDeclaration (g : Rules) : P Unit := node .declaration do
  if ← seesWord "async" then take .token 5
  keyword "function"
  optional (mark "*")
  declaredName
  g .callSignature
  if ← sees "\x7b" then g .block
  else
    guard (← typed)
    plainSemicolon

/-- A class with a name. -/
def classDeclaration (g : Rules) : P Unit := node .declaration do
  many (decorator g)
  if ← typed then optional (keyword "abstract")
  keyword "class"
  guard ((← word) != "extends" && Lexeme.identifier (← ahead) != 0)
  g .classBody

/-- The name of a module that is declared. -/
def moduleName : P Unit := do
  oneOf [string, dottedName]

/-- A member of an enumeration. -/
def enumMember (g : Rules) : P Unit := node .member do
  propertyName g
  optional (initializer g)

/-- A declaration that only the dialects with types have. -/
def typedDeclaration (g : Rules) : P Unit := node .declaration do
  guard (← typed)
  let w ← word
  if w == "interface" then
    keyword "interface"
    declaredName
    optional (typeParameters g)
    optional do
      keyword "extends"
      commas1 (g .type)
    guard (← sees "\x7b")
    g .objectType
  else if w == "type" then
    keyword "type"
    declaredName
    optional (typeParameters g)
    mark "=" "=>"
    g .type
    plainSemicolon
  else if w == "enum" || w == "const" then
    optional (keyword "const")
    keyword "enum"
    declaredName
    mark "\x7b"
    enclosed (commas (enumMember g))
    mark "\x7d"
  else if w == "namespace" || w == "module" then
    keyword w
    guard (!(← get).newline)
    moduleName
    if ← sees "\x7b" then g .block
    optional (semicolon)
  else if w == "declare" then
    keyword "declare"
    oneOf [
      g .declaration,
      do keyword "global"; g .block,
      do
        keyword "module"
        mark "."
        anyWord .propertyIdentifier
        mark ":"
        g .type
        plainSemicolon]
  else failure

/-- A declaration. -/
def declaration (g : Rules) : P Unit := do
  oneOf [typedDeclaration g, do guard (← typed); importAlias, variableDeclaration g,
    functionDeclaration g, classDeclaration g]

/-! ## 3. Statements -/

/-- A block. -/
def block (g : Rules) : P Unit := node .statement do
  mark "\x7b"
  open_ (many (g .statement))
  mark "\x7d"

/-- The label of a jump. -/
def jumpTarget : P Unit := do
  if !(← seesSemicolon false) then name
  plainSemicolon

/-- Expressions and the end of the statement. -/
def expressionStatement (g : Rules) : P Unit := node .statement do
  g .expression
  semicolon

/-- A loop variable that is declared in the head. -/
def loopBinding (g : Rules) : P Unit := do
  let w ← word
  guard (["var", "let", "const"].contains w)
  take .token w.length
  binding g
  optional (initializer g)

/-- The head of a loop over the members of something. -/
def forInHead (g : Rules) : P Unit := do
  let operator : P Unit := oneOf [keyword "in", keyword "of"]
  mark "("
  enclosed do
    oneOf [
      do loopBinding g; operator,
      do g .pattern; operator,
      do leftHandSide g; operator]
    g .expression
  mark ")"

/-- The head of a loop with a counter. -/
def forHead (g : Rules) : P Unit := do
  mark "("
  enclosed do
    if !(← attempt (variableDeclaration g)) then
      optional (g .expression)
      mark ";"
    optional (g .expression)
    mark ";"
    optional (g .expression)
  mark ")"

/-- A case of a choice and its statements. -/
def switchCase (g : Rules) : P Unit := node .clause do
  if ← attempt (keyword "default") then mark ":"
  else
    keyword "case"
    g .expression
    mark ":"
  open_ (many (g .statement))

/-- What catches an exception. -/
def catchClause (g : Rules) : P Unit := node .clause do
  keyword "catch"
  optional do
    mark "("
    binding g
    ifTyped (optional (typeMark g))
    mark ")"
  g .block

/-- A statement that begins with a keyword. -/
def keywordStatement (g : Rules) (w : String) : P Unit := node .statement do
  keyword w
  match w with
  | "if" => do
    parenthesized g
    g .statement
    if ← seesWord "else" then
      keyword "else"
      g .statement
  | "for" => do
    optional (keyword "await")
    if !(← attempt (forInHead g)) then forHead g
    g .statement
  | "while" => do
    parenthesized g
    g .statement
  | "with" => do
    parenthesized g
    g .statement
  | "do" => do
    g .statement
    keyword "while"
    parenthesized g
    optional semicolon
  | "switch" => do
    parenthesized g
    mark "\x7b"
    many (switchCase g)
    mark "\x7d"
  | "try" => do
    g .block
    optional (catchClause g)
    optional do keyword "finally"; g .block
  | "return" => do
    if !(← seesSemicolon false) then g .expression
    semicolon
  | "throw" => do
    g .expression
    semicolon
  | "break" => jumpTarget
  | "continue" => jumpTarget
  | "debugger" => plainSemicolon
  | _ => failure

/-- Keywords that begin a statement of their own. -/
def statementWords : List String := [
  "if", "for", "while", "with", "do", "switch", "try", "return", "throw", "break", "continue",
  "debugger"]

/-- Words that may begin a declaration and may be names. -/
def declarationWords : List String := [
  "var", "let", "const", "using", "function", "async", "class", "abstract", "interface", "type",
  "enum", "namespace", "module", "declare", "import"]

/-- A word and a colon before a statement. -/
def labeledStatement (g : Rules) : P Unit := node .statement do
  name
  mark ":"
  g .statement

/-- A statement. -/
def statement (g : Rules) : P Unit := do
  let cs ← ahead
  guard (!cs.isEmpty)
  if cs.head? == some '{' then oneOf [g .block, expressionStatement g]
  else if cs.head? == some ';' then node .statement (take .token 1)
  else if cs.head? == some '@' then oneOf [exportStatement g, g .declaration, expressionStatement g]
  else
    let w ← word
    if statementWords.contains w then keywordStatement g w
    else if w == "export" then exportStatement g
    else if w == "import" then oneOf [importStatement g, g .declaration, expressionStatement g]
    else if w == "var" || w == "const" then g .declaration
    else if w == "function" && (← lookahead (do keyword "function"; optional (mark "*"); name)) then
      g .declaration
    else if w == "class" && (← lookahead (do keyword "class"; name)) then g .declaration
    else if ["interface", "abstract", "enum"].contains w && (← typed) then g .declaration
    else if ← lookahead (do name; mark ":") then labeledStatement g
    else if declarationWords.contains w then oneOf [g .declaration, expressionStatement g]
    else expressionStatement g

end PackageAudit.Script.Grammar
