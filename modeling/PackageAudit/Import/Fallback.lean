/-
PackageAudit.Import.Fallback — the references in a script that does not
parse.

The text is searched for five phrases, comments taken out. What a phrase
finds need not be code; the search is a best effort for broken files. No
phrase may follow a word character, a dollar sign or a dot.
-/
import PackageAudit.Import.Comments
import PackageAudit.Import.Reference
import PackageAudit.Import.Search

namespace PackageAudit.Import.Fallback

/-- What may stand before a phrase. -/
def allowed : Option Char → Bool
  | none => true
  | some c => !(Text.isWord c || c == '$' || c == '.')

/-- A specifier in single or double quotes. -/
def specifier? : Phrase String := quotedText? ['\'', '"'] ['\'', '"', '\n']

/-- A specifier in single, double or back quotes, without a dollar sign. -/
def argument? : Phrase String := quotedText? ['\'', '"', '`'] ['\'', '"', '`', '\n', '$']

/-- A character between `import` and its specifier. -/
def isClauseChar (c : Char) : Bool :=
  Text.isWord c || Text.isSpace c || c == '$' || c == '*' || c == '{' || c == '}' || c == ','

/-- The text between `import` and its specifier: white space, or `type`
between white space, or anything that ends in the word `from`. -/
def isClause (body : List Char) : Bool :=
  match body with
  | [] => false
  | c :: _ =>
    let back := (Text.trimBack Text.isSpace body).reverse
    Text.isSpace c &&
      (body.all Text.isSpace ||
        (match Text.rest? "type".toList (skipSpace body) with
          | some (d :: rest) => (d :: rest).all Text.isSpace
          | _ => false) ||
        (match Text.rest? "morf".toList back with
          | some (d :: _) => !Text.isWord d
          | _ => false))

/-- `import`, a clause and a specifier. -/
def staticImport : Phrase String := fun cs => do
  let rest ← Text.rest? "import".toList cs
  let body := rest.takeWhile isClauseChar
  guard (isClause body)
  let (s, n) ← specifier? (rest.drop body.length)
  return (s, 6 + body.length + n)

/-- `from` and a specifier, white space before each. -/
def fromSpecifier (cs : List Char) : Option (String × List Char) := do
  let rest ← Text.rest? "from".toList (skipSpace cs)
  let rest := skipSpace rest
  let (s, n) ← specifier? rest
  return (s, rest.drop n)

/-- `as`, a name, `from` and a specifier. The name may run into `from`. -/
def asSpecifier (cs : List Char) : Option (String × List Char) := do
  let rest ← skipSpace1? cs
  let rest ← skipSpace1? (← Text.rest? "as".toList rest)
  let name := rest.takeWhile fun c => Text.isWord c || c == '$'
  guard (!name.isEmpty)
  match fromSpecifier (rest.drop name.length) with
  | some found => return found
  | none =>
    guard (name.length > 4 && "from".toList.isSuffixOf name)
    fromSpecifier (rest.drop (name.length - 4))

/-- `export`, a star or a list of names, and a specifier. -/
def reExport : Phrase String := fun cs => do
  let rest ← skipSpace1? (← Text.rest? "export".toList cs)
  let rest := ((Text.rest? "type".toList rest).bind skipSpace1?).getD rest
  let (s, rest) ← match rest with
    | '*' :: more => (asSpecifier more).or (fromSpecifier more)
    | '{' :: more => match more.dropWhile (· != '}') with
      | _ :: more => fromSpecifier more
      | [] => none
    | _ => none
  return (s, taken cs rest)

/-- An opening parenthesis and an argument, white space before each. -/
def firstArgument (cs : List Char) : Option (String × List Char) :=
  match skipSpace cs with
  | '(' :: rest => do
    let rest := skipSpace rest
    let (s, n) ← argument? rest
    return (s, rest.drop n)
  | _ => none

/-- `import(...)` with one argument or more. -/
def dynamicImport : Phrase String := fun cs => do
  let (s, rest) ← firstArgument (← Text.rest? "import".toList cs)
  match skipSpace rest with
  | c :: rest => if c == ',' || c == ')' then return (s, taken cs rest) else none
  | [] => none

/-- `require(...)` with one argument. -/
def requireCall : Phrase String := fun cs => do
  let (s, rest) ← firstArgument (← Text.rest? "require".toList cs)
  match skipSpace rest with
  | ')' :: rest => return (s, taken cs rest)
  | _ => none

/-- `require.resolve(` and an argument. -/
def requireResolve : Phrase String := fun cs => do
  let (s, rest) ← firstArgument (← Text.rest? "require.resolve".toList cs)
  return (s, taken cs rest)

/-- The phrases and the kinds of reference that they find. -/
def phrases : List (Phrase String × ImportKind) := [
  (staticImport, .staticImport), (reExport, .reExport), (dynamicImport, .dynamicImport),
  (requireCall, .requireCall), (requireResolve, .requireResolve)]

/-- The finds of all phrases by position. -/
def finds (text : List Char) : List (Nat × String × ImportKind) :=
  (phrases.flatMap fun (p, kind) =>
    (findAll allowed p text).filterMap fun (position, s) =>
      if Text.isBlank s then none else some (position, s, kind)).mergeSort
    fun a b => decide (a.1 ≤ b.1)

/-- The references that the phrases find. -/
def references (file content : String) : List Reference :=
  let text := dropScriptComments content.toList
  (finds text).map fun (position, specifier, kind) =>
    { specifier, kind, file, line := lineAt text position }

end PackageAudit.Import.Fallback
