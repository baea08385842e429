/-
PackageAudit.Regex.Literal — regular expressions as scripts write them.

Scripts write a named group `(?<name>...)` and a reference to it
`\k<name>`. Both are brought into the form that the pattern reader knows,
wherever they stand in the text. Of the flags, those for letter case, lines
and the dot count.
-/
import PackageAudit.Regex.Matcher
import PackageAudit.Regex.Parser

namespace PackageAudit.Regex

/-- The beginning of a named group at the front, and what follows it. -/
def namedGroup? (cs : List Char) : Option (List Char) := do
  let rest ← Text.rest? ['(', '?', '<'] cs
  guard (rest.head? != some '=' && rest.head? != some '!')
  return rest

/-- Named groups in the form of the pattern reader. -/
def renameGroupsFrom : Nat → List Char → List Char
  | _, [] => []
  | skip + 1, _ :: cs => renameGroupsFrom skip cs
  | 0, c :: cs =>
    match namedGroup? (c :: cs) with
    | some _ => ['(', '?', 'P', '<'] ++ renameGroupsFrom 2 cs
    | none => c :: renameGroupsFrom 0 cs

/-- The name in a reference at the front. -/
def namedReference? (cs : List Char) : Option (List Char) := do
  let rest ← Text.rest? ['\\', 'k', '<'] cs
  let name := rest.takeWhile Text.isWord
  guard (!name.isEmpty && (rest.drop name.length).head? == some '>')
  return name

/-- Named references in the form of the pattern reader. -/
def renameReferencesFrom : Nat → List Char → List Char
  | _, [] => []
  | skip + 1, _ :: cs => renameReferencesFrom skip cs
  | 0, c :: cs =>
    match namedReference? (c :: cs) with
    | some name =>
      ['(', '?', 'P', '='] ++ name ++ [')'] ++ renameReferencesFrom (name.length + 3) cs
    | none => c :: renameReferencesFrom 0 cs

/-- The text that the pattern reader gets. -/
def literalPattern (source : String) : String :=
  String.ofList (renameReferencesFrom 0 (renameGroupsFrom 0 source.toList))

/-- The flags of a literal; letters that mean nothing here are passed over. -/
def literalFlags (letters : String) : Flags :=
  let on := letters.toList.contains
  { letters := { ignoreCase := on 'i' }, multiline := on 'm', dotAll := on 's' }

/-- Reads the source and the flags of a literal. -/
def Pattern.ofLiteral (source flags : String) : Except Error Pattern :=
  Pattern.parse (literalFlags flags) (literalPattern source)

end PackageAudit.Regex
