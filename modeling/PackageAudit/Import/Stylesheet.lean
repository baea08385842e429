/-
PackageAudit.Import.Stylesheet — the references in a stylesheet.

`@import`, `@use` and `@forward` begin a statement that goes on to a
semicolon, or to the line end where indentation stands for braces. Targets in
`url(...)` come first, then quoted ones: all of an `@import`, but only the
first of the others, and that only without an address.
-/
import PackageAudit.Import.Comments
import PackageAudit.Import.Reference
import PackageAudit.Import.Search

namespace PackageAudit.Import.Stylesheet

/-- The three statements. -/
inductive Rule where
  | import_
  | use
  | forward
  deriving DecidableEq, BEq, Repr

/-- The words of the statements. -/
def words : List (String × Rule) := [("@import", .import_), ("@use", .use), ("@forward", .forward)]

/-- A statement word that no word character follows. -/
def rule? : Phrase Rule := fun cs =>
  words.findSome? fun (w, r) => do
    let rest ← Text.rest? w.toList cs
    guard ((rest.head?.map Text.isWord) != some true)
    return (r, w.length)

/-- An address `url(...)`, perhaps in quotes. -/
def url? : Phrase String := fun cs => do
  let rest := skipSpace (← Text.rest? "url(".toList cs)
  let quote := match rest with
    | c :: _ => if c == '"' || c == '\'' then [c] else []
    | [] => []
  let rest := rest.drop quote.length
  let body := rest.takeWhile fun c =>
    !(c == '\'' || c == '"' || c == ')' || Text.isSpace c)
  guard (!body.isEmpty)
  let rest ← Text.rest? quote (rest.drop body.length)
  match skipSpace rest with
  | ')' :: rest => return (String.ofList body, taken cs rest)
  | _ => none

/-- A quoted target. -/
def quoted? : Phrase String := quotedText? ['\'', '"'] ['\'', '"', '\n']

/-- The targets of a statement. -/
def targets (rule : Rule) (statement : List Char) : List String :=
  let urls := (findAll (fun _ => true) url? statement).map (·.2)
  let quoted := (findAll (fun _ => true) quoted? (removeFrom url? 0 statement)).map (·.2)
  if rule == .import_ then urls ++ quoted
  else if urls.isEmpty then quoted.take 1
  else urls

/-- The references of a stylesheet whose first line follows `offset` others. -/
def references (file content : String) (offset : Int) : List Reference :=
  let text := dropStyleComments content.toList
  let terminator := if Text.ends ".sass" file then '\n' else ';'
  (findAll (fun _ => true) rule? text).flatMap fun (position, rule) =>
    let word := (words.find? fun w => w.2 == rule).elim 0 fun w => w.1.length
    let statement := (text.drop (position + word)).takeWhile (· != terminator)
    (targets rule statement).filterMap fun s =>
      if Text.isBlank s then none
      else some { specifier := Text.strip s, kind := .stylesheetImport, file,
                  line := lineAt text position + offset }

end PackageAudit.Import.Stylesheet
