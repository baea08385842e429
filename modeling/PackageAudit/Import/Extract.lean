/-
PackageAudit.Import.Extract — the references of a source file.

A script is read as a syntax tree; one that does not parse is searched for
phrases instead, and the result is marked as degraded. Markup is cut into its
script and style blocks, each handled as a file of its own whose lines are
those of the whole. How a script is read is a parameter.
-/
import PackageAudit.Import.Fallback
import PackageAudit.Import.Structural
import PackageAudit.Import.Stylesheet
import PackageAudit.Script.Reader
import PackageAudit.Source.Language

namespace PackageAudit.Import

/-- How the references of a file were found. -/
inductive Strategy where
  | structural
  | pattern
  deriving DecidableEq, BEq, Repr, Inhabited

/-- The name of a strategy. -/
def Strategy.name : Strategy → String
  | .structural => "structural"
  | .pattern => "pattern"

/-- The references of a file. Patterns are used exactly for files that are
degraded. -/
structure Extraction where
  references : List Reference
  degraded : Bool := false
  deriving Repr

/-- How the references were found. -/
def Extraction.strategy (e : Extraction) : Strategy :=
  if e.degraded then .pattern else .structural

/-- The references in the syntax tree of a script, broken parts left out. -/
def structural (dialect : Script.Dialect) (file content : String)
    (reader : Script.Reader := Script.read) : List Reference :=
  ofTree file (reader dialect content).root

/-- The references of a script. -/
def ofScript (reader : Script.Reader) (dialect : Script.Dialect) (file content : String) :
    Extraction :=
  let tree := reader dialect content
  if tree.hasError then { references := Fallback.references file content, degraded := true }
  else { references := ofTree file tree.root }

/-! ## Blocks of markup -/

/-- What follows a given beginning, letter case aside. -/
def restAnyCase? : List Char → List Char → Option (List Char)
  | [], cs => some cs
  | _ :: _, [] => none
  | p :: ps, c :: cs => if Text.sameLetter p c then restAnyCase? ps cs else none

/-- The closing tag of an element and what follows it. -/
def closingTag? (element cs : List Char) : Option (List Char) := do
  let rest ← restAnyCase? element (← Text.rest? ['<', '/'] cs)
  match skipSpace rest with
  | '>' :: rest => some rest
  | _ => none

/-- The characters before the first closing tag, and what follows it. -/
def untilClosing? (element : List Char) : List Char → Option (List Char × List Char)
  | [] => none
  | c :: cs =>
    match closingTag? element (c :: cs) with
    | some rest => some ([], rest)
    | none => (untilClosing? element cs).map fun (body, rest) => (c :: body, rest)

/-- An element of markup: the text of its attributes, its content, and how
many characters stand before the content. -/
structure Block where
  attributes : List Char
  content : List Char
  before : Nat

/-- An element with its opening and closing tag. -/
def block? (element : List Char) : Phrase Block := fun cs => do
  let rest ← restAnyCase? element (← Text.rest? ['<'] cs)
  guard ((rest.head?.map Text.isWord) != some true)
  let attributes := rest.takeWhile (· != '>')
  match rest.drop attributes.length with
  | '>' :: inside =>
    let (content, rest) ← untilClosing? element inside
    some ({ attributes, content, before := taken cs inside }, taken cs rest)
  | _ => none

/-- The blocks of an element and how many characters stand before the content
of each. -/
def blocks (element : String) (content : List Char) : List (Block × Nat) :=
  (findAll (fun _ => true) (block? element.toList) content).map fun (position, b) =>
    (b, position + b.before)

/-- The value of a `lang` attribute at the front. -/
def lang? : Phrase String := fun cs => do
  match skipSpace (← Text.rest? "lang".toList cs) with
  | '=' :: rest =>
    let rest := skipSpace rest
    let rest := match rest with
      | c :: more => if c == '"' || c == '\'' then more else rest
      | [] => []
    let value := rest.takeWhile Text.isWord
    guard (!value.isEmpty)
    some (String.ofList value, taken cs (rest.drop value.length))
  | _ => none

/-- The dialect that the attributes of a script block ask for. -/
def dialectOf (attributes : List Char) : Script.Dialect :=
  match findAll (fun c => c.map Text.isWord != some true) lang? attributes with
  | (_, value) :: _ =>
    let value := Text.lowerAscii value
    if value == "ts" || value == "typescript" then .typescript
    else if value == "tsx" then .tsx
    else .javascript
  | [] => .javascript

/-- The references of markup, by line; of one line scripts come first. -/
def ofMarkup (reader : Script.Reader) (file content : String) : Extraction :=
  let text := content.toList
  let scripts : List Extraction := (blocks "script" text).map fun (b, start) =>
    let e := ofScript reader (dialectOf b.attributes) file (String.ofList b.content)
    { e with references := e.references.map fun r => r.shift (Text.newlines (text.take start)) }
  let styles := (blocks "style" text).flatMap fun (b, start) =>
    Stylesheet.references file (String.ofList b.content) (Text.newlines (text.take start))
  { references := (scripts.flatMap Extraction.references ++ styles).mergeSort
      fun a b => decide (a.line ≤ b.line)
    degraded := scripts.any Extraction.degraded }

/-- The references of a file. Without a language the extension decides; a
file with no known extension is taken for a script. -/
def extract (file content : String) (language : Option Language)
    (reader : Script.Reader := Script.read) : Extraction :=
  match (language.or (Language.ofPath? file)).getD .script with
  | .stylesheet => { references := Stylesheet.references file content 0 }
  | .markup => ofMarkup reader file content
  | .script => ofScript reader (Script.Dialect.ofPath file) file content

end PackageAudit.Import
