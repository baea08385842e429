/-
PackageAudit.Version.Range — version ranges of package manifests.

A range is a list of alternatives, each a comparator set, written with `||`
between them. An alternative is a hyphen range `low - high` or a list of
words, each an operator and a partial version; white space between an
operator and its version is ignored. A leading `workspace:` or
`npm:name@` says where the package comes from and is dropped.
-/
import PackageAudit.Version.Partial

namespace PackageAudit

/-- A value that is no range. -/
structure InvalidRange where
  value : Json

/-- The message for a value that is no range. -/
def InvalidRange.message (e : InvalidRange) : String := s!"Invalid range: {e.value.inspect}"

/-- A range: its text and its alternatives. -/
structure Range where
  raw : String
  sets : List ComparatorSet
  deriving DecidableEq, Repr

namespace Range

/-- Some alternative admits the version. -/
def admits (r : Range) (v : Version) : Bool := r.sets.any (·.admits v)

/-! ## 1. Words -/

/-- The operators of a range. -/
inductive Operator where
  | bare
  | caret
  | tilde
  | above
  | onward
  | under
  | upTo
  deriving DecidableEq, Repr

/-- The operator at the front of a word and the rest; `=` means nothing. -/
def operator : List Char → Operator × List Char
  | '^' :: cs => (.caret, cs)
  | '~' :: '>' :: cs => (.tilde, cs)
  | '~' :: cs => (.tilde, cs)
  | '<' :: '=' :: cs => (.upTo, cs)
  | '<' :: cs => (.under, cs)
  | '>' :: '=' :: cs => (.onward, cs)
  | '>' :: cs => (.above, cs)
  | '=' :: cs => (.bare, cs)
  | cs => (.bare, cs)

/-- The comparators of an operator on a partial version. -/
def Operator.apply : Operator → PartialVersion → ComparatorSet
  | .bare, p => p.completions
  | .caret, p => p.caret
  | .tilde, p => p.tilde
  | .above, p => p.above
  | .onward, p => p.onward
  | .under, p => p.under
  | .upTo, p => p.upTo

/-- The comparators of one word. -/
def wordComparators? (word : List Char) : Option ComparatorSet := do
  let (op, rest) := operator word
  return op.apply (← PartialVersion.parse? rest)

/-- The comparators of `low - high`. -/
def hyphenComparators? (low high : List Char) : Option ComparatorSet := do
  let lower ← PartialVersion.parse? low
  let upper ← PartialVersion.parse? high
  return lower.onward ++ upper.upTo

/-! ## 2. Alternatives -/

/-- A character that is an operator by itself. -/
def isOperatorChar (c : Char) : Bool :=
  c == '^' || c == '~' || c == '<' || c == '>' || c == '='

/-- Drops the white space after operators; `after` says that one was just read. -/
def joinOperators (after : Bool) : List Char → List Char
  | [] => []
  | c :: cs =>
    if after && Text.isSpace c then joinOperators true cs
    else c :: joinOperators (isOperatorChar c) cs

/-- All words of an alternative together. -/
def wordsComparators? : List (List Char) → Option ComparatorSet
  | [] => some []
  | w :: ws => do return (← wordComparators? w) ++ (← wordsComparators? ws)

/-- The comparator set of one alternative. -/
def alternative? (part : List Char) : Option ComparatorSet :=
  match Text.words part with
  | [low, ['-'], high] => hyphenComparators? low high
  | _ => wordsComparators? (Text.words (joinOperators false part))

/-! ## 3. Ranges -/

/-- The name and the `@` of an `npm:` source. -/
def afterNpmName? (cs : List Char) : Option (List Char) :=
  let cs := match cs with
    | '@' :: rest => rest
    | _ => cs
  let name := cs.takeWhile fun c => c != '@' && !Text.isSpace c
  match name, cs.drop name.length with
  | _ :: _, '@' :: rest => some rest
  | _, _ => none

/-- Drops a leading source of the package. -/
def dropSource (cs : List Char) : List Char :=
  match Text.rest? "workspace:".toList cs with
  | some rest => rest
  | none =>
    match (Text.rest? "npm:".toList cs).bind afterNpmName? with
    | some rest => rest
    | none => cs

/-- The alternatives of a range text. -/
def sets? (text : List Char) : Option (List ComparatorSet) :=
  (Text.splitAtPair '|' '|' (dropSource (Text.trimBoth Text.isSpace text))).mapM fun part =>
    alternative? (Text.trimBoth Text.isSpace part)

/-- The range that a text writes. -/
def parse? (text : String) : Option Range := (sets? text.toList).map fun sets => ⟨text, sets⟩

/-- The range that a value writes. -/
def ofJson (value : Json) : Except InvalidRange Range :=
  match value.string?.bind parse? with
  | some r => .ok r
  | none => .error ⟨value⟩

end Range

end PackageAudit
