/-
PackageAudit.CommandLine.Arguments — what the words of a command line ask
for.

A word with a hyphen at the front is an option, unless it is a negative
number or has a blank in it. Long names of options may be cut short as long
as one option is meant. A value may stand behind an equals sign or in the
words that follow. Two hyphens alone end the options.

The words are read one after the other, and the first one that cannot be
taken is reported; only ambiguous options are reported before all else, and
words that are left over at the end.
-/
import PackageAudit.Options
import PackageAudit.Text.Integer

namespace PackageAudit.CommandLine

/-! ## 1. Options -/

/-- The options of the command line. -/
inductive Switch where
  | help
  | scope
  | noDev
  | noPeer
  | maxDepth
  | exclude
  | checkOutdated
  | workers
  | outputDir
  | csv
  | worksheets
  | fixScript
  | progress
  | verbose
  deriving DecidableEq, BEq, Repr, Inhabited

/-- How many words an option takes. -/
inductive Arity where
  | none
  | one
  | any
  deriving DecidableEq, BEq, Repr

namespace Switch

/-- All options. -/
def all : List Switch := [
  help, scope, noDev, noPeer, maxDepth, exclude, checkOutdated, workers, outputDir, csv,
  worksheets, fixScript, progress, verbose]

/-- The spellings of an option. -/
def spellings : Switch → List String
  | help => ["-h", "--help"]
  | scope => ["--scope"]
  | noDev => ["--no-dev"]
  | noPeer => ["--no-peer"]
  | maxDepth => ["--max-depth"]
  | exclude => ["--exclude"]
  | checkOutdated => ["--check-outdated"]
  | workers => ["--workers"]
  | outputDir => ["--output-dir"]
  | csv => ["--csv"]
  | worksheets => ["--worksheets"]
  | fixScript => ["--fix-script"]
  | progress => ["--progress"]
  | verbose => ["--verbose"]

/-- How many words an option takes. -/
def arity : Switch → Arity
  | scope => .one
  | maxDepth => .one
  | workers => .one
  | outputDir => .one
  | exclude => .any
  | _ => .none

/-- What an option is for. -/
def description : Switch → String
  | help => "show this message"
  | scope => "dependency types to check for unused entries"
  | noDev => "do not report unused development dependencies"
  | noPeer => "skip the peer dependency analysis"
  | maxDepth => "how deep installed packages may nest"
  | exclude => "paths, folder names or wildcard patterns to leave out"
  | checkOutdated => "ask the registry for latest versions"
  | workers => "number of workers"
  | outputDir => "folder for reports"
  | csv => "write the issue table as a text"
  | worksheets => "write the issue table as a workbook"
  | fixScript => "write a script that mends what it can"
  | progress => "show progress"
  | verbose => "show more messages"

/-- Every spelling with its option. -/
def table : List (String × Switch) := all.flatMap fun o => o.spellings.map fun s => (s, o)

/-- The option of a spelling. -/
def ofSpelling? (s : String) : Option Switch := table.lookup s

end Switch

/-! ## 2. Words -/

/-- Why a command line cannot be followed. -/
inductive Misuse where
  | ambiguous (word : String) (candidates : List String)
  | expectedOne (o : Switch)
  | ignoredValue (o : Switch) (value : String)
  | notInteger (o : Switch) (value : String)
  | notChoice (o : Switch) (value : String) (choices : List String)
  | missingProject
  | unrecognized (words : List String)
  | noWorkers
  | negativeDepth
  deriving DecidableEq, BEq, Repr

/-- The message of a misuse about an option. -/
def aboutOption (o : Switch) (text : String) : String :=
  "argument " ++ "/".intercalate o.spellings ++ ": " ++ text

/-- The message of a misuse. -/
def Misuse.message : Misuse → String
  | .ambiguous w cs => "ambiguous option: " ++ w ++ " could match " ++ ", ".intercalate cs
  | .expectedOne o => aboutOption o "expected one argument"
  | .ignoredValue o v => aboutOption o ("ignored explicit argument " ++ Text.quoted v)
  | .notInteger o v => aboutOption o ("invalid int value: " ++ Text.quoted v)
  | .notChoice o v cs =>
    aboutOption o ("invalid choice: " ++ Text.quoted v ++ " (choose from " ++
      ", ".intercalate (cs.map Text.quoted) ++ ")")
  | .missingProject => "the following arguments are required: project_path"
  | .unrecognized ws => "unrecognized arguments: " ++ " ".intercalate ws
  | .noWorkers => "--workers must be at least 1"
  | .negativeDepth => "--max-depth must not be negative"

/-- A word of the command line. -/
inductive Word where
  | plain (text : String)
  | option (o : Switch) (spelling : String) (value : Option String)
  | letters (o : Switch) (behind : String)
  | unknown (text : String)
  | separator
  deriving DecidableEq, BEq, Repr

/-- The word is no option. -/
def Word.isPlain : Word → Bool
  | .plain _ => true
  | _ => false

/-- The text of a plain word. -/
def Word.text? : Word → Option String
  | .plain s => some s
  | _ => none

/-- The parts before and behind the first equals sign. -/
def cutValue (s : String) : String × Option String :=
  if s.toList.contains '=' then
    let (name, value) := Text.cutAt '=' s.toList
    (String.ofList name, some (String.ofList value))
  else (s, none)

/-- What a word may mean as an option that is cut short, or as a short option
with more letters behind it. -/
def candidates (s : String) : List Word :=
  if Text.begins "--" s then
    let (start, value) := cutValue s
    (Switch.table.filter fun p => Text.begins start p.1).map fun (n, o) => .option o n value
  else
    let short := String.ofList (s.toList.take 2)
    (Switch.table.filter fun p => p.1 == short).map fun (_, o) =>
      .letters o (String.ofList (s.toList.drop 2))

/-- Digits, and nothing else but a line end. -/
def allDigits (cs : List Char) : Bool :=
  let digits := cs.takeWhile Text.isDecimal
  !digits.isEmpty && (cs.drop digits.length == [] || cs.drop digits.length == ['\n'])

/-- The text writes a negative number. -/
def isNegativeNumber (s : String) : Bool :=
  match s.toList with
  | '-' :: cs =>
    allDigits cs ||
      match cs.dropWhile Text.isDecimal with
      | '.' :: rest => allDigits rest
      | _ => false
  | _ => false

/-- A word with a hyphen at the front that is no spelling of an option. -/
def readUnknown (s : String) : Except Misuse Word :=
  match candidates s with
  | [] => .ok (if isNegativeNumber s || s.toList.contains ' ' then .plain s else .unknown s)
  | [w] => .ok w
  | ws => .error (.ambiguous s (ws.filterMap fun w => match w with
      | .option _ n _ => some n
      | _ => none))

/-- Reads a word. -/
def readWord (s : String) : Except Misuse Word :=
  if !Text.begins "-" s then .ok (.plain s)
  else match Switch.ofSpelling? s with
    | some o => .ok (.option o s none)
    | none =>
      if s == "-" then .ok (.plain s)
      else
        let (name, value) := cutValue s
        match value, Switch.ofSpelling? name with
        | some v, some o => .ok (.option o name (some v))
        | _, _ => readUnknown s

/-- Reads all words; behind two hyphens every word is plain. -/
def readWords : List String → Except Misuse (List Word)
  | [] => .ok []
  | s :: rest =>
    if s == "--" then .ok (.separator :: rest.map Word.plain)
    else do return (← readWord s) :: (← readWords rest)

/-! ## 3. What is asked for -/

/-- What a command line asks for. -/
structure Arguments where
  project : Option String := none
  scope : Scope := .all
  noDev : Bool := false
  noPeer : Bool := false
  maxDepth : Int := 5
  exclude : List String := []
  checkOutdated : Bool := false
  workers : Option Int := none
  outputDir : String := "./output"
  csv : Bool := false
  worksheets : Bool := false
  fixScript : Bool := false
  progress : Bool := false
  verbose : Bool := false
  leftOver : List String := []
  deriving Repr, Inhabited

/-- Why the reading of a command line ends early. -/
inductive Stop where
  | help
  | misuse (m : Misuse)
  deriving DecidableEq, BEq, Repr

namespace Arguments

/-- The number that a value writes. -/
def number (o : Switch) (value : String) : Except Stop Int :=
  match Text.integer? value with
  | some n => .ok n
  | none => .error (.misuse (.notInteger o value))

/-- Takes an option with one word. -/
def takeOne (a : Arguments) (o : Switch) (value : String) : Except Stop Arguments :=
  match o with
  | .scope =>
    match Scope.ofName? value with
    | some s => .ok { a with scope := s }
    | none => .error (.misuse (.notChoice o value (Scope.names.map (·.1))))
  | .maxDepth => (number o value).map fun n => { a with maxDepth := n }
  | .workers => (number o value).map fun n => { a with workers := some n }
  | .outputDir => .ok { a with outputDir := value }
  | _ => .ok a

/-- Takes an option without a word. -/
def takeNone (a : Arguments) : Switch → Except Stop Arguments
  | .help => .error .help
  | .noDev => .ok { a with noDev := true }
  | .noPeer => .ok { a with noPeer := true }
  | .checkOutdated => .ok { a with checkOutdated := true }
  | .csv => .ok { a with csv := true }
  | .worksheets => .ok { a with worksheets := true }
  | .fixScript => .ok { a with fixScript := true }
  | .progress => .ok { a with progress := true }
  | .verbose => .ok { a with verbose := true }
  | _ => .ok a

/-- Takes a short option with more letters behind it. They are short options
themselves, up to one that is none and is left over. -/
def takeLetters (a : Arguments) (o : Switch) (behind : String) : Except Stop Arguments :=
  match behind.toList.dropWhile (· == 'h') with
  | [] => a.takeNone o
  | '=' :: value => .error (.misuse (.ignoredValue o (String.ofList value)))
  | '-' :: value => .error (.misuse (.ignoredValue o (String.ofList ('-' :: value))))
  | rest => { a with leftOver := a.leftOver ++ [String.ofList ('-' :: rest)] }.takeNone o

/-- Takes an option whose value is part of its word. -/
def takeValue (a : Arguments) (o : Switch) (value : String) : Except Stop Arguments :=
  match o.arity with
  | .one => a.takeOne o value
  | .any => .ok { a with exclude := if value == "--" then [] else [value] }
  | .none => .error (.misuse (.ignoredValue o value))

/-- Takes a word that is no option: the project, unless it is known. -/
def takePlain (a : Arguments) (s : String) : Arguments :=
  if a.project.isNone then { a with project := some s }
  else { a with leftOver := a.leftOver ++ [s] }

/-- Takes all words. Behind a separator no options follow: it belongs to the
project if that is taken right before or behind it. -/
def takeWords (a : Arguments) : List Word → Except Stop Arguments
  | [] => .ok a
  | .unknown s :: ws => takeWords { a with leftOver := a.leftOver ++ [s] } ws
  | .option o _ (some v) :: ws =>
    match a.takeValue o v with
    | .error e => .error e
    | .ok a => takeWords a ws
  | .letters o behind :: ws =>
    match a.takeLetters o behind with
    | .error e => .error e
    | .ok a => takeWords a ws
  | .option o _ none :: ws =>
    match o.arity, ws with
    | .none, ws =>
      match a.takeNone o with
      | .error e => .error e
      | .ok a => takeWords a ws
    | .one, .plain v :: ws =>
      match a.takeOne o v with
      | .error e => .error e
      | .ok a => takeWords a ws
    | .one, _ => .error (.misuse (.expectedOne o))
    | .any, ws =>
      takeWords { a with exclude := (ws.takeWhile Word.isPlain).filterMap Word.text? }
        (ws.dropWhile Word.isPlain)
  | .separator :: .plain s :: ws =>
    if a.project.isNone then takeWords (a.takePlain s) ws
    else takeWords { a with leftOver := a.leftOver ++ ["--", s] } ws
  | .separator :: ws => takeWords { a with leftOver := a.leftOver ++ ["--"] } ws
  | .plain s :: .separator :: ws =>
    if a.project.isNone then takeWords (a.takePlain s) ws
    else takeWords { a with leftOver := a.leftOver ++ [s, "--"] } ws
  | .plain s :: ws => takeWords (a.takePlain s) ws
termination_by ws => ws.length
decreasing_by
  all_goals first
    | (simp only [List.length_cons]; omega)
    | exact Nat.lt_succ_of_le (List.dropWhile_sublist _).length_le

/-- What is wrong with arguments as a whole. -/
def fault? (a : Arguments) : Option Misuse :=
  if a.project.isNone then some .missingProject
  else if !a.leftOver.isEmpty then some (.unrecognized a.leftOver)
  else if a.workers.any (· < 1) then some .noWorkers
  else if a.maxDepth < 0 then some .negativeDepth
  else none

/-- Reads a command line. -/
def parse (line : List String) : Except Stop Arguments :=
  match readWords line with
  | .error m => .error (.misuse m)
  | .ok words =>
    match takeWords {} words with
    | .error e => .error e
    | .ok a =>
      match a.fault? with
      | some m => .error (.misuse m)
      | none => .ok a

/-- The options of an audit that arguments ask for. -/
def options (a : Arguments) : Options := {
  scope := a.scope
  includeDev := !a.noDev
  checkPeers := !a.noPeer
  maxTraversalDepth := a.maxDepth.toNat
  excludePatterns := a.exclude
  checkOutdated := a.checkOutdated
  maxWorkers := a.workers.map Int.toNat
  showProgress := a.progress }

end Arguments

end PackageAudit.CommandLine
