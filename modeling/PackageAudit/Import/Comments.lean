/-
PackageAudit.Import.Comments — taking comments out of a text without moving
its lines.

A block comment leaves its line ends behind. A line comment goes up to its
line end; where one may begin depends on the character before it, so that
the two slashes of an address are left alone.
-/
import PackageAudit.Text.Cut

namespace PackageAudit.Import

/-- The number of characters of a block comment from behind its opening. -/
def blockEnd? : List Char → Option Nat
  | '*' :: '/' :: _ => some 2
  | _ :: cs => (blockEnd? cs).map (· + 1)
  | [] => none

/-- Takes out block comments; `skip` counts the characters of a comment that
are still to be passed over, of which line ends stay. -/
def dropBlocksFrom : Nat → List Char → List Char
  | _, [] => []
  | skip + 1, c :: cs => if c == '\n' then c :: dropBlocksFrom skip cs else dropBlocksFrom skip cs
  | 0, c :: cs =>
    match c, cs with
    | '/', '*' :: rest =>
      match blockEnd? rest with
      | some n => dropBlocksFrom (n + 1) cs
      | none => c :: dropBlocksFrom 0 cs
    | _, _ => c :: dropBlocksFrom 0 cs

/-- Takes out block comments. One without an end is no comment. -/
def dropBlocks (cs : List Char) : List Char := dropBlocksFrom 0 cs

/-- Takes out line comments. `free` says of the character before, absent at
the start, that a comment may follow it; `inside` that one is open. -/
def dropLinesFrom (free : Option Char → Bool) : Bool → Option Char → List Char → List Char
  | _, _, [] => []
  | true, before, c :: cs =>
    if c == '\n' then c :: dropLinesFrom free false (some c) cs
    else dropLinesFrom free true before cs
  | false, before, c :: cs =>
    if c == '/' && cs.head? == some '/' && free before then dropLinesFrom free true before cs
    else c :: dropLinesFrom free false (some c) cs

/-- In a script a line comment begins a line or follows white space, a
semicolon, a brace or a parenthesis. -/
def scriptFree : Option Char → Bool
  | none => true
  | some c => Text.isSpace c || c == ';' || c == '{' || c == '}' || c == '(' || c == ')'

/-- In a stylesheet a line comment follows anything but a colon, a quote, an
opening parenthesis or a slash. -/
def styleFree : Option Char → Bool
  | none => true
  | some c => !(c == ':' || c == '\'' || c == '"' || c == '(' || c == '/')

/-- A script without its comments. -/
def dropScriptComments (cs : List Char) : List Char :=
  dropLinesFrom scriptFree false none (dropBlocks cs)

/-- A stylesheet without its comments. -/
def dropStyleComments (cs : List Char) : List Char :=
  dropLinesFrom styleFree false none (dropBlocks cs)

end PackageAudit.Import
