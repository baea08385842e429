/-
PackageAudit.Regex.Error — what makes a text no pattern, and where.
-/
import PackageAudit.Text.Quoted

namespace PackageAudit.Regex

/-- Why a text is no pattern. -/
inductive Fault where
  | escapeAtEnd
  | badEscape (escape : String)
  | incompleteEscape (escape : String)
  | octalTooLarge (escape : String)
  | missingBrace
  | missingName (what : String)
  | unterminatedName (closing : Char)
  | unknownCharacterName (name : String)
  | openGroup
  | lookBehindGroup
  | unknownGroup (index : Nat)
  | unclosedSet
  | badRange (low high : String)
  | repeatBounds
  | repeatTooLarge
  | nothingToRepeat
  | multipleRepeat
  | endOfPattern
  | badGroupName (name : String)
  | unknownGroupName (name : String)
  | unknownExtension (text : String)
  | unclosedComment
  | unclosedGroup
  | zeroGroup
  | manyBranches
  | lateFlags
  | groupNameTaken (name : String) (index before : Nat)
  | closingParenthesis
  | localeFlag
  | incompatibleFlags
  | asciiAndUnicode
  | flagEnd
  | unknownFlag
  | missingFlag
  | missingColon
  | globalFlagOn
  | globalFlagOff
  | typeFlagOff
  | flagOnAndOff
  | variableWidth
  deriving DecidableEq, BEq, Repr

/-- The words for a fault. -/
def Fault.words : Fault → String
  | .escapeAtEnd => "bad escape (end of pattern)"
  | .badEscape e => "bad escape " ++ e
  | .incompleteEscape e => "incomplete escape " ++ e
  | .octalTooLarge e => "octal escape value " ++ e ++ " outside of range 0-0o377"
  | .missingBrace => "missing \x7b"
  | .missingName what => "missing " ++ what
  | .unterminatedName c => "missing " ++ c.toString ++ ", unterminated name"
  | .unknownCharacterName n => "undefined character name " ++ Text.quoted n
  | .openGroup => "cannot refer to an open group"
  | .lookBehindGroup => "cannot refer to group defined in the same lookbehind subpattern"
  | .unknownGroup i => s!"invalid group reference {i}"
  | .unclosedSet => "unterminated character set"
  | .badRange a b => "bad character range " ++ a ++ "-" ++ b
  | .repeatBounds => "min repeat greater than max repeat"
  | .repeatTooLarge => "the repetition number is too large"
  | .nothingToRepeat => "nothing to repeat"
  | .multipleRepeat => "multiple repeat"
  | .endOfPattern => "unexpected end of pattern"
  | .badGroupName n => "bad character in group name " ++ Text.quoted n
  | .unknownGroupName n => "unknown group name " ++ Text.quoted n
  | .unknownExtension t => "unknown extension " ++ t
  | .unclosedComment => "missing ), unterminated comment"
  | .unclosedGroup => "missing ), unterminated subpattern"
  | .zeroGroup => "bad group number"
  | .manyBranches => "conditional backref with more than two branches"
  | .lateFlags => "global flags not at the start of the expression"
  | .groupNameTaken n i b =>
    "redefinition of group name " ++ Text.quoted n ++ s!" as group {i}; was group {b}"
  | .closingParenthesis => "unbalanced parenthesis"
  | .localeFlag => "bad inline flags: cannot use 'L' flag with a str pattern"
  | .incompatibleFlags => "bad inline flags: flags 'a', 'u' and 'L' are incompatible"
  | .asciiAndUnicode => "ASCII and UNICODE flags are incompatible"
  | .flagEnd => "missing -, : or )"
  | .unknownFlag => "unknown flag"
  | .missingFlag => "missing flag"
  | .missingColon => "missing :"
  | .globalFlagOn => "bad inline flags: cannot turn on global flag"
  | .globalFlagOff => "bad inline flags: cannot turn off global flag"
  | .typeFlagOff => "bad inline flags: cannot turn off flags 'a', 'u' and 'L'"
  | .flagOnAndOff => "bad inline flags: flag turned on and off"
  | .variableWidth => "look-behind requires fixed-width pattern"

/-- The fault lies in how the text is written, not in what it asks for. -/
def Fault.isSyntax : Fault → Bool
  | .repeatTooLarge => false
  | .asciiAndUnicode => false
  | _ => true

/-- Where a fault was found: the position, and in a pattern of several lines
the line and the column too. -/
structure Place where
  position : Nat
  lineAndColumn : Option (Nat × Nat)
  deriving DecidableEq, BEq, Repr

/-- A fault, with its place if it has one. -/
structure Error where
  fault : Fault
  place : Option Place
  deriving DecidableEq, BEq, Repr

/-- A fault at a position of a pattern. -/
def Error.locate (pattern : List Char) (fault : Fault) (position : Nat) : Error :=
  let before := pattern.take position
  { fault
    place := some {
      position
      lineAndColumn := if pattern.contains '\n' then
          some (before.count '\n' + 1, (before.reverse.takeWhile (· != '\n')).length + 1)
        else none } }

/-- The message of an error. -/
def Error.message (e : Error) : String :=
  match e.place with
  | none => e.fault.words
  | some p => e.fault.words ++ s!" at position {p.position}" ++
    match p.lineAndColumn with
    | some (line, column) => s!" (line {line}, column {column})"
    | none => ""

end PackageAudit.Regex
