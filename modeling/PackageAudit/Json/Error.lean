/-
PackageAudit.Json.Error — what makes a text no JSON document, and where.

A position counts characters from the start; a message also gives the line
and the column, the latter counted from the last line end.
-/

namespace PackageAudit.Json

/-- Why reading stopped. -/
inductive Fault where
  | byteOrderMark
  | expectedValue
  | expectedName
  | expectedColon
  | expectedComma
  | unclosedString
  | controlCharacter
  | badEscape
  | badUnicodeEscape
  | extraData
  deriving Repr, DecidableEq, BEq

/-- The words for a fault. -/
def Fault.words : Fault → String
  | .byteOrderMark => "Unexpected UTF-8 BOM (decode using utf-8-sig)"
  | .expectedValue => "Expecting value"
  | .expectedName => "Expecting property name enclosed in double quotes"
  | .expectedColon => "Expecting ':' delimiter"
  | .expectedComma => "Expecting ',' delimiter"
  | .unclosedString => "Unterminated string starting at"
  | .controlCharacter => "Invalid control character at"
  | .badEscape => "Invalid \\escape"
  | .badUnicodeEscape => "Invalid \\uXXXX escape"
  | .extraData => "Extra data"

/-- A fault at a position of a text. -/
structure Error where
  fault : Fault
  position : Nat
  line : Nat
  column : Nat
  deriving Repr, DecidableEq, BEq

/-- Places a fault in its text. -/
def Error.locate (text : List Char) (fault : Fault) (position : Nat) : Error :=
  let before := text.take position
  { fault, position
    line := before.count '\n' + 1
    column := (before.reverse.takeWhile (· != '\n')).length + 1 }

/-- The message of an error. -/
def Error.message (e : Error) : String :=
  s!"{e.fault.words}: line {e.line} column {e.column} (char {e.position})"

end PackageAudit.Json
