/-
PackageAudit.Json.Printer — writing JSON documents.

Two layouts: everything on one line, and one value per line with an indent
of two blanks per level. Both write plain ASCII: every other character is
escaped by its UTF-16 units.
-/
import PackageAudit.Json.Basic
import PackageAudit.Number.Shortest
import PackageAudit.Text.Quoted

namespace PackageAudit.Json

/-- The escape of one UTF-16 unit. -/
def unitEscape (n : Nat) : List Char := '\\' :: 'u' :: Text.hexDigits 4 n

/-- One character of a string. -/
def encodeChar (c : Char) : List Char :=
  if c == '"' then ['\\', '"']
  else if c == '\\' then ['\\', '\\']
  else if c == '\n' then ['\\', 'n']
  else if c == '\r' then ['\\', 'r']
  else if c == '\t' then ['\\', 't']
  else if c == '\x08' then ['\\', 'b']
  else if c == '\x0c' then ['\\', 'f']
  else if 32 ≤ c.toNat && c.toNat < 127 then [c]
  else if c.toNat < 65536 then unitEscape c.toNat
  else
    let n := c.toNat - 65536
    unitEscape (0xD800 + n / 1024) ++ unitEscape (0xDC00 + n % 1024)

/-- A string with its quotes. -/
def encodeString (s : String) : String :=
  String.ofList ('"' :: s.toList.flatMap encodeChar ++ ['"'])

/-- The text of a number that is no integer. -/
def encodeReal : Number.Real → String
  | .notANumber => "NaN"
  | .infinite negative => if negative then "-Infinity" else "Infinity"
  | r => r.toText

mutual

/-- A value on one line. -/
def compact : Json → String
  | .null => "null"
  | .bool b => if b then "true" else "false"
  | .int n => toString n
  | .real r => encodeReal r
  | .str s => encodeString s
  | .arr xs => "[" ++ ",".intercalate (compactItems xs) ++ "]"
  | .obj m => "\x7b" ++ ",".intercalate (compactMembers m) ++ "\x7d"

/-- The items of an array, each on one line. -/
def compactItems : List Json → List String
  | [] => []
  | x :: xs => compact x :: compactItems xs

/-- The members of an object, each on one line. -/
def compactMembers : List (String × Json) → List String
  | [] => []
  | (name, v) :: rest => (encodeString name ++ ":" ++ compact v) :: compactMembers rest

end

/-- A line end and the indent of a level. -/
def lineOf (level : Nat) : String := String.ofList ('\n' :: List.replicate (2 * level) ' ')

mutual

/-- A value with one member or item per line, from a level on. -/
def indentedFrom (level : Nat) : Json → String
  | .arr [] => "[]"
  | .arr (x :: xs) =>
    "[" ++ lineOf (level + 1) ++
      ("," ++ lineOf (level + 1)).intercalate (indentedItems (level + 1) (x :: xs)) ++
      lineOf level ++ "]"
  | .obj [] => "\x7b\x7d"
  | .obj (p :: m) =>
    "\x7b" ++ lineOf (level + 1) ++
      ("," ++ lineOf (level + 1)).intercalate (indentedMembers (level + 1) (p :: m)) ++
      lineOf level ++ "\x7d"
  | v => compact v

/-- The items of an array at a level. -/
def indentedItems (level : Nat) : List Json → List String
  | [] => []
  | x :: xs => indentedFrom level x :: indentedItems level xs

/-- The members of an object at a level. -/
def indentedMembers (level : Nat) : List (String × Json) → List String
  | [] => []
  | (name, v) :: rest =>
    (encodeString name ++ ": " ++ indentedFrom level v) :: indentedMembers level rest

end

/-- A value with one member or item per line. -/
def indented (v : Json) : String := indentedFrom 0 v

end PackageAudit.Json
