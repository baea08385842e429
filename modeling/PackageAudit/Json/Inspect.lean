/-
PackageAudit.Json.Inspect — a JSON value as messages show it.

`inspect` is the form inside a message: texts between quotes, `None`,
`True` and `False` for the constants. `display` shows a bare text without
its quotes; this is how a version that is not a string becomes one.
-/
import PackageAudit.Json.Basic
import PackageAudit.Number.Shortest
import PackageAudit.Text.Quoted

namespace PackageAudit.Json

mutual

/-- The form of a value inside a message. -/
def inspect : Json → String
  | .null => "None"
  | .bool b => if b then "True" else "False"
  | .int n => toString n
  | .real r => r.toText
  | .str s => Text.quoted s
  | .arr xs => "[" ++ ", ".intercalate (inspectItems xs) ++ "]"
  | .obj m => "\x7b" ++ ", ".intercalate (inspectMembers m) ++ "\x7d"

/-- The forms of the items of an array. -/
def inspectItems : List Json → List String
  | [] => []
  | x :: xs => inspect x :: inspectItems xs

/-- The forms of the members of an object. -/
def inspectMembers : List (String × Json) → List String
  | [] => []
  | (name, value) :: rest =>
    (Text.quoted name ++ ": " ++ inspect value) :: inspectMembers rest

end

/-- The text of a value: a string as it is, all else as in a message. -/
def display : Json → String
  | .str s => s
  | v => inspect v

end PackageAudit.Json
