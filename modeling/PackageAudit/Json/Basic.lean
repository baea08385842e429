/-
PackageAudit.Json.Basic — JSON values.

Integers and other numbers are told apart, since they are shown
differently: a number written with a fraction or an exponent is a `real`,
even when its value is whole. The members of an object are a table: in the
order of first appearance, each name once.
-/
import PackageAudit.Table
import PackageAudit.Number.Binary

namespace PackageAudit

/-- A JSON value. -/
inductive Json where
  | null
  | bool (value : Bool)
  | int (value : Int)
  | real (value : Number.Real)
  | str (value : String)
  | arr (items : List Json)
  | obj (members : List (String × Json))
  deriving Inhabited

namespace Json

/-- The text of a string value. -/
def string? : Json → Option String
  | .str s => some s
  | _ => none

/-- The items of an array. -/
def items? : Json → Option (List Json)
  | .arr xs => some xs
  | _ => none

/-- The members of an object. -/
def members? : Json → Option (Table Json)
  | .obj m => some m
  | _ => none

/-- The value of a member of an object. -/
def member? (v : Json) (name : String) : Option Json :=
  match v with
  | .obj m => Table.get? m name
  | _ => none

/-- Neither null, false, zero nor empty. -/
def holds : Json → Bool
  | .null => false
  | .bool b => b
  | .int n => n != 0
  | .real r => !r.isZero
  | .str s => !s.isEmpty
  | .arr xs => !xs.isEmpty
  | .obj m => !m.isEmpty

/-- A natural number. -/
def ofNat (n : Nat) : Json := .int n

/-- A text, or null without one. -/
def ofText? : Option String → Json
  | some s => .str s
  | none => .null

/-- An array of texts. -/
def ofTexts (xs : List String) : Json := .arr (xs.map .str)

end Json

end PackageAudit
