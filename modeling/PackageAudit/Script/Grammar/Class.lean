/-
PackageAudit.Script.Grammar.Class — classes.
-/
import PackageAudit.Script.Grammar.Type

namespace PackageAudit.Script.Grammar

open P

/-- Words before the name of a class member. -/
def memberWords (typed : Bool) : List String :=
  let plain := ["static", "async", "get", "set"]
  if typed then plain ++ ["public", "private", "protected", "override", "readonly", "declare",
    "abstract", "accessor"]
  else plain

/-- The end of a field or of a method without a body. -/
def memberEnd : P Unit := do
  if !(← attempt (do guard (← typed); mark ",")) then plainSemicolon

/-- A block that runs when the class is made. -/
def staticBlock (g : Rules) : P Unit := node .member do
  keyword "static"
  g .block

/-- A field or a method. -/
def fieldOrMethod (g : Rules) : P Unit := node .member do
  many (decorator g)
  modifiers (memberWords (← typed))
  propertyName g
  ifTyped (optional (oneOf [mark "?", mark "!" "="]))
  let next := (← ahead).head?
  if next == some '(' || (next == some '<' && (← typed)) then
    g .callSignature
    if ← sees "\x7b" then
      g .block
      optional (mark ";")
    else
      guard (← typed)
      memberEnd
  else
    ifTyped (optional (typeMark g))
    optional (initializer g)
    if ← typed then memberEnd else semicolon

/-- A member of a class. -/
def classMember (g : Rules) : P Unit := do
  if ← sees ";" then take .token 1
  else oneOf [staticBlock g, do guard (← typed); indexSignature g; memberEnd, fieldOrMethod g]

/-- What a class extends and implements. -/
def heritage (g : Rules) : P Unit := do
  optional do
    keyword "extends"
    if ← typed then commas1 do
      leftHandSide g
      optional (g .typeArguments)
    else g .unary
  ifTyped do
    optional do
      keyword "implements"
      commas1 (g .type)

/-- Everything of a class behind the keyword: name, heritage and members. -/
def classBody (g : Rules) : P Unit := do
  optional do
    guard (!(← lookahead (do keyword "implements"; name)))
    name
  ifTyped (optional (typeParameters g))
  heritage g
  node .clause do
    mark "\x7b"
    open_ (many (classMember g))
    mark "\x7d"

end PackageAudit.Script.Grammar
