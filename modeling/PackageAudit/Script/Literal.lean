/-
PackageAudit.Script.Literal — the values that a script writes out.

A text is a string or a template without substitutions. Names stand for the
value of the first variable of that name in the script; parentheses and type
annotations change nothing. Whatever is computed has no value here.
-/
import PackageAudit.Path
import PackageAudit.Script.Reader
import PackageAudit.Table

namespace PackageAudit.Script

/-! ## 1. Texts -/

/-- The text between the first and the last character. -/
def inner (s : String) : String := String.ofList ((s.toList.drop 1).dropLast)

/-- The source text of a string, or of a template without substitutions,
between its quotes. A blank one is none. -/
def rawText? (n : Node) : Option String :=
  let value := inner n.text
  match n.kind with
  | .string => if Text.isBlank value then none else some value
  | .templateString =>
    if n.children.any (fun c => c.kind == .templateSubstitution) || Text.isBlank value then none
    else some value
  | _ => none

/-- What stands behind a backslash. -/
def unescapeChar : Char → Char
  | 'n' => '\n'
  | 't' => '\t'
  | 'r' => '\r'
  | '0' => '\x00'
  | c => c

/-- Escapes replaced; a backslash at the end of a line or of the text
stays. -/
def unescape : List Char → List Char
  | [] => []
  | ['\\'] => ['\\']
  | '\\' :: c :: cs => if c == '\n' then '\\' :: c :: unescape cs else unescapeChar c :: unescape cs
  | c :: cs => c :: unescape cs

/-- The value of a text. -/
def text? (n : Node) : Option String :=
  (rawText? n).map fun s => String.ofList (unescape s.toList)

/-- The name of a property: a name or a text. -/
def propertyName? (n : Node) : Option String :=
  if n.kind == .propertyIdentifier || n.kind == .identifier then some n.text else text? n

/-! ## 2. Values -/

/-- A script and the values of its variables, the first of each name. -/
structure Literals where
  tree : Tree
  bindings : Table Node

namespace Literals

/-- The name and the value that a node gives to a variable. -/
def declaration? (n : Node) : Option (String × Node) :=
  if n.kind == .variableDeclarator then
    match n.child? .name, n.child? .value with
    | some name, some value => if name.kind == .identifier then some (name.text, value) else none
    | _, _ => none
  else none

/-- The values of a script. -/
def ofTree (tree : Tree) : Literals where
  tree
  bindings := (tree.root.walkNamed.filterMap declaration?).foldl
    (fun t (name, value) => t.putNew name value) []

/-- The values of a script that a reader has read. -/
def read (reader : Reader) (dialect : Dialect) (source : String) : Literals :=
  ofTree (reader dialect source)

/-- Follows names. `seen` are the names followed so far; one that comes back
to itself has no value. The fuel bounds their number. -/
def followNames (l : Literals) : Nat → List String → Node → Option Node
  | 0, _, _ => none
  | fuel + 1, seen, n =>
    if n.kind == .identifier then
      if seen.contains n.text then none
      else (l.bindings.get? n.text).bind (l.followNames fuel (n.text :: seen))
    else some n

/-- The node changes nothing about the value of the first node in it. -/
def isWrapper (n : Node) : Bool :=
  n.kind == .asExpression || n.kind == .satisfiesExpression || n.kind == .parenthesizedExpression

/-- Takes off parentheses and type annotations; the fuel bounds their
number. -/
def unwrap : Nat → Node → Option Node
  | 0, _ => none
  | fuel + 1, n => if isWrapper n then n.namedChildren.head?.bind (unwrap fuel) else some n

/-- The node that a node stands for. -/
def dereference? (l : Literals) (n : Node) : Option Node :=
  (l.followNames (l.bindings.length + 2) [] n).bind fun n => unwrap (n.size + 1) n

/-- The values of all properties with a name, anywhere in the script. -/
def valuesOf (l : Literals) (name : String) : List Node :=
  l.tree.root.walkNamed.filterMap fun n =>
    if n.kind == .pair && (n.child? .key).bind propertyName? == some name then
      (n.child? .value).bind l.dereference?
    else none

/-- The name and the value of a property. -/
def pair? (l : Literals) (n : Node) : Option (String × Node) :=
  if n.kind == .pair then do
    let name ← (n.child? .key).bind propertyName?
    let value ← (n.child? .value).bind l.dereference?
    return (name, value)
  else none

/-- The properties of an object. -/
def pairs (l : Literals) (n : Node) : List (String × Node) :=
  if n.kind == .object then n.namedChildren.filterMap l.pair? else []

/-! ## 3. Targets -/

/-- Arrays that contain themselves, so that no first text is found. -/
structure Endless where
  deriving DecidableEq, Repr

/-- The first target among some nodes. -/
def firstTarget (target : Node → Except Endless (Option String)) :
    List Node → Except Endless (Option String)
  | [] => .ok none
  | n :: ns => do
    match ← target n with
    | some s => return some s
    | none => firstTarget target ns

/-- The texts in a call, joined as a path. -/
def callTarget (n : Node) : Option String :=
  match n.walkNamed.filterMap text? with
  | [] => none
  | parts => some (Path.joinAll parts)

/-- The text that a node stands for: a text, the first one in an array, or
the path that a call joins. The fuel bounds how deep arrays nest. -/
def targetTo (l : Literals) : Nat → Node → Except Endless (Option String)
  | 0, _ => .error {}
  | fuel + 1, n =>
    match l.dereference? n with
    | none => .ok none
    | some n =>
      match text? n with
      | some s => .ok (some s)
      | none =>
        if n.kind == .array then firstTarget (l.targetTo fuel) n.namedChildren
        else if n.kind == .callExpression || n.kind == .newExpression then .ok (callTarget n)
        else .ok none

/-- The text that a node stands for. Arrays that nest deeper than there are
nodes contain themselves. -/
def target (l : Literals) (n : Node) : Except Endless (Option String) :=
  l.targetTo (l.tree.root.size + n.size) n

end Literals

end PackageAudit.Script
