/-
PackageAudit.Script.Node — syntax trees of scripts.

A tree keeps every token of its source, comments included, in reading
order. The kinds that the audit asks for have a name of their own; the rest
of the grammar is told apart only by its class (a statement, a type, ...).
A child may play a role in its parent, such as the source of an import.

Both walks below use an explicit stack of nodes still to be visited: take
one, put its children in front of the others. This is the recursive
pre-order `Node.preorder`.
-/

namespace PackageAudit.Script

/-- What a node is. The last group are classes of nodes nobody looks for. -/
inductive Kind where
  | program
  | importStatement
  | importRequireClause
  | exportStatement
  | callExpression
  | newExpression
  | memberExpression
  | subscriptExpression
  | nonNullExpression
  | parenthesizedExpression
  | asExpression
  | satisfiesExpression
  | importKeyword
  | identifier
  | propertyIdentifier
  | string
  | templateString
  | templateSubstitution
  | regex
  | regexPattern
  | regexFlags
  | object
  | pair
  | array
  | variableDeclarator
  | arguments
  | comment
  | statement
  | declaration
  | member
  | clause
  | expression
  | literal
  | pattern
  | type
  | markup
  | token
  deriving DecidableEq, BEq, Repr, Inhabited

/-- Punctuation and keywords are tokens; everything else is named. -/
def Kind.isNamed (k : Kind) : Bool := k != .token

/-- The part that a child plays in its parent. -/
inductive Role where
  | source
  | function
  | arguments
  | object
  | property
  | name
  | value
  | key
  | pattern
  | flags
  deriving DecidableEq, BEq, Repr

/-- A node: its kind, its role in the parent, the line on which it starts
(the first line is line 1), its source text and its children. -/
inductive Node where
  | node (kind : Kind) (role : Option Role) (line : Nat) (text : String) (children : List Node)
  deriving Inhabited

namespace Node

/-- What the node is. -/
def kind : Node → Kind
  | .node k _ _ _ _ => k

/-- The role in the parent. -/
def role : Node → Option Role
  | .node _ r _ _ _ => r

/-- The line on which the node starts. -/
def line : Node → Nat
  | .node _ _ l _ _ => l

/-- The source text of the node. -/
def text : Node → String
  | .node _ _ _ t _ => t

/-- All children. -/
def children : Node → List Node
  | .node _ _ _ _ cs => cs

/-- The children that are no tokens. -/
def namedChildren (n : Node) : List Node := n.children.filter fun c => c.kind.isNamed

/-- The first child with a role. -/
def child? (n : Node) (r : Role) : Option Node := n.children.find? fun c => c.role == some r

/-- The node in a role. -/
def withRole (r : Role) : Node → Node
  | .node k _ l t cs => .node k (some r) l t cs

/-! ## 1. Size -/

mutual

/-- The number of nodes of a tree. -/
def size : Node → Nat
  | .node _ _ _ _ cs => 1 + sizes cs

/-- The number of nodes of several trees. -/
def sizes : List Node → Nat
  | [] => 0
  | n :: ns => size n + sizes ns

end

theorem size_eq (n : Node) : n.size = 1 + sizes n.children := by
  cases n; rw [size, children]

theorem sizes_append (as bs : List Node) : sizes (as ++ bs) = sizes as + sizes bs := by
  induction as with
  | nil => simp [sizes]
  | cons a as ih => simp [sizes, ih, Nat.add_assoc]

theorem sizes_filter_le (p : Node → Bool) (ns : List Node) : sizes (ns.filter p) ≤ sizes ns := by
  induction ns with
  | nil => simp [sizes]
  | cons n ns ih =>
    simp only [List.filter_cons]
    split
    · simp only [sizes]; omega
    · simp only [sizes]; omega

/-! ## 2. Walks -/

mutual

/-- The nodes of a tree, a node before its children. -/
def preorder : Node → List Node
  | .node k r l t cs => .node k r l t cs :: preorders cs

/-- The nodes of several trees. -/
def preorders : List Node → List Node
  | [] => []
  | n :: ns => preorder n ++ preorders ns

end

/-- The nodes met from a stack of nodes still to be visited. -/
def walkFrom : List Node → List Node
  | [] => []
  | n :: rest => n :: walkFrom (n.children ++ rest)
termination_by stack => sizes stack
decreasing_by rw [sizes_append, sizes, size_eq]; omega

/-- The nodes of a tree by a stack. -/
def walk (n : Node) : List Node := walkFrom [n]

/-- The named nodes met from a stack of nodes still to be visited. -/
def walkNamedFrom : List Node → List Node
  | [] => []
  | n :: rest => n :: walkNamedFrom (n.namedChildren ++ rest)
termination_by stack => sizes stack
decreasing_by
  have h := sizes_filter_le (fun c => c.kind.isNamed) n.children
  rw [sizes_append, sizes, size_eq, namedChildren]; omega

/-- The node and the named nodes below it that are reached through named
nodes only. -/
def walkNamed (n : Node) : List Node := walkNamedFrom [n]

end Node

/-- The result of reading a script. With an error, the root holds what was
read before the first statement that did not parse. -/
structure Tree where
  root : Node
  hasError : Bool

end PackageAudit.Script
