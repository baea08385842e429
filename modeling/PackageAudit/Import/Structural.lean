/-
PackageAudit.Import.Structural — the references in a syntax tree.

Import and export statements name their source. Of calls, those of `import`,
`require` and `require.resolve` count, and of their arguments only the
first, comments included. A specifier is a string or a template without
substitutions, taken as it stands between its quotes; a blank one is none.
-/
import PackageAudit.Import.Reference
import PackageAudit.Script.Literal

namespace PackageAudit.Import

open Script

/-- The kind of reference that a call makes by its function. -/
def callKind? (function : Node) : Option ImportKind :=
  match function.kind with
  | .importKeyword => some .dynamicImport
  | .identifier => if function.text == "require" then some .requireCall else none
  | .memberExpression =>
    match function.child? .object, function.child? .property with
    | some object, some property =>
      if object.text == "require" && property.text == "resolve" then some .requireResolve
      else none
    | _, _ => none
  | _ => none

/-- The kind and the source of the reference that one node makes. -/
def target? (n : Node) : Option (ImportKind × Node) :=
  match n.kind with
  | .importStatement =>
    match n.child? .source with
    | some source => some (.staticImport, source)
    | none =>
      match n.namedChildren.find? fun c => c.kind == .importRequireClause with
      | some clause => (clause.child? .source).map fun source => (.requireCall, source)
      | none => none
  | .exportStatement => (n.child? .source).map fun source => (.reExport, source)
  | .callExpression =>
    match n.child? .function, n.child? .arguments with
    | some function, some arguments =>
      match callKind? function, arguments.namedChildren with
      | some kind, first :: _ => some (kind, first)
      | _, _ => none
    | _, _ => none
  | _ => none

/-- The reference that one node makes. -/
def reference? (file : String) (n : Node) : Option Reference := do
  let (kind, source) ← target? n
  let specifier ← rawText? source
  return { specifier, kind, file, line := n.line }

/-- The references of a tree in reading order. -/
def ofTree (file : String) (root : Node) : List Reference :=
  root.walk.filterMap (reference? file)

end PackageAudit.Import
