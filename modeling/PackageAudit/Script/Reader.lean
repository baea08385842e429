/-
PackageAudit.Script.Reader — reading a whole script.

The rules of the grammar refer to each other through their names. The fuel
bounds how deep they nest: a script has no more levels than characters, and
one level passes through a few rules only.

This grammar is one reader of scripts, and the program uses it. Whatever takes
references or configurations from scripts has the reader as a parameter
(`Reader`), so that what is proved of an audit does not rest on how scripts are
parsed: it holds for every reader. Only what is computed of single projects
uses the grammar.
-/
import PackageAudit.Script.Grammar.Statement

namespace PackageAudit.Script

/-- How a script is read: a dialect and a source text have a syntax tree. -/
abbrev Reader := Dialect → String → Tree

/-- The rules, given the rules that they refer to. -/
def Grammar.rule (g : Rules) : Rules
  | .statement => Grammar.statement g
  | .block => Grammar.block g
  | .expression => Grammar.expression g
  | .assignment => Grammar.assignment g
  | .unary => Grammar.unary g
  | .pattern => Grammar.pattern g
  | .type => Grammar.type g
  | .primaryType => Grammar.primaryType g
  | .arguments => Grammar.arguments g
  | .template => Grammar.template g
  | .markupElement => Grammar.markupElement g
  | .declaration => Grammar.declaration g
  | .callSignature => Grammar.callSignature g
  | .typeArguments => Grammar.typeArguments g
  | .classBody => Grammar.classBody g
  | .objectType => Grammar.objectType g

/-- The rules to a given depth. -/
def Grammar.rules : Nat → Rules
  | 0 => fun _ => failure
  | fuel + 1 => Grammar.rule (Grammar.rules fuel)

/-- The state before the first token. -/
def State.initial (dialect : Dialect) (source : List Char) : State :=
  let p : Place := ⟨source, 0, 1⟩
  P.settle { here := p, last := p, waiting := [], newline := false, frame := [], start := p
             enclosed := false, inTernary := false, dialect } p

/-- Passes over a first line that names an interpreter. -/
def hashBang : P Unit := do
  guard (← P.sees "#!")
  P.take .comment ((← P.ahead).takeWhile fun c => !Lexeme.isLineEnd c).length

/-- Reads a script by the grammar. -/
def read (dialect : Dialect) (source : String) : Tree :=
  let cs := source.toList
  let g := Grammar.rules (16 * cs.length + 64)
  let program : P Unit := do
    P.optional hashBang
    P.many (g .statement)
  match program (State.initial dialect cs) with
  | none => ⟨.node .program none 1 source [], true⟩
  | some (_, s) =>
    ⟨.node .program none 1 source (s.waiting ++ s.frame).reverse, !s.here.rest.isEmpty⟩

end PackageAudit.Script
