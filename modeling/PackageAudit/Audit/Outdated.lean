/-
PackageAudit.Audit.Outdated — declared packages whose ranges do not admit
the latest version.

A range that cannot be read is not looked up. A version that cannot be read,
or that is lower than the least one of the range, says nothing. The answers
come in the order in which the lookups are completed: the entries are sorted
by name, the warnings stay in that order.
-/
import PackageAudit.Audit.Completion
import PackageAudit.Manifest.Basic
import PackageAudit.Registry.Lookup
import PackageAudit.Version.Interval

namespace PackageAudit

/-- A declared package whose range does not admit the latest version. -/
structure Outdated where
  name : String
  range : String
  latest : String
  step : String
  type : DependencyType
  deriving DecidableEq, BEq, Repr, Inhabited

namespace Outdated

/-- An entry as a report shows it. -/
def toJson (o : Outdated) : Json := .obj [
  ("name", .str o.name), ("current", .str o.range), ("latest", .str o.latest),
  ("update_type", .str o.step), ("type", .str o.type.name)]

/-- How the latest version of a package is found out. -/
abbrev Lookup := String → Except LookupError Json

/-- A declared package, its range, and what was found out about it. -/
structure Answer where
  declared : Declared
  range : Range
  latest : Except LookupError Json

/-- The declared packages whose ranges can be read, each looked up. -/
def answers (lookup : Lookup) (declared : List Declared) : List Answer :=
  declared.filterMap fun d => (Range.parse? d.range).map fun r => ⟨d, r, lookup d.name⟩

/-- The entry of a package, given its latest version. -/
def ofLatest? (d : Declared) (r : Range) (latest : String) : Option Outdated := do
  let v ← Version.parse? latest
  let least ← r.minVersion?
  guard (!r.admits v && !v.precedes least)
  return { name := d.name, range := d.range, latest, step := (least.stepTo v).name, type := d.type }

/-- The entry of an answer. -/
def ofAnswer? (a : Answer) : Option Outdated :=
  match a.latest with
  | .ok (.str latest) => ofLatest? a.declared a.range latest
  | _ => none

/-- The warning of an answer. -/
def warning? (a : Answer) : Option Warning :=
  match a.latest with
  | .error e => if e.isFailure then some ⟨.lookupFailed, e.message, none⟩ else none
  | .ok _ => none

/-- What an answer cannot go on from. -/
def stop? (a : Answer) : Option LookupError :=
  match a.latest with
  | .error e => if e.isFailure then none else some e
  | .ok _ => none

/-- Entries by name. -/
def byName (entries : List Outdated) : List Outdated :=
  entries.mergeSort fun a b => decide (a.name ≤ b.name)

/-- The entries and warnings of some answers, in whatever order they came. -/
def collect (answers : List Answer) : Except LookupError (List Outdated × List Warning) :=
  match answers.findSome? stop? with
  | some e => .error e
  | none => .ok (byName (answers.filterMap ofAnswer?), answers.filterMap warning?)

/-- The declared packages that are outdated, all looked up at once. -/
def checkIn (order : (n : Nat) → Completion n) (lookup : Lookup) (declared : List Declared) :
    Except LookupError (List Outdated × List Warning) :=
  collect (Completion.arrange (answers lookup declared) (order _))

/-- The declared packages that are outdated. -/
def check (lookup : Lookup) (declared : List Declared) :
    Except LookupError (List Outdated × List Warning) :=
  checkIn Completion.inOrder lookup declared

end Outdated

end PackageAudit
