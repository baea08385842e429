/-
PackageAudit.Table — keyed values in the order in which their keys first
appeared.

The members of a JSON object, the declared dependencies, the declarations
of a configuration module: all are tables. Writing a key again changes its
value and keeps its place.
-/

namespace PackageAudit

/-- Pairs of a key and a value, each key at most once when built by `put`. -/
abbrev Table (α : Type) := List (String × α)

namespace Table

variable {α β : Type}

/-- The value of a key. -/
def get? (t : Table α) (key : String) : Option α := List.lookup key t

/-- The key is present. -/
def has (t : Table α) (key : String) : Bool := t.any (·.1 == key)

/-- Sets the value of a key: in its place, or at the end if it is new. -/
def put : Table α → String → α → Table α
  | [], key, value => [(key, value)]
  | (k, v) :: t, key, value => if k == key then (k, value) :: t else (k, v) :: put t key value

/-- Sets the value of a key unless it has one. -/
def putNew (t : Table α) (key : String) (value : α) : Table α :=
  if t.has key then t else t ++ [(key, value)]

/-- Changes the value of a key, from a start value if it is new. -/
def update (t : Table α) (key : String) (start : α) (f : α → α) : Table α :=
  t.put key (f ((t.get? key).getD start))

/-- A table from pairs, the last value of a key counting. -/
def ofPairs (pairs : List (String × α)) : Table α :=
  pairs.foldl (fun t p => t.put p.1 p.2) []

/-- Items by a key, each group in the order of the items. -/
def groupBy (key : α → String) (items : List α) : Table (List α) :=
  items.foldl (fun t x => t.update (key x) [] (· ++ [x])) []

/-- The keys in order. -/
def keys (t : Table α) : List String := t.map (·.1)

/-- The values in order. -/
def values (t : Table α) : List α := t.map (·.2)

end Table

end PackageAudit
