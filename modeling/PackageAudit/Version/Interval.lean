/-
PackageAudit.Version.Interval — ranges as unions of intervals.

An interval has two ends, each open, closed or absent. The interval of a
comparator set keeps the strongest bound on either side. Intersecting ranges
is intersecting their intervals pairwise and dropping the empty ones: a
bounded comparison of the ends, with no version tried out.
-/
import PackageAudit.Version.Range

namespace PackageAudit

/-- A contiguous set of versions; an absent end is unbounded. -/
structure Interval where
  lower : Option Version := none
  lowerInclusive : Bool := true
  upper : Option Version := none
  upperInclusive : Bool := true
  deriving DecidableEq, BEq, Repr

namespace Interval

/-! ## 1. Intersection -/

/-- No version lies between the ends. -/
def isEmpty (i : Interval) : Bool :=
  match i.lower, i.upper with
  | some l, some u => l.exceeds u || (l == u && !(i.lowerInclusive && i.upperInclusive))
  | _, _ => false

/-- The second lower end is the stronger one. -/
def raises (lower : Option Version) (other : Version) (otherInclusive : Bool) : Bool :=
  match lower with
  | none => true
  | some l => other.exceeds l || (other == l && !otherInclusive)

/-- The second upper end is the stronger one. -/
def lowers (upper : Option Version) (other : Version) (otherInclusive : Bool) : Bool :=
  match upper with
  | none => true
  | some u => other.precedes u || (other == u && !otherInclusive)

/-- The lower end of an intersection. -/
def meetLower (a b : Interval) : Option Version × Bool :=
  match b.lower with
  | some l => if raises a.lower l b.lowerInclusive then (some l, b.lowerInclusive)
      else (a.lower, a.lowerInclusive)
  | none => (a.lower, a.lowerInclusive)

/-- The upper end of an intersection. -/
def meetUpper (a b : Interval) : Option Version × Bool :=
  match b.upper with
  | some u => if lowers a.upper u b.upperInclusive then (some u, b.upperInclusive)
      else (a.upper, a.upperInclusive)
  | none => (a.upper, a.upperInclusive)

/-- The stronger end on either side. -/
def meet (a b : Interval) : Interval :=
  let l := meetLower a b
  let u := meetUpper a b
  ⟨l.1, l.2, u.1, u.2⟩

/-- The interval of one comparator. -/
def ofComparator (c : Comparator) : Interval :=
  match c.relation with
  | .greater => { lower := some c.version, lowerInclusive := false }
  | .atLeast => { lower := some c.version }
  | .less => { upper := some c.version, upperInclusive := false }
  | .atMost => { upper := some c.version }
  | .equal => { lower := some c.version, upper := some c.version }

/-- The interval of a comparator set. -/
def ofSet (s : ComparatorSet) : Interval := s.foldl (fun i c => i.meet (ofComparator c)) {}

/-- The version lies between the ends. -/
def contains (i : Interval) (v : Version) : Bool :=
  (match i.lower with
    | none => true
    | some l => if i.lowerInclusive then v.atLeast l else v.exceeds l) &&
  (match i.upper with
    | none => true
    | some u => if i.upperInclusive then v.atMost u else v.precedes u)

/-! ## 2. Text -/

/-- The upper end that a caret on `v` stands for. -/
def caretCeiling (v : Version) : Version :=
  if v.major > 0 then PartialVersion.ceiling (v.major + 1)
  else if v.minor > 0 then PartialVersion.ceiling 0 (v.minor + 1)
  else PartialVersion.ceiling 0 0 (v.patch + 1)

/-- A lower end as a comparator text. -/
def lowerText (i : Interval) : List String :=
  match i.lower with
  | none => []
  | some l => [(if i.lowerInclusive then ">=" else ">") ++ l.toText]

/-- An upper end as a comparator text; the least prerelease need not be named. -/
def upperText (i : Interval) : List String :=
  match i.upper with
  | none => []
  | some u =>
    let u := if !i.upperInclusive && u.prerelease == ["0"] then { u with prerelease := [] } else u
    [(if i.upperInclusive then "<=" else "<") ++ u.toText]

/-- The ends one after the other. -/
def boundsText (i : Interval) : String := " ".intercalate (i.lowerText ++ i.upperText)

/-- The shortest common range form: `*`, a caret, a tilde, one version, or
the ends. -/
def toExpression (i : Interval) : String :=
  match i.lower, i.upper with
  | none, none => "*"
  | some l, some u =>
    if i.lowerInclusive then
      if !i.upperInclusive && u == caretCeiling l then "^" ++ l.toText
      else if !i.upperInclusive && u == PartialVersion.ceiling l.major (l.minor + 1) then
        "~" ++ l.toText
      else if i.upperInclusive && u == l then l.toText
      else i.boundsText
    else i.boundsText
  | _, _ => i.boundsText

end Interval

namespace Range

/-- The intervals of the alternatives that are not empty. -/
def intervals (r : Range) : List Interval :=
  (r.sets.map Interval.ofSet).filter fun i => !i.isEmpty

/-- The least of a list of versions, the first of several. -/
def least? : List Version → Option Version
  | [] => none
  | v :: vs => some (vs.foldl (fun m w => if w.precedes m then w else m) v)

/-- The least lower end of the intervals, `0.0.0` for an absent one. -/
def minVersion? (r : Range) : Option Version :=
  least? (r.intervals.map fun i => i.lower.getD { major := 0, minor := 0, patch := 0 })

/-- The distinct non-empty intersections of two lists of intervals, in the
order of the first list and then of the second. -/
def meetAll (left right : List Interval) : List Interval :=
  (left.flatMap fun l => right.map fun r => l.meet r).foldl
    (fun merged i => if !i.isEmpty && !merged.contains i then merged ++ [i] else merged) []

/-- The intervals that every range of the list admits. -/
def intersect : List Range → List Interval
  | [] => [{}]
  | r :: rs => rs.foldl (fun current s => meetAll current s.intervals) r.intervals

/-- Some version between bounds common to all ranges. -/
def haveIntersection (ranges : List Range) : Bool := !(intersect ranges).isEmpty

end Range

end PackageAudit
