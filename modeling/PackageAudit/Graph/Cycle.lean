/-
PackageAudit.Graph.Cycle — cycles of imports.

A depth-first search from every node, in order, enters each node once. Its
state is the path from the root of the search, each node of it with the edges
that are still to be followed, beside the nodes entered so far. An edge back
to the path closes a cycle. A cycle is written from its least node on, so
that one found twice is written the same way.

Every step follows an edge or leaves the last node of the path. That the
search ends is a matter of counting: a node is entered once, and until
another one is entered there are only so many edges to follow
(`remaining_step`).
-/
import PackageAudit.Graph.Basic
import PackageAudit.Issue

namespace PackageAudit

/-- A node on the path of a search, with its edges still to be followed. -/
structure Frame where
  node : String
  pending : List String
  deriving Inhabited

/-- A search under way: the path with the last node first, the nodes entered,
and the cycles found. -/
structure CycleSearch where
  stack : List Frame := []
  entered : List String := []
  found : List (List String) := []
  deriving Inhabited

namespace CycleSearch

/-- The nodes of the path, the last one first. -/
def path (s : CycleSearch) : List String := s.stack.map Frame.node

/-- Records a cycle. -/
def record (s : CycleSearch) (cycle : List String) : CycleSearch :=
  if s.found.contains cycle then s else { s with found := s.found ++ [cycle] }

/-- What is to be done on the path: two for each edge, one for leaving. -/
def work (s : CycleSearch) : Nat :=
  s.stack.foldr (fun f rest => 2 * f.pending.length + 1 + rest) 0

@[simp] theorem stack_record (s : CycleSearch) (cycle : List String) :
    (s.record cycle).stack = s.stack := by
  unfold record
  split <;> rfl

@[simp] theorem entered_record (s : CycleSearch) (cycle : List String) :
    (s.record cycle).entered = s.entered := by
  unfold record
  split <;> rfl

/-- Nothing else is found. -/
@[simp] theorem mem_found_record {s : CycleSearch} {cycle other : List String} :
    other ∈ (s.record cycle).found ↔ other ∈ s.found ∨ other = cycle := by
  unfold record
  split
  · rename_i hold
    rw [List.contains_iff_mem] at hold
    refine ⟨Or.inl, ?_⟩
    rintro (h | rfl)
    · exact h
    · exact hold
  · rw [List.mem_append, List.mem_singleton]

theorem nodup_found_record {s : CycleSearch} (h : s.found.Nodup) (cycle : List String) :
    (s.record cycle).found.Nodup := by
  unfold record
  split
  · exact h
  · rename_i hnew
    rw [List.contains_iff_mem] at hnew
    refine List.nodup_append.mpr ⟨h, by simp, ?_⟩
    rintro other hold _ hcycle rfl
    exact hnew (List.mem_singleton.mp hcycle ▸ hold)

end CycleSearch

namespace ImportGraph

/-! ## 1. Cycles -/

/-- The least text of a list, if it has one. -/
def least? : List String → Option String
  | [] => none
  | x :: xs => some (xs.foldl (fun a b => if b < a then b else a) x)

/-- A cycle written from its least node on. -/
def canonical (cycle : List String) : List String :=
  match least? cycle with
  | none => []
  | some least => cycle.dropWhile (· != least) ++ cycle.takeWhile (· != least)

/-- The cycle that an edge back to a node closes, given the path to its
source, the last node first. -/
def closedBy (path : List String) (node : String) : List String :=
  (path.takeWhile (· != node) ++ [node]).reverse

/-! ## 2. The search -/

/-- Puts a node at the end of the path. -/
def enter (g : ImportGraph) (s : CycleSearch) (node : String) : CycleSearch :=
  { s with stack := ⟨node, g.successors node⟩ :: s.stack, entered := node :: s.entered }

/-- Follows an edge from the end of the path: back to the path it closes a
cycle, else it leads on unless its target has been entered. -/
def follow (g : ImportGraph) (s : CycleSearch) (next : String) : CycleSearch :=
  if s.path.contains next then s.record (canonical (closedBy s.path next))
  else if s.entered.contains next then s
  else g.enter s next

/-- Follows the next edge of the last node, or leaves the node. -/
def step (g : ImportGraph) (s : CycleSearch) : CycleSearch :=
  match s.stack with
  | [] => s
  | ⟨_, []⟩ :: above => { s with stack := above }
  | ⟨node, next :: pending⟩ :: above => g.follow { s with stack := ⟨node, pending⟩ :: above } next

/-- How many nodes have not been entered. -/
def unentered (g : ImportGraph) (s : CycleSearch) : Nat :=
  (g.nodes.filter fun n => !s.entered.contains n).length

/-- What is left of a search: the nodes not entered, then the work on the
path. -/
def remaining (g : ImportGraph) (s : CycleSearch) : Nat × Nat := (g.unentered s, s.work)

@[simp] theorem unentered_record (g : ImportGraph) (s : CycleSearch) (cycle : List String) :
    g.unentered (s.record cycle) = g.unentered s := by
  rw [unentered, CycleSearch.entered_record, unentered]

theorem successors_of_not_mem {g : ImportGraph} {node : String} (h : node ∉ g.nodes) :
    g.successors node = [] := by
  have hnone : g.adjacency.get? node = none := by
    rw [Table.get?, List.lookup_eq_none_iff]
    intro p hp
    refine bne_iff_ne.mpr fun heq => h ?_
    rw [heq]
    exact List.mem_map_of_mem hp
  rw [successors, targets, hnone, Option.getD_none, Text.sortTexts, List.mergeSort_nil]

/-- Entering a node leaves one fewer to enter; what is no node has no edges. -/
theorem unentered_enter (g : ImportGraph) (s : CycleSearch) {node : String}
    (h : node ∉ s.entered) :
    g.unentered (g.enter s node) < g.unentered s ∨
      g.unentered (g.enter s node) = g.unentered s ∧ g.successors node = [] := by
  have hfilter : g.nodes.filter (fun n => !(g.enter s node).entered.contains n) =
      (g.nodes.filter fun n => !s.entered.contains n).filter fun n => n != node := by
    rw [List.filter_filter]
    refine List.filter_congr fun n _ => ?_
    simp only [enter, List.contains_cons, Bool.not_or, bne]
  by_cases hnode : node ∈ g.nodes
  · left
    rw [unentered, hfilter]
    refine List.length_filter_lt_length_iff_exists.mpr ⟨node, ?_, by simp⟩
    exact List.mem_filter.mpr ⟨hnode, by simpa using h⟩
  · right
    refine ⟨?_, successors_of_not_mem hnode⟩
    rw [unentered, hfilter, List.filter_eq_self.mpr, unentered]
    intro n hn
    refine bne_iff_ne.mpr fun heq => hnode ?_
    rw [← heq]
    exact (List.mem_filter.mp hn).1

/-- Every step leaves less to do. -/
theorem remaining_step (g : ImportGraph) {s : CycleSearch} (h : s.stack ≠ []) :
    Prod.Lex (· < ·) (· < ·) (g.remaining (g.step s)) (g.remaining s) := by
  obtain ⟨stack, entered, found⟩ := s
  cases stack with
  | nil => exact absurd rfl h
  | cons frame above =>
    obtain ⟨node, pending⟩ := frame
    cases pending with
    | nil =>
      refine Prod.Lex.right _ ?_
      simp [step, CycleSearch.work]
    | cons next pending =>
      simp only [step, follow, remaining]
      split
      · rw [unentered_record]
        refine Prod.Lex.right _ ?_
        simp [CycleSearch.work]
      · split
        · refine Prod.Lex.right _ ?_
          simp [CycleSearch.work]
        · rename_i hnew
          rw [List.contains_iff_mem] at hnew
          have hless := g.unentered_enter ⟨⟨node, pending⟩ :: above, entered, found⟩ hnew
          rcases hless with hlt | ⟨heq, hnone⟩
          · exact Prod.Lex.left _ _ hlt
          · rw [heq]
            refine Prod.Lex.right _ ?_
            simp [enter, CycleSearch.work, hnone]
            omega

/-- Steps until the path is left. -/
def run (g : ImportGraph) (s : CycleSearch) : CycleSearch :=
  if _ : s.stack = [] then s else g.run (g.step s)
termination_by g.remaining s
decreasing_by exact g.remaining_step ‹_›

/-- Searches from a node, unless it has been entered. -/
def exploreFrom (g : ImportGraph) (s : CycleSearch) (root : String) : CycleSearch :=
  if s.entered.contains root then s else g.run (g.enter s root)

/-- The order in which cycles are told: by the first nodes that differ, and a
cycle before those that it begins. -/
def notAfter (a b : List String) : Bool := !b.lex a fun x y => decide (x < y)

/-- The cycles that the search finds, sorted. -/
def cycles (g : ImportGraph) : List (List String) :=
  (g.sortedNodes.foldl g.exploreFrom {}).found.mergeSort notAfter

/-! ## 3. Issues -/

/-- How grave a cycle of some length is. -/
def cycleSeverity (length : Nat) : Level :=
  if length ≤ 3 then .high else if length ≤ 5 then .medium else .low

/-- The issue of a cycle, its nodes seen from a root. -/
def cycleIssue (g : ImportGraph) (root : String) (cycle : List String) : Issue :=
  let shown := cycle.map fun n => Path.relative n root
  { kind := .circularImport
    name := " -> ".intercalate (shown ++ shown.take 1)
    severity := cycleSeverity cycle.length
    cycle := shown
    remediation := "Extract the shared code into a module both sides can import"
    details := [
      ("length", .ofNat cycle.length),
      ("entry_points", .ofTexts ((g.entryPoints cycle).map fun n => Path.relative n root))] }

end ImportGraph

end PackageAudit
