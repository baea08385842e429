/-
PackageAudit.Proofs.Graph.Search — the search finds cycles, and enough of
them.

What a step preserves is one invariant (`SearchInvariant`) about four things:
the path, the edges of each of its nodes that are still to be followed, the
nodes entered, and a list that the search does not keep, the nodes it has
left, the last one first. Each edge of a node that was left is an edge of a
found cycle or leads to a node left before it (`LeftInOrder`). So edges that
are in no found cycle lead down that list, and no closed walk can be made of
them alone.

The invariant says as well that everything found is a cycle written from its
least node on. The main theorem puts the two halves together.
-/
import PackageAudit.Proofs.Graph.ClosedWalk

namespace PackageAudit.ImportGraph

/-! ## 1. Edges of a graph -/

@[simp] theorem mem_successors {g : ImportGraph} {n m : String} :
    m ∈ g.successors n ↔ m ∈ g.targets n := List.mem_mergeSort

theorem mem_nodes_of_mem_targets {g : ImportGraph} {n m : String} (h : m ∈ g.targets n) :
    n ∈ g.nodes := by
  by_contra hn
  rw [← mem_successors, successors_of_not_mem hn] at h
  cases h

theorem mem_sortedNodes {g : ImportGraph} {n : String} : n ∈ g.sortedNodes ↔ n ∈ g.nodes :=
  List.mem_mergeSort

/-- The listed edges are those from each node to its targets. -/
theorem mem_edges {g : ImportGraph} {n m : String} : (n, m) ∈ g.edges ↔ m ∈ g.targets n := by
  simp only [edges, List.mem_flatMap, List.mem_map, mem_successors, mem_sortedNodes]
  constructor
  · rintro ⟨_, _, _, hm, heq⟩
    cases heq
    exact hm
  · intro hm
    exact ⟨n, mem_nodes_of_mem_targets hm, m, hm, rfl⟩

/-- A simple cycle of a graph, written from its least node on. -/
structure IsCycle (g : ImportGraph) (cycle : List String) : Prop where
  ne_nil : cycle ≠ []
  nodup : cycle.Nodup
  edges_subset : closedEdges cycle ⊆ g.edges
  least_first : ∀ least ∈ cycle.head?, ∀ n ∈ cycle, least ≤ n

/-- No closed walk consists of the edges alone. -/
def Acyclic (edges : List (String × String)) : Prop :=
  ∀ walk, walk ≠ [] → ¬ closedEdges walk ⊆ edges

/-- An edge back to a path closes a cycle. -/
theorem isCycle_closedBy {g : ImportGraph} {last node : String} {above : List String}
    (hnode : node ∈ last :: above) (hback : node ∈ g.targets last)
    (hnodup : (last :: above).Nodup)
    (hpath : List.IsChain (fun x y => x ∈ g.targets y) (last :: above)) :
    g.IsCycle (canonical (closedBy (last :: above) node)) where
  ne_nil := by
    have hmem : node ∈ canonical (closedBy (last :: above) node) := by
      rw [mem_canonical, closedBy_eq]
      exact List.mem_cons_self
    exact List.ne_nil_of_mem hmem
  nodup := nodup_canonical.mpr (nodup_closedBy hnodup hnode)
  edges_subset := by
    intro e he
    rw [mem_closedEdges_canonical] at he
    exact mem_edges.mpr
      (closedEdges_closedBy (R := fun x y => y ∈ g.targets x) hnode hback hpath e he)
  least_first := head?_canonical_le

/-! ## 2. The invariant -/

/-- The edge is one of some found cycle. -/
def Covered (found : List (List String)) (n m : String) : Prop :=
  ∃ cycle ∈ found, (n, m) ∈ closedEdges cycle

/-- Nodes that were left, the last one first: each edge is covered or leads to
a node left before. -/
def LeftInOrder (g : ImportGraph) (found : List (List String)) : List String → Prop
  | [] => True
  | n :: before => n ∉ before ∧ (∀ m ∈ g.targets n, Covered found n m ∨ m ∈ before) ∧
      g.LeftInOrder found before

/-- The frames of a path whose last node is being left by an edge to `next`,
if there is one: each edge of a node is still to be followed, covered, leads
to a node that was left, or is the one by which the path goes on. -/
def OnPath (g : ImportGraph) (found : List (List String)) (left : List String) :
    Option String → List Frame → Prop
  | _, [] => True
  | next, f :: above =>
    (∀ m ∈ f.pending, m ∈ g.targets f.node) ∧ (∀ m ∈ next, m ∈ g.targets f.node) ∧
    (∀ m ∈ g.targets f.node, m ∈ f.pending ∨ Covered found f.node m ∨ m ∈ left ∨ next = some m) ∧
    g.OnPath found left (some f.node) above

/-- What holds between two steps of a search, given the nodes left so far;
with `next`, what holds while an edge to it is being followed. -/
structure SearchInvariant (g : ImportGraph) (left : List String) (next : Option String)
    (s : CycleSearch) : Prop where
  onPath : g.OnPath s.found left next s.stack
  leftInOrder : g.LeftInOrder s.found left
  path_nodup : s.path.Nodup
  mem_entered : ∀ n, n ∈ s.entered ↔ n ∈ s.path ∨ n ∈ left
  not_left : ∀ n ∈ s.path, n ∉ left
  isCycle : ∀ cycle ∈ s.found, g.IsCycle cycle
  found_nodup : s.found.Nodup

theorem path_of_stack {s : CycleSearch} {f : Frame} {above : List Frame}
    (hs : s.stack = f :: above) : s.path = f.node :: above.map Frame.node := by
  rw [CycleSearch.path, hs, List.map_cons]

theorem Covered.mono {found more : List (List String)} (h : found ⊆ more) {n m : String}
    (hc : Covered found n m) : Covered more n m := by
  obtain ⟨cycle, hcycle, he⟩ := hc
  exact ⟨cycle, h hcycle, he⟩

theorem LeftInOrder.mono {g : ImportGraph} {found more : List (List String)} (h : found ⊆ more)
    {left : List String} (hl : g.LeftInOrder found left) : g.LeftInOrder more left := by
  induction left with
  | nil => trivial
  | cons n before ih =>
    obtain ⟨hn, hedges, hbefore⟩ := hl
    exact ⟨hn, fun m hm => (hedges m hm).imp_left (Covered.mono h), ih hbefore⟩

/-- More found cycles and more nodes left keep the frames of a path in order. -/
theorem OnPath.mono {g : ImportGraph} {found more : List (List String)} (h : found ⊆ more)
    {left after : List String} (hleft : left ⊆ after) {next : Option String}
    {frames : List Frame} (hp : g.OnPath found left next frames) :
    g.OnPath more after next frames := by
  induction frames generalizing next with
  | nil => trivial
  | cons f above ih =>
    obtain ⟨hpending, hnext, hedges, habove⟩ := hp
    refine ⟨hpending, hnext, fun m hm => ?_, ih habove⟩
    rcases hedges m hm with hp | hc | hl | hn
    · exact Or.inl hp
    · exact Or.inr (Or.inl (hc.mono h))
    · exact Or.inr (Or.inr (Or.inl (hleft hl)))
    · exact Or.inr (Or.inr (Or.inr hn))

/-- An edge that is accounted for need not be named any more. -/
theorem OnPath.settle {g : ImportGraph} {found : List (List String)} {left : List String}
    {next : String} {f : Frame} {above : List Frame}
    (hp : g.OnPath found left (some next) (f :: above))
    (h : Covered found f.node next ∨ next ∈ left) : g.OnPath found left none (f :: above) := by
  obtain ⟨hpending, _, hedges, habove⟩ := hp
  refine ⟨hpending, by simp, fun m hm => ?_, habove⟩
  rcases hedges m hm with hp | hc | hl | hn
  · exact Or.inl hp
  · exact Or.inr (Or.inl hc)
  · exact Or.inr (Or.inr (Or.inl hl))
  · cases hn
    rcases h with hc | hl
    · exact Or.inr (Or.inl hc)
    · exact Or.inr (Or.inr (Or.inl hl))

/-- Frames in order are a path of the graph. -/
theorem OnPath.isChain {g : ImportGraph} {found : List (List String)} {left : List String}
    {next : Option String} {frames : List Frame} (hp : g.OnPath found left next frames) :
    List.IsChain (fun x y => x ∈ g.targets y) (frames.map Frame.node) := by
  induction frames generalizing next with
  | nil => exact List.isChain_nil
  | cons f above ih =>
    rw [List.map_cons, List.isChain_cons]
    refine ⟨?_, ih hp.2.2.2⟩
    intro n hn
    cases above with
    | nil => cases hn
    | cons f' above =>
      cases hn
      exact hp.2.2.2.2.1 f.node rfl

/-! ## 3. Steps -/

section

variable {g : ImportGraph} {left : List String} {next : String} {s : CycleSearch}

/-- Following an edge back to the path finds a cycle through it. -/
theorem SearchInvariant.record {f : Frame} {above : List Frame} (hs : s.stack = f :: above)
    (h : g.SearchInvariant left (some next) s) (hback : next ∈ s.path) :
    g.SearchInvariant left none (s.record (canonical (closedBy s.path next))) := by
  have hpath := path_of_stack hs
  have hon := h.onPath
  rw [hs] at hon
  have hcycle : g.IsCycle (canonical (closedBy s.path next)) := by
    have hnodup := h.path_nodup
    rw [hpath] at hnodup hback ⊢
    exact isCycle_closedBy hback (hon.2.1 next rfl) hnodup hon.isChain
  have hfound : s.found ⊆ (s.record (canonical (closedBy s.path next))).found :=
    fun _ hc => CycleSearch.mem_found_record.mpr (Or.inl hc)
  have hcovered : Covered (s.record (canonical (closedBy s.path next))).found f.node next := by
    refine ⟨_, CycleSearch.mem_found_record.mpr (Or.inr rfl), ?_⟩
    rw [mem_closedEdges_canonical, hpath]
    exact mem_closedEdges_closedBy _ _ _
  refine {
    onPath := ?_
    leftInOrder := h.leftInOrder.mono hfound
    path_nodup := ?_
    mem_entered := ?_
    not_left := ?_
    isCycle := ?_
    found_nodup := CycleSearch.nodup_found_record h.found_nodup _ }
  · rw [CycleSearch.stack_record, hs]
    exact (hon.mono hfound (List.Subset.refl _)).settle (Or.inl hcovered)
  · simpa [CycleSearch.path] using h.path_nodup
  · simpa [CycleSearch.path] using h.mem_entered
  · simpa [CycleSearch.path] using h.not_left
  · intro cycle hc
    rcases CycleSearch.mem_found_record.mp hc with hc | rfl
    · exact h.isCycle cycle hc
    · exact hcycle

/-- An edge to a node that was entered and is not on the path leads to one
that was left. -/
theorem SearchInvariant.skip {f : Frame} {above : List Frame} (hs : s.stack = f :: above)
    (h : g.SearchInvariant left (some next) s) (hback : next ∉ s.path) (hold : next ∈ s.entered) :
    g.SearchInvariant left none s := by
  have hleft : next ∈ left := ((h.mem_entered next).mp hold).resolve_left hback
  have hon := h.onPath
  rw [hs] at hon
  refine { h with onPath := ?_ }
  rw [hs]
  exact hon.settle (Or.inr hleft)

/-- Entering a node puts it on the path with all its edges to be followed. -/
theorem SearchInvariant.enter (h : g.SearchInvariant left (some next) s)
    (hnew : next ∉ s.entered) : g.SearchInvariant left none (g.enter s next) where
  onPath := by
    refine ⟨fun m hm => mem_successors.mp hm, by simp, fun m hm => ?_, h.onPath⟩
    exact Or.inl (mem_successors.mpr hm)
  leftInOrder := h.leftInOrder
  path_nodup := by
    refine List.nodup_cons.mpr ⟨fun hmem => hnew ?_, h.path_nodup⟩
    exact (h.mem_entered next).mpr (Or.inl hmem)
  mem_entered n := by
    have hn := h.mem_entered n
    simp only [ImportGraph.enter, CycleSearch.path, List.map_cons, List.mem_cons] at hn ⊢
    rw [hn, or_assoc]
  not_left := by
    intro n hn hleft
    rcases List.mem_cons.mp hn with rfl | hn
    · exact hnew ((h.mem_entered n).mpr (Or.inr hleft))
    · exact h.not_left n hn hleft
  isCycle := h.isCycle
  found_nodup := h.found_nodup

/-- Following an edge keeps the invariant. -/
theorem SearchInvariant.follow {f : Frame} {above : List Frame} (hs : s.stack = f :: above)
    (h : g.SearchInvariant left (some next) s) :
    g.SearchInvariant left none (g.follow s next) := by
  unfold ImportGraph.follow
  split
  · rename_i hback
    exact h.record hs (List.contains_iff_mem.mp hback)
  · rename_i hback
    rw [List.contains_iff_mem] at hback
    split
    · rename_i hold
      exact h.skip hs hback (List.contains_iff_mem.mp hold)
    · rename_i hnew
      rw [List.contains_iff_mem] at hnew
      exact h.enter hnew

/-- A node without edges to be followed can be left: it comes after all that
its uncovered edges lead to. -/
theorem SearchInvariant.leave {f : Frame} {above : List Frame} (hs : s.stack = f :: above)
    (hdone : f.pending = []) (h : g.SearchInvariant left none s) :
    g.SearchInvariant (f.node :: left) none { s with stack := above } := by
  have hpath := path_of_stack hs
  have hon := h.onPath
  rw [hs] at hon
  have hnodup := h.path_nodup
  rw [hpath, List.nodup_cons] at hnodup
  refine {
    onPath := ?_
    leftInOrder := ⟨?_, ?_, h.leftInOrder⟩
    path_nodup := hnodup.2
    mem_entered := ?_
    not_left := ?_
    isCycle := h.isCycle
    found_nodup := h.found_nodup }
  · have habove := hon.2.2.2.mono (List.Subset.refl _) (List.subset_cons_self f.node left)
    cases above with
    | nil => trivial
    | cons f' above => exact habove.settle (Or.inr List.mem_cons_self)
  · exact h.not_left f.node (by rw [hpath]; exact List.mem_cons_self)
  · intro m hm
    rcases hon.2.2.1 m hm with hp | hc | hl | hn
    · rw [hdone] at hp
      cases hp
    · exact Or.inl hc
    · exact Or.inr hl
    · cases hn
  · intro n
    have hn := h.mem_entered n
    rw [hpath, List.mem_cons] at hn
    rw [hn, List.mem_cons, CycleSearch.path]
    tauto
  · intro n hn hleft
    rcases List.mem_cons.mp hleft with rfl | hleft
    · exact hnodup.1 hn
    · exact h.not_left n (by rw [hpath]; exact List.mem_cons_of_mem _ hn) hleft

/-- **Steps.** A step keeps the invariant, with perhaps one more node left. -/
theorem SearchInvariant.step (h : g.SearchInvariant left none s) :
    ∃ after, g.SearchInvariant after none (g.step s) := by
  obtain ⟨stack, entered, found⟩ := s
  cases stack with
  | nil => exact ⟨left, h⟩
  | cons f above =>
    obtain ⟨node, pending⟩ := f
    cases pending with
    | nil => exact ⟨node :: left, h.leave rfl rfl⟩
    | cons next pending =>
      refine ⟨left, SearchInvariant.follow rfl { h with onPath := ?_ }⟩
      obtain ⟨hpending, _, hedges, habove⟩ := h.onPath
      refine ⟨fun m hm => hpending m (List.mem_cons_of_mem _ hm), ?_, fun m hm => ?_, habove⟩
      · rintro m ⟨⟩
        exact hpending next List.mem_cons_self
      · rcases hedges m hm with hp | hc | hl | hn
        · rcases List.mem_cons.mp hp with rfl | hp
          · exact Or.inr (Or.inr (Or.inr rfl))
          · exact Or.inl hp
        · exact Or.inr (Or.inl hc)
        · exact Or.inr (Or.inr (Or.inl hl))
        · cases hn

end

/-! ## 4. Runs -/

/-- **The search ends.** From any state some number of steps leaves the path,
and there the run stops. -/
theorem exists_iterate_step (g : ImportGraph) (s : CycleSearch) :
    ∃ n, g.step^[n] s = g.run s ∧ (g.run s).stack = [] := by
  fun_induction run g s with
  | case1 s h => exact ⟨0, rfl, h⟩
  | case2 s h ih =>
    obtain ⟨n, hn, hstack⟩ := ih
    exact ⟨n + 1, hn, hstack⟩

theorem entered_subset_step (g : ImportGraph) (s : CycleSearch) :
    s.entered ⊆ (g.step s).entered := by
  unfold step
  split
  · exact List.Subset.refl _
  · exact List.Subset.refl _
  · unfold follow
    split
    · simp
    · split
      · exact List.Subset.refl _
      · exact List.subset_cons_self _ _

theorem entered_subset_run (g : ImportGraph) (s : CycleSearch) :
    s.entered ⊆ (g.run s).entered := by
  fun_induction run g s with
  | case1 s h => exact List.Subset.refl _
  | case2 s h ih => exact List.Subset.trans (entered_subset_step g s) ih

/-- **Runs.** A run keeps the invariant. -/
theorem SearchInvariant.run {g : ImportGraph} {left : List String} {s : CycleSearch}
    (h : g.SearchInvariant left none s) : ∃ after, g.SearchInvariant after none (g.run s) := by
  fun_induction ImportGraph.run g s generalizing left with
  | case1 s hs => exact ⟨left, h⟩
  | case2 s hs ih =>
    obtain ⟨after, hafter⟩ := h.step
    exact ih hafter

/-- What holds between the searches from two roots: the invariant, with
nothing on the path. -/
def BetweenRoots (g : ImportGraph) (s : CycleSearch) : Prop :=
  s.stack = [] ∧ ∃ left, g.SearchInvariant left none s

theorem betweenRoots_start (g : ImportGraph) : g.BetweenRoots {} := by
  refine ⟨rfl, [], ?_⟩
  exact {
    onPath := trivial
    leftInOrder := trivial
    path_nodup := List.nodup_nil
    mem_entered := by simp [CycleSearch.path]
    not_left := by simp
    isCycle := by simp
    found_nodup := List.nodup_nil }

theorem BetweenRoots.exploreFrom {g : ImportGraph} {s : CycleSearch} (h : g.BetweenRoots s)
    (root : String) : g.BetweenRoots (g.exploreFrom s root) := by
  unfold ImportGraph.exploreFrom
  split
  · exact h
  · rename_i hnew
    rw [List.contains_iff_mem] at hnew
    obtain ⟨hstack, left, hinv⟩ := h
    have hroot : g.SearchInvariant left (some root) s := by
      refine { hinv with onPath := ?_ }
      rw [hstack]
      trivial
    obtain ⟨_, _, hend⟩ := g.exists_iterate_step (g.enter s root)
    exact ⟨hend, (hroot.enter hnew).run⟩

theorem entered_subset_exploreFrom (g : ImportGraph) (s : CycleSearch) (root : String) :
    root :: s.entered ⊆ (g.exploreFrom s root).entered := by
  unfold exploreFrom
  split
  · rename_i hold
    exact List.cons_subset.mpr ⟨List.contains_iff_mem.mp hold, List.Subset.refl _⟩
  · exact entered_subset_run g (g.enter s root)

/-- After searching from some roots, all of them have been entered. -/
theorem betweenRoots_foldl {g : ImportGraph} (roots : List String) {s : CycleSearch}
    (h : g.BetweenRoots s) :
    g.BetweenRoots (roots.foldl g.exploreFrom s) ∧
      roots ++ s.entered ⊆ (roots.foldl g.exploreFrom s).entered := by
  induction roots generalizing s with
  | nil => exact ⟨h, List.Subset.refl _⟩
  | cons root roots ih =>
    obtain ⟨hbetween, hsub⟩ := ih (h.exploreFrom root)
    have hfirst := entered_subset_exploreFrom g s root
    refine ⟨hbetween, fun n hn => hsub ?_⟩
    rw [List.cons_append, List.mem_cons, List.mem_append] at hn
    rw [List.mem_append]
    rcases hn with rfl | hn | hn
    · exact Or.inr (hfirst List.mem_cons_self)
    · exact Or.inl hn
    · exact Or.inr (hfirst (List.mem_cons_of_mem _ hn))

/-! ## 5. Closed walks -/

/-- An edge that is not covered leads from a node left to another one. -/
theorem LeftInOrder.mem_of_mem {g : ImportGraph} {found : List (List String)}
    {left : List String} (h : g.LeftInOrder found left) {n m : String} (hn : n ∈ left)
    (hm : m ∈ g.targets n) (hnot : ¬ Covered found n m) : m ∈ left := by
  induction left with
  | nil => cases hn
  | cons k before ih =>
    obtain ⟨_, hedges, hbefore⟩ := h
    rcases List.mem_cons.mp hn with rfl | hn
    · exact List.mem_cons_of_mem _ ((hedges m hm).resolve_left hnot)
    · exact List.mem_cons_of_mem _ (ih hbefore hn)

/-- Nodes left in order allow no closed walk without a covered edge: such a
walk would have to come back to the node of it that was left last. -/
theorem LeftInOrder.exists_covered {g : ImportGraph} {found : List (List String)}
    {left : List String} (h : g.LeftInOrder found left) {walk : List String} (hne : walk ≠ [])
    (hleft : walk ⊆ left) (hedges : closedEdges walk ⊆ g.edges) :
    ∃ e ∈ closedEdges walk, Covered found e.1 e.2 := by
  by_contra hnone
  push Not at hnone
  induction left with
  | nil => exact hne (List.subset_nil.mp hleft)
  | cons n before ih =>
    obtain ⟨hn, hfirst, hbefore⟩ := h
    by_cases hmem : n ∈ walk
    · obtain ⟨m, hm⟩ := exists_closedEdges_snd hmem
      have htarget : n ∈ g.targets m := mem_edges.mp (hedges hm)
      have hstart : m ∈ n :: before := hleft (fst_mem_of_mem_closedEdges hm)
      rcases List.mem_cons.mp hstart with rfl | hmb
      · exact hn ((hfirst _ htarget).resolve_left (hnone _ hm))
      · exact hn (hbefore.mem_of_mem hmb htarget (hnone _ hm))
    · refine ih hbefore fun m hm => (List.mem_cons.mp (hleft hm)).resolve_left ?_
      rintro rfl
      exact hmem hm

/-! ## 6. The cycles of a graph -/

/-- The order in which cycles are told is that of texts, node by node. -/
theorem notAfter_iff (a b : List String) : notAfter a b = true ↔ a ≤ b := by
  rw [notAfter, Bool.not_eq_true', ← Bool.not_eq_true, List.lex_eq_true_iff_lt, not_lt]

/-- What the search from all nodes leaves behind: nothing on the path, and
every node left in order. -/
theorem exists_left_of_cycles (g : ImportGraph) :
    ∃ left, g.LeftInOrder (g.sortedNodes.foldl g.exploreFrom {}).found left ∧
      (∀ n ∈ g.nodes, n ∈ left) ∧
      (∀ cycle ∈ (g.sortedNodes.foldl g.exploreFrom {}).found, g.IsCycle cycle) ∧
      (g.sortedNodes.foldl g.exploreFrom {}).found.Nodup := by
  obtain ⟨⟨hstack, left, hinv⟩, hentered⟩ := betweenRoots_foldl g.sortedNodes g.betweenRoots_start
  refine ⟨left, hinv.leftInOrder, fun n hn => ?_, hinv.isCycle, hinv.found_nodup⟩
  have hmem := hentered (List.mem_append_left _ (mem_sortedNodes.mpr hn))
  rw [hinv.mem_entered, CycleSearch.path, hstack] at hmem
  simpa using hmem

theorem isCycle_of_mem_cycles {g : ImportGraph} {cycle : List String} (h : cycle ∈ g.cycles) :
    g.IsCycle cycle := by
  obtain ⟨_, _, _, hcycle, _⟩ := g.exists_left_of_cycles
  exact hcycle cycle (List.mem_mergeSort.mp h)

/-- The cycles are told in strict order, so none of them twice. -/
theorem cycles_pairwise_lt (g : ImportGraph) : g.cycles.Pairwise (· < ·) := by
  obtain ⟨_, _, _, _, hnodup⟩ := g.exists_left_of_cycles
  exact pairwise_lt_mergeSort id notAfter_iff (by rwa [List.map_id])

/-- Every closed walk has an edge in common with some told cycle. -/
theorem exists_shared_edge {g : ImportGraph} {walk : List String} (hne : walk ≠ [])
    (hedges : closedEdges walk ⊆ g.edges) :
    ∃ cycle ∈ g.cycles, ∃ e ∈ closedEdges walk, e ∈ closedEdges cycle := by
  obtain ⟨left, horder, hall, _, _⟩ := g.exists_left_of_cycles
  have hleft : walk ⊆ left := by
    intro n hn
    obtain ⟨m, hm⟩ := exists_closedEdges_fst hn
    exact hall n (mem_nodes_of_mem_targets (mem_edges.mp (hedges hm)))
  obtain ⟨e, he, cycle, hcycle, hec⟩ := horder.exists_covered hne hleft hedges
  exact ⟨cycle, List.mem_mergeSort.mpr hcycle, e, he, hec⟩

/-- **The search finds cycles, and enough of them.** It ends. What it tells
are simple cycles of the graph, each written from its least node on, in
strict order. Every closed walk shares an edge with one of them; so none is
told exactly when the graph is acyclic, and without the edges of the told
cycles it always is. -/
theorem cycles_sound_and_covering (g : ImportGraph) :
    (∀ s, ∃ n, g.step^[n] s = g.run s ∧ (g.run s).stack = []) ∧
    (∀ cycle ∈ g.cycles, g.IsCycle cycle) ∧
    g.cycles.Pairwise (· < ·) ∧
    (∀ walk, walk ≠ [] → closedEdges walk ⊆ g.edges →
      ∃ cycle ∈ g.cycles, ∃ e ∈ closedEdges walk, e ∈ closedEdges cycle) ∧
    (g.cycles = [] ↔ Acyclic g.edges) ∧
    Acyclic (g.edges.filter fun e =>
      g.cycles.all fun cycle => !(closedEdges cycle).contains e) := by
  refine ⟨g.exists_iterate_step, fun _ => isCycle_of_mem_cycles, g.cycles_pairwise_lt,
    fun _ => exists_shared_edge, ⟨?_, ?_⟩, ?_⟩
  · intro hnil walk hne hedges
    obtain ⟨cycle, hcycle, _⟩ := exists_shared_edge hne hedges
    rw [hnil] at hcycle
    cases hcycle
  · intro hacyclic
    by_contra hne
    obtain ⟨cycle, hcycle⟩ := List.exists_mem_of_ne_nil _ hne
    have h := isCycle_of_mem_cycles hcycle
    exact hacyclic cycle h.ne_nil h.edges_subset
  · intro walk hne hedges
    obtain ⟨cycle, hcycle, e, he, hec⟩ := exists_shared_edge hne fun e he =>
      (List.mem_filter.mp (hedges he)).1
    have hkept := (List.mem_filter.mp (hedges he)).2
    rw [List.all_eq_true] at hkept
    simpa [hec] using hkept cycle hcycle

/-- Of two cycles that meet, one may go untold: `a`, `d`, `c` has its edge from
`c` to `a` in common with the other. -/
example : (ofEdges ["d", "c", "b", "a"]
    [("a", "b"), ("b", "c"), ("c", "a"), ("a", "d"), ("d", "c")]).cycles = [["a", "b", "c"]] := by
  cbv

end PackageAudit.ImportGraph
