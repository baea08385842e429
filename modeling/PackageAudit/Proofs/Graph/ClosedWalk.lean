/-
PackageAudit.Proofs.Graph.ClosedWalk — closed walks and their edges.

A closed walk is the list of its nodes; it goes from each node to the one
after it and from the last to the first. Its edges as a set do not depend on
where it begins (`mem_closedEdges_rotate`), so writing a cycle from its least
node on changes none of them. The search meets cycles the other way round: a
path with its last node first, and an edge from there back to a node of the
path. `closedEdges_closedBy` says that the cycle closed by such an edge
consists of it and of edges of the path.
-/
import PackageAudit.Graph.Cycle
import PackageAudit.Proofs.Collection
import Mathlib.Data.List.Chain
import Mathlib.Data.List.Rotate
import Mathlib.Data.List.TakeWhile
import Mathlib.Data.String.Basic

namespace PackageAudit.ImportGraph

/-! ## 1. Edges -/

/-- The edges of a closed walk: from each node to the next, and from the last
to the first. -/
def closedEdges (walk : List String) : List (String × String) := walk.zip (walk.rotate 1)

theorem closedEdges_cons (a : String) (walk : List String) :
    closedEdges (a :: walk) = (a :: walk).zip (walk ++ [a]) := by
  rw [closedEdges, List.rotate_cons_succ, List.rotate_zero]

theorem fst_mem_of_mem_closedEdges {walk : List String} {e : String × String}
    (h : e ∈ closedEdges walk) : e.1 ∈ walk := (List.of_mem_zip h).1

/-- Some edge leads to each node. -/
theorem exists_closedEdges_snd {walk : List String} {n : String} (h : n ∈ walk) :
    ∃ m, (m, n) ∈ closedEdges walk := by
  have hmap : (closedEdges walk).map Prod.snd = walk.rotate 1 :=
    List.map_snd_zip (by rw [List.length_rotate])
  rw [← List.mem_rotate (n := 1), ← hmap] at h
  obtain ⟨⟨m, _⟩, hm, rfl⟩ := List.mem_map.mp h
  exact ⟨m, hm⟩

/-- Some edge leads away from each node. -/
theorem exists_closedEdges_fst {walk : List String} {n : String} (h : n ∈ walk) :
    ∃ m, (n, m) ∈ closedEdges walk := by
  have hmap : (closedEdges walk).map Prod.fst = walk :=
    List.map_fst_zip (by rw [List.length_rotate])
  rw [← hmap] at h
  obtain ⟨⟨_, m⟩, hm, rfl⟩ := List.mem_map.mp h
  exact ⟨m, hm⟩

/-- A closed walk has the same edges wherever it begins. -/
theorem mem_closedEdges_rotate {walk : List String} {k : ℕ} {e : String × String} :
    e ∈ closedEdges (walk.rotate k) ↔ e ∈ closedEdges walk := by
  have h : closedEdges (walk.rotate k) = (closedEdges walk).rotate k := by
    rw [closedEdges, closedEdges, List.zip_eq_zipWith, List.zip_eq_zipWith,
      List.zipWith_rotate_distrib _ _ _ _ (by rw [List.length_rotate]), List.rotate_rotate,
      List.rotate_rotate, Nat.add_comm]
  rw [h, List.mem_rotate]

/-- The edges of a closed walk are the steps of the walk back to its start. -/
theorem forall_closedEdges_iff {R : String → String → Prop} (a : String) (walk : List String) :
    (∀ e ∈ closedEdges (a :: walk), R e.1 e.2) ↔ List.IsChain R (a :: (walk ++ [a])) := by
  have hsteps : ∀ x y : String, (∀ e ∈ (x :: walk).zip (walk ++ [y]), R e.1 e.2) ↔
      List.IsChain R (x :: (walk ++ [y])) := by
    induction walk with
    | nil => intro x y; simp
    | cons z walk ih =>
      intro x y
      rw [List.cons_append, List.zip_cons_cons, List.forall_mem_cons, ih z y,
        List.isChain_cons_cons]
  rw [closedEdges_cons]
  exact hsteps a a

/-! ## 2. Where a cycle begins -/

theorem exists_least?_eq {walk : List String} (h : walk ≠ []) :
    ∃ least ∈ walk, least? walk = some least ∧ ∀ n ∈ walk, least ≤ n := by
  cases walk with
  | nil => exact absurd rfl h
  | cons x xs =>
    obtain ⟨hmem, hle⟩ := foldl_least id (fun _ _ => Iff.rfl) xs x
    exact ⟨_, hmem, rfl, hle⟩

/-- Writing a cycle from its least node on is turning it. -/
theorem exists_canonical_eq_rotate (walk : List String) : ∃ k, canonical walk = walk.rotate k := by
  cases walk with
  | nil => exact ⟨0, rfl⟩
  | cons a walk =>
    obtain ⟨least, _, hleast, _⟩ := exists_least?_eq (List.cons_ne_nil a walk)
    refine ⟨((a :: walk).takeWhile (· != least)).length, ?_⟩
    have hcut := List.rotate_append_length_eq ((a :: walk).takeWhile (· != least))
      ((a :: walk).dropWhile (· != least))
    rw [List.takeWhile_append_dropWhile] at hcut
    rw [hcut, canonical, hleast]

theorem mem_closedEdges_canonical {walk : List String} {e : String × String} :
    e ∈ closedEdges (canonical walk) ↔ e ∈ closedEdges walk := by
  obtain ⟨k, hk⟩ := exists_canonical_eq_rotate walk
  rw [hk, mem_closedEdges_rotate]

theorem mem_canonical {walk : List String} {n : String} : n ∈ canonical walk ↔ n ∈ walk := by
  obtain ⟨k, hk⟩ := exists_canonical_eq_rotate walk
  rw [hk, List.mem_rotate]

theorem nodup_canonical {walk : List String} : (canonical walk).Nodup ↔ walk.Nodup := by
  obtain ⟨k, hk⟩ := exists_canonical_eq_rotate walk
  rw [hk, List.nodup_rotate]

/-- A canonical cycle begins with its least node. -/
theorem head?_canonical_le {walk : List String} :
    ∀ least ∈ (canonical walk).head?, ∀ n ∈ canonical walk, least ≤ n := by
  intro first hfirst n hn
  rw [mem_canonical] at hn
  obtain ⟨least, hmem, hleast, hle⟩ := exists_least?_eq (List.ne_nil_of_mem hn)
  have hhead : (walk.dropWhile (· != least)).head? = some least := by
    have hne : walk.dropWhile (· != least) ≠ [] := by
      intro hnil
      simpa using List.dropWhile_eq_nil_iff.mp hnil least hmem
    have hstop := List.head_dropWhile_not (· != least) hne
    rw [List.head?_eq_some_head hne]
    simpa using hstop
  rw [canonical, hleast, List.head?_append, hhead] at hfirst
  cases hfirst
  exact hle n hn

/-! ## 3. Cycles closed by an edge back to a path -/

theorem closedBy_eq (path : List String) (node : String) :
    closedBy path node = node :: (path.takeWhile (· != node)).reverse := by
  rw [closedBy, List.reverse_append]
  rfl

/-- A path through a node is what comes before it, the node and the rest. -/
theorem exists_eq_takeWhile_append {path : List String} {node : String} (h : node ∈ path) :
    ∃ above, path = path.takeWhile (· != node) ++ node :: above := by
  induction path with
  | nil => cases h
  | cons n path ih =>
    by_cases hn : n = node
    · subst hn
      exact ⟨path, by simp⟩
    · obtain ⟨above, habove⟩ := ih ((List.mem_cons.mp h).resolve_left (Ne.symm hn))
      refine ⟨above, ?_⟩
      rw [List.takeWhile_cons, if_pos (bne_iff_ne.mpr hn), List.cons_append, ← habove]

theorem nodup_closedBy {path : List String} {node : String} (h : path.Nodup)
    (hnode : node ∈ path) : (closedBy path node).Nodup := by
  obtain ⟨above, heq⟩ := exists_eq_takeWhile_append hnode
  rw [heq, ← List.singleton_append, ← List.append_assoc] at h
  rw [closedBy, List.nodup_reverse]
  exact (List.nodup_append.mp h).1

/-- A cycle closed by an edge from the end of a path consists of that edge and
of edges of the path. -/
theorem closedEdges_closedBy {R : String → String → Prop} {last node : String}
    {above : List String} (hnode : node ∈ last :: above) (hback : R last node)
    (hpath : List.IsChain (fun x y => R y x) (last :: above)) :
    ∀ e ∈ closedEdges (closedBy (last :: above) node), R e.1 e.2 := by
  obtain ⟨rest, heq⟩ := exists_eq_takeWhile_append hnode
  rw [closedBy_eq, forall_closedEdges_iff]
  generalize (last :: above).takeWhile (· != node) = front at heq ⊢
  have hturned : node :: (front.reverse ++ [node]) = (node :: (front ++ [node])).reverse := by simp
  rw [hturned, List.isChain_reverse, List.isChain_cons]
  rw [heq] at hpath
  refine ⟨?_, (List.isChain_split.mp hpath).1⟩
  intro first hfirst
  have hlast : first = last := by
    cases front with
    | nil => simp_all
    | cons x front => simp_all
  rw [hlast]
  exact hback

/-- The edge that closes a cycle is one of its edges. -/
theorem mem_closedEdges_closedBy (last node : String) (above : List String) :
    (last, node) ∈ closedEdges (closedBy (last :: above) node) := by
  rw [closedBy_eq, closedEdges_cons]
  by_cases h : last = node
  · subst h
    simp
  · rw [List.takeWhile_cons, if_pos (bne_iff_ne.mpr h), List.reverse_cons, ← List.cons_append,
      List.zip_append (by simp)]
    simp

end PackageAudit.ImportGraph
