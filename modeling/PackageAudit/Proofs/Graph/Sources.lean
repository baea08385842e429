/-
PackageAudit.Proofs.Graph.Sources — a graph does not remember how it was built.

A graph is built node by node and edge by edge, and keeps both in the order in
which they came. What it has in the end is known without that order: a node for
each name, and an edge for each pair whose ends are both nodes (`mem_targets_ofEdges`),
none of them twice (`Once`).

All that is asked of a graph is asked through two sorted views, the nodes and the
successors of a node. The list of edges, each step of the search for cycles and the
entry points of a cycle are functions of these (`SameViews`), and sorted views
without repetition depend on their members alone (`sameViews_of_mem`).

`graph_order` states this of the graph of source files: the files may come in any
order, and the references of each in any order and any number of times.
-/
import PackageAudit.Audit.SourceFile
import PackageAudit.Proofs.Graph.Search
import PackageAudit.Proofs.Table
import Mathlib.Data.List.Perm.Basic

namespace PackageAudit

namespace ImportGraph

variable {g h : ImportGraph} {n m : String}

/-! ## 1. Building -/

theorem adjacency_ofNodes (nodes : List String) :
    (ofNodes nodes).adjacency = nodes.eraseDups.map fun n => (n, []) := by
  induction nodes using List.reverseRecOn with
  | nil => rfl
  | append_singleton nodes n ih =>
    have hstep : (ofNodes (nodes ++ [n])).adjacency = (ofNodes nodes).adjacency.putNew n [] := by
      rw [ofNodes, List.foldl_append]
      rfl
    have hhas : (ofNodes nodes).adjacency.has n = true ↔ n ∈ nodes := by
      rw [Table.has_iff, ih]
      simp [Table.keys]
    rw [hstep, Table.putNew, Table.eraseDups_concat]
    by_cases hn : n ∈ nodes
    · rw [if_pos (hhas.mpr hn), ih, if_pos hn]
    · rw [if_neg (mt hhas.mp hn), ih, if_neg hn, List.map_append]
      rfl

theorem nodes_ofNodes (nodes : List String) : (ofNodes nodes).nodes = nodes.eraseDups := by
  rw [ImportGraph.nodes, adjacency_ofNodes, Table.keys, List.map_map]
  exact List.map_id _

theorem targets_ofNodes (nodes : List String) (n : String) : (ofNodes nodes).targets n = [] := by
  rw [targets, adjacency_ofNodes, Table.get?_map]
  split <;> rfl

theorem accepts_iff : g.accepts n m = true ↔ n ∈ g.nodes ∧ m ∈ g.nodes := by
  rw [accepts, Bool.and_eq_true, hasNode, hasNode, Table.has_iff, Table.has_iff]
  rfl

theorem nodes_addEdge (g : ImportGraph) (n m : String) : (g.addEdge n m).nodes = g.nodes := by
  rw [addEdge]
  split
  · rename_i haccepts
    exact (Table.keys_put _ _ _).trans (if_pos (accepts_iff.mp haccepts).1)
  · rfl

theorem targets_addEdge (g : ImportGraph) (n m k : String) :
    (g.addEdge n m).targets k =
      if k = n ∧ n ∈ g.nodes ∧ m ∈ g.nodes then withTarget m (g.targets k) else g.targets k := by
  rw [addEdge]
  by_cases haccepts : g.accepts n m = true
  · rw [if_pos haccepts, targets, Table.update, Table.get?_put]
    by_cases hk : k = n
    · rw [if_pos hk, if_pos ⟨hk, accepts_iff.mp haccepts⟩, Option.getD_some, hk]
      rfl
    · rw [if_neg hk, if_neg fun hall => hk hall.1]
      rfl
  · rw [if_neg haccepts, if_neg fun hall => haccepts (accepts_iff.mpr hall.2)]

theorem mem_withTarget {targets : List String} {k : String} :
    k ∈ withTarget m targets ↔ k ∈ targets ∨ k = m := by
  rw [withTarget]
  split
  · rename_i hm
    rw [List.contains_iff_mem] at hm
    exact ⟨Or.inl, fun hk => hk.elim id fun heq => heq ▸ hm⟩
  · rw [List.mem_append, List.mem_singleton]

theorem nodup_withTarget {targets : List String} (ht : targets.Nodup) :
    (withTarget m targets).Nodup := by
  rw [withTarget]
  split
  · exact ht
  · rename_i hm
    rw [List.contains_iff_mem] at hm
    exact List.concat_eq_append ▸ ht.concat hm

theorem mem_targets_addEdge {a b : String} : m ∈ (g.addEdge a b).targets n ↔
    m ∈ g.targets n ∨ (n, m) = (a, b) ∧ n ∈ g.nodes ∧ m ∈ g.nodes := by
  rw [targets_addEdge, Prod.mk.injEq]
  by_cases hadded : n = a ∧ a ∈ g.nodes ∧ b ∈ g.nodes
  · obtain ⟨rfl, ha, hb⟩ := hadded
    rw [if_pos ⟨rfl, ha, hb⟩, mem_withTarget]
    exact or_congr_right ⟨fun heq => ⟨⟨rfl, heq⟩, ha, heq ▸ hb⟩, fun h => h.1.2⟩
  · rw [if_neg hadded]
    refine (or_iff_left ?_).symm
    rintro ⟨⟨rfl, rfl⟩, hn, hm⟩
    exact hadded ⟨rfl, hn, hm⟩

/-- Each node stands once, and each of its targets. -/
structure Once (g : ImportGraph) : Prop where
  nodes : g.nodes.Nodup
  targets : ∀ n, (g.targets n).Nodup

theorem once_ofNodes (nodes : List String) : (ofNodes nodes).Once where
  nodes := nodes_ofNodes nodes ▸ Table.nodup_eraseDups nodes
  targets n := targets_ofNodes nodes n ▸ List.nodup_nil

theorem Once.addEdge (hg : g.Once) (n m : String) : (g.addEdge n m).Once where
  nodes := nodes_addEdge g n m ▸ hg.nodes
  targets k := by
    rw [targets_addEdge]
    split
    · exact nodup_withTarget (hg.targets k)
    · exact hg.targets k

section

variable (nodes : List String) (edges : List (String × String))

theorem once_ofEdges : (ofEdges nodes edges).Once :=
  List.foldlRecOn edges _ (once_ofNodes nodes) fun _ hg e _ => hg.addEdge e.1 e.2

theorem mem_nodes_ofEdges : n ∈ (ofEdges nodes edges).nodes ↔ n ∈ nodes := by
  rw [ofEdges]
  refine List.foldlRecOn (motive := fun g : ImportGraph => n ∈ g.nodes ↔ n ∈ nodes) edges _ ?_ ?_
  · rw [nodes_ofNodes, List.mem_eraseDups]
  · intro g hg e _
    rw [nodes_addEdge]
    exact hg

/-- The edges that are kept are those between nodes. -/
theorem mem_targets_ofEdges : m ∈ (ofEdges nodes edges).targets n ↔
    (n, m) ∈ edges ∧ n ∈ nodes ∧ m ∈ nodes := by
  induction edges using List.reverseRecOn with
  | nil => simp [ofEdges, targets_ofNodes]
  | append_singleton edges e ih =>
    have hstep : ofEdges nodes (edges ++ [e]) = (ofEdges nodes edges).addEdge e.1 e.2 := by
      rw [ofEdges, List.foldl_append]
      rfl
    rw [hstep, mem_targets_addEdge, ih, mem_nodes_ofEdges, mem_nodes_ofEdges, List.mem_append,
      List.mem_singleton, or_and_right]

end

/-! ## 2. Sorted views -/

/-- Two graphs have the same nodes and the same successors, sorted. -/
structure SameViews (g h : ImportGraph) : Prop where
  sortedNodes : g.sortedNodes = h.sortedNodes
  successors : ∀ n, g.successors n = h.successors n

/-- Without repetition the members decide. -/
theorem sameViews_of_mem (hg : g.Once) (hh : h.Once) (hnodes : ∀ n, n ∈ g.nodes ↔ n ∈ h.nodes)
    (htargets : ∀ n m, m ∈ g.targets n ↔ m ∈ h.targets n) : g.SameViews h where
  sortedNodes := Text.sortTexts_perm ((List.perm_ext_iff_of_nodup hg.nodes hh.nodes).mpr hnodes)
  successors n := Text.sortTexts_perm
    ((List.perm_ext_iff_of_nodup (hg.targets n) (hh.targets n)).mpr (htargets n))

section

variable (hsame : g.SameViews h)

include hsame

theorem SameViews.edges : g.edges = h.edges := by
  simp only [ImportGraph.edges, hsame.sortedNodes, hsame.successors]

theorem SameViews.step (s : CycleSearch) : g.step s = h.step s := by
  simp only [ImportGraph.step, follow, enter, hsame.successors]

/-- Step by step the two searches are in the same state, so they stop together. -/
theorem SameViews.run (s : CycleSearch) : g.run s = h.run s := by
  fun_induction ImportGraph.run g s with
  | case1 s hs => rw [ImportGraph.run, dif_pos hs]
  | case2 s hs ih =>
    rw [ih, hsame.step]
    conv_rhs => rw [ImportGraph.run, dif_neg hs]

theorem SameViews.exploreFrom (s : CycleSearch) (root : String) :
    g.exploreFrom s root = h.exploreFrom s root := by
  simp only [ImportGraph.exploreFrom, enter, hsame.successors, hsame.run]

theorem SameViews.cycles : g.cycles = h.cycles := by
  have hexplore : g.exploreFrom = h.exploreFrom := funext₂ hsame.exploreFrom
  rw [ImportGraph.cycles, ImportGraph.cycles, hsame.sortedNodes, hexplore]

end

theorem entryPoints_eq (g : ImportGraph) (members : List String) :
    g.entryPoints members = g.sortedNodes.filter fun n =>
      !members.contains n && (g.successors n).any members.contains := by
  have hany : ∀ n, (g.targets n).any members.contains = (g.successors n).any members.contains :=
    fun n => (List.mergeSort_perm _ _).any_eq.symm
  simp only [entryPoints, Text.sortTexts_filter, hany, sortedNodes]

theorem SameViews.entryPoints (hsame : g.SameViews h) (members : List String) :
    g.entryPoints members = h.entryPoints members := by
  simp only [entryPoints_eq, hsame.sortedNodes, hsame.successors]

/-- The listed edges are in strict order. -/
theorem Once.edges_pairwise (hg : g.Once) :
    g.edges.Pairwise fun e f => e.1 < f.1 ∨ e.1 = f.1 ∧ e.2 < f.2 := by
  rw [ImportGraph.edges, List.pairwise_flatMap]
  constructor
  · intro n _
    exact List.pairwise_map.mpr
      ((Text.sortTexts_pairwise (hg.targets n)).imp fun hlt => Or.inr ⟨rfl, hlt⟩)
  · refine (Text.sortTexts_pairwise hg.nodes).imp fun hlt e he f hf => ?_
    obtain ⟨_, _, rfl⟩ := List.mem_map.mp he
    obtain ⟨_, _, rfl⟩ := List.mem_map.mp hf
    exact Or.inl hlt

end ImportGraph

/-! ## 3. The graph of source files -/

namespace SourceFile

open ImportGraph

variable {sources others : List SourceFile} {a b : String}

/-- Two files of one path have the same references, in whatever order and number. -/
structure SameReferences (s t : SourceFile) : Prop where
  path_eq : s.path = t.path
  mem_iff : ∀ r, r ∈ s.references ↔ r ∈ t.references

/-- The same source files in another order, each perhaps with its references in
another order and number. -/
def Rearranged (sources others : List SourceFile) : Prop :=
  ∃ permuted, sources.Perm permuted ∧ List.Forall₂ SameReferences permuted others

/-- A source file refers to a file. -/
def RefersTo (sources : List SourceFile) (a b : String) : Prop :=
  ∃ s ∈ sources, s.path = a ∧ ∃ r ∈ s.references, r.module_ = some (.file b)

theorem mem_localTargets {s : SourceFile} :
    b ∈ s.localTargets ↔ ∃ r ∈ s.references, r.module_ = some (.file b) := by
  rw [localTargets, List.mem_filterMap]
  refine exists_congr fun r => and_congr_right fun _ => ?_
  split
  · rename_i path hmodule
    rw [hmodule]
    simp
  · rename_i hmodule
    refine iff_of_false (by simp) fun h => hmodule b h

/-- The edges of the graph are the references from source files to source files. -/
theorem mem_targets_graph : b ∈ (graph sources).targets a ↔
    RefersTo sources a b ∧ b ∈ sources.map path := by
  rw [graph, mem_targets_ofEdges, RefersTo]
  simp only [List.mem_flatMap, List.mem_map, Prod.mk.injEq, mem_localTargets]
  constructor
  · rintro ⟨⟨s, hs, b, hrefers, rfl, rfl⟩, -, htarget⟩
    exact ⟨⟨s, hs, rfl, hrefers⟩, htarget⟩
  · rintro ⟨⟨s, hs, rfl, hrefers⟩, htarget⟩
    exact ⟨⟨s, hs, b, hrefers, rfl, rfl⟩, ⟨s, hs, rfl⟩, htarget⟩

theorem exists_same_of_mem {s : SourceFile} (h : List.Forall₂ SameReferences sources others)
    (hs : s ∈ sources) : ∃ t ∈ others, SameReferences s t := by
  induction h with
  | nil => cases hs
  | cons hhead _ ih =>
    rcases List.mem_cons.mp hs with rfl | hs
    · exact ⟨_, List.mem_cons_self, hhead⟩
    · obtain ⟨t, ht, hsame⟩ := ih hs
      exact ⟨t, List.mem_cons_of_mem _ ht, hsame⟩

theorem Rearranged.symm (h : Rearranged sources others) : Rearranged others sources := by
  obtain ⟨permuted, hperm, hsame⟩ := h
  obtain ⟨changed, hchanged, hothers⟩ := List.perm_comp_forall₂ hperm hsame
  exact ⟨changed, hothers.symm, (hchanged.imp fun _ _ h => ⟨h.path_eq.symm, fun r =>
    (h.mem_iff r).symm⟩).flip⟩

theorem Rearranged.exists_same (h : Rearranged sources others) {s : SourceFile}
    (hs : s ∈ sources) : ∃ t ∈ others, SameReferences s t := by
  obtain ⟨permuted, hperm, hsame⟩ := h
  exact exists_same_of_mem hsame (hperm.mem_iff.mp hs)

theorem Rearranged.mem_paths (h : Rearranged sources others) (hb : b ∈ sources.map path) :
    b ∈ others.map path := by
  obtain ⟨s, hs, rfl⟩ := List.mem_map.mp hb
  obtain ⟨t, ht, hsame⟩ := h.exists_same hs
  exact List.mem_map.mpr ⟨t, ht, hsame.path_eq.symm⟩

theorem Rearranged.refersTo (h : Rearranged sources others) (href : RefersTo sources a b) :
    RefersTo others a b := by
  obtain ⟨s, hs, rfl, r, hr, hmodule⟩ := href
  obtain ⟨t, ht, hsame⟩ := h.exists_same hs
  exact ⟨t, ht, hsame.path_eq.symm, r, (hsame.mem_iff r).mp hr, hmodule⟩

/-- The graphs of rearranged files look the same. -/
theorem Rearranged.sameViews (h : Rearranged sources others) :
    (graph sources).SameViews (graph others) := by
  refine sameViews_of_mem (once_ofEdges _ _) (once_ofEdges _ _) (fun n => ?_) fun n m => ?_
  · rw [graph, graph, mem_nodes_ofEdges, mem_nodes_ofEdges]
    exact ⟨h.mem_paths, h.symm.mem_paths⟩
  · rw [mem_targets_graph, mem_targets_graph]
    exact ⟨And.imp h.refersTo h.mem_paths, And.imp h.symm.refersTo h.symm.mem_paths⟩

/-- **The graph forgets the order of files and references.** Rearranged source files
give a graph with the same list of edges, the same cycles and the same entry points
of every cycle. The edges are in strict order, and they are the references from a
source file to a source file. -/
theorem graph_order (h : Rearranged sources others) :
    (graph sources).edges = (graph others).edges ∧
    (graph sources).edges.Pairwise (fun e f => e.1 < f.1 ∨ e.1 = f.1 ∧ e.2 < f.2) ∧
    (∀ a b, (a, b) ∈ (graph sources).edges ↔ RefersTo sources a b ∧ b ∈ sources.map path) ∧
    (graph sources).cycles = (graph others).cycles ∧
    ∀ cycle, (graph sources).entryPoints cycle = (graph others).entryPoints cycle := by
  have hviews := h.sameViews
  have honce : (graph sources).Once := once_ofEdges _ _
  exact ⟨hviews.edges, honce.edges_pairwise, fun a b => mem_edges.trans mem_targets_graph,
    hviews.cycles, hviews.entryPoints⟩

/-- A reference to a file. -/
def fileReference (file target : String) : ResolvedReference :=
  ⟨⟨target, .staticImport, file, 1⟩, some (.file target)⟩

/-- Two files in a cycle, which another one leads into, and a file that is gone. -/
def cyclicFiles : List SourceFile := [
  { path := "a", language := none
    references := [fileReference "a" "b", fileReference "a" "gone"] },
  { path := "b", language := none, references := [fileReference "b" "a"] },
  { path := "main", language := none, references := [fileReference "main" "b"] }]

/-- They in another order, with references in another order and one of them twice. -/
def cyclicFilesChanged : List SourceFile := [
  { path := "main", language := none, references := [fileReference "main" "b"] },
  { path := "b", language := none, references := [fileReference "b" "a", fileReference "b" "a"] },
  { path := "a", language := none
    references := [fileReference "a" "gone", fileReference "a" "b"] }]

/-- Both ways the edge of the twice stated reference is there and that to the file
that is gone is not, the cycles are the same, and one file leads into them. -/
theorem graph_order_cyclicFiles :
    Rearranged cyclicFiles cyclicFilesChanged ∧
    ("b", "a") ∈ (graph cyclicFilesChanged).edges ∧
    ("a", "gone") ∉ (graph cyclicFilesChanged).edges ∧
    (graph cyclicFiles).cycles = (graph cyclicFilesChanged).cycles ∧
    (graph cyclicFilesChanged).entryPoints ["a", "b"] = ["main"] := by
  have hchanged : Rearranged cyclicFiles cyclicFilesChanged := by
    refine ⟨cyclicFiles.reverse, cyclicFiles.reverse_perm.symm,
      .cons ⟨rfl, fun r => Iff.rfl⟩ (.cons ⟨rfl, fun r => ?_⟩ (.cons ⟨rfl, fun r => ?_⟩ .nil))⟩
    · simp
    · simp [or_comm]
  have hrefers : RefersTo cyclicFiles "b" "a" :=
    ⟨_, .tail _ (.head _), rfl, fileReference "b" "a", .head _, rfl⟩
  have hgone : "gone" ∉ cyclicFiles.map path := by decide
  obtain ⟨hedges, -, hmem, hcycles, hentry⟩ := graph_order hchanged
  refine ⟨hchanged, ?_, ?_, hcycles, (hentry _).symm.trans (by decide +kernel)⟩
  · exact hedges ▸ (hmem _ _).mpr ⟨hrefers, by decide⟩
  · exact hedges ▸ fun hin => hgone ((hmem _ _).mp hin).2

/-- Which cycle that is. -/
example : (graph cyclicFilesChanged).cycles = [["a", "b"]] := by cbv

end SourceFile

end PackageAudit
