/-
PackageAudit.Proofs.Script.Walk — a walk by a stack is the recursive pre-order.

A walk takes the last node of its stack, visits it, and puts the nodes below it
on the stack with the first one last (`Visits`). It is a loop over the whole
stack, so what carries the induction is a statement about any stack: before
anything else on it is touched, the nodes on top are visited in pre-order
(`Preordered.visits`).

Nodes at different places may look alike. That each one is visited, and none of
them twice, is therefore said of places, the positions that lead from the root
to a node (`at?`): what is visited stands at the places of the tree in
lexicographic order (`InOrder`), where a place comes before those that go on
from it.

Which nodes lie below a node is a parameter: all its children, or the named ones.
-/
import PackageAudit.Import.Structural
import Mathlib.Data.List.Lex

namespace PackageAudit.Script.Node

variable {below : Node → List Node} {n m c root : Node}
  {nodes rest order stack visited within : List Node}

/-! ## 1. Pre-order -/

/-- The pre-order of several trees: a node, what is below it, then the next tree. -/
inductive Preordered (below : Node → List Node) : List Node → List Node → Prop where
  | nil : Preordered below [] []
  | cons {n : Node} {rest inside later : List Node}
      (hinside : Preordered below (below n) inside) (hlater : Preordered below rest later) :
      Preordered below (n :: rest) (n :: (inside ++ later))

/-- The pre-order of trees that stand one after the other is that of the first
ones and that of the others. -/
theorem Preordered.exists_append (h : Preordered below (nodes ++ rest) order) :
    ∃ first later, order = first ++ later ∧ Preordered below nodes first ∧
      Preordered below rest later := by
  induction nodes generalizing order with
  | nil => exact ⟨[], order, rfl, .nil, h⟩
  | cons n nodes ih =>
    cases h with
    | @cons _ _ inside _ hinside hlater =>
      obtain ⟨first, later, rfl, hfirst, hrest⟩ := ih hlater
      refine ⟨n :: (inside ++ first), later, ?_, .cons hinside hfirst, hrest⟩
      rw [List.cons_append, List.append_assoc]

/-- A node in front of the nodes below it. -/
theorem Preordered.visit (h : Preordered below (below n ++ rest) order) :
    Preordered below (n :: rest) (n :: order) := by
  obtain ⟨inside, later, rfl, hinside, hlater⟩ := h.exists_append
  exact .cons hinside hlater

/-- Whatever lists a node and then what it lists for the nodes below lists trees
in pre-order. -/
theorem Preordered.eq_flatMap {list : Node → List Node}
    (hlist : ∀ n, list n = n :: (below n).flatMap list) (h : Preordered below nodes order) :
    order = nodes.flatMap list := by
  induction h with
  | nil => rfl
  | cons hinside hlater ihinside ihlater =>
    rw [List.flatMap_cons, hlist, ← ihinside, ← ihlater, List.cons_append]

/-- Whatever holds the trees and all nodes below its nodes holds the pre-order. -/
theorem Preordered.subset (h : Preordered below nodes order)
    (hwithin : ∀ m ∈ within, ∀ c ∈ below m, c ∈ within) (hnodes : ∀ n ∈ nodes, n ∈ within) :
    ∀ m ∈ order, m ∈ within := by
  induction h with
  | nil => exact hnodes
  | cons hinside hlater ihinside ihlater =>
    obtain ⟨hn, hrest⟩ := List.forall_mem_cons.mp hnodes
    refine List.forall_mem_cons.mpr ⟨hn, List.forall_mem_append.mpr ⟨?_, ihlater hrest⟩⟩
    exact ihinside (hwithin _ hn)

theorem Preordered.roots (h : Preordered below nodes order) : ∀ n ∈ nodes, n ∈ order := by
  induction h with
  | nil => simp
  | cons hinside hlater ihinside ihlater =>
    refine List.forall_mem_cons.mpr ⟨List.mem_cons_self, fun m hm => ?_⟩
    exact List.mem_cons_of_mem _ (List.mem_append_right _ (ihlater m hm))

/-- The pre-order holds all nodes below its nodes. -/
theorem Preordered.closed (h : Preordered below nodes order) :
    ∀ m ∈ order, ∀ c ∈ below m, c ∈ order := by
  induction h with
  | nil => simp
  | cons hinside hlater ihinside ihlater =>
    intro m hm c hc
    refine List.mem_cons_of_mem _ (List.mem_append.mpr ?_)
    rcases List.mem_cons.mp hm with rfl | hm
    · exact .inl (hinside.roots c hc)
    · exact (List.mem_append.mp hm).imp (ihinside m · c hc) (ihlater m · c hc)

theorem Preordered.length_eq (h : Preordered children nodes order) :
    order.length = sizes nodes := by
  induction h with
  | nil => rfl
  | cons hinside hlater ihinside ihlater =>
    rw [List.length_cons, List.length_append, ihinside, ihlater, sizes, size_eq]
    omega

/-! ## 2. The walks of a tree -/

theorem preordered_walkFrom (stack : List Node) :
    Preordered children stack (walkFrom stack) := by
  fun_induction walkFrom stack with
  | case1 => exact .nil
  | case2 n rest ih => exact ih.visit

theorem preordered_walkNamedFrom (stack : List Node) :
    Preordered namedChildren stack (walkNamedFrom stack) := by
  fun_induction walkNamedFrom stack with
  | case1 => exact .nil
  | case2 n rest ih => exact ih.visit

mutual

/-- A node and the named nodes below it, a node before its children. What lies
below a token is left out with it. -/
def namedPreorder : Node → List Node
  | .node k r l t cs => .node k r l t cs :: namedPreorders cs

/-- The named ones among several trees, each with the named nodes below it. -/
def namedPreorders : List Node → List Node
  | [] => []
  | n :: ns => (if n.kind.isNamed then namedPreorder n else []) ++ namedPreorders ns

end

theorem preorders_eq (nodes : List Node) : preorders nodes = nodes.flatMap preorder := by
  induction nodes with
  | nil => rfl
  | cons n nodes ih => rw [preorders, ih, List.flatMap_cons]

theorem preorder_eq (n : Node) : n.preorder = n :: n.children.flatMap preorder := by
  cases n
  rw [preorder, children, preorders_eq]

theorem namedPreorders_eq (nodes : List Node) :
    namedPreorders nodes = (nodes.filter fun c => c.kind.isNamed).flatMap namedPreorder := by
  induction nodes with
  | nil => rfl
  | cons n nodes ih => cases h : n.kind.isNamed <;> simp [namedPreorders, h, ih]

theorem namedPreorder_eq (n : Node) :
    n.namedPreorder = n :: n.namedChildren.flatMap namedPreorder := by
  cases n
  rw [namedPreorder, namedChildren, children, namedPreorders_eq]

theorem walk_eq (n : Node) : n.walk = n.preorder := by
  rw [walk, (preordered_walkFrom [n]).eq_flatMap preorder_eq, List.flatMap_singleton]

theorem walkNamed_eq (n : Node) : n.walkNamed = n.namedPreorder := by
  rw [walkNamed, (preordered_walkNamedFrom [n]).eq_flatMap namedPreorder_eq,
    List.flatMap_singleton]

theorem preordered_preorder (n : Node) : Preordered children [n] n.preorder :=
  walk_eq n ▸ preordered_walkFrom [n]

theorem preordered_namedPreorder (n : Node) : Preordered namedChildren [n] n.namedPreorder :=
  walkNamed_eq n ▸ preordered_walkNamedFrom [n]

theorem mem_preorder_self (n : Node) : n ∈ n.preorder :=
  (preordered_preorder n).roots n List.mem_cons_self

theorem mem_preorder_of_mem_children (hm : m ∈ n.preorder) (hc : c ∈ m.children) :
    c ∈ n.preorder :=
  (preordered_preorder n).closed m hm c hc

/-- The walk over named nodes leaves the tree nowhere. -/
theorem mem_preorder_of_mem_walkNamed (h : m ∈ n.walkNamed) : m ∈ n.preorder := by
  rw [walkNamed_eq] at h
  refine (preordered_namedPreorder n).subset (fun m hm c hc => ?_) ?_ m h
  · exact mem_preorder_of_mem_children hm (List.mem_filter.mp hc).1
  · simpa using mem_preorder_self n

theorem size_lt_of_mem_children (h : c ∈ n.children) : c.size < n.size := by
  have hle : ∀ nodes : List Node, c ∈ nodes → c.size ≤ sizes nodes := by
    intro nodes
    induction nodes with
    | nil => simp
    | cons m nodes ih =>
      intro hc
      rw [sizes]
      rcases List.mem_cons.mp hc with rfl | hc
      · exact Nat.le_add_right _ _
      · exact (ih hc).trans (Nat.le_add_left _ _)
  rw [size_eq n]
  have hchild := hle _ h
  omega

theorem length_preorder (n : Node) : n.preorder.length = n.size := by
  rw [(preordered_preorder n).length_eq, sizes, sizes, Nat.add_zero]

/-! ## 3. The loop -/

/-- What is visited until the stack is empty. The last node is taken from it, and
the nodes below that one are put on it in reverse. -/
inductive Visits (below : Node → List Node) : List Node → List Node → Prop where
  | done : Visits below [] []
  | turn {stack visited : List Node} {n : Node} (hlast : stack.getLast? = some n)
      (hrest : Visits below (stack.dropLast ++ (below n).reverse) visited) :
      Visits below stack (n :: visited)

/-- A loop that ends visits one list of nodes. -/
theorem Visits.unique {other : List Node} (h : Visits below stack visited)
    (hother : Visits below stack other) : visited = other := by
  induction h generalizing other with
  | done =>
    cases hother with
    | done => rfl
    | turn hlast => simp at hlast
  | turn hlast hrest ih =>
    cases hother with
    | done => simp at hlast
    | turn hlast' hrest' =>
      obtain rfl := Option.some.inj (hlast.symm.trans hlast')
      rw [ih hrest']

/-- **Turns.** What is on top of a stack is visited in pre-order, and then the
loop goes on with what is under it. -/
theorem Preordered.visits (h : Preordered below nodes order) (hstack : Visits below stack visited) :
    Visits below (stack ++ nodes.reverse) (order ++ visited) := by
  induction h generalizing stack visited with
  | nil => simpa using hstack
  | @cons n rest inside later hinside hlater ihinside ihlater =>
    have hnext := ihinside (ihlater hstack)
    refine .turn (n := n) (by simp) ?_
    simpa [List.dropLast_append_of_ne_nil] using hnext

/-- **Runs.** From a root the loop ends, and what it has visited is the pre-order. -/
theorem Preordered.visits_iff (h : Preordered below [root] order) :
    Visits below [root] visited ↔ visited = order := by
  have hvisits : Visits below [root] order := by simpa using h.visits .done
  constructor
  · intro hvisited
    exact hvisited.unique hvisits
  · rintro rfl
    exact hvisits

/-! ## 4. Places -/

/-- The node to which positions lead, each one among the nodes below the node
before it. -/
def at? (below : Node → List Node) : Node → List Nat → Option Node
  | n, [] => some n
  | n, i :: place => (below n)[i]?.bind fun c => c.at? below place

/-- What is visited are the nodes at all the places of a tree, each place once and
in lexicographic order. -/
def InOrder (below : Node → List Node) (root : Node) (visited : List Node) : Prop :=
  ∃ places : List (List Nat), places.Pairwise (· < ·) ∧
    (∀ place, place ∈ places ↔ (root.at? below place).isSome) ∧
    visited.map some = places.map (root.at? below)

/-- The node at a place among several trees: the position of a tree, and a place in
that tree. -/
def among? (below : Node → List Node) (nodes : List Node) (p : Nat × List Nat) : Option Node :=
  nodes[p.1]?.bind fun n => n.at? below p.2

/-- A place among several trees is the first root, a place below it or a place among
the other trees. -/
theorem mem_places_cons_iff {inner others : List (Nat × List Nat)}
    (hinner : ∀ p, p ∈ inner ↔ (among? below (below n) p).isSome)
    (hothers : ∀ p, p ∈ others ↔ (among? below rest p).isSome) (p : Nat × List Nat) :
    p ∈ (0, []) :: (inner.map (fun p => (0, p.1 :: p.2)) ++ others.map fun p => (p.1 + 1, p.2)) ↔
      (among? below (n :: rest) p).isSome := by
  rw [List.mem_cons, List.mem_append, List.mem_map, List.mem_map]
  obtain ⟨i, place⟩ := p
  cases i with
  | zero =>
    cases place with
    | nil => simp [among?, at?]
    | cons j place =>
      have hbelow : among? below (n :: rest) (0, j :: place) = among? below (below n) (j, place) :=
        rfl
      simp [hbelow, ← hinner]
  | succ i =>
    have hrest : among? below (n :: rest) (i + 1, place) = among? below rest (i, place) := rfl
    simp [hrest, ← hothers]

/-- What stands in pre-order stands at the places of the trees in order. -/
theorem Preordered.exists_places (h : Preordered below nodes order) :
    ∃ places : List (Nat × List Nat), places.Pairwise (fun p q => p.1 :: p.2 < q.1 :: q.2) ∧
      (∀ p, p ∈ places ↔ (among? below nodes p).isSome) ∧
      order.map some = places.map (among? below nodes) := by
  induction h with
  | nil => exact ⟨[], .nil, by simp [among?], rfl⟩
  | @cons n rest inside later hinside hlater ihinside ihlater =>
    obtain ⟨inner, hinner, hmeminner, heqinner⟩ := ihinside
    obtain ⟨others, hothers, hmemothers, heqothers⟩ := ihlater
    refine ⟨_, ?_, mem_places_cons_iff hmeminner hmemothers, ?_⟩
    · rw [List.pairwise_cons, List.pairwise_append, List.pairwise_map, List.pairwise_map]
      refine ⟨fun q hq => ?_, hinner.imp fun hlt => ?_, hothers.imp fun hlt => ?_,
        fun p hp q hq => ?_⟩
      · rcases List.mem_append.mp hq with hq | hq
        · obtain ⟨p, -, rfl⟩ := List.mem_map.mp hq
          simp
        · obtain ⟨p, -, rfl⟩ := List.mem_map.mp hq
          simp [List.cons_lt_cons_iff]
      · simpa using hlt
      · simpa [List.cons_lt_cons_iff] using hlt
      · obtain ⟨p, -, rfl⟩ := List.mem_map.mp hp
        obtain ⟨q, -, rfl⟩ := List.mem_map.mp hq
        simp [List.cons_lt_cons_iff]
    · have hinsideat : inner.map (among? below (n :: rest) ∘ fun p => (0, p.1 :: p.2)) =
          inside.map some := heqinner.symm
      have hlaterat : others.map (among? below (n :: rest) ∘ fun p => (p.1 + 1, p.2)) =
          later.map some := heqothers.symm
      rw [List.map_cons, List.map_append, List.map_cons, List.map_append, List.map_map,
        List.map_map, hinsideat, hlaterat]
      rfl

/-- What stands in pre-order below a root stands at the places of the tree in order. -/
theorem Preordered.inOrder (h : Preordered below [root] order) : InOrder below root order := by
  obtain ⟨places, hplaces, hmem, heq⟩ := h.exists_places
  -- With one tree the first position is zero, so a place is told by the others.
  have hzero : ∀ p ∈ places, p.1 = 0 := by
    intro p hp
    have hsome := (hmem p).mp hp
    by_contra hne
    obtain ⟨i, hi⟩ := Nat.exists_eq_succ_of_ne_zero hne
    simp [among?, hi] at hsome
  refine ⟨places.map Prod.snd, ?_, fun place => ?_, ?_⟩
  · rw [List.pairwise_map]
    refine hplaces.imp_of_mem fun hp hq hlt => ?_
    simpa [hzero _ hp, hzero _ hq, List.cons_lt_cons_iff] using hlt
  · have hroot : root.at? below place = among? below [root] (0, place) := rfl
    rw [hroot, ← hmem, List.mem_map]
    constructor
    · rintro ⟨⟨i, place⟩, hp, rfl⟩
      obtain rfl : i = 0 := hzero _ hp
      exact hp
    · intro hp
      exact ⟨_, hp, rfl⟩
  · rw [heq, List.map_map]
    refine List.map_congr_left fun p hp => ?_
    obtain ⟨i, place⟩ := p
    obtain rfl : i = 0 := hzero _ hp
    rfl

/-! ## 5. Both walks -/

/-- **Walks.** The loop over all children of the nodes ends whatever the tree is; it
visits the nodes at all places of the tree, each once and in order, and this is the
recursive pre-order. The references of a script are those of its nodes in this order.
The same holds of the loop over named children, which leaves out what lies below
tokens. -/
theorem walks_preorder (root : Node) :
    ((∀ visited, Visits children [root] visited ↔ visited = root.walk) ∧
      root.walk = root.preorder ∧ InOrder children root root.preorder ∧
      ∀ file, Import.ofTree file root = root.preorder.filterMap (Import.reference? file)) ∧
    (∀ visited, Visits namedChildren [root] visited ↔ visited = root.walkNamed) ∧
      root.walkNamed = root.namedPreorder ∧ InOrder namedChildren root root.namedPreorder := by
  have hall := preordered_preorder root
  have hnamed := preordered_namedPreorder root
  rw [walk_eq, walkNamed_eq]
  refine ⟨⟨fun _ => hall.visits_iff, rfl, hall.inOrder, fun file => ?_⟩,
    fun _ => hnamed.visits_iff, rfl, hnamed.inOrder⟩
  rw [Import.ofTree, walk_eq]

end PackageAudit.Script.Node
