/-
PackageAudit.Proofs.Script.Target — when the target that a node stands for can be
found.

A target is found by three rules: follow names, take off what changes nothing,
and go through the elements of an array until one has a target. Each rule is
stated here by itself, with no bound on how often it applies (`Named`, `Bare`,
`First`). Following names ends, since no name is followed twice; taking off
wrappers ends, since each one is smaller. Going through arrays need not end: a
name in an array may stand for that very array (`target_loopedScript`).

What the evaluation of a node evaluates next is a relation (`Calls`). Where an
evaluation ends, so does every chain of its calls (`Settles`), and then no node
is called from itself. One that does not end makes calls as deep as it is let, and
as all of them are about nodes of the script, one node is met twice. So a target is
found unless an evaluation comes back to a node that it has not finished with
(`Reenters`), and this is all that can go wrong (`target_returns_iff`).
-/
import PackageAudit.Proofs.Script.Walk
import PackageAudit.Proofs.Collection
import PackageAudit.Proofs.Table
import Mathlib.Data.List.Perm.Subperm
import Mathlib.Logic.Relation

namespace PackageAudit.Script

deriving instance ReflBEq, LawfulBEq for Kind

namespace Literals

open Relation (ReflTransGen TransGen)

variable {l : Literals} {n m c : Node} {seen : List String} {nodes : List Node}

/-! ## 1. Names and wrappers -/

/-- What following names comes to. `seen` are the names followed so far. -/
inductive Named (l : Literals) : List String → Node → Option Node → Prop where
  | value {seen : List String} {n : Node} (hkind : n.kind ≠ .identifier) :
      Named l seen n (some n)
  | again {seen : List String} {n : Node} (hkind : n.kind = .identifier)
      (hseen : n.text ∈ seen) : Named l seen n none
  | unbound {seen : List String} {n : Node} (hkind : n.kind = .identifier)
      (hnew : n.text ∉ seen) (hvalue : l.bindings.get? n.text = none) : Named l seen n none
  | bound {seen : List String} {n value : Node} {found : Option Node}
      (hkind : n.kind = .identifier) (hnew : n.text ∉ seen)
      (hvalue : l.bindings.get? n.text = some value)
      (hrest : Named l (n.text :: seen) value found) : Named l seen n found

/-- What taking off parentheses and type annotations comes to. -/
inductive Bare : Node → Option Node → Prop where
  | plain {n : Node} (hplain : isWrapper n = false) : Bare n (some n)
  | empty {n : Node} (hwrapper : isWrapper n = true)
      (hinside : n.namedChildren.head? = none) : Bare n none
  | wrapped {n c : Node} {found : Option Node} (hwrapper : isWrapper n = true)
      (hinside : n.namedChildren.head? = some c) (hrest : Bare c found) : Bare n found

/-- What a node stands for: a name is followed to its value, and from that is taken
off what changes nothing. -/
inductive Denotes (l : Literals) (n : Node) : Option Node → Prop where
  | nothing (hnames : l.Named [] n none) : Denotes l n none
  | found {m : Node} {found : Option Node} (hnames : l.Named [] n (some m))
      (hbare : Bare m found) : Denotes l n found

theorem Named.unique {found other : Option Node} (h : l.Named seen n found)
    (hother : l.Named seen n other) : found = other := by
  induction h generalizing other with
  | value hkind =>
    cases hother with
    | value => rfl
    | again hkind' => exact absurd hkind' hkind
    | unbound hkind' => exact absurd hkind' hkind
    | bound hkind' => exact absurd hkind' hkind
  | again hkind hseen =>
    cases hother with
    | value hkind' => exact absurd hkind hkind'
    | again => rfl
    | unbound => rfl
    | bound _ hnew => exact absurd hseen hnew
  | unbound hkind hnew hvalue =>
    cases hother with
    | value hkind' => exact absurd hkind hkind'
    | again => rfl
    | unbound => rfl
    | bound _ _ hvalue' => cases hvalue.symm.trans hvalue'
  | bound hkind hnew hvalue hrest ih =>
    cases hother with
    | value hkind' => exact absurd hkind hkind'
    | again _ hseen => exact absurd hseen hnew
    | unbound _ _ hvalue' => cases hvalue.symm.trans hvalue'
    | bound _ _ hvalue' hrest' =>
      obtain rfl := Option.some.inj (hvalue.symm.trans hvalue')
      exact ih hrest'

theorem Bare.unique {found other : Option Node} (h : Bare n found) (hother : Bare n other) :
    found = other := by
  induction h generalizing other with
  | plain hplain =>
    cases hother with
    | plain => rfl
    | empty hwrapper => cases hplain.symm.trans hwrapper
    | wrapped hwrapper => cases hplain.symm.trans hwrapper
  | empty hwrapper hinside =>
    cases hother with
    | plain hplain => cases hplain.symm.trans hwrapper
    | empty => rfl
    | wrapped _ hinside' => cases hinside.symm.trans hinside'
  | wrapped hwrapper hinside hrest ih =>
    cases hother with
    | plain hplain => cases hplain.symm.trans hwrapper
    | empty _ hinside' => cases hinside.symm.trans hinside'
    | wrapped _ hinside' hrest' =>
      obtain rfl := Option.some.inj (hinside.symm.trans hinside')
      exact ih hrest'

/-- Names are followed to their end: those followed so far are different names of
variables, so there are never more of them than variables. -/
theorem named_followNames {fuel : Nat} (hdistinct : seen.Nodup)
    (hbound : ∀ name ∈ seen, name ∈ l.bindings.keys)
    (hfuel : l.bindings.length < fuel + seen.length) (n : Node) :
    l.Named seen n (l.followNames fuel seen n) := by
  induction fuel generalizing seen n with
  | zero =>
    have hlength : seen.length ≤ l.bindings.keys.length :=
      (List.subperm_of_subset hdistinct hbound).length_le
    rw [Table.keys, List.length_map] at hlength
    omega
  | succ fuel ih =>
    by_cases hkind : n.kind = .identifier
    · by_cases hseen : n.text ∈ seen
      · simpa [followNames, hkind, hseen] using Named.again hkind hseen
      · cases hvalue : l.bindings.get? n.text with
        | none => simpa [followNames, hkind, hseen, hvalue] using Named.unbound hkind hseen hvalue
        | some value =>
          have hkey : n.text ∈ l.bindings.keys := List.mem_map_of_mem (Table.mem_of_get? hvalue)
          have hrest := ih (List.nodup_cons.mpr ⟨hseen, hdistinct⟩)
            (List.forall_mem_cons.mpr ⟨hkey, hbound⟩) (by simp; omega) value
          simpa [followNames, hkind, hseen, hvalue] using Named.bound hkind hseen hvalue hrest
    · simpa [followNames, hkind] using Named.value hkind

/-- Wrappers are taken off to the last: each is larger than what is in it. -/
theorem bare_unwrap {fuel : Nat} (hfuel : n.size ≤ fuel) : Bare n (unwrap (fuel + 1) n) := by
  induction fuel generalizing n with
  | zero =>
    rw [Node.size_eq] at hfuel
    omega
  | succ fuel ih =>
    cases hwrapper : isWrapper n with
    | false => simpa [unwrap, hwrapper] using Bare.plain hwrapper
    | true =>
      rw [unwrap, if_pos hwrapper]
      cases hinside : n.namedChildren.head? with
      | none => exact .empty hwrapper hinside
      | some c =>
        have hmem : c ∈ n.children := List.mem_of_mem_filter (List.mem_of_head? hinside)
        have hsmaller : c.size < n.size := Node.size_lt_of_mem_children hmem
        exact .wrapped hwrapper hinside (ih (by omega))

/-- **Following names and taking off wrappers ends**, with what the rules say. -/
theorem denotes_iff {found : Option Node} : l.Denotes n found ↔ found = l.dereference? n := by
  have hnames : l.Named [] n (l.followNames (l.bindings.length + 2) [] n) :=
    named_followNames List.nodup_nil (by simp) (by simp) n
  rw [dereference?]
  cases hfound : l.followNames (l.bindings.length + 2) [] n with
  | none =>
    rw [hfound] at hnames
    constructor
    · intro h
      cases h with
      | nothing => rfl
      | found hnames' => cases hnames.unique hnames'
    · rintro rfl
      exact .nothing hnames
  | some m =>
    rw [hfound] at hnames
    have hbare : Bare m (unwrap (m.size + 1) m) := bare_unwrap le_rfl
    constructor
    · intro h
      cases h with
      | nothing hnames' => cases hnames.unique hnames'
      | found hnames' hbare' =>
        obtain rfl := Option.some.inj (hnames.unique hnames')
        exact hbare'.unique hbare
    · rintro rfl
      exact .found hnames hbare

/-! ## 2. Going through arrays -/

/-- The elements of the array that a node stands for. -/
def elements? (l : Literals) (n : Node) : Option (List Node) :=
  (l.dereference? n).bind fun m => if m.kind == .array then some m.namedChildren else none

/-- The target of a node that stands for no array. -/
def ownTarget (l : Literals) (n : Node) : Option String :=
  (l.dereference? n).bind fun m =>
    (text? m).or
      (if m.kind == .callExpression || m.kind == .newExpression then callTarget m else none)

/-- The first target among some nodes, arrays gone through one inside the other. -/
inductive First (l : Literals) : List Node → Option String → Prop where
  | nil : First l [] none
  | here {n : Node} {nodes : List Node} {s : String} (hplain : l.elements? n = none)
      (hown : l.ownTarget n = some s) : First l (n :: nodes) (some s)
  | pass {n : Node} {nodes : List Node} {r : Option String} (hplain : l.elements? n = none)
      (hown : l.ownTarget n = none) (hrest : First l nodes r) : First l (n :: nodes) r
  | inside {n : Node} {nodes inner : List Node} {s : String}
      (harray : l.elements? n = some inner) (hinner : First l inner (some s)) :
      First l (n :: nodes) (some s)
  | beyond {n : Node} {nodes inner : List Node} {r : Option String}
      (harray : l.elements? n = some inner) (hinner : First l inner none)
      (hrest : First l nodes r) : First l (n :: nodes) r

theorem First.unique {r r' : Option String} (h : l.First nodes r) (h' : l.First nodes r') :
    r = r' := by
  induction h generalizing r' with
  | nil =>
    cases h'
    rfl
  | here hplain hown =>
    cases h' with
    | here _ hown' => rw [← hown, ← hown']
    | pass _ hown' => cases hown.symm.trans hown'
    | inside harray => cases hplain.symm.trans harray
    | beyond harray => cases hplain.symm.trans harray
  | pass hplain hown hrest ih =>
    cases h' with
    | here _ hown' => cases hown.symm.trans hown'
    | pass _ _ hrest' => exact ih hrest'
    | inside harray => cases hplain.symm.trans harray
    | beyond harray => cases hplain.symm.trans harray
  | inside harray hinner ih =>
    cases h' with
    | here hplain => cases hplain.symm.trans harray
    | pass hplain => cases hplain.symm.trans harray
    | inside harray' hinner' =>
      obtain rfl := Option.some.inj (harray.symm.trans harray')
      exact ih hinner'
    | beyond harray' hinner' =>
      obtain rfl := Option.some.inj (harray.symm.trans harray')
      cases ih hinner'
  | beyond harray hinner hrest ihinner ihrest =>
    cases h' with
    | here hplain => cases hplain.symm.trans harray
    | pass hplain => cases hplain.symm.trans harray
    | inside harray' hinner' =>
      obtain rfl := Option.some.inj (harray.symm.trans harray')
      cases ihinner hinner'
    | beyond _ _ hrest' => exact ihrest hrest'

/-- Nodes without a target are passed over. -/
theorem First.cons {r : Option String} (h : l.First [n] none) (hrest : l.First nodes r) :
    l.First (n :: nodes) r := by
  cases h with
  | pass hplain hown => exact .pass hplain hown hrest
  | beyond harray hinner => exact .beyond harray hinner hrest

theorem First.of_some {s : String} (h : l.First [n] (some s)) : l.First (n :: nodes) (some s) := by
  cases h with
  | here hplain hown => exact .here hplain hown
  | pass _ _ hrest => cases hrest
  | inside harray hinner => exact .inside harray hinner
  | beyond _ _ hrest => cases hrest

/-! ## 3. What is found -/

/-- One step of the evaluation: the elements of an array, or the node's own target. -/
theorem targetTo_succ (fuel : Nat) (n : Node) : l.targetTo (fuel + 1) n =
    (l.elements? n).elim (.ok (l.ownTarget n)) (firstTarget (l.targetTo fuel)) := by
  rw [targetTo, elements?, ownTarget]
  cases l.dereference? n with
  | none => rfl
  | some m =>
    by_cases harray : m.kind = .array
    · have htext : text? m = none := by rw [text?, rawText?, harray, Option.map_none]
      simp [htext, harray]
    · cases htext : text? m with
      | some s => simp [htext, harray]
      | none =>
        by_cases hcall : m.kind = .callExpression ∨ m.kind = .newExpression <;>
          simp [htext, harray, hcall]

theorem first_of_firstTarget {target : Node → Except Endless (Option String)}
    (htarget : ∀ n r, target n = .ok r → l.First [n] r) {r : Option String}
    (h : firstTarget target nodes = .ok r) : l.First nodes r := by
  induction nodes with
  | nil =>
    cases h
    exact .nil
  | cons n nodes ih =>
    rw [firstTarget, bind_eq_ok_iff] at h
    obtain ⟨first, hfirst, h⟩ := h
    cases first with
    | none => exact (htarget n _ hfirst).cons (ih h)
    | some s =>
      cases h
      exact (htarget n _ hfirst).of_some

/-- What is found within any bound is what the rules say. -/
theorem first_of_targetTo {fuel : Nat} {r : Option String} (h : l.targetTo fuel n = .ok r) :
    l.First [n] r := by
  induction fuel generalizing n r with
  | zero => cases h
  | succ fuel ih =>
    rw [targetTo_succ] at h
    cases helements : l.elements? n with
    | none =>
      rw [helements, Option.elim_none, Except.ok.injEq] at h
      cases r with
      | none => exact .pass helements h .nil
      | some s => exact .here helements h
    | some inner =>
      rw [helements, Option.elim_some] at h
      have hinner := first_of_firstTarget (fun _ _ => ih) h
      cases r with
      | none => exact .beyond helements hinner .nil
      | some s => exact .inside helements hinner

/-! ## 4. Coming back -/

/-- Among some nodes a node is evaluated: those before it have no target. -/
inductive Tried (l : Literals) : List Node → Node → Prop where
  | here {n : Node} {nodes : List Node} : Tried l (n :: nodes) n
  | later {n c : Node} {nodes : List Node} (hnone : l.First [n] none)
      (hrest : Tried l nodes c) : Tried l (n :: nodes) c

/-- The evaluation of a node evaluates another one, among the elements of its array. -/
def Calls (l : Literals) (n c : Node) : Prop :=
  ∃ inner, l.elements? n = some inner ∧ l.Tried inner c

/-- The evaluation of a node comes to a node that is still being evaluated. -/
def Reenters (l : Literals) (n : Node) : Prop :=
  ∃ m, ReflTransGen l.Calls n m ∧ TransGen l.Calls m m

theorem Tried.mem (h : l.Tried nodes c) : c ∈ nodes := by
  induction h with
  | here => exact List.mem_cons_self
  | later hnone hrest ih => exact List.mem_cons_of_mem _ ih

/-- The calls that start from a node, one inside the other, come to an end. -/
def Settles (l : Literals) : Node → Prop := Acc fun c n => l.Calls n c

theorem settles_of_plain (hplain : l.elements? n = none) : l.Settles n := by
  refine ⟨_, fun c hcall => ?_⟩
  obtain ⟨inner, helements, -⟩ := hcall
  cases hplain.symm.trans helements

theorem settles_of_array {inner : List Node} (harray : l.elements? n = some inner)
    (hinner : ∀ c, l.Tried inner c → l.Settles c) : l.Settles n := by
  refine ⟨_, fun c hcall => ?_⟩
  obtain ⟨inner', helements, htried⟩ := hcall
  obtain rfl := Option.some.inj (harray.symm.trans helements)
  exact hinner c htried

/-- Where the evaluation of nodes ends, the calls of each one tried come to an end. -/
theorem First.settles {r : Option String} (h : l.First nodes r) (hc : l.Tried nodes c) :
    l.Settles c := by
  induction h generalizing c with
  | nil => cases hc
  | here hplain hown =>
    cases hc with
    | here => exact settles_of_plain hplain
    | later hpassed => cases hpassed.unique (.here hplain hown)
  | pass hplain hown hrest ih =>
    cases hc with
    | here => exact settles_of_plain hplain
    | later _ htried => exact ih htried
  | inside harray hinner ih =>
    cases hc with
    | here => exact settles_of_array harray fun c => ih
    | later hpassed => cases hpassed.unique (.inside harray hinner)
  | beyond harray hinner hrest ihinner ihrest =>
    cases hc with
    | here => exact settles_of_array harray fun c => ihinner
    | later _ htried => exact ihrest htried

theorem Settles.reached (h : l.Settles n) (hreach : ReflTransGen l.Calls n m) : l.Settles m := by
  induction hreach with
  | refl => exact h
  | tail _ hcall ih => exact ih.inv hcall

theorem Settles.not_cycle (h : l.Settles m) : ¬ TransGen l.Calls m m := by
  induction h with
  | intro m _ ih =>
    intro hcycle
    obtain ⟨c, hcall, hback⟩ := TransGen.head'_iff.mp hcycle
    exact ih c hcall (TransGen.tail' hback hcall)

/-- An evaluation that ends comes back to nothing. -/
theorem First.not_reenters {r : Option String} (h : l.First [n] r) : ¬ l.Reenters n := by
  rintro ⟨m, hreach, hcycle⟩
  exact ((h.settles .here).reached hreach).not_cycle hcycle

/-! ## 5. Running out -/

theorem exists_tried_of_error {target : Node → Except Endless (Option String)}
    (htarget : ∀ n r, target n = .ok r → l.First [n] r)
    (h : firstTarget target nodes = .error {}) : ∃ c, l.Tried nodes c ∧ target c = .error {} := by
  induction nodes with
  | nil => cases h
  | cons n nodes ih =>
    rw [firstTarget] at h
    cases hn : target n with
    | error => exact ⟨n, .here, hn⟩
    | ok first =>
      rw [hn] at h
      cases first with
      | some s => cases h
      | none =>
        obtain ⟨c, htried, hc⟩ := ih h
        exact ⟨c, .later (htarget n none hn) htried, hc⟩

/-- Whoever runs out of a bound has made a chain of calls of that length. -/
theorem exists_calls_of_error {fuel : Nat} (h : l.targetTo fuel n = .error {}) :
    ∃ path : List Node, path.length = fuel ∧ (n :: path).IsChain l.Calls := by
  induction fuel generalizing n with
  | zero => exact ⟨[], rfl, .singleton n⟩
  | succ fuel ih =>
    rw [targetTo_succ] at h
    cases helements : l.elements? n with
    | none =>
      rw [helements] at h
      cases h
    | some inner =>
      rw [helements, Option.elim_some] at h
      obtain ⟨c, htried, hc⟩ := exists_tried_of_error (fun _ _ => first_of_targetTo) h
      obtain ⟨path, hlength, hpath⟩ := ih hc
      refine ⟨c :: path, ?_, .cons_cons ⟨inner, helements, htried⟩ hpath⟩
      rw [List.length_cons, hlength]

/-- Nodes that hold the values of all names and the children of all of them hold what
their evaluation calls. -/
structure Closed (l : Literals) (within : List Node) : Prop where
  children : ∀ n ∈ within, ∀ c ∈ n.children, c ∈ within
  bindings : ∀ b ∈ l.bindings, b.2 ∈ within

namespace Closed

variable {within : List Node}

theorem head_mem (hw : l.Closed within) (hn : n ∈ within) (h : n.namedChildren.head? = some c) :
    c ∈ within :=
  hw.children n hn c (List.mem_of_mem_filter (List.mem_of_head? h))

theorem followNames_mem {fuel : Nat} (hw : l.Closed within) (hn : n ∈ within)
    (h : l.followNames fuel seen n = some m) : m ∈ within := by
  induction fuel generalizing seen n with
  | zero => cases h
  | succ fuel ih =>
    rw [followNames] at h
    split at h
    · split at h
      · cases h
      · obtain ⟨value, hvalue, h⟩ := Option.bind_eq_some_iff.mp h
        exact ih (hw.bindings _ (Table.mem_of_get? hvalue)) h
    · obtain rfl := Option.some.inj h
      exact hn

theorem unwrap_mem {fuel : Nat} (hw : l.Closed within) (hn : n ∈ within)
    (h : unwrap fuel n = some m) : m ∈ within := by
  induction fuel generalizing n with
  | zero => cases h
  | succ fuel ih =>
    rw [unwrap] at h
    split at h
    · obtain ⟨c, hc, h⟩ := Option.bind_eq_some_iff.mp h
      exact ih (hw.head_mem hn hc) h
    · obtain rfl := Option.some.inj h
      exact hn

theorem dereference_mem (hw : l.Closed within) (hn : n ∈ within) (h : l.dereference? n = some m) :
    m ∈ within := by
  obtain ⟨value, hvalue, hm⟩ := Option.bind_eq_some_iff.mp h
  exact hw.unwrap_mem (hw.followNames_mem hn hvalue) hm

theorem calls_mem (hw : l.Closed within) (hn : n ∈ within) (h : l.Calls n c) : c ∈ within := by
  obtain ⟨inner, hinner, htried⟩ := h
  obtain ⟨m, hm, hinner⟩ := Option.bind_eq_some_iff.mp hinner
  split at hinner
  · obtain rfl := Option.some.inj hinner
    exact hw.children m (hw.dereference_mem hn hm) c (List.mem_of_mem_filter htried.mem)
  · cases hinner

theorem transGen_mem (hw : l.Closed within) (hn : n ∈ within) (h : TransGen l.Calls n c) :
    c ∈ within := by
  induction h with
  | single hcall => exact hw.calls_mem hn hcall
  | tail _ hcall ih => exact hw.calls_mem ih hcall

/-- **Bounds.** As many calls one inside the other as there are nodes come back to one
of them. -/
theorem reenters_of_error (hw : l.Closed within) (hn : n ∈ within)
    (h : l.targetTo within.length n = .error {}) : l.Reenters n := by
  obtain ⟨path, hlength, hpath⟩ := exists_calls_of_error h
  have hchain : (n :: path).Pairwise (TransGen l.Calls) :=
    List.isChain_iff_pairwise.mp (hpath.imp fun _ _ => TransGen.single)
  have hcalls : ∀ m ∈ path, TransGen l.Calls n m := (List.pairwise_cons.mp hchain).1
  by_contra hnot
  have hnodup : (n :: path).Nodup := by
    refine hchain.imp_of_mem fun {a b} ha _ hab => ?_
    rintro rfl
    refine hnot ⟨a, ?_, hab⟩
    rcases List.mem_cons.mp ha with rfl | ha
    · exact .refl
    · exact (hcalls a ha).to_reflTransGen
  have hsubset : ∀ m ∈ n :: path, m ∈ within :=
    List.forall_mem_cons.mpr ⟨hn, fun m hm => hw.transGen_mem hn (hcalls m hm)⟩
  have hle : (n :: path).length ≤ within.length :=
    (List.subperm_of_subset hnodup hsubset).length_le
  rw [List.length_cons, hlength] at hle
  omega

end Closed

/-! ## 6. Scripts -/

theorem mem_children_of_declaration? {name : String} (h : declaration? n = some (name, m)) :
    m ∈ n.children := by
  unfold declaration? at h
  split at h
  · split at h
    · rename_i hvalue
      split at h
      · obtain ⟨-, rfl⟩ := Prod.mk.inj (Option.some.inj h)
        exact List.mem_of_find?_eq_some hvalue
      · cases h
    · cases h
  · cases h

/-- The values of a script's variables are nodes of the script. -/
theorem mem_preorder_of_mem_bindings (tree : Tree) :
    ∀ b ∈ (ofTree tree).bindings, b.2 ∈ tree.root.preorder := by
  have hdeclared : ∀ b ∈ tree.root.walkNamed.filterMap declaration?, b.2 ∈ tree.root.preorder := by
    intro b hb
    obtain ⟨n, hn, hb⟩ := List.mem_filterMap.mp hb
    exact Node.mem_preorder_of_mem_children (Node.mem_preorder_of_mem_walkNamed hn)
      (mem_children_of_declaration? hb)
  unfold ofTree
  refine List.foldlRecOn (motive := fun t : Table Node => ∀ b ∈ t, b.2 ∈ tree.root.preorder)
    _ _ (by simp) ?_
  rintro t ht ⟨name, value⟩ hd b hb
  dsimp only [Table.putNew] at hb
  split at hb
  · exact ht b hb
  · rcases List.mem_append.mp hb with hb | hb
    · exact ht b hb
    · rw [List.mem_singleton.mp hb]
      exact hdeclared _ hd

theorem closed_ofTree (tree : Tree) (n : Node) :
    (ofTree tree).Closed (tree.root.preorder ++ n.preorder) where
  children _ hm _ hc := List.mem_append.mpr <| (List.mem_append.mp hm).imp
    (Node.mem_preorder_of_mem_children · hc) (Node.mem_preorder_of_mem_children · hc)
  bindings b hb := List.mem_append_left _ (mem_preorder_of_mem_bindings tree b hb)

/-- **Targets.** In a script, with the variables that it declares, names and wrappers
are followed to their end. The target of any node is found unless its evaluation comes
back to a node that is still being evaluated, and then there is none. What is found is
what the rules say; the bound on nested arrays never cuts an evaluation short. -/
theorem target_returns_iff (tree : Tree) (n : Node) :
    (∀ m found, (ofTree tree).Denotes m found ↔ found = (ofTree tree).dereference? m) ∧
    ((∃ r, (ofTree tree).First [n] r) ↔ ¬ (ofTree tree).Reenters n) ∧
    ∀ r, (ofTree tree).target n = .ok r ↔ (ofTree tree).First [n] r := by
  have hn : n ∈ tree.root.preorder ++ n.preorder :=
    List.mem_append_right _ (Node.mem_preorder_self n)
  have hlength : (tree.root.preorder ++ n.preorder).length =
      (ofTree tree).tree.root.size + n.size := by
    rw [List.length_append, Node.length_preorder, Node.length_preorder]
    rfl
  have hreturns : ¬ (ofTree tree).Reenters n → ∃ r, (ofTree tree).target n = .ok r := by
    intro hnot
    cases htarget : (ofTree tree).target n with
    | ok r => exact ⟨r, rfl⟩
    | error =>
      rw [target, ← hlength] at htarget
      exact absurd ((closed_ofTree tree n).reenters_of_error hn htarget) hnot
  refine ⟨fun m found => denotes_iff, ⟨?_, fun hnot => ?_⟩, fun r => ⟨first_of_targetTo, ?_⟩⟩
  · rintro ⟨r, hr⟩
    exact hr.not_reenters
  · obtain ⟨r, hr⟩ := hreturns hnot
    exact ⟨r, first_of_targetTo hr⟩
  · intro hr
    obtain ⟨r', hr'⟩ := hreturns hr.not_reenters
    rw [hr', hr.unique (first_of_targetTo hr')]

/-- A script with an array that contains itself. -/
def loopedScript : Tree := Script.read .javascript "const a = [a];"

/-- The only variable of the script is an array, and its only element the name of the
variable. -/
theorem bindings_loopedScript : ∃ array name, (ofTree loopedScript).bindings = [("a", array)] ∧
    array.kind = .array ∧ array.namedChildren = [name] ∧ name.kind = .identifier ∧
    name.text = "a" := by
  have hshape : ((ofTree loopedScript).bindings.map fun b =>
      (b.1, b.2.kind, b.2.namedChildren.map fun c => (c.kind, c.text))) =
        [("a", .array, [(.identifier, "a")])] := by
    rw [ofTree, Node.walkNamed_eq]
    decide +kernel
  obtain ⟨⟨key, array⟩, hbindings, hentry⟩ := List.map_eq_singleton_iff.mp hshape
  obtain ⟨rfl, hvalue⟩ := Prod.mk.inj hentry
  obtain ⟨harray, hnames⟩ := Prod.mk.inj hvalue
  obtain ⟨name, hchildren, hchild⟩ := List.map_eq_singleton_iff.mp hnames
  obtain ⟨hname, htext⟩ := Prod.mk.inj hchild
  exact ⟨array, name, hbindings, harray, hchildren, hname, htext⟩

/-- The name in the array has no target: its evaluation comes back to it. -/
theorem target_loopedScript : ∃ n ∈ loopedScript.root.preorder,
    (ofTree loopedScript).Reenters n ∧ ¬ ∃ r, (ofTree loopedScript).target n = .ok r := by
  obtain ⟨array, name, hbindings, harray, hchildren, hname, htext⟩ := bindings_loopedScript
  have hvalue : (ofTree loopedScript).dereference? name = some array := by
    simp [dereference?, followNames, unwrap, isWrapper, Table.get?, hbindings, hname, htext, harray]
  have helements : (ofTree loopedScript).elements? name = some [name] := by
    rw [elements?, hvalue, Option.bind_some, harray, hchildren]
    rfl
  have hcall : (ofTree loopedScript).Calls name name := ⟨_, helements, .here⟩
  have hreenters : (ofTree loopedScript).Reenters name := ⟨_, .refl, .single hcall⟩
  have hmem : array ∈ loopedScript.root.preorder :=
    mem_preorder_of_mem_bindings loopedScript ("a", array) (by simp [hbindings])
  have hchild : name ∈ array.children :=
    List.mem_of_mem_filter (hchildren ▸ List.mem_singleton_self name)
  refine ⟨name, Node.mem_preorder_of_mem_children hmem hchild, hreenters, ?_⟩
  rintro ⟨r, hr⟩
  exact (first_of_targetTo hr).not_reenters hreenters

end Literals

end PackageAudit.Script
