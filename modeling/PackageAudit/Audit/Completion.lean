/-
PackageAudit.Audit.Completion — tasks that are completed in any order.

Tasks are started in the order of their inputs and completed in another one.
Where their results are put in slots, one for each input, they end up in the
order of the inputs; where they are taken as they come, in that of completion.
-/

namespace PackageAudit

/-- An order in which a number of tasks are completed, each of them once. -/
structure Completion (n : Nat) where
  order : List Nat
  perm : order.Perm (List.range n)

namespace Completion

variable {α β : Type}

/-- Tasks are completed in the order in which they were started. -/
def inOrder (n : Nat) : Completion n := ⟨List.range n, .refl _⟩

/-- Puts the result of a task in its slot. -/
def fill (f : α → β) (inputs : List α) (slots : List (Option β)) (i : Nat) : List (Option β) :=
  slots.set i (inputs[i]?.map f)

/-- The slots when all tasks of an order are completed. -/
def slots (f : α → β) (inputs : List α) (order : List Nat) : List (Option β) :=
  order.foldl (fill f inputs) (List.replicate inputs.length none)

/-- A slot holds the result of its task if that one is among those completed,
and what it held before if not. -/
theorem getElem?_foldl_fill (f : α → β) (inputs : List α) (order : List Nat)
    (before : List (Option β)) (i : Nat) :
    (order.foldl (fill f inputs) before)[i]? =
      if i ∈ order ∧ i < before.length then some (inputs[i]?.map f) else before[i]? := by
  induction order generalizing before with
  | nil => simp
  | cons j order ih =>
    rw [List.foldl_cons, ih, fill, List.length_set, List.getElem?_set]
    by_cases hlast : i ∈ order ∧ i < before.length
    · simp [hlast]
    · by_cases h : j = i
      · subst h
        by_cases hlength : j < before.length <;> simp_all
      · simp [hlast, h, Ne.symm h]

/-- In the end each slot holds the result of its own task. -/
theorem slots_eq (f : α → β) (inputs : List α) (c : Completion inputs.length) :
    slots f inputs c.order = inputs.map fun x => some (f x) := by
  refine List.ext_getElem? fun i => ?_
  have hmem : i ∈ c.order ↔ i < inputs.length := by rw [c.perm.mem_iff, List.mem_range]
  rw [slots, getElem?_foldl_fill, List.length_replicate]
  by_cases h : i < inputs.length <;> simp [hmem, h]

theorem isSome_of_mem_slots {f : α → β} {inputs : List α} {c : Completion inputs.length}
    {slot : Option β} (h : slot ∈ slots f inputs c.order) : slot.isSome = true := by
  rw [slots_eq] at h
  obtain ⟨x, -, rfl⟩ := List.mem_map.mp h
  rfl

/-- The results of some tasks, put in slots. -/
def gather (f : α → β) (inputs : List α) (c : Completion inputs.length) : List β :=
  (slots f inputs c.order).pmap Option.get fun _ h => isSome_of_mem_slots h

/-- **Slots.** Whatever the order, the results are those of the inputs one after
the other. -/
theorem gather_eq (f : α → β) (inputs : List α) (c : Completion inputs.length) :
    gather f inputs c = inputs.map f := by
  have hget : ∀ (found : List (Option β)) (h : ∀ slot ∈ found, slot.isSome = true),
      found = inputs.map (fun x => some (f x)) → found.pmap Option.get h = inputs.map f := by
    rintro found h rfl
    simp [List.pmap_map]
  exact hget _ _ (slots_eq f inputs c)

/-- Items as their tasks are completed. -/
def arrange (items : List α) (c : Completion items.length) : List α :=
  c.order.filterMap (items[·]?)

/-- **Order.** What comes as it is completed is what was started. -/
theorem arrange_perm (items : List α) (c : Completion items.length) :
    (arrange items c).Perm items := by
  have hmap : (List.range items.length).map (items[·]?) = items.map some := by
    refine List.ext_getElem? fun i => ?_
    by_cases h : i < items.length <;> simp [h]
  have hall : (List.range items.length).filterMap (items[·]?) = items :=
    calc (List.range items.length).filterMap (items[·]?)
        = ((List.range items.length).map (items[·]?)).filterMap id := by
          rw [List.filterMap_map]
          rfl
      _ = items := by
          rw [hmap, List.filterMap_map]
          exact List.filterMap_some
  exact (c.perm.filterMap _).trans (.of_eq hall)

end Completion

/-- The orders in which the files of a project are read and in which its
packages are looked up, however many there are. -/
structure Schedule where
  files : (n : Nat) → Completion n
  lookups : (n : Nat) → Completion n

/-- Each task is completed before the next one. -/
def Schedule.inOrder : Schedule := ⟨Completion.inOrder, Completion.inOrder⟩

end PackageAudit
