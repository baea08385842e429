/-
PackageAudit.Installed.Provider — through which declared package another
one gets installed.

A breadth-first search from the declared packages over the dependencies of
primary packages. A name that is met for the first time goes to the end of the
queue, and to the end of a record that says from which name it was met. So a
name is met once, and the name that it was met from stands before it in the
record (`Ancestry`): to go back from name to name ends at a declared one. A
search carries the proof that its record is of this kind.

The search ends since each step takes a name from the queue, which no name
enters twice (`remaining_step`).
-/
import PackageAudit.Installed.Basic

namespace PackageAudit

/-! ## 1. Records -/

/-- Names in the order in which they were met, each with the name that it was
met from unless it was the first of its line. -/
inductive Ancestry : Table (Option String) → Prop
  | nil : Ancestry []
  | snoc {t : Table (Option String)} {name : String} {parent : Option String} (h : Ancestry t)
      (new : name ∉ t.keys) (known : ∀ p ∈ parent, p ∈ t.keys) :
      Ancestry (t ++ [(name, parent)])

namespace Ancestry

variable {t : Table (Option String)}

/-- A name stands behind the one that it was met from. -/
theorem idxOf_lt (h : Ancestry t) {name parent : String}
    (hname : t.get? name = some (some parent)) : t.keys.idxOf parent < t.keys.idxOf name := by
  induction h with
  | nil => cases hname
  | @snoc t last known h hnew hknown ih =>
    have hkeys : Table.keys (t ++ [(last, known)]) = t.keys ++ [last] := List.map_append
    rw [hkeys, List.idxOf_append, List.idxOf_append]
    rw [Table.get?, List.lookup_append, Option.or_eq_some_iff] at hname
    rcases hname with hold | ⟨_, hlast⟩
    · have hlt := ih hold
      have hname : name ∈ t.keys := by
        obtain ⟨before, after, rfl, _⟩ := List.lookup_eq_some_iff.mp hold
        simp [Table.keys]
      have hparent : parent ∈ t.keys :=
        List.idxOf_lt_length_iff.mp (Nat.lt_trans hlt (List.idxOf_lt_length_of_mem hname))
      rw [if_pos hparent, if_pos hname]
      exact hlt
    · obtain ⟨before, after, heq, _⟩ := List.lookup_eq_some_iff.mp hlast
      obtain ⟨rfl, rfl⟩ : last = name ∧ known = some parent := by
        have hmem : (name, some parent) ∈ [(last, known)] := by simp [heq]
        simpa [eq_comm] using hmem
      have hparent : parent ∈ t.keys := hknown parent rfl
      rw [if_pos hparent, if_neg hnew]
      exact Nat.lt_of_lt_of_le (List.idxOf_lt_length_of_mem hparent) (Nat.le_add_left _ _)

/-- A name, the one that it was met from, and so on; nothing for a name that was
not met. -/
def trail (h : Ancestry t) (name : String) : List String :=
  match _hname : t.get? name with
  | none => []
  | some none => [name]
  | some (some parent) => name :: h.trail parent
termination_by t.keys.idxOf name
decreasing_by exact h.idxOf_lt ‹_›

end Ancestry

/-! ## 2. The search -/

/-- A search under way: the names to be looked at, and the record of those met. -/
structure ProviderSearch where
  queue : List String := []
  met : Table (Option String) := []
  ancestry : Ancestry met := by exact Ancestry.nil
  queue_met : ∀ n ∈ queue, n ∈ met.keys := by simp

namespace ProviderSearch

/-- Takes the first name from the queue. -/
def dequeue (s : ProviderSearch) : ProviderSearch := { s with
  queue := s.queue.tail
  queue_met := fun n hn => s.queue_met n (List.mem_of_mem_tail hn) }

@[simp] theorem queue_dequeue (s : ProviderSearch) : s.dequeue.queue = s.queue.tail := rfl

/-- Puts a new name into the queue and on record. -/
def enqueue (s : ProviderSearch) (name : String) (parent : Option String)
    (new : name ∉ s.met.keys) (known : ∀ p ∈ parent, p ∈ s.met.keys) : ProviderSearch where
  queue := s.queue ++ [name]
  met := s.met ++ [(name, parent)]
  ancestry := s.ancestry.snoc new known
  queue_met := by
    intro n hn
    rw [Table.keys, List.map_append, List.mem_append]
    exact (List.mem_append.mp hn).imp_left (s.queue_met n)

@[simp] theorem keys_enqueue (s : ProviderSearch) {name : String} {parent : Option String}
    (new : name ∉ s.met.keys) (known : ∀ p ∈ parent, p ∈ s.met.keys) :
    (s.enqueue name parent new known).met.keys = s.met.keys ++ [name] :=
  List.map_append

/-- Meets names from a parent: those that are installed and new. -/
def meetAll (r : Installed) (parent : Option String) :
    (names : List String) → (s : ProviderSearch) → (∀ p ∈ parent, p ∈ s.met.keys) → ProviderSearch
  | [], s, _ => s
  | name :: names, s, known =>
    if h : r.has name = true ∧ name ∉ s.met.keys then
      meetAll r parent names (s.enqueue name parent h.2 known) fun p hp => by
        rw [keys_enqueue]
        exact List.mem_append_left _ (known p hp)
    else meetAll r parent names s known

end ProviderSearch

/-- What the primary package of a name depends on, in order. -/
def Installed.dependenciesOf (r : Installed) (name : String) : List String :=
  match r.primary? name with
  | none => []
  | some p => Text.sortTexts p.dependencies.keys

namespace ProviderSearch

variable (r : Installed)

/-- The search with the declared packages that are installed. -/
def start (declared : List String) : ProviderSearch :=
  meetAll r none (Text.sortTexts declared) {} (by simp)

/-- Takes the first name from the queue and meets what it depends on. -/
def step (s : ProviderSearch) : ProviderSearch :=
  match h : s.queue with
  | [] => s
  | current :: _ =>
    meetAll r (some current) (r.dependenciesOf current) s.dequeue fun p hp => by
      obtain rfl : current = p := Option.some.inj hp
      exact s.queue_met current (h ▸ List.mem_cons_self)

/-- How many installed names have not been met. -/
def unmet (s : ProviderSearch) : Nat :=
  (r.nameIndex.keys.filter fun n => n ∉ s.met.keys).length

/-- How many names may still be taken from the queue. -/
def remaining (s : ProviderSearch) : Nat := s.queue.length + unmet r s

theorem remaining_enqueue {s : ProviderSearch} {name : String} {parent : Option String}
    (hname : r.has name = true) (new : name ∉ s.met.keys)
    (known : ∀ p ∈ parent, p ∈ s.met.keys) :
    remaining r (s.enqueue name parent new known) ≤ remaining r s := by
  have hmem : name ∈ r.nameIndex.keys := by
    simpa [Installed.has, Table.has, Table.keys] using hname
  have hfilter : (r.nameIndex.keys.filter fun n => n ∉ s.met.keys ++ [name]) =
      (r.nameIndex.keys.filter fun n => n ∉ s.met.keys).filter fun n => n ≠ name := by
    rw [List.filter_filter]
    refine List.filter_congr fun n _ => ?_
    simp [Bool.and_comm]
  have hless : unmet r (s.enqueue name parent new known) < unmet r s := by
    rw [unmet, keys_enqueue, hfilter]
    refine List.length_filter_lt_length_iff_exists.mpr ⟨name, ?_, by simp⟩
    exact List.mem_filter.mpr ⟨hmem, decide_eq_true new⟩
  have hqueue : (s.enqueue name parent new known).queue.length = s.queue.length + 1 :=
    List.length_append
  rw [remaining, remaining, hqueue]
  omega

/-- What is met for the first time is no longer to be met. -/
theorem remaining_meetAll (parent : Option String) (names : List String) (s : ProviderSearch)
    (known : ∀ p ∈ parent, p ∈ s.met.keys) :
    remaining r (meetAll r parent names s known) ≤ remaining r s := by
  induction names generalizing s with
  | nil => exact Nat.le_refl _
  | cons name names ih =>
    rw [meetAll]
    split
    · rename_i h
      exact Nat.le_trans (ih _ _) (remaining_enqueue r h.1 h.2 known)
    · exact ih s known

/-- Every step leaves fewer names to be taken from the queue. -/
theorem remaining_step {s : ProviderSearch} (h : s.queue ≠ []) :
    remaining r (step r s) < remaining r s := by
  have hdequeue : remaining r s.dequeue < remaining r s :=
    Nat.add_lt_add_right (List.length_tail ▸ Nat.sub_one_lt (mt List.length_eq_zero_iff.mp h)) _
  rw [step]
  split
  · exact absurd ‹_› h
  · exact Nat.lt_of_le_of_lt (remaining_meetAll r _ _ _ _) hdequeue

/-- The wanted name is the next one, or none is left. -/
def Stopped (wanted : String) (s : ProviderSearch) : Prop := ∀ next ∈ s.queue.head?, next = wanted

instance (wanted : String) (s : ProviderSearch) : Decidable (Stopped wanted s) :=
  inferInstanceAs (Decidable (∀ next ∈ s.queue.head?, next = wanted))

/-- Steps until the search has stopped. -/
def run (wanted : String) (s : ProviderSearch) : ProviderSearch :=
  if h : Stopped wanted s then s
  else
    have : s.queue ≠ [] := fun hnil => h (by simp [Stopped, hnil])
    run wanted (step r s)
termination_by remaining r s
decreasing_by exact remaining_step r ‹_›

end ProviderSearch

/-- A shortest chain from a declared package to a name, both ends included;
empty if there is none. -/
def Installed.providerChain (r : Installed) (name : String) (declared : List String) :
    List String :=
  let s := ProviderSearch.run r name (ProviderSearch.start r declared)
  match s.queue with
  | [] => []
  | current :: _ => (s.ancestry.trail current).reverse

end PackageAudit
