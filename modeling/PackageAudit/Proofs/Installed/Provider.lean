/-
PackageAudit.Proofs.Installed.Provider — the provider chain is a shortest path.

The nodes are the installed names, and an edge leads from a name to the
installed dependencies of its primary package (`Provides`). To go back along
the record of a search follows edges, from any name that was met to a declared
one (`Recorded`); how many names that takes is the depth of the name.

What makes the line of the wanted name a shortest one is an order of depths
(`Levelled`). The queue is in that order and spans two levels at most, so all
that is less deep than its first name has been looked at. And whatever a name
depends on that was looked at has been met, at most one level below it. A line
of edges that is shorter than the depths in the queue therefore has only names
that have been met, each no deeper than it stands on the line (`met_of_line`):
the wanted name is not at the end of one, and if nothing is left in the queue
it is at the end of none.
-/
import PackageAudit.Installed.Provider
import PackageAudit.Proofs.Installed.Lookup
import PackageAudit.Proofs.Table
import Mathlib.Data.List.Chain

namespace PackageAudit

/-! ## 1. Records that grow -/

namespace Table

variable {t : Table (Option String)} {new : List String} {parent : Option String} {n : String}

theorem keys_append_met :
    keys (t ++ new.map fun n => (n, parent)) = t.keys ++ new := by
  rw [keys, List.map_append, List.map_map]
  exact congrArg (t.keys ++ ·) (List.map_id new)

theorem get?_append_of_mem (h : n ∈ t.keys) (u : Table (Option String)) :
    get? (t ++ u) n = t.get? n := by
  have hsome : (t.get? n).isSome = true :=
    Option.isSome_iff_ne_none.mpr fun hnone => get?_eq_none_iff.mp hnone h
  rw [get?, List.lookup_append]
  exact Option.or_of_isSome hsome

theorem get?_append_met (h : n ∉ t.keys) (hn : n ∈ new) :
    get? (t ++ new.map fun n => (n, parent)) n = some parent := by
  have hnone : List.lookup n t = none := get?_eq_none_iff.mpr h
  rw [get?, List.lookup_append, hnone, Option.none_or]
  exact (get?_map fun _ => parent).trans (if_pos hn)

end Table

namespace Ancestry

variable {t : Table (Option String)}

theorem mem_keys_parent (h : Ancestry t) {name parent : String}
    (hname : t.get? name = some (some parent)) : parent ∈ t.keys := by
  have hmem : name ∈ t.keys := List.mem_map_of_mem (Table.mem_of_get? hname)
  exact List.idxOf_lt_length_iff.mp
    ((h.idxOf_lt hname).trans (List.idxOf_lt_length_of_mem hmem))

section

variable (h : Ancestry t)

theorem trail_first {name : String} (hname : t.get? name = some none) : h.trail name = [name] := by
  rw [trail]
  split <;> simp_all

theorem trail_next {name parent : String} (hname : t.get? name = some (some parent)) :
    h.trail name = name :: h.trail parent := by
  rw [trail]
  split <;> simp_all

/-- A name keeps its trail when the record grows. -/
theorem trail_append {u : Table (Option String)} (hu : Ancestry (t ++ u)) {name : String}
    (hname : name ∈ t.keys) : hu.trail name = h.trail name := by
  fun_induction h.trail name with
  | case1 name hnone => exact absurd hname (Table.get?_eq_none_iff.mp hnone)
  | case2 name hfirst => exact hu.trail_first ((Table.get?_append_of_mem hname u).trans hfirst)
  | case3 name parent hnext ih =>
    rw [hu.trail_next ((Table.get?_append_of_mem hname u).trans hnext),
      ih (h.mem_keys_parent hnext)]

end

end Ancestry

namespace Installed

variable {r : Installed} {declared : List String} {a b name : String}

/-! ## 2. Paths -/

/-- Both names are installed, and the primary package of the first one depends
on the second. -/
def Provides (r : Installed) (a b : String) : Prop :=
  r.has a = true ∧ r.has b = true ∧ ∃ p ∈ r.primary? a, b ∈ p.dependencies.keys

/-- A path from a declared name that is installed to a name. -/
structure ProviderPath (r : Installed) (declared : List String) (name : String)
    (path : List String) : Prop where
  first : ∃ root ∈ path.head?, root ∈ declared ∧ r.has root = true
  edges : path.IsChain r.Provides
  last : path.getLast? = some name

theorem provides_iff : r.Provides a b ↔ b ∈ r.dependenciesOf a ∧ r.has b = true := by
  rw [Provides, dependenciesOf, ← r.primary?_isSome a]
  cases r.primary? a with
  | none => simp
  | some p => simp [Text.sortTexts, and_comm]

end Installed

namespace ProviderSearch

variable {r : Installed} {s : ProviderSearch} {declared : List String} {wanted : String}

/-! ## 3. Steps -/

/-- How many names the trail of a name has. -/
def depth (s : ProviderSearch) (name : String) : Nat := (s.ancestry.trail name).length

/-- One search comes from another one by meeting new names from a parent. -/
structure Meets (parent : Option String) (new : List String) (s t : ProviderSearch) : Prop where
  queue : t.queue = s.queue ++ new
  met : t.met = s.met ++ new.map fun n => (n, parent)

/-- What is met are the names that are installed and new. -/
theorem exists_meets_meetAll (parent : Option String) (names : List String) (s : ProviderSearch)
    (known : ∀ p ∈ parent, p ∈ s.met.keys) :
    ∃ new, Meets parent new s (meetAll r parent names s known) ∧
      ∀ n, n ∈ new ↔ n ∈ names ∧ r.has n = true ∧ n ∉ s.met.keys := by
  induction names generalizing s with
  | nil => exact ⟨[], ⟨by simp [meetAll], by simp [meetAll]⟩, by simp⟩
  | cons name names ih =>
    rw [meetAll]
    split
    · rename_i h
      obtain ⟨new, hmeets, hnew⟩ := ih (s.enqueue name parent h.2 known) fun p hp => by
        rw [keys_enqueue]
        exact List.mem_append_left _ (known p hp)
      refine ⟨name :: new, ⟨?_, ?_⟩, fun n => ?_⟩
      · rw [hmeets.queue, enqueue, List.append_assoc, List.singleton_append]
      · rw [hmeets.met, enqueue, List.append_assoc, List.singleton_append, List.map_cons]
      · rw [List.mem_cons, hnew, keys_enqueue]
        by_cases hn : n = name
        · simp [hn, h]
        · simp [hn]
    · rename_i h
      obtain ⟨new, hmeets, hnew⟩ := ih s known
      refine ⟨new, hmeets, fun n => ?_⟩
      rw [hnew, List.mem_cons]
      refine ⟨fun hn => ⟨Or.inr hn.1, hn.2⟩, fun hn => ⟨hn.1.resolve_left ?_, hn.2⟩⟩
      rintro rfl
      exact h hn.2

/-- A step meets the installed dependencies of the first name. -/
theorem exists_meets_step {current : String} {queue : List String}
    (h : s.queue = current :: queue) :
    ∃ new, Meets (some current) new s.dequeue (step r s) ∧
      ∀ n, n ∈ new ↔ r.Provides current n ∧ n ∉ s.met.keys := by
  rw [step]
  split
  · rename_i hnil
    rw [hnil] at h
    cases h
  · rename_i first _ hfirst
    obtain rfl : first = current := (List.cons.inj (hfirst.symm.trans h)).1
    obtain ⟨new, hmeets, hnew⟩ := exists_meets_meetAll (r := r) (some first)
      (r.dependenciesOf first) s.dequeue _
    refine ⟨new, hmeets, fun n => ?_⟩
    rw [hnew, Installed.provides_iff, and_assoc]
    rfl

section

variable {t : ProviderSearch} {parent : Option String} {new : List String} {n : String}

theorem Meets.keys (h : Meets parent new s t) : t.met.keys = s.met.keys ++ new := by
  rw [h.met, Table.keys_append_met]

theorem Meets.get?_of_mem (h : Meets parent new s t) (hn : n ∈ s.met.keys) :
    t.met.get? n = s.met.get? n := by
  rw [h.met, Table.get?_append_of_mem hn]

theorem Meets.get?_of_new (h : Meets parent new s t) (hmet : n ∉ s.met.keys) (hn : n ∈ new) :
    t.met.get? n = some parent := by
  rw [h.met, Table.get?_append_met hmet hn]

theorem Meets.get?_cases (h : Meets parent new s t) {known : Option String}
    (hn : t.met.get? n = some known) :
    n ∈ s.met.keys ∧ s.met.get? n = some known ∨ n ∈ new ∧ known = parent := by
  have hkeys : n ∈ s.met.keys ++ new := h.keys ▸ List.mem_map_of_mem (Table.mem_of_get? hn)
  by_cases hmem : n ∈ s.met.keys
  · exact Or.inl ⟨hmem, (h.get?_of_mem hmem).symm.trans hn⟩
  · have hnew : n ∈ new := (List.mem_append.mp hkeys).resolve_left hmem
    rw [h.get?_of_new hmem hnew, Option.some.injEq] at hn
    exact Or.inr ⟨hnew, hn.symm⟩

theorem Meets.depth_of_mem (h : Meets parent new s t) (hn : n ∈ s.met.keys) :
    t.depth n = s.depth n := by
  obtain ⟨queue, met, ancestry, _⟩ := t
  obtain rfl : met = _ := h.met
  exact congrArg List.length (s.ancestry.trail_append ancestry hn)

theorem Meets.depth_of_new {current : String} (h : Meets (some current) new s t)
    (hcurrent : current ∈ s.met.keys) (hmet : n ∉ s.met.keys) (hn : n ∈ new) :
    t.depth n = s.depth current + 1 := by
  rw [← h.depth_of_mem hcurrent, depth, depth, t.ancestry.trail_next (h.get?_of_new hmet hn),
    List.length_cons]

end

/-! ## 4. What is on record -/

/-- The record tells edges, and the declared names that are installed are those
that were met from none. -/
structure Recorded (r : Installed) (declared : List String) (s : ProviderSearch) : Prop where
  root_iff : ∀ n, s.met.get? n = some none ↔ n ∈ declared ∧ r.has n = true
  provides : ∀ n p, s.met.get? n = some (some p) → r.Provides p n

namespace Recorded

variable {current n : String}

theorem mem_keys_of_root (h : Recorded r declared s) (hn : n ∈ declared ∧ r.has n = true) :
    n ∈ s.met.keys :=
  List.mem_map_of_mem (Table.mem_of_get? ((h.root_iff n).mpr hn))

theorem depth_of_root (h : Recorded r declared s) (hn : n ∈ declared ∧ r.has n = true) :
    s.depth n = 1 := by
  rw [depth, s.ancestry.trail_first ((h.root_iff n).mpr hn), List.length_singleton]

theorem start : Recorded r declared (start r declared) := by
  obtain ⟨new, hmeets, hnew⟩ :=
    exists_meets_meetAll (r := r) none (Text.sortTexts declared) {} (by simp)
  have hroot : ∀ n, n ∈ new ↔ n ∈ declared ∧ r.has n = true := by
    intro n
    rw [hnew]
    simp [Text.sortTexts, Table.keys]
  refine ⟨fun n => ⟨fun hn => ?_, fun hn => ?_⟩, fun n p hp => ?_⟩
  · rcases hmeets.get?_cases hn with ⟨hmem, _⟩ | ⟨hmem, _⟩
    · cases hmem
    · exact (hroot n).mp hmem
  · exact hmeets.get?_of_new (by simp [Table.keys]) ((hroot n).mpr hn)
  · rcases hmeets.get?_cases hp with ⟨hmem, _⟩ | ⟨_, hparent⟩
    · cases hmem
    · cases hparent

/-- **Steps.** What a step puts on record are edges from the first name. -/
theorem step (h : Recorded r declared s) {queue : List String}
    (hqueue : s.queue = current :: queue) : Recorded r declared (step r s) := by
  obtain ⟨new, hmeets, hnew⟩ := exists_meets_step (r := r) hqueue
  refine ⟨fun n => ⟨fun hn => ?_, fun hn => ?_⟩, fun n p hp => ?_⟩
  · rcases hmeets.get?_cases hn with ⟨_, hget⟩ | ⟨_, hparent⟩
    · exact (h.root_iff n).mp hget
    · cases hparent
  · exact (hmeets.get?_of_mem (h.mem_keys_of_root hn)).trans ((h.root_iff n).mpr hn)
  · rcases hmeets.get?_cases hp with ⟨_, hget⟩ | ⟨hmem, hparent⟩
    · exact h.provides n p hget
    · obtain rfl : p = current := Option.some.inj hparent
      exact ((hnew n).mp hmem).1

/-- The trail of a name that was met goes back along edges to a declared name. -/
theorem trail (h : Recorded r declared s) (hn : n ∈ s.met.keys) :
    (s.ancestry.trail n).head? = some n ∧
      (s.ancestry.trail n).IsChain (fun b a => r.Provides a b) ∧
      ∃ root ∈ (s.ancestry.trail n).getLast?, root ∈ declared ∧ r.has root = true := by
  fun_induction s.ancestry.trail n with
  | case1 n hnone => exact absurd hn (Table.get?_eq_none_iff.mp hnone)
  | case2 n hfirst => exact ⟨rfl, by simp, n, rfl, (h.root_iff n).mp hfirst⟩
  | case3 n parent hnext ih =>
    obtain ⟨hhead, hchain, hlast⟩ := ih (s.ancestry.mem_keys_parent hnext)
    obtain ⟨rest, hrest⟩ := List.head?_eq_some_iff.mp hhead
    rw [hrest] at hchain hlast ⊢
    refine ⟨rfl, List.isChain_cons_cons.mpr ⟨h.provides n parent hnext, hchain⟩, ?_⟩
    rwa [List.getLast?_cons_cons]

end Recorded

/-! ## 5. Levels -/

/-- The names that were met are those looked at and those in the queue. The
queue is in the order of depths, nothing lies more than one level below its
first name, and whatever a name depends on that was looked at has been met, at
most one level below it. -/
structure Levelled (r : Installed) (wanted : String) (seen : List String) (s : ProviderSearch) :
    Prop where
  mem_met : ∀ n, n ∈ s.met.keys ↔ n ∈ seen ∨ n ∈ s.queue
  not_wanted : wanted ∉ seen
  sorted : s.queue.Pairwise fun a b => s.depth a ≤ s.depth b
  spans : ∀ first ∈ s.queue.head?, ∀ n ∈ s.met.keys, s.depth n ≤ s.depth first + 1
  closed : ∀ a ∈ seen, ∀ b, r.Provides a b → b ∈ s.met.keys ∧ s.depth b ≤ s.depth a + 1

theorem Levelled.start : Levelled r wanted [] (start r declared) := by
  obtain ⟨new, hmeets, hnew⟩ :=
    exists_meets_meetAll (r := r) none (Text.sortTexts declared) {} (by simp)
  have hqueue : (ProviderSearch.start r declared).queue = new := hmeets.queue
  have hkeys : (ProviderSearch.start r declared).met.keys = new := hmeets.keys
  have hdepth : ∀ n ∈ new, (ProviderSearch.start r declared).depth n = 1 := by
    intro n hn
    obtain ⟨hdeclared, hinstalled, _⟩ := (hnew n).mp hn
    exact Recorded.start.depth_of_root ⟨List.mem_mergeSort.mp hdeclared, hinstalled⟩
  exact {
    mem_met := by simp [hqueue, hkeys]
    not_wanted := List.not_mem_nil
    sorted := by
      rw [hqueue]
      exact List.pairwise_of_forall_mem_list fun a ha b hb => by rw [hdepth a ha, hdepth b hb]
    spans := by
      intro first _ n hn
      rw [hdepth n (hkeys ▸ hn)]
      exact Nat.le_add_left _ _
    closed := by simp }

section

variable {t : ProviderSearch} {seen queue new : List String} {current n : String}

/-- The first name of the queue is the least deep one of it. -/
theorem Levelled.first_le (h : Levelled r wanted seen s) (hqueue : s.queue = current :: queue)
    (hn : n ∈ s.queue) : s.depth current ≤ s.depth n := by
  have hsorted := h.sorted
  rw [hqueue] at hn hsorted
  rcases List.mem_cons.mp hn with rfl | hn
  · exact le_rfl
  · exact (List.pairwise_cons.mp hsorted).1 n hn

variable (h : Levelled r wanted seen s) (hqueue : s.queue = current :: queue)
  (hmeets : Meets (some current) new s.dequeue t) (hnew : ∀ n ∈ new, n ∉ s.met.keys)

include hqueue hmeets

theorem queue_of_meets : t.queue = queue ++ new := by
  rw [hmeets.queue, queue_dequeue, hqueue, List.tail_cons]

include hnew

/-- New names are one level below the first name of the queue. -/
theorem depth_of_new (hn : n ∈ new) : t.depth n = s.depth current + 1 :=
  hmeets.depth_of_new (s.queue_met current (by simp [hqueue])) (hnew n hn) hn

include h

/-- After the step no name lies more than one level below the first name. -/
theorem Levelled.depth_le_of_meets (hn : n ∈ t.met.keys) : t.depth n ≤ s.depth current + 1 := by
  rcases List.mem_append.mp (hmeets.keys ▸ hn) with hn | hn
  · rw [hmeets.depth_of_mem hn]
    exact h.spans current (by simp [hqueue]) n hn
  · exact (depth_of_new hqueue hmeets hnew hn).le

/-- After the step no name in the queue is less deep than the first name was. -/
theorem Levelled.le_depth_of_meets (hn : n ∈ t.queue) : s.depth current ≤ t.depth n := by
  rw [queue_of_meets hqueue hmeets] at hn
  rcases List.mem_append.mp hn with hn | hn
  · have hmem : n ∈ s.queue := by simp [hqueue, hn]
    rw [hmeets.depth_of_mem (s.queue_met n hmem)]
    exact h.first_le hqueue hmem
  · rw [depth_of_new hqueue hmeets hnew hn]
    exact Nat.le_succ _

theorem Levelled.sorted_of_meets : t.queue.Pairwise fun a b => t.depth a ≤ t.depth b := by
  have hold : ∀ n ∈ queue, n ∈ t.met.keys ∧ t.depth n = s.depth n := by
    intro n hn
    have hmem : n ∈ s.met.keys := s.queue_met n (by simp [hqueue, hn])
    exact ⟨hmeets.keys ▸ List.mem_append_left _ hmem, hmeets.depth_of_mem hmem⟩
  have hsorted := h.sorted
  rw [hqueue, List.pairwise_cons] at hsorted
  rw [queue_of_meets hqueue hmeets, List.pairwise_append]
  refine ⟨hsorted.2.imp_of_mem fun ha hb hle => ?_, ?_, fun a ha b hb => ?_⟩
  · rwa [(hold _ ha).2, (hold _ hb).2]
  · refine List.pairwise_of_forall_mem_list fun a ha b hb => ?_
    rw [depth_of_new hqueue hmeets hnew ha, depth_of_new hqueue hmeets hnew hb]
  · rw [depth_of_new hqueue hmeets hnew hb]
    exact h.depth_le_of_meets hqueue hmeets hnew (hold a ha).1

end

/-- **Steps.** Looking at the first name of the queue keeps the levels in order. -/
theorem Levelled.step {seen queue : List String} {current : String}
    (h : Levelled r wanted seen s) (hqueue : s.queue = current :: queue) (hne : current ≠ wanted) :
    Levelled r wanted (current :: seen) (step r s) := by
  obtain ⟨new, hmeets, hiff⟩ := exists_meets_step (r := r) hqueue
  have hnew : ∀ n ∈ new, n ∉ s.met.keys := fun n hn => ((hiff n).mp hn).2
  have hkeys : (ProviderSearch.step r s).met.keys = s.met.keys ++ new := hmeets.keys
  have hold : ∀ n ∈ s.met.keys, (ProviderSearch.step r s).depth n = s.depth n :=
    fun n => hmeets.depth_of_mem
  exact {
    mem_met := by
      intro n
      rw [hkeys, queue_of_meets hqueue hmeets, List.mem_append, List.mem_append, h.mem_met,
        hqueue, List.mem_cons, List.mem_cons]
      tauto
    not_wanted := by simp [hne.symm, h.not_wanted]
    sorted := h.sorted_of_meets hqueue hmeets hnew
    spans := by
      intro first hfirst n hn
      have hbelow := h.le_depth_of_meets hqueue hmeets hnew (List.mem_of_mem_head? hfirst)
      exact (h.depth_le_of_meets hqueue hmeets hnew hn).trans (Nat.succ_le_succ hbelow)
    closed := by
      intro a ha b hb
      rcases List.mem_cons.mp ha with rfl | ha
      · have hmem : b ∈ (ProviderSearch.step r s).met.keys := by
          rw [hkeys, List.mem_append, hiff]
          tauto
        rw [hold a (s.queue_met a (by simp [hqueue]))]
        exact ⟨hmem, h.depth_le_of_meets hqueue hmeets hnew hmem⟩
      · obtain ⟨hmem, hle⟩ := h.closed a ha b hb
        rw [hold a ((h.mem_met a).mpr (Or.inl ha)), hold b hmem]
        exact ⟨hkeys ▸ List.mem_append_left _ hmem, hle⟩ }

/-- Less deep than the queue, a line of edges back to a declared name has only
names that have been met, each at most as deep as it stands on the line. -/
theorem met_of_line {seen line : List String} (h : Recorded r declared s)
    (hlevels : Levelled r wanted seen s) (hchain : line.IsChain fun b a => r.Provides a b)
    (hroot : ∃ root ∈ line.getLast?, root ∈ declared ∧ r.has root = true)
    (hdeep : ∀ n ∈ s.queue, line.length ≤ s.depth n) :
    ∀ n ∈ line.head?, n ∈ s.met.keys ∧ s.depth n ≤ line.length := by
  induction line with
  | nil => simp
  | cons b line ih =>
    cases line with
    | nil =>
      obtain ⟨root, ⟨rfl⟩, hroot⟩ := hroot
      rintro n ⟨rfl⟩
      exact ⟨h.mem_keys_of_root hroot, (h.depth_of_root hroot).le⟩
    | cons a line =>
      obtain ⟨hedge, hchain⟩ := List.isChain_cons_cons.mp hchain
      rw [List.getLast?_cons_cons] at hroot
      obtain ⟨hmet, hle⟩ := ih hchain hroot (fun n hn => (Nat.le_succ _).trans (hdeep n hn)) a rfl
      have hseen : a ∈ seen := by
        refine ((hlevels.mem_met a).mp hmet).resolve_right fun hqueue => ?_
        exact absurd (hdeep a hqueue) (not_le.mpr (Nat.lt_succ_of_le hle))
      rintro n ⟨rfl⟩
      obtain ⟨hmem, hdepth⟩ := hlevels.closed a hseen b hedge
      exact ⟨hmem, hdepth.trans (Nat.succ_le_succ hle)⟩

/-! ## 6. Runs -/

/-- **The search ends.** After so many steps as names may still be taken from
the queue, or fewer, a run stops. -/
theorem exists_iterate_step (r : Installed) (wanted : String) (s : ProviderSearch) :
    ∃ n ≤ remaining r s, (step r)^[n] s = run r wanted s ∧ Stopped wanted (run r wanted s) := by
  fun_induction run r wanted s with
  | case1 s h => exact ⟨0, Nat.zero_le _, rfl, h⟩
  | case2 s h hqueue ih =>
    obtain ⟨n, hle, hn, hstopped⟩ := ih
    exact ⟨n + 1, Nat.succ_le_of_lt (hle.trans_lt (remaining_step r hqueue)), hn, hstopped⟩

/-- **Runs.** What a step keeps, a run keeps. -/
theorem exists_run {seen : List String} (h : Recorded r declared s)
    (hlevels : Levelled r wanted seen s) :
    Recorded r declared (run r wanted s) ∧ ∃ after, Levelled r wanted after (run r wanted s) := by
  fun_induction run r wanted s generalizing seen with
  | case1 s hs => exact ⟨h, seen, hlevels⟩
  | case2 s hs hne ih =>
    obtain ⟨current, queue, hqueue⟩ := List.exists_cons_of_ne_nil hne
    have hcurrent : current ≠ wanted := by
      rintro rfl
      exact hs (by simp [Stopped, hqueue])
    exact ih (h.step hqueue) (hlevels.step hqueue hcurrent)

end ProviderSearch

namespace Installed

open ProviderSearch

variable {r : Installed} {declared : List String} {name : String}

/-! ## 7. Chains -/

/-- A path read backwards. -/
theorem providerPath_reverse_iff {line : List String} :
    r.ProviderPath declared name line.reverse ↔
      (line.head? = some name ∧ line.IsChain (fun b a => r.Provides a b) ∧
        ∃ root ∈ line.getLast?, root ∈ declared ∧ r.has root = true) := by
  constructor
  · rintro ⟨hfirst, hedges, hlast⟩
    rw [List.head?_reverse] at hfirst
    rw [List.getLast?_reverse] at hlast
    exact ⟨hlast, List.isChain_reverse.mp hedges, hfirst⟩
  · rintro ⟨hhead, hchain, hroot⟩
    refine ⟨?_, List.isChain_reverse.mpr hchain, ?_⟩
    · rwa [List.head?_reverse]
    · rwa [List.getLast?_reverse]

/-- The chain is empty and there is no path, or it is a path that no other one
is shorter than. -/
theorem providerChain_cases (r : Installed) (name : String) (declared : List String) :
    (r.providerChain name declared = [] ∧ ¬ ∃ path, r.ProviderPath declared name path) ∨
      (r.ProviderPath declared name (r.providerChain name declared) ∧
        ∀ path, r.ProviderPath declared name path →
          (r.providerChain name declared).length ≤ path.length) := by
  have hstart : Levelled r name [] (ProviderSearch.start r declared) := Levelled.start
  obtain ⟨hrecorded, seen, hlevels⟩ := exists_run Recorded.start hstart
  obtain ⟨_, _, _, hstopped⟩ := exists_iterate_step r name (ProviderSearch.start r declared)
  rw [providerChain]
  set s := run r name (ProviderSearch.start r declared)
  have hline : ∀ path, r.ProviderPath declared name path →
      (∀ n ∈ s.queue, path.length ≤ s.depth n) →
        name ∈ s.met.keys ∧ s.depth name ≤ path.length := by
    intro path hpath hdeep
    rw [← path.reverse_reverse, providerPath_reverse_iff] at hpath
    rw [← path.length_reverse] at hdeep ⊢
    exact met_of_line hrecorded hlevels hpath.2.1 hpath.2.2 hdeep name hpath.1
  split
  · rename_i hqueue
    refine Or.inl ⟨rfl, fun ⟨path, hpath⟩ => ?_⟩
    obtain ⟨hmet, _⟩ := hline path hpath (by simp [hqueue])
    rcases (hlevels.mem_met name).mp hmet with hseen | hqueued
    · exact hlevels.not_wanted hseen
    · rw [hqueue] at hqueued
      cases hqueued
  · rename_i current queue hqueue
    obtain rfl : current = name := hstopped current (by rw [hqueue]; rfl)
    have hmet : current ∈ s.met.keys := s.queue_met current (by simp [hqueue])
    refine Or.inr ⟨providerPath_reverse_iff.mpr (hrecorded.trail hmet), fun path hpath => ?_⟩
    rw [List.length_reverse]
    by_contra hlt
    have hfirst : ∀ n ∈ s.queue, s.depth current ≤ s.depth n := fun n =>
      hlevels.first_le hqueue
    have hle := (hline path hpath fun n hn => ((not_le.mp hlt).le.trans (hfirst n hn))).2
    exact hlt hle

/-- **The provider chain is a shortest path.** The search takes at most as many
names from its queue as are installed. What it answers, if anything, is a path
along edges from a declared name that is installed to the wanted one; no such
path is shorter; and it answers nothing exactly when there is no such path. -/
theorem providerChain_shortest (r : Installed) (name : String) (declared : List String) :
    (∃ n ≤ r.nameIndex.keys.length,
      (ProviderSearch.step r)^[n] (ProviderSearch.start r declared) =
          ProviderSearch.run r name (ProviderSearch.start r declared) ∧
        Stopped name (ProviderSearch.run r name (ProviderSearch.start r declared))) ∧
    (r.providerChain name declared ≠ [] →
      r.ProviderPath declared name (r.providerChain name declared)) ∧
    (∀ path, r.ProviderPath declared name path →
      (r.providerChain name declared).length ≤ path.length) ∧
    (r.providerChain name declared = [] ↔ ¬ ∃ path, r.ProviderPath declared name path) := by
  refine ⟨?_, ?_⟩
  · obtain ⟨n, hle, hn⟩ := exists_iterate_step r name (ProviderSearch.start r declared)
    refine ⟨n, hle.trans ((remaining_meetAll r none _ _ _).trans ?_), hn⟩
    rw [remaining, unmet, List.length_nil, Nat.zero_add]
    exact List.length_filter_le _ _
  · rcases r.providerChain_cases name declared with ⟨hnil, hnone⟩ | ⟨hpath, hshortest⟩
    · refine ⟨fun hne => absurd hnil hne, fun path hpath => absurd ⟨path, hpath⟩ hnone, ?_⟩
      exact iff_of_true hnil hnone
    · have hne : r.providerChain name declared ≠ [] := by
        intro hnil
        obtain ⟨root, hroot, _⟩ := hpath.first
        rw [hnil] at hroot
        cases hroot
      exact ⟨fun _ => hpath, hshortest, iff_of_false hne (not_not.mpr ⟨_, hpath⟩)⟩

end Installed

end PackageAudit
