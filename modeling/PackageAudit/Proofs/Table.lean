/-
PackageAudit.Proofs.Table — tables in which each key stands once.

A table is a list of pairs, and reading a key reads its first pair. What is
built by setting keys one after the other has each key once (`Distinct`), so
that a key and its pair are the same thing. `countP_flatMap` is what follows
for issues that are found entry by entry: of all that a table gives rise to,
only the entry of a key counts towards that key.
-/
import PackageAudit.Table
import Mathlib.Data.List.Basic
import Mathlib.Data.List.Induction
import Mathlib.Data.List.Nodup

namespace PackageAudit.Table

variable {α β : Type} {t : Table α} {k : String} {a : α}

/-! ## 1. Keys and entries -/

/-- Each key stands once. -/
def Distinct (t : Table α) : Prop := t.keys.Nodup

instance (t : Table α) : Decidable t.Distinct := inferInstanceAs (Decidable t.keys.Nodup)

theorem has_iff : t.has k = true ↔ k ∈ t.keys := by
  simp [has, keys]

theorem get?_cons (j : String) (b : α) (t : Table α) (k : String) :
    get? ((j, b) :: t) k = if k = j then some b else t.get? k := by
  rw [get?, List.lookup_cons]
  by_cases h : k = j
  · simp [h]
  · simp [h, beq_false_of_ne h, get?]

theorem get?_eq_none_iff : t.get? k = none ↔ k ∉ t.keys := by
  simp only [get?, List.lookup_eq_none_iff, keys, List.mem_map, not_exists, not_and, bne_iff_ne]
  exact ⟨fun h e he heq => h e he heq.symm, fun h e he heq => h e he heq.symm⟩

theorem mem_of_get? (h : t.get? k = some a) : (k, a) ∈ t := by
  obtain ⟨before, after, rfl, _⟩ := List.lookup_eq_some_iff.mp h
  simp

/-- With distinct keys every entry is read under its key. -/
theorem get?_of_mem (ht : t.Distinct) (h : (k, a) ∈ t) : t.get? k = some a := by
  cases hget : t.get? k with
  | none => exact absurd (List.mem_map_of_mem h) (get?_eq_none_iff.mp hget)
  | some b =>
    have hpair : (k, b) = (k, a) :=
      List.inj_on_of_nodup_map ht (mem_of_get? hget) h rfl
    rw [(Prod.mk.inj hpair).2]

/-- The values are those of the keys, in order. -/
theorem values_eq (ht : t.Distinct) : t.values = t.keys.filterMap t.get? := by
  rw [keys, values, List.filterMap_map, ← List.filterMap_eq_map]
  refine List.filterMap_congr fun e he => ?_
  exact (get?_of_mem ht he).symm

/-! ## 2. Setting keys -/

theorem keys_put (t : Table α) (k : String) (a : α) :
    (t.put k a).keys = if k ∈ t.keys then t.keys else t.keys ++ [k] := by
  induction t with
  | nil => rfl
  | cons e t ih =>
    obtain ⟨j, b⟩ := e
    simp only [keys] at ih
    by_cases h : j = k
    · subst h
      simp [put, keys]
    · by_cases hk : k ∈ t.map (·.1)
      · simp [put, keys, h, ih, hk]
      · simp [put, keys, h, Ne.symm h, ih, hk]

theorem mem_keys_put {j : String} : j ∈ (t.put k a).keys ↔ j ∈ t.keys ∨ j = k := by
  rw [keys_put]
  split
  · rename_i h
    exact ⟨Or.inl, fun hj => hj.elim id fun heq => heq ▸ h⟩
  · rw [List.mem_append, List.mem_singleton]

theorem distinct_put (ht : t.Distinct) : (t.put k a).Distinct := by
  rw [Distinct, keys_put]
  split
  · exact ht
  · rename_i h
    exact List.concat_eq_append ▸ List.Nodup.concat h ht

theorem mem_put {e : String × α} (h : e ∈ t.put k a) : e = (k, a) ∨ e ∈ t := by
  induction t with
  | nil => exact Or.inl (List.mem_singleton.mp h)
  | cons b t ih =>
    rw [put] at h
    split at h
    · rename_i heq
      rcases List.mem_cons.mp h with rfl | h
      · exact Or.inl (by rw [beq_iff_eq.mp heq])
      · exact Or.inr (List.mem_cons_of_mem _ h)
    · rcases List.mem_cons.mp h with rfl | h
      · exact Or.inr List.mem_cons_self
      · exact (ih h).imp_right (List.mem_cons_of_mem _)

theorem get?_put (t : Table α) (k : String) (a : α) (j : String) :
    (t.put k a).get? j = if j = k then some a else t.get? j := by
  induction t with
  | nil => exact get?_cons k a [] j
  | cons e t ih =>
    obtain ⟨i, b⟩ := e
    by_cases h : i = k
    · subst h
      by_cases hj : j = i <;> simp [put, get?_cons, hj]
    · by_cases hj : j = i <;> simp [put, get?_cons, h, hj, ih]

/-- Of the pairs of one key the last one counts. -/
theorem get?_ofPairs (pairs : List (String × α)) (k : String) :
    (ofPairs pairs).get? k = pairs.reverse.lookup k := by
  induction pairs using List.reverseRecOn with
  | nil => rfl
  | append_singleton pairs e ih =>
    have hstep : ofPairs (pairs ++ [e]) = (ofPairs pairs).put e.1 e.2 := by simp [ofPairs]
    rw [hstep, get?_put, ih, List.reverse_append]
    exact (get?_cons e.1 e.2 pairs.reverse k).symm

theorem distinct_ofPairs (pairs : List (String × α)) : (ofPairs pairs).Distinct :=
  List.foldlRecOn pairs _ List.nodup_nil fun _ ht _ _ => distinct_put ht

theorem mem_of_mem_ofPairs {pairs : List (String × α)} : ∀ e ∈ ofPairs pairs, e ∈ pairs := by
  refine List.foldlRecOn (motive := fun t => ∀ e ∈ t, e ∈ pairs) pairs _ ?_ ?_
  · intro e he
    cases he
  · intro t ht p hp e he
    rcases mem_put he with rfl | he
    · exact hp
    · exact ht e he

section

variable {start : α} {key : β → String} {change : β → α → α}

/-- Changing the entries of some items one after the other. -/
theorem distinct_foldl_update (items : List β) (ht : t.Distinct) :
    (items.foldl (fun t x => t.update (key x) start (change x)) t).Distinct :=
  List.foldlRecOn items _ ht fun _ ht _ _ => distinct_put ht

theorem mem_keys_foldl_update (items : List β) (t : Table α) :
    k ∈ (items.foldl (fun t x => t.update (key x) start (change x)) t).keys ↔
      k ∈ t.keys ∨ k ∈ items.map key := by
  induction items generalizing t with
  | nil => simp
  | cons x items ih =>
    rw [List.foldl_cons, ih, update, mem_keys_put, List.map_cons, List.mem_cons, or_assoc]

end

/-! ## 3. Counting by key -/

/-- Of what the entries of a table are turned into, only the entry of a key
counts towards the key. -/
theorem countP_flatMap (ht : t.Distinct) {found : String × α → List β} {key : β → String}
    (hkey : ∀ e ∈ t, ∀ x ∈ found e, key x = e.1) (p : β → Bool) (k : String) :
    (t.flatMap found).countP (fun x => p x && key x == k) =
      (t.get? k).elim 0 fun a => (found (k, a)).countP p := by
  induction t with
  | nil => rfl
  | cons e t ih =>
    obtain ⟨j, b⟩ := e
    obtain ⟨hj, ht⟩ := List.nodup_cons.mp ht
    have hrest := ih ht fun e he => hkey e (List.mem_cons_of_mem _ he)
    have hhead : ∀ x ∈ found (j, b), key x = j := hkey (j, b) List.mem_cons_self
    rw [List.flatMap_cons, List.countP_append, hrest, get?_cons]
    by_cases h : k = j
    · subst h
      have hnone : get? t k = none := get?_eq_none_iff.mpr hj
      have hall : (found (k, b)).countP (fun x => p x && key x == k) = (found (k, b)).countP p :=
        List.countP_congr fun x hx => by simp [hhead x hx]
      simp [hnone, hall]
    · have hzero : (found (j, b)).countP (fun x => p x && key x == k) = 0 := by
        rw [List.countP_eq_zero]
        intro x hx
        simp [hhead x hx, Ne.symm h]
      simp [hzero, h]

end PackageAudit.Table
