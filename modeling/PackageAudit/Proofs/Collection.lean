/-
PackageAudit.Proofs.Collection — results, lists and tables that other parts
build.

Six small theories. A chain of steps that can fail succeeds exactly when
each step does, and collecting optional results exactly when all of them are
there. Sorting by a key puts items with different keys in strict order, which
is the same one whatever order they come in; for texts the key is the text.
Grouping by a key is described as a whole by `groupBy_eq`: one entry for each
key, in the order of first appearance, with the items of that key in their
own order; the groups together are the items (`perm_groups`). What is said of
the distinct members of a list depends on which members it has alone. A pass
that keeps the lesser of two members ends with a least one, whatever members
are compared by. In lexicographic order a list comes before what is longer and
begins with it.
-/
import PackageAudit.Table
import PackageAudit.Text.Cut
import Mathlib.Data.List.Induction
import Mathlib.Data.String.Basic

namespace PackageAudit

/-! ## 1. Results that may be missing -/

theorem bind_eq_ok_iff {ε α β : Type} {x : Except ε α} {f : α → Except ε β} {b : β} :
    (x >>= f) = .ok b ↔ ∃ a, x = .ok a ∧ f a = .ok b := by
  cases x with
  | error e => simp [bind, Except.bind]
  | ok a => simp [bind, Except.bind]

theorem mapError_eq_ok_iff {ε ε' α : Type} {x : Except ε α} {f : ε → ε'} {a : α} :
    x.mapError f = .ok a ↔ x = .ok a := by
  cases x with
  | error e => simp [Except.mapError]
  | ok b => simp [Except.mapError]

/-- What every step keeps is kept by a chain of steps that succeeds. -/
theorem foldlM_preserves {ε α β : Type} {f : β → α → Except ε β} {P : β → Prop} {xs : List α}
    (hstep : ∀ a x b, x ∈ xs → P a → f a x = .ok b → P b) {a b : β} (ha : P a)
    (h : xs.foldlM f a = .ok b) : P b := by
  induction xs generalizing a with
  | nil =>
    cases h
    exact ha
  | cons x xs ih =>
    rw [List.foldlM_cons, bind_eq_ok_iff] at h
    obtain ⟨next, hnext, h⟩ := h
    have hrest := fun a y b hy => hstep a y b (List.mem_cons_of_mem x hy)
    exact ih hrest (hstep a x next List.mem_cons_self ha hnext) h

theorem mapM_eq_some_iff {α β : Type} (f : α → Option β) (xs : List α) (ys : List β) :
    xs.mapM f = some ys ↔ xs.map f = ys.map some := by
  induction xs generalizing ys with
  | nil => cases ys <;> simp
  | cons x xs ih =>
    rw [List.mapM_cons]
    cases ys with
    | nil => simp [Option.bind_eq_some_iff]
    | cons y ys =>
      simp only [List.map_cons, List.cons.injEq, ← ih]
      simp [Option.bind_eq_some_iff]

/-- A step for each item succeeds exactly when each step does. -/
theorem exists_mapM_eq_ok_iff {ε α β : Type} {f : α → Except ε β} {xs : List α} :
    (∃ ys, xs.mapM f = .ok ys) ↔ ∀ x ∈ xs, ∃ y, f x = .ok y := by
  induction xs with
  | nil => simp [pure, Except.pure]
  | cons x xs ih =>
    rw [List.forall_mem_cons, ← ih, List.mapM_cons]
    simp only [bind_eq_ok_iff]
    constructor
    · rintro ⟨_, y, hy, ys, hys, -⟩
      exact ⟨⟨y, hy⟩, ys, hys⟩
    · rintro ⟨⟨y, hy⟩, ys, hys⟩
      exact ⟨_, y, hy, ys, hys, rfl⟩

/-- Every collected result is the result of some item. -/
theorem exists_of_mem_mapM {α β : Type} {f : α → Option β} {xs : List α} {ys : List β}
    (h : xs.mapM f = some ys) {y : β} (hy : y ∈ ys) : ∃ x ∈ xs, f x = some y := by
  have hmem : some y ∈ xs.map f := by
    rw [(mapM_eq_some_iff f xs ys).mp h]
    exact List.mem_map_of_mem hy
  exact List.mem_map.mp hmem

/-- Every item has its result among the collected ones. -/
theorem exists_mem_of_mapM {α β : Type} {f : α → Option β} {xs : List α} {ys : List β}
    (h : xs.mapM f = some ys) {x : α} (hx : x ∈ xs) : ∃ y ∈ ys, f x = some y := by
  have hmem : f x ∈ ys.map some := by
    rw [← (mapM_eq_some_iff f xs ys).mp h]
    exact List.mem_map_of_mem hx
  obtain ⟨y, hy, heq⟩ := List.mem_map.mp hmem
  exact ⟨y, hy, heq.symm⟩

/-- Results can be collected when every item has one. -/
theorem exists_mapM_eq_some {α β : Type} {f : α → Option β} {xs : List α}
    (h : ∀ x ∈ xs, ∃ y, f x = some y) : ∃ ys, xs.mapM f = some ys := by
  induction xs with
  | nil => exact ⟨[], rfl⟩
  | cons x xs ih =>
    obtain ⟨y, hy⟩ := h x (by simp)
    obtain ⟨ys, hys⟩ := ih fun z hz => h z (by simp [hz])
    exact ⟨y :: ys, by simp [List.mapM_cons, hy, hys]⟩

/-- Results that all have a property are collected with it. -/
theorem exists_mapM_forall {α β : Type} {f : α → Option β} {P : β → Prop} {xs : List α}
    (h : ∀ x ∈ xs, ∃ y, f x = some y ∧ P y) :
    ∃ ys, xs.mapM f = some ys ∧ ∀ y ∈ ys, P y := by
  obtain ⟨ys, hys⟩ := exists_mapM_eq_some fun x hx => (h x hx).imp fun _ hy => hy.1
  refine ⟨ys, hys, fun y hy => ?_⟩
  obtain ⟨x, hx, hxy⟩ := exists_of_mem_mapM hys hy
  obtain ⟨z, hz, hPz⟩ := h x hx
  rw [hxy, Option.some.injEq] at hz
  exact hz ▸ hPz

/-! ## 2. Sorting -/

section

variable {α β : Type} [LinearOrder β] (key : α → β) {atMost : α → α → Bool}

/-- Items sorted by a key stand in the order of their keys. -/
theorem pairwise_le_mergeSort (hkey : ∀ a b, atMost a b = true ↔ key a ≤ key b) (xs : List α) :
    (xs.mergeSort atMost).Pairwise fun a b => key a ≤ key b := by
  have htrans : ∀ a b c, atMost a b = true → atMost b c = true → atMost a c = true := by
    intro a b c hab hbc
    rw [hkey] at hab hbc ⊢
    exact hab.trans hbc
  have htotal : ∀ a b, (atMost a b || atMost b a) = true := by
    intro a b
    rw [Bool.or_eq_true, hkey, hkey]
    exact le_total _ _
  exact (List.pairwise_mergeSort htrans htotal xs).imp (hkey _ _).mp

/-- Items with different keys stand in strict order. -/
theorem pairwise_lt_mergeSort (hkey : ∀ a b, atMost a b = true ↔ key a ≤ key b) {xs : List α}
    (hkeys : (xs.map key).Nodup) : (xs.mergeSort atMost).Pairwise fun a b => key a < key b := by
  have hne : (xs.mergeSort atMost).Pairwise fun a b => key a ≠ key b :=
    List.pairwise_map.mp (((List.mergeSort_perm xs atMost).map key).nodup_iff.mpr hkeys)
  exact ((pairwise_le_mergeSort key hkey xs).and hne).imp fun ⟨hle, hne⟩ => lt_of_le_of_ne hle hne

/-- A list in strict order is what any order of its items is sorted to. -/
theorem mergeSort_eq_of_pairwise_lt (hkey : ∀ a b, atMost a b = true ↔ key a ≤ key b)
    {xs ys : List α} (hperm : xs.Perm ys) (hys : ys.Pairwise fun a b => key a < key b) :
    xs.mergeSort atMost = ys := by
  have hkeys : (xs.map key).Nodup :=
    (hperm.map key).nodup_iff.mpr (List.pairwise_map.mpr (hys.imp ne_of_lt))
  exact ((List.mergeSort_perm xs atMost).trans hperm).eq_of_pairwise
    (fun _ _ _ _ hab hba => absurd hab hba.asymm) (pairwise_lt_mergeSort key hkey hkeys) hys

end

/-- A list in strict order is its own sorted set. -/
theorem Text.sortedSet_eq_self {xs : List String} (h : xs.Pairwise (· < ·)) :
    Text.sortedSet xs = xs := by
  have hdistinct : xs.eraseDups = xs := by
    induction xs with
    | nil => rfl
    | cons x xs ih =>
      rw [List.pairwise_cons] at h
      have hrest : xs.filter (fun y => !y == x) = xs := by
        rw [List.filter_eq_self]
        intro y hy
        simpa using (ne_of_gt (h.1 y hy))
      rw [List.eraseDups_cons, hrest, ih h.2]
  rw [Text.sortedSet, Text.distinct, hdistinct, Text.sortTexts]
  exact List.mergeSort_of_pairwise (h.imp fun hlt => decide_eq_true (le_of_lt hlt))

theorem Text.sortTexts_sorted (xs : List String) : (Text.sortTexts xs).Pairwise (· ≤ ·) :=
  pairwise_le_mergeSort id (fun _ _ => decide_eq_true_iff) xs

/-- Texts without repetition are sorted strictly. -/
theorem Text.sortTexts_pairwise {xs : List String} (h : xs.Nodup) :
    (Text.sortTexts xs).Pairwise (· < ·) :=
  pairwise_lt_mergeSort id (fun _ _ => decide_eq_true_iff) (by rwa [List.map_id])

/-- The order that texts come in does not matter. -/
theorem Text.sortTexts_perm {xs ys : List String} (h : xs.Perm ys) :
    Text.sortTexts xs = Text.sortTexts ys := by
  have hperm : (Text.sortTexts xs).Perm (Text.sortTexts ys) :=
    ((List.mergeSort_perm xs _).trans h).trans (List.mergeSort_perm ys _).symm
  exact hperm.eq_of_pairwise (fun _ _ _ _ => le_antisymm) (Text.sortTexts_sorted xs)
    (Text.sortTexts_sorted ys)

/-- Leaving texts out keeps the order of the others. -/
theorem Text.sortTexts_filter (p : String → Bool) (xs : List String) :
    Text.sortTexts (xs.filter p) = (Text.sortTexts xs).filter p := by
  have hperm : (Text.sortTexts (xs.filter p)).Perm ((Text.sortTexts xs).filter p) :=
    (List.mergeSort_perm _ _).trans ((List.mergeSort_perm xs _).symm.filter p)
  exact hperm.eq_of_pairwise (fun _ _ _ _ => le_antisymm) (Text.sortTexts_sorted _)
    ((Text.sortTexts_sorted xs).filter p)

/-! ## 3. Groups -/

namespace Table

variable {α : Type}

theorem get?_map {ks : List String} (g : String → α) {k : String} :
    get? (ks.map fun j => (j, g j)) k = if k ∈ ks then some (g k) else none := by
  induction ks with
  | nil => rfl
  | cons j ks ih =>
    rw [get?] at ih
    rw [get?, List.map_cons, List.lookup_cons]
    by_cases h : k = j
    · subst h
      simp
    · have hb : (k == j) = false := beq_false_of_ne h
      simp [hb, h, ih]

/-- Setting a key that is there changes its value alone. -/
theorem put_map_of_mem {ks : List String} (hks : ks.Nodup) (g : String → α) {k : String}
    (hk : k ∈ ks) (a : α) :
    put (ks.map fun j => (j, g j)) k a = ks.map fun j => (j, if j = k then a else g j) := by
  induction ks with
  | nil => cases hk
  | cons j ks ih =>
    rw [List.nodup_cons] at hks
    by_cases h : j = k
    · subst h
      have hrest : ∀ i ∈ ks, (i, g i) = (i, if i = j then a else g i) := by
        intro i hi
        have : i ≠ j := fun hij => hks.1 (hij ▸ hi)
        rw [if_neg this]
      simp only [List.map_cons, put, beq_self_eq_true, if_true, List.map_congr_left hrest]
    · have hmem : k ∈ ks := (List.mem_cons.mp hk).resolve_left (Ne.symm h)
      simp only [List.map_cons, put, beq_iff_eq, if_neg h, ih hks.2 hmem]

/-- Setting a new key adds it at the end. -/
theorem put_map_of_not_mem {ks : List String} (g : String → α) {k : String} (hk : k ∉ ks)
    (a : α) : put (ks.map fun j => (j, g j)) k a = (ks.map fun j => (j, g j)) ++ [(k, a)] := by
  induction ks with
  | nil => rfl
  | cons j ks ih =>
    rw [List.mem_cons, not_or] at hk
    simp only [List.map_cons, put, beq_iff_eq, if_neg (Ne.symm hk.1), ih hk.2, List.cons_append]

theorem nodup_eraseDups (ks : List String) : ks.eraseDups.Nodup := by
  induction hn : ks.length using Nat.strongRecOn generalizing ks with
  | _ n ih =>
    cases ks with
    | nil => exact List.nodup_nil
    | cons k ks =>
      rw [List.eraseDups_cons, List.nodup_cons]
      refine ⟨by simp [List.mem_eraseDups], ih _ ?_ _ rfl⟩
      have hle := List.length_filter_le (fun b => !b == k) ks
      rw [List.length_cons] at hn
      omega

/-- A new key at the end of some keys stands at the end of the distinct ones. -/
theorem eraseDups_concat (ks : List String) (k : String) :
    (ks ++ [k]).eraseDups = if k ∈ ks then ks.eraseDups else ks.eraseDups ++ [k] := by
  rw [List.eraseDups_append]
  by_cases hk : k ∈ ks <;> simp [List.removeAll, hk, List.eraseDups_cons]

/-- **Groups.** Grouping lists the keys in the order of first appearance, each
with the items of that key. -/
theorem groupBy_eq (key : α → String) (items : List α) :
    groupBy key items =
      (items.map key).eraseDups.map fun k => (k, items.filter fun x => key x == k) := by
  induction items using List.reverseRecOn with
  | nil => rfl
  | append_singleton xs x ih =>
    have hstep : groupBy key (xs ++ [x]) = (groupBy key xs).update (key x) [] (· ++ [x]) := by
      rw [groupBy, List.foldl_append]
      rfl
    have hfilter : ∀ k, (xs ++ [x]).filter (fun y => key y == k) =
        xs.filter (fun y => key y == k) ++ if key x = k then [x] else [] := by
      intro k
      by_cases h : key x = k <;> simp [List.filter_append, h]
    rw [hstep, ih, update, get?_map]
    simp only [List.mem_eraseDups, hfilter, List.map_append, List.map_cons, List.map_nil,
      eraseDups_concat]
    by_cases hmem : key x ∈ xs.map key
    · rw [if_pos hmem, if_pos hmem, Option.getD_some,
        put_map_of_mem (nodup_eraseDups _) _ (List.mem_eraseDups.mpr hmem)]
      refine List.map_congr_left fun k _ => ?_
      by_cases h : k = key x
      · simp [h]
      · simp [h, Ne.symm h]
    · have hnone : xs.filter (fun y => key y == key x) = [] := by
        simpa [List.filter_eq_nil_iff] using hmem
      rw [if_neg hmem, if_neg hmem, Option.getD_none,
        put_map_of_not_mem _ (fun h => hmem (List.mem_eraseDups.mp h)), List.map_append]
      congr 1
      · refine List.map_congr_left fun k hk => ?_
        have h : key x ≠ k := fun h => hmem (h ▸ List.mem_eraseDups.mp hk)
        simp [h]
      · simp [hnone]

/-- Cut by distinct keys, the parts together are the items. -/
theorem perm_flatMap_filter {κ : Type} [DecidableEq κ] (key : α → κ) {ks : List κ}
    (hks : ks.Nodup) {xs : List α} (hxs : ∀ x ∈ xs, key x ∈ ks) :
    (ks.flatMap fun k => xs.filter fun x => key x = k).Perm xs := by
  induction ks generalizing xs with
  | nil =>
    obtain rfl : xs = [] := List.eq_nil_iff_forall_not_mem.mpr fun x hx => by simpa using hxs x hx
    exact List.Perm.refl []
  | cons k ks ih =>
    obtain ⟨hk, hks⟩ := List.nodup_cons.mp hks
    -- The other parts are those of the items with other keys.
    have hothers : ∀ j ∈ ks, (xs.filter fun x => key x = j) =
        (xs.filter fun x => !decide (key x = k)).filter fun x => key x = j := by
      intro j hj
      rw [List.filter_filter]
      refine List.filter_congr fun x _ => ?_
      by_cases hx : key x = j
      · have hne : key x ≠ k := fun h => hk (h ▸ hx ▸ hj)
        simp [hx ▸ hne, hx]
      · simp [hx]
    have hkeys : ∀ x ∈ xs.filter fun x => !decide (key x = k), key x ∈ ks := by
      intro x hx
      obtain ⟨hmem, hne⟩ := List.mem_filter.mp hx
      exact (List.mem_cons.mp (hxs x hmem)).resolve_left (by simpa using hne)
    rw [List.flatMap_cons, List.flatMap_congr hothers]
    exact ((ih hks hkeys).append_left _).trans (List.filter_append_perm _ xs)

/-- The groups together are the items: none is lost and none stands in two. -/
theorem perm_groups (key : α → String) (items : List α) :
    ((items.map key).eraseDups.flatMap fun k => items.filter fun x => key x == k).Perm items :=
  perm_flatMap_filter key (nodup_eraseDups _) fun _ hx =>
    List.mem_eraseDups.mpr (List.mem_map_of_mem hx)

end Table

/-! ## 4. Distinct members -/

namespace Text

variable {xs ys : List String}

/-- Which members there are decides the distinct ones, up to their order. -/
theorem distinct_perm (h : ∀ x, x ∈ xs ↔ x ∈ ys) : (distinct xs).Perm (distinct ys) := by
  refine (List.perm_ext_iff_of_nodup (Table.nodup_eraseDups xs) (Table.nodup_eraseDups ys)).mpr ?_
  simpa only [distinct, List.mem_eraseDups] using h

/-- Which members there are decides the sorted set. -/
theorem sortedSet_congr (h : ∀ x, x ∈ xs ↔ x ∈ ys) : sortedSet xs = sortedSet ys :=
  sortTexts_perm (distinct_perm h)

theorem length_sortedSet (xs : List String) : (sortedSet xs).length = (distinct xs).length :=
  List.length_mergeSort _

/-- There are several distinct members when two members differ. -/
theorem one_lt_length_distinct : 1 < (distinct xs).length ↔ ∃ x ∈ xs, ∃ y ∈ xs, x ≠ y := by
  have hmem : ∀ x, x ∈ xs ↔ x ∈ distinct xs := fun x => List.mem_eraseDups.symm
  have hnodup : (distinct xs).Nodup := Table.nodup_eraseDups xs
  simp only [hmem]
  cases hd : distinct xs with
  | nil => simp
  | cons a rest =>
    cases rest with
    | nil => simp
    | cons b rest =>
      have hne : a ≠ b := fun hab => (List.nodup_cons.mp (hd ▸ hnodup)).1 (by simp [hab])
      refine iff_of_true (by simp) ⟨a, by simp, b, by simp, hne⟩

end Text

/-! ## 5. The least member -/

/-- Going over to each lesser member ends with a least one. -/
theorem foldl_least {α β : Type} [LinearOrder β] (key : α → β) {less : α → α → Prop}
    [DecidableRel less] (hless : ∀ a b, less a b ↔ key a < key b) (xs : List α) (x : α) :
    xs.foldl (fun a b => if less b a then b else a) x ∈ x :: xs ∧
      ∀ n ∈ x :: xs, key (xs.foldl (fun a b => if less b a then b else a) x) ≤ key n := by
  induction xs generalizing x with
  | nil => simp
  | cons y ys ih =>
    obtain ⟨hmem, hle⟩ := ih (if less y x then y else x)
    rw [List.foldl_cons]
    have hkept : key (if less y x then y else x) ≤ key x ∧
        key (if less y x then y else x) ≤ key y := by
      split
      · rename_i hlt
        exact ⟨((hless y x).mp hlt).le, le_rfl⟩
      · rename_i hge
        exact ⟨le_rfl, not_lt.mp (mt (hless y x).mpr hge)⟩
    refine ⟨?_, ?_⟩
    · rcases List.mem_cons.mp hmem with heq | htail
      · rw [heq]
        split <;> simp
      · exact List.mem_cons_of_mem _ (List.mem_cons_of_mem _ htail)
    · have hfirst := hle _ List.mem_cons_self
      intro n hn
      rcases List.mem_cons.mp hn with rfl | hn
      · exact hfirst.trans hkept.1
      · rcases List.mem_cons.mp hn with rfl | hn
        · exact hfirst.trans hkept.2
        · exact hle n (List.mem_cons_of_mem _ hn)

/-! ## 6. Lexicographic order -/

theorem lt_append_of_ne_nil {α : Type} [LinearOrder α] (as : List α) {bs : List α} (h : bs ≠ []) :
    as < as ++ bs := by
  obtain ⟨b, bs, rfl⟩ := List.exists_cons_of_ne_nil h
  have hlt : as ++ [] < as ++ b :: bs := List.append_left_lt (List.nil_lt_cons b bs)
  rwa [List.append_nil] at hlt

end PackageAudit
