/-
PackageAudit.Proofs.Source.Preorder — the order in which folders are entered
and files are found.

Folders and files are known by the names that lead to them. A folder is
entered before those inside it, and all that is inside one of these before the
next: the folders entered are in lexicographic order (`preorder_pairwise`).
The files of a folder come by name and before all that lies deeper
(`Precedes`), which is the order in which they are found when each folder
lists its own as it is entered (`precedes_flatMap`).
-/
import PackageAudit.Proofs.Collection
import Mathlib.Data.List.Induction
import Mathlib.Data.List.Lex
import Mathlib.Data.String.Basic

namespace PackageAudit.Source

/-! ## 1. Folders -/

section

variable {inner : List String → List String}

/-- A folder and the folders inside it, as deep as the budget allows. -/
def preorder (inner : List String → List String) : Nat → List String → List (List String)
  | 0, folder => [folder]
  | budget + 1, folder =>
    folder :: (inner folder).flatMap fun n => preorder inner budget (folder ++ [n])

/-- Names lead from folder to folder inside. -/
def Leads (inner : List String → List String) (folder : List String) : List String → Prop
  | [] => True
  | n :: below => n ∈ inner folder ∧ Leads inner (folder ++ [n]) below

theorem leads_append_singleton_iff {folder below : List String} {n : String} :
    Leads inner folder (below ++ [n]) ↔ Leads inner folder below ∧ n ∈ inner (folder ++ below) := by
  induction below generalizing folder with
  | nil => simp [Leads]
  | cons m below ih => simp [Leads, ih, and_assoc]

/-- The folders entered from a folder are those to which names lead. -/
theorem mem_preorder_iff {budget : Nat} {folder found : List String} :
    found ∈ preorder inner budget folder ↔
      ∃ below, found = folder ++ below ∧ below.length ≤ budget ∧ Leads inner folder below := by
  induction budget generalizing folder with
  | zero =>
    rw [preorder, List.mem_singleton]
    constructor
    · rintro rfl
      exact ⟨[], by simp [Leads]⟩
    · rintro ⟨below, rfl, hlength, -⟩
      simp [List.eq_nil_of_length_eq_zero (Nat.le_zero.mp hlength)]
  | succ budget ih =>
    simp only [preorder, List.mem_cons, List.mem_flatMap, ih]
    constructor
    · rintro (rfl | ⟨n, hn, below, rfl, hlength, hleads⟩)
      · exact ⟨[], by simp [Leads]⟩
      · exact ⟨n :: below, by simp, by simpa using hlength, hn, hleads⟩
    · rintro ⟨below, rfl, hlength, hleads⟩
      cases below with
      | nil => simp
      | cons n below =>
        exact Or.inr ⟨n, hleads.1, below, by simp, by simpa using hlength, hleads.2⟩

/-- **Folders in order.** What is entered from a folder is in lexicographic order. -/
theorem preorder_pairwise (hinner : ∀ folder, (inner folder).Pairwise (· < ·)) (budget : Nat)
    (folder : List String) : (preorder inner budget folder).Pairwise (· < ·) := by
  induction budget generalizing folder with
  | zero => exact List.pairwise_singleton _ _
  | succ budget ih =>
    rw [preorder, List.pairwise_cons, List.pairwise_flatMap]
    refine ⟨?_, fun n _ => ih (folder ++ [n]), (hinner folder).imp ?_⟩
    · intro found hfound
      obtain ⟨n, -, hfound⟩ := List.mem_flatMap.mp hfound
      obtain ⟨below, rfl, -⟩ := mem_preorder_iff.mp hfound
      rw [List.append_assoc]
      exact lt_append_of_ne_nil folder (by simp)
    · intro n m hlt found hfound later hlater
      obtain ⟨below, rfl, -⟩ := mem_preorder_iff.mp hfound
      obtain ⟨beside, rfl, -⟩ := mem_preorder_iff.mp hlater
      have hinside : n :: below < m :: beside := List.cons_lt_cons_iff.mpr (Or.inl hlt)
      simpa using List.append_left_lt hinside

end

/-! ## 2. Files -/

/-- The order of files by the names that lead to them: the files of a folder by
name, then what lies in its folders, by the names of these. -/
def Precedes : List String → List String → Prop
  | [a], [b] => a < b
  | [_], _ :: _ :: _ => True
  | a :: x :: xs, b :: y :: ys => a < b ∨ (a = b ∧ Precedes (x :: xs) (y :: ys))
  | _, _ => False

/-- Of what lies inside, the first names decide, then what follows them. -/
theorem precedes_cons_iff {n m : String} {names more : List String} (hnames : names ≠ [])
    (hmore : more ≠ []) :
    Precedes (n :: names) (m :: more) ↔ n < m ∨ (n = m ∧ Precedes names more) := by
  obtain ⟨x, xs, rfl⟩ := List.exists_cons_of_ne_nil hnames
  obtain ⟨y, ys, rfl⟩ := List.exists_cons_of_ne_nil hmore
  rfl

/-- What precedes is something else. -/
theorem ne_of_precedes {names more : List String} (h : Precedes names more) : names ≠ more := by
  rintro rfl
  induction names with
  | nil => exact h
  | cons n names ih =>
    cases names with
    | nil => simp [Precedes] at h
    | cons m names =>
      rw [precedes_cons_iff (by simp) (by simp)] at h
      exact ih (h.resolve_left (lt_irrefl n)).2

/-- What lies in a folder precedes what lies in a later one. -/
theorem precedes_of_lt {folder later : List String} (h : folder < later) (a b : String) :
    Precedes (folder ++ [a]) (later ++ [b]) := by
  induction folder generalizing later with
  | nil =>
    cases later with
    | nil => simp at h
    | cons m later =>
      cases later <;> simp [Precedes]
  | cons n folder ih =>
    cases later with
    | nil => simp at h
    | cons m later =>
      rw [List.cons_lt_cons_iff] at h
      rw [List.cons_append, List.cons_append, precedes_cons_iff (by simp) (by simp)]
      exact h.imp_right fun ⟨heq, hlt⟩ => ⟨heq, ih hlt⟩

/-- Files of one folder come by name. -/
theorem precedes_append_iff (folder : List String) {a b : String} :
    Precedes (folder ++ [a]) (folder ++ [b]) ↔ a < b := by
  induction folder with
  | nil => simp [Precedes]
  | cons n folder ih =>
    rw [List.cons_append, List.cons_append, precedes_cons_iff (by simp) (by simp), ih]
    simp

/-- Folders in order of which each lists its own by name list all in order. -/
theorem precedes_flatMap {folders : List (List String)} (hfolders : folders.Pairwise (· < ·))
    {own : List String → List String} (hown : ∀ folder, (own folder).Pairwise (· < ·)) :
    (folders.flatMap fun folder => (own folder).map (folder ++ [·])).Pairwise Precedes := by
  rw [List.pairwise_flatMap]
  constructor
  · intro folder _
    rw [List.pairwise_map]
    exact (hown folder).imp (precedes_append_iff folder).mpr
  · refine hfolders.imp ?_
    intro folder later hlt found hfound next hnext
    obtain ⟨a, -, rfl⟩ := List.mem_map.mp hfound
    obtain ⟨b, -, rfl⟩ := List.mem_map.mp hnext
    exact precedes_of_lt hlt a b

end PackageAudit.Source
