/-
PackageAudit.Proofs.FileTree.Plain — trees without links.

In a tree of files and folders a normal path leads where its names lead, one
after the other from the root (`find_path`), and that is its real place. What
the tree says about a path — its kind, the names inside, the real path — then
follows from the entry at the end of its names.

Putting files makes no links (`Plain.putFile`).
-/
import PackageAudit.FileTree.Basic
import PackageAudit.Proofs.Path.Place
import PackageAudit.Proofs.Table

namespace PackageAudit

open PackageAudit.Path (IsName Place)

/-! ## 1. Entries -/

/-- A file, or a folder whose names are distinct and name such entries. -/
inductive Entry.Plain : Entry → Prop where
  | file (content : Text.Octets) : Plain (.file content)
  | folder {entries : List (String × Entry)} (distinct : Table.Distinct entries)
      (names : ∀ e ∈ entries, IsName e.1) (plain : ∀ e ∈ entries, Plain e.2) :
      Plain (.folder entries)

namespace Entry

variable {e c : Entry} {n : String} {names : List String}

theorem at?_append (e : Entry) (names more : List String) :
    e.at? (names ++ more) = (e.at? names).bind fun c => c.at? more := by
  induction names generalizing e with
  | nil => rfl
  | cons n names ih =>
    rw [List.cons_append, at?, at?]
    cases e.child? n with
    | none => rfl
    | some c => exact ih c

/-- Only folders have something inside. -/
theorem exists_folder_of_at?_cons (h : e.at? (n :: names) = some c) :
    ∃ entries inner, e = .folder entries ∧ Table.get? entries n = some inner ∧
      inner.at? names = some c := by
  rw [at?, Option.bind_eq_some_iff] at h
  obtain ⟨inner, hinner, h⟩ := h
  cases e with
  | folder entries => exact ⟨entries, inner, rfl, hinner, h⟩
  | _ => cases hinner

theorem Plain.child {entries : List (String × Entry)} (h : (Entry.folder entries).Plain)
    (hc : Table.get? entries n = some c) : c.Plain ∧ IsName n := by
  cases h with
  | folder _ names plain =>
    have hmem := Table.mem_of_get? hc
    exact ⟨plain _ hmem, names _ hmem⟩

/-- What is inside has a chain of names. -/
theorem Plain.at? (h : e.Plain) (hc : e.at? names = some c) : c.Plain ∧ ∀ n ∈ names, IsName n := by
  induction names generalizing e with
  | nil =>
    obtain rfl := Option.some.inj hc
    exact ⟨h, by simp⟩
  | cons n names ih =>
    obtain ⟨entries, inner, rfl, hinner, hrest⟩ := exists_folder_of_at?_cons hc
    obtain ⟨hplain, hname⟩ := h.child hinner
    exact ⟨(ih hplain hrest).1, List.forall_mem_cons.mpr ⟨hname, (ih hplain hrest).2⟩⟩

theorem Plain.empty : (Entry.folder []).Plain :=
  .folder List.nodup_nil (by simp) (by simp)

/-- Setting a name in a folder. -/
theorem Plain.put {entries : List (String × Entry)} (h : (Entry.folder entries).Plain)
    (hn : IsName n) (hc : c.Plain) : (Entry.folder (Table.put entries n c)).Plain := by
  cases h with
  | folder distinct names plain =>
    refine .folder (Table.distinct_put distinct) ?_ ?_
    · intro x hx
      rcases Table.mem_put hx with rfl | hx
      · exact hn
      · exact names x hx
    · intro x hx
      rcases Table.mem_put hx with rfl | hx
      · exact hc
      · exact plain x hx

/-- What a name in a folder stands for; what is missing counts as a folder. -/
theorem Plain.getD {entries : List (String × Entry)} (h : (Entry.folder entries).Plain) :
    ((Table.get? entries n).getD (.folder [])).Plain := by
  cases hget : Table.get? entries n with
  | none => exact .empty
  | some c => exact (h.child hget).1

theorem Plain.insert {leaf : Entry} (hleaf : leaf.Plain) (hnames : ∀ n ∈ names, IsName n)
    (h : e.Plain) : (Entry.insert leaf names e).Plain := by
  induction names generalizing e with
  | nil => exact hleaf
  | cons n names ih =>
    rw [List.forall_mem_cons] at hnames
    cases h with
    | file => exact Plain.empty.put hnames.1 (ih hnames.2 .empty)
    | folder distinct isName plain =>
      have hfolder : (Entry.folder _).Plain := .folder distinct isName plain
      exact hfolder.put hnames.1 (ih hnames.2 hfolder.getD)

end Entry

/-! ## 2. Trees -/

namespace FileTree

/-- A tree without links. -/
structure Plain (t : FileTree) : Prop where
  root : ∃ entries, t.root = .folder entries
  entries : t.root.Plain

variable {t : FileTree} {e : Entry}

theorem plain_ofFolders {names : List String} (hdistinct : names.Nodup)
    (hnames : ∀ n ∈ names, IsName n) : (ofFolders names).Plain := by
  have hkeys : Table.keys (names.map fun n => (n, Entry.folder [])) = names := by
    simp [Table.keys, Function.comp_def]
  refine ⟨⟨_, rfl⟩, .folder ?_ ?_ ?_⟩
  · rwa [Table.Distinct, hkeys]
  · simpa using hnames
  · simp [Entry.Plain.empty]

theorem Plain.putFile (ht : t.Plain) {path : String} (hpath : Path.steps path ≠ [])
    (content : Text.Octets) : (t.putFile path content).Plain := by
  have hnames : ∀ n ∈ Path.steps path, IsName n := fun n => Path.isName_of_mem_steps
  rw [FileTree.putFile]
  generalize Path.steps path = names at hpath hnames
  constructor
  · cases names with
    | nil => exact absurd rfl hpath
    | cons n names => exact ⟨_, rfl⟩
  · exact Entry.Plain.insert (.file content) hnames ht.entries

/-! ## 3. Paths -/

/-- Following names leads to the entry at their end. -/
theorem toOption_step (ht : t.root.Plain)
    (onLink : List String → List String → Except Fault Found) {names : List String}
    (hnames : ∀ n ∈ names, IsName n) (place : List String) :
    (t.step onLink place names).toOption =
      (t.root.at? (place ++ names)).map fun e => ⟨place ++ names, e⟩ := by
  induction names generalizing place with
  | nil =>
    rw [step, List.append_nil]
    cases t.root.at? place <;> rfl
  | cons n names ih =>
    rw [List.forall_mem_cons] at hnames
    rw [step, Entry.at?_append]
    cases hplace : t.root.at? place with
    | none => rfl
    | some e =>
      cases e with
      | file => rfl
      | link => rfl
      | folder entries =>
        have hskip : (n == "" || n == ".") = false := by
          simp [hnames.1.ne_empty, hnames.1.ne_dot]
        have hup : (n == "..") = false := by simp [hnames.1.ne_dots]
        cases hchild : Table.get? entries n with
        | none => simp [hskip, hup, hchild, Entry.at?, Entry.child?, Except.toOption]
        | some c =>
          have hc : (t.root.at? (place ++ [n])) = some c := by
            simp [Entry.at?_append, hplace, Entry.at?, Entry.child?, hchild]
          have hplain := (Entry.Plain.at? ht hc).1
          have hrest := ih hnames.2 (place ++ [n])
          rw [List.append_assoc, Entry.at?_append, hplace] at hrest
          cases hplain <;> simpa [hskip, hup, hchild] using hrest

/-- Slashes in front of a path lead nowhere else. -/
theorem step_replicate (ht : t.Plain) (onLink : List String → List String → Except Fault Found)
    (k : Nat) (rest : List String) :
    t.step onLink [] (List.replicate k "" ++ rest) = t.step onLink [] rest := by
  obtain ⟨entries, hroot⟩ := ht.root
  induction k with
  | zero => rfl
  | succ k ih =>
    rw [List.replicate_succ, List.cons_append, step]
    simpa [hroot, Entry.at?] using ih

/-- **Paths in a tree without links.** A normal path leads to the entry at the
end of its names. -/
theorem toOption_find (ht : t.Plain) (q : Place) :
    (t.find q.path).toOption = (t.root.at? q.names).map fun e => ⟨q.names, e⟩ := by
  have hne : ¬ q.path.isEmpty = true := by simpa only [String.isEmpty_iff] using q.path_ne_empty
  rw [find, if_neg hne, q.components_path, follow, step_replicate ht]
  by_cases hempty : q.names = []
  · obtain ⟨entries, hroot⟩ := ht.root
    simp [hempty, step, hroot, Entry.at?, Except.toOption]
  · rw [if_neg hempty]
    exact toOption_step ht.entries _ q.isName []

theorem find_path (ht : t.Plain) {q : Place} (h : t.root.at? q.names = some e) :
    t.find q.path = .ok ⟨q.names, e⟩ := by
  have hfind := toOption_find ht q
  rw [h] at hfind
  cases hpath : t.find q.path with
  | error fault => simp [hpath, Except.toOption] at hfind
  | ok found => simpa [hpath, Except.toOption] using hfind

theorem kind?_path (ht : t.Plain) {q : Place} (h : t.root.at? q.names = some e) :
    t.kind? q.path = .ok (some e) := by
  rw [kind?, find_path ht h]

theorem realPath_path (ht : t.Plain) {q : Place} (h : t.root.at? q.names = some e) :
    t.realPath q.path = pathOf q.names := by
  rw [realPath, find_path ht h]

theorem list_path (ht : t.Plain) {q : Place} {entries : List (String × Entry)}
    (h : t.root.at? q.names = some (.folder entries)) :
    t.list q.path = .ok (Text.sortTexts (Table.keys entries)) := by
  rw [list, find_path ht h]

/-- Names that lead nowhere lead to no file. -/
theorem isFile_path_eq_false (ht : t.Plain) {q : Place} (h : t.root.at? q.names = none) :
    t.isFile q.path = false := by
  have hfind := toOption_find ht q
  rw [h] at hfind
  rw [isFile]
  cases hpath : t.find q.path with
  | error fault => rfl
  | ok found => simp [hpath, Except.toOption] at hfind

/-- Only folders can be listed. -/
theorem exists_list_path_eq_error (ht : t.Plain) {q : Place}
    (h : ∀ entries, t.root.at? q.names ≠ some (.folder entries)) :
    ∃ fault, t.list q.path = .error fault := by
  have hfind := toOption_find ht q
  rw [list]
  cases hpath : t.find q.path with
  | error fault => exact ⟨_, rfl⟩
  | ok found =>
    rw [hpath] at hfind
    obtain ⟨e, he, rfl⟩ := Option.map_eq_some_iff.mp hfind.symm
    cases e with
    | folder entries => exact absurd he (h entries)
    | _ => exact ⟨_, rfl⟩

/-- Different chains of names have different paths. -/
theorem pathOf_inj {names more : List String} (hnames : ∀ n ∈ names, IsName n)
    (hmore : ∀ n ∈ more, IsName n) (h : pathOf names = pathOf more) : names = more := by
  let p : Place := ⟨1, names, Or.inl rfl, hnames⟩
  let q : Place := ⟨1, more, Or.inl rfl, hmore⟩
  have hpath : p.path = q.path := h
  have hsteps := congrArg Path.steps hpath
  rwa [p.steps_path, q.steps_path] at hsteps

end FileTree

end PackageAudit
