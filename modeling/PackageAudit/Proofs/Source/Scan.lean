/-
PackageAudit.Proofs.Source.Scan — a scan of a tree without links is exact.

The stack of a scan holds folders that are to be entered; what will have been
entered when it is empty can be read off it (`order`), and entering the first
folder changes nothing about that (`order_cons`). So the run is one induction
on the fuel (`scanStack_after`), and the fuel suffices because every folder
entered is an entry of the tree (`length_preorder_le`).

Which folders these are, and which files and warnings come with them, is said
without the scan (`Admits`, `IsSource`, `IsTooDeep`); the main statement is
`scan_exact`. It is about trees without links: with links a file has several
paths, and the scan reports the first of them.
-/
import PackageAudit.Proofs.Source.Preorder
import PackageAudit.Proofs.Source.Survey
import Mathlib.Algebra.GroupWithZero.Nat
import Mathlib.Algebra.Order.BigOperators.Group.List

namespace PackageAudit

open PackageAudit.Path (Place)

/-! ## 1. Sizes -/

namespace Entry

theorem sizes_eq_sum (entries : List (String × Entry)) :
    sizes entries = (entries.map fun e => e.2.size).sum := by
  induction entries with
  | nil => rfl
  | cons e entries ih => rw [sizes, ih, List.map_cons, List.sum_cons]

theorem size_le_sizes {entries : List (String × Entry)} {n : String} {c : Entry}
    (h : Table.get? entries n = some c) : c.size ≤ sizes entries := by
  rw [sizes_eq_sum]
  exact List.single_le_sum (by simp) _ (List.mem_map_of_mem (Table.mem_of_get? h))

/-- What is inside is no larger. -/
theorem size_le_of_at? {e c : Entry} {names : List String} (h : e.at? names = some c) :
    c.size ≤ e.size := by
  induction names generalizing e with
  | nil =>
    obtain rfl := Option.some.inj h
    exact Nat.le_refl _
  | cons n names ih =>
    obtain ⟨entries, inner, rfl, hinner, hrest⟩ := exists_folder_of_at?_cons h
    calc c.size ≤ inner.size := ih hrest
      _ ≤ sizes entries := size_le_sizes hinner
      _ ≤ (folder entries).size := by rw [size]; omega

/-- The entries of a folder have the sizes that its names have. -/
theorem sum_size_keys {entries : List (String × Entry)} (h : Table.Distinct entries) :
    ((Text.sortTexts (Table.keys entries)).map fun n =>
      (Table.get? entries n).elim 0 size).sum = sizes entries := by
  have hsize : ∀ e ∈ entries, (Table.get? entries e.1).elim 0 size = e.2.size := by
    intro e he
    rw [Table.get?_of_mem h he, Option.elim_some]
  rw [Text.sortTexts, ((List.mergeSort_perm (Table.keys entries) _).map _).sum_eq, Table.keys,
    List.map_map, sizes_eq_sum]
  exact congrArg List.sum (List.map_congr_left hsize)

end Entry

namespace Source

namespace Survey

variable {v : Survey} {folder : List String} {n : String}

/-! ## 2. The run -/

/-- The folders that are entered when those of a stack are. -/
def order (v : Survey) (stack : List (List String)) : List (List String) :=
  stack.flatMap fun folder => preorder v.inner (v.maxDepth - folder.length) folder

theorem order_start (v : Survey) : v.order [[]] = preorder v.inner v.maxDepth [] := by
  simp [order]

/-- The folders inside the first folder come before the rest of the stack. -/
theorem order_cons (folder : List String) (stack : List (List String)) :
    v.order (folder :: stack) =
      folder :: v.order ((v.inner folder).map (folder ++ [·]) ++ stack) := by
  by_cases hdepth : folder.length < v.maxDepth
  · obtain ⟨budget, hbudget⟩ : ∃ budget, v.maxDepth - folder.length = budget + 1 :=
      ⟨v.maxDepth - folder.length - 1, by omega⟩
    have hinside : ∀ n, v.maxDepth - (folder ++ [n]).length = budget := by
      intro n
      rw [List.length_append, List.length_singleton]
      omega
    simp only [order, List.flatMap_cons, List.flatMap_append, List.flatMap_map, hbudget, preorder,
      hinside, List.cons_append]
  · have hbudget : v.maxDepth - folder.length = 0 := by omega
    have hinner : v.inner folder = [] := by simp [inner, enters, hdepth]
    simp [order, hbudget, preorder, hinner]

/-- **The run of a scan.** Started with a stack, the scan enters the folders of the
stack and what is inside them, one after the other. -/
theorem scanStack_after {fuel : Nat} {folders stack : List (List String)}
    (hfuel : (v.order stack).length ≤ fuel) (hdistinct : (folders ++ v.order stack).Nodup)
    (hfolders : ∀ f ∈ folders ++ v.order stack, v.IsFolder f) :
    scanStack v.tree v.settings fuel (v.after folders)
        (stack.map fun folder => (v.path folder, folder.length)) =
      v.after (folders ++ v.order stack) := by
  induction fuel generalizing folders stack with
  | zero =>
    have hnone := List.eq_nil_of_length_eq_zero (Nat.le_zero.mp hfuel)
    rw [scanStack, hnone, List.append_nil]
  | succ fuel ih =>
    cases stack with
    | nil => simp [scanStack, order]
    | cons folder stack =>
      rw [order_cons] at hfuel hdistinct hfolders ⊢
      have hfolder : v.IsFolder folder := hfolders folder (by simp)
      have hnew : folder ∉ folders := fun hmem =>
        (List.nodup_append.mp hdistinct).2.2 folder hmem folder List.mem_cons_self rfl
      have hbefore : ∀ f ∈ folders, v.IsFolder f := fun f hf =>
        hfolders f (List.mem_append_left _ hf)
      rw [List.map_cons, scanStack, scanFolder_after hfolder hbefore hnew]
      -- The folder moves from the stack to those entered; the whole stays the same list.
      rw [List.append_cons] at hdistinct hfolders
      rw [List.append_cons folders folder (v.order _),
        ← ih (by simpa using hfuel) hdistinct hfolders]
      simp [Function.comp_def]

/-! ## 3. The folders entered -/

theorem isFolder_of_mem_inner (h : n ∈ v.inner folder) : v.IsFolder (folder ++ [n]) := by
  have henters := (List.mem_filter.mp h).2
  rw [enters, Bool.and_eq_true, opens_iff] at henters
  exact henters.1.1

/-- The number of folders entered is bounded by the number of names in the tree. -/
theorem length_preorder_le {entries : List (String × Entry)}
    (h : v.at? folder = some (.folder entries)) (budget : Nat) :
    (preorder v.inner budget folder).length ≤ (Entry.folder entries).size := by
  induction budget generalizing folder entries with
  | zero =>
    rw [preorder, List.length_singleton, Entry.size]
    omega
  | succ budget ih =>
    let size : String → Nat := fun n => (Table.get? entries n).elim 0 Entry.size
    have hinside : ∀ n ∈ v.inner folder,
        (preorder v.inner budget (folder ++ [n])).length ≤ size n := by
      intro n hn
      obtain ⟨inside, hinside⟩ := isFolder_of_mem_inner hn
      have hget : Table.get? entries n = some (.folder inside) := by
        rw [at?_append, h] at hinside
        simpa [Entry.at?, Entry.child?] using hinside
      have hle := ih hinside
      simpa only [size, hget, Option.elim_some] using hle
    have hsublist : (v.inner folder).Sublist (Text.sortTexts (Table.keys entries)) := by
      rw [← listed_eq h]
      exact List.filter_sublist
    have hsizes : ((Text.sortTexts (Table.keys entries)).map size).sum = Entry.sizes entries := by
      cases plain_of_at? h with
      | folder distinct _ _ => exact Entry.sum_size_keys distinct
    calc (preorder v.inner (budget + 1) folder).length
        = ((v.inner folder).map fun n =>
            (preorder v.inner budget (folder ++ [n])).length).sum + 1 := by
          rw [preorder, List.length_cons, List.length_flatMap]
      _ ≤ ((v.inner folder).map size).sum + 1 :=
          Nat.add_le_add_right (List.sum_le_sum hinside) 1
      _ ≤ ((Text.sortTexts (Table.keys entries)).map size).sum + 1 :=
          Nat.add_le_add_right ((hsublist.map size).sum_le_sum (by simp)) 1
      _ = (Entry.folder entries).size := by rw [hsizes, Entry.size, Nat.add_comm]

theorem order_pairwise (v : Survey) : (v.order [[]]).Pairwise (· < ·) := by
  rw [order_start]
  exact preorder_pairwise (fun folder => (v.listed_pairwise folder).filter _) v.maxDepth []

end Survey

/-- A scan may go into a folder: neither it nor a folder on the way is hidden,
left out by default or excluded. -/
structure Admits (x : Exclusion) (folder : List String) : Prop where
  visible : ∀ n ∈ folder, Text.begins "." n = false
  kept : ∀ n ∈ folder, n ∉ defaultExcluded
  included : ∀ above, above <+: folder → above ≠ [] → x.excludes (Path.ofComponents above) = false

theorem admits_nil (x : Exclusion) : Admits x [] := ⟨by simp, by simp, by simp⟩

theorem admits_append_singleton_iff {x : Exclusion} {folder : List String} {n : String} :
    Admits x (folder ++ [n]) ↔ Admits x folder ∧ Text.begins "." n = false ∧
      n ∉ defaultExcluded ∧ x.excludes (Path.ofComponents (folder ++ [n])) = false := by
  constructor
  · rintro ⟨visible, kept, included⟩
    refine ⟨⟨fun m hm => visible m (by simp [hm]), fun m hm => kept m (by simp [hm]), ?_⟩,
      visible n (by simp), kept n (by simp), included _ List.prefix_rfl (by simp)⟩
    exact fun above habove => included above (habove.trans (List.prefix_append folder [n]))
  · rintro ⟨⟨visible, kept, included⟩, hvisible, hkept, hincluded⟩
    refine ⟨?_, ?_, ?_⟩
    · simpa [or_imp, forall_and] using ⟨visible, hvisible⟩
    · simpa [or_imp, forall_and] using ⟨kept, hkept⟩
    · intro above habove hne
      rcases List.prefix_concat_iff.mp habove with rfl | habove
      · exact hincluded
      · exact included above habove hne

/-- A source file that a scan from a start has to find, by the names of its folder
and its own. -/
structure IsSource (t : FileTree) (start : List String) (x : Exclusion) (maxDepth : Nat)
    (folder : List String) (name : String) : Prop where
  file : ∃ content, t.root.at? (start ++ (folder ++ [name])) = some (.file content)
  admits : Admits x folder
  depth : folder.length ≤ maxDepth
  visible : Text.begins "." name = false
  language : (Language.ofPath? name).isSome = true
  included : x.excludes (Path.ofComponents (folder ++ [name])) = false

/-- A folder that a scan would go into if it were not too deep by one. -/
structure IsTooDeep (t : FileTree) (start : List String) (x : Exclusion) (maxDepth : Nat)
    (folder : List String) : Prop where
  isFolder : ∃ entries, t.root.at? (start ++ folder) = some (.folder entries)
  admits : Admits x folder
  depth : folder.length = maxDepth + 1

namespace Survey

variable {v : Survey} {folder names : List String}

/-- The folders entered are those that may be and are not too deep. -/
theorem mem_order_iff (hroot : v.IsFolder []) :
    folder ∈ v.order [[]] ↔
      v.IsFolder folder ∧ Admits v.exclusion folder ∧ folder.length ≤ v.maxDepth := by
  have hleads : ∀ below, Leads v.inner [] below ↔
      v.IsFolder below ∧ Admits v.exclusion below ∧ below.length ≤ v.maxDepth := by
    intro below
    induction below using List.reverseRecOn with
    | nil => simp [Leads, hroot, admits_nil]
    | append_singleton below n ih =>
      rw [leads_append_singleton_iff, ih, admits_append_singleton_iff, inner, List.mem_filter,
        enters, Bool.and_eq_true, opens_iff, List.nil_append, decide_eq_true_iff,
        List.length_append, List.length_singleton]
      constructor
      · rintro ⟨⟨-, hadmits, -⟩, -, ⟨hfolder, hn⟩, hdepth⟩
        exact ⟨hfolder, ⟨hadmits, hn⟩, hdepth⟩
      · rintro ⟨⟨entries, hentries⟩, ⟨hadmits, hn⟩, hdepth⟩
        exact ⟨⟨isFolder_of_append (by simp) hentries, hadmits, by omega⟩,
          mem_listed_iff.mpr ⟨_, hentries⟩, ⟨⟨entries, hentries⟩, hn⟩, hdepth⟩
  rw [order_start, mem_preorder_iff]
  constructor
  · rintro ⟨below, rfl, -, hbelow⟩
    exact (hleads _).mp hbelow
  · intro h
    exact ⟨folder, rfl, h.2.2, (hleads folder).mpr h⟩

theorem mem_files_iff (hroot : v.IsFolder []) :
    names ∈ v.within v.takes (v.order [[]]) ↔ ∃ folder name, names = folder ++ [name] ∧
      IsSource v.tree v.start.names v.exclusion v.maxDepth folder name := by
  simp only [mem_within_iff, mem_order_iff hroot, takes_iff]
  constructor
  · rintro ⟨folder, name, rfl, ⟨-, hadmits, hdepth⟩, -, hfile, hvisible, hlanguage, hincluded⟩
    exact ⟨folder, name, rfl, hfile, hadmits, hdepth, hvisible, hlanguage, hincluded⟩
  · rintro ⟨folder, name, rfl, h⟩
    obtain ⟨content, hcontent⟩ := h.file
    exact ⟨folder, name, rfl, ⟨isFolder_of_append (by simp) hcontent, h.admits, h.depth⟩,
      mem_listed_iff.mpr ⟨_, hcontent⟩, h.file, h.visible, h.language, h.included⟩

theorem mem_tooDeep_iff (hroot : v.IsFolder []) :
    folder ∈ v.within v.stopsAt (v.order [[]]) ↔
      IsTooDeep v.tree v.start.names v.exclusion v.maxDepth folder := by
  simp only [mem_within_iff, mem_order_iff hroot, stopsAt, Bool.and_eq_true, opens_iff,
    Bool.not_eq_true', decide_eq_false_iff_not]
  constructor
  · rintro ⟨above, n, rfl, ⟨-, hadmits, hdepth⟩, -, ⟨hfolder, hn⟩, hdeep⟩
    refine ⟨hfolder, admits_append_singleton_iff.mpr ⟨hadmits, hn⟩, ?_⟩
    rw [List.length_append, List.length_singleton]
    omega
  · rintro ⟨⟨entries, hentries⟩, hadmits, hdepth⟩
    rcases List.eq_nil_or_concat folder with rfl | ⟨above, n, rfl⟩
    · simp at hdepth
    · rw [List.concat_eq_append] at *
      obtain ⟨habove, hn⟩ := admits_append_singleton_iff.mp hadmits
      rw [List.length_append, List.length_singleton] at hdepth
      exact ⟨above, n, rfl, ⟨isFolder_of_append (by simp) hentries, habove, by omega⟩,
        mem_listed_iff.mpr ⟨_, hentries⟩, ⟨⟨entries, hentries⟩, hn⟩, by omega⟩

end Survey

/-! ## 4. What a scan finds -/

section

variable {t : FileTree}

/-- The root of a scan as a place. -/
def rootPlace (root : String) : Place :=
  Path.normalPlace (Path.join "/" root) (Path.isAbsolute_join (by decide) root)

theorem path_rootPlace (root : String) : (rootPlace root).path = Path.absolute "/" root :=
  Path.path_normalPlace _

theorem names_rootPlace (root : String) : (rootPlace root).names = Path.steps root := by
  rw [Path.steps, ← path_rootPlace, Place.filter_components_path]

/-- What a scan from a root looks at. -/
def surveyOf (ht : t.Plain) (root : String) (patterns : List String) (maxDepth : Nat) : Survey where
  tree := t
  plain := ht
  start := rootPlace root
  exclusion := .ofPatterns patterns
  maxDepth := maxDepth

/-- A scan of a folder ends when every folder in turn has been entered. -/
theorem scan_eq_of_isFolder (ht : t.Plain) (root : String) (patterns : List String)
    (maxDepth : Nat) (hroot : (surveyOf ht root patterns maxDepth).IsFolder []) :
    Source.scan t root patterns maxDepth =
      ((surveyOf ht root patterns maxDepth).after
        ((surveyOf ht root patterns maxDepth).order [[]])).found := by
  let v := surveyOf ht root patterns maxDepth
  obtain ⟨entries, hentries⟩ := hroot
  have hfuel : (v.order [[]]).length ≤ t.root.size + 2 := by
    have hbound := Survey.length_preorder_le hentries maxDepth
    have hsize := Entry.size_le_of_at? hentries
    rw [Survey.order_start]
    exact (hbound.trans hsize).trans (Nat.le_add_right _ _)
  have hdistinct : ([] ++ v.order [[]]).Nodup := v.order_pairwise.imp ne_of_lt
  have hfolders : ∀ f ∈ [] ++ v.order [[]], v.IsFolder f := fun f hf =>
    ((Survey.mem_order_iff ⟨entries, hentries⟩).mp hf).1
  have hrun := Survey.scanStack_after hfuel hdistinct hfolders
  rw [List.nil_append, Survey.after_nil] at hrun
  rw [← hrun, Source.scan, ← path_rootPlace]
  rfl

/-- A scan of what is no folder finds nothing. -/
theorem scan_eq_of_not_isFolder (ht : t.Plain) (root : String) (patterns : List String)
    (maxDepth : Nat) (hroot : ¬ (surveyOf ht root patterns maxDepth).IsFolder []) :
    ∃ message, Source.scan t root patterns maxDepth =
      { warnings := [⟨.permissionDenied, message, some (Path.absolute "/" root)⟩] } := by
  have hnone : ∀ entries, t.root.at? (rootPlace root).names ≠ some (.folder entries) := by
    intro entries hentries
    rw [← List.append_nil (rootPlace root).names] at hentries
    exact hroot ⟨entries, hentries⟩
  obtain ⟨fault, hfault⟩ := FileTree.exists_list_path_eq_error ht hnone
  rw [path_rootPlace] at hfault
  refine ⟨"Cannot list " ++ Path.absolute "/" root ++ ": " ++ fault.message, ?_⟩
  simp only [Source.scan, scanStack, scanFolder, hfault, List.contains_nil]
  simp [scanStack, ScanState.warn]

/-- **A scan is exact.** From a start in a tree without links a scan finds the
source files that it has to find, each once, in the order of their names, and
warns once of each folder that is too deep by one, in the same order. -/
theorem scan_exact (ht : t.Plain) (root : String) (patterns : List String) (maxDepth : Nat) :
    (Source.scan t root patterns maxDepth).files.Nodup ∧
    (∃ files : List (List String),
      (Source.scan t root patterns maxDepth).files =
        files.map (pathIn (Path.absolute "/" root)) ∧
      files.Pairwise Precedes ∧
      ∀ names, names ∈ files ↔ ∃ folder name, names = folder ++ [name] ∧
        IsSource t (Path.steps root) (.ofPatterns patterns) maxDepth folder name) ∧
    ∃ folders : List (List String),
      (Source.scan t root patterns maxDepth).warnings.filter (·.kind == .depthLimit) =
        folders.map (depthWarning (Path.absolute "/" root)) ∧
      folders.Pairwise Precedes ∧
      ∀ folder, folder ∈ folders ↔
        IsTooDeep t (Path.steps root) (.ofPatterns patterns) maxDepth folder := by
  rw [← path_rootPlace, ← names_rootPlace]
  by_cases hroot : (surveyOf ht root patterns maxDepth).IsFolder []
  · rw [scan_eq_of_isFolder ht root patterns maxDepth hroot]
    let v := surveyOf ht root patterns maxDepth
    have hfiles : (v.within v.takes (v.order [[]])).Pairwise Precedes :=
      precedes_flatMap v.order_pairwise fun folder => (v.listed_pairwise folder).filter _
    have hdeep : (v.within v.stopsAt (v.order [[]])).Pairwise Precedes :=
      precedes_flatMap v.order_pairwise fun folder => (v.listed_pairwise folder).filter _
    have hpaths : ((v.within v.takes (v.order [[]])).map v.path).Nodup := by
      refine List.Nodup.map_on (fun names hnames more hmore => ?_) (hfiles.imp ne_of_precedes)
      obtain ⟨folder, name, rfl, h⟩ := (Survey.mem_files_iff hroot).mp hnames
      obtain ⟨beside, other, rfl, h'⟩ := (Survey.mem_files_iff hroot).mp hmore
      obtain ⟨content, hcontent⟩ := h.file
      obtain ⟨content', hcontent'⟩ := h'.file
      exact Survey.path_inj hcontent hcontent'
    have hwarnings : ((v.within v.stopsAt (v.order [[]])).map (depthWarning v.start.path)).filter
        (·.kind == .depthLimit) =
          (v.within v.stopsAt (v.order [[]])).map (depthWarning v.start.path) := by
      refine List.filter_eq_self.mpr fun w hw => ?_
      obtain ⟨folder, -, rfl⟩ := List.mem_map.mp hw
      rfl
    exact ⟨hpaths, ⟨_, rfl, hfiles, fun _ => Survey.mem_files_iff hroot⟩,
      ⟨_, hwarnings, hdeep, fun _ => Survey.mem_tooDeep_iff hroot⟩⟩
  · obtain ⟨message, hscan⟩ := scan_eq_of_not_isFolder ht root patterns maxDepth hroot
    rw [hscan]
    -- Where the start is no folder, nothing lies inside it.
    have hnone : ∀ names e, names ≠ [] →
        (surveyOf ht root patterns maxDepth).at? names ≠ some e := fun names e hne he =>
      hroot (Survey.isFolder_of_append hne he)
    refine ⟨List.nodup_nil, ⟨[], rfl, .nil, fun names => ?_⟩, ⟨[], rfl, .nil, fun folder => ?_⟩⟩
    · simp only [List.not_mem_nil, false_iff, not_exists, not_and]
      intro folder name _ h
      obtain ⟨content, hcontent⟩ := h.file
      exact hnone _ _ (by simp) hcontent
    · simp only [List.not_mem_nil, false_iff]
      intro h
      obtain ⟨entries, hentries⟩ := h.isFolder
      exact hnone _ _ (List.ne_nil_of_length_eq_add_one h.depth) hentries

/-- A project with a source file, and with one in a folder deeper than the first. -/
def nestedProject : FileTree :=
  ((FileTree.ofFolders ["p"]).putFile "/p/zed/main.ts" []).putFile "/p/zed/deep/far.js" []

theorem steps_main : Path.steps "/p/zed/main.ts" = ["p", "zed", "main.ts"] := rfl

theorem steps_far : Path.steps "/p/zed/deep/far.js" = ["p", "zed", "deep", "far.js"] := rfl

theorem plain_nestedProject : nestedProject.Plain := by
  have hstart : (FileTree.ofFolders ["p"]).Plain :=
    FileTree.plain_ofFolders (by decide) (by decide)
  exact (hstart.putFile (by simp [steps_main]) []).putFile (by simp [steps_far]) []

theorem root_nestedProject : nestedProject.root = .folder [("p", .folder [
    ("zed", .folder [("main.ts", .file []), ("deep", .folder [("far.js", .file [])])])])] := by
  simp only [nestedProject, FileTree.putFile, steps_main, steps_far]
  rfl

theorem scan_exact_nested :
    "/p/zed/main.ts" ∈ (Source.scan nestedProject "/p" ["legacy"] 1).files ∧
    depthWarning "/p" ["zed", "deep"] ∈ (Source.scan nestedProject "/p" ["legacy"] 1).warnings := by
  have hstart : Path.absolute "/" "/p" = "/p" := rfl
  have hnames : Path.steps "/p" = ["p"] := rfl
  have hzed : Admits (.ofPatterns ["legacy"]) ["zed"] :=
    admits_append_singleton_iff.mpr ⟨admits_nil _, by decide, by decide, rfl⟩
  have hdeep : Admits (.ofPatterns ["legacy"]) ["zed", "deep"] :=
    admits_append_singleton_iff.mpr ⟨hzed, by decide, by decide, rfl⟩
  obtain ⟨-, ⟨files, hfiles, -, hmem⟩, folders, hfolders, -, hwarned⟩ :=
    scan_exact plain_nestedProject "/p" ["legacy"] 1
  rw [Int.natCast_one, hstart] at hfiles hfolders
  rw [hnames] at hmem hwarned
  constructor
  · have hfound : IsSource nestedProject ["p"] (.ofPatterns ["legacy"]) 1 ["zed"] "main.ts" :=
      ⟨⟨[], by rw [root_nestedProject]; rfl⟩, hzed, Nat.le_refl 1, rfl, rfl, rfl⟩
    have hpath : pathIn "/p" ["zed", "main.ts"] = "/p/zed/main.ts" := rfl
    rw [hfiles, ← hpath]
    exact List.mem_map_of_mem ((hmem _).mpr ⟨_, _, rfl, hfound⟩)
  · have hwarn : IsTooDeep nestedProject ["p"] (.ofPatterns ["legacy"]) 1 ["zed", "deep"] :=
      ⟨⟨_, by rw [root_nestedProject]; rfl⟩, hdeep, rfl⟩
    have hwarning := List.mem_map_of_mem (f := depthWarning "/p") ((hwarned _).mpr hwarn)
    rw [← hfolders] at hwarning
    exact List.mem_of_mem_filter hwarning

end

end Source

end PackageAudit
