/-
PackageAudit.Proofs.Source.Survey — the steps of a scan in a tree without links.

A scan keeps paths and real paths; here folders and files are the names that
lead to them from the start. Entering a folder is then two filters of its
names, for the files and for the folders inside (`takes`, `opens`), and the
state of a scan is a function of the folders entered so far (`after`):
`scanFolder_after` is the whole of what one step does. That no folder is
entered and no file found twice comes down to different names having different
real paths (`realPath_inj`).
-/
import PackageAudit.Proofs.Collection
import PackageAudit.Proofs.FileTree.Plain
import PackageAudit.Source.Scan

namespace PackageAudit.Source

open PackageAudit.Path (IsName Place)

/-- The path of what names lead to from a start. -/
def pathIn (start : String) (names : List String) : String := names.foldl Path.join start

theorem join_pathIn (start : String) (folder : List String) (n : String) :
    Path.join (pathIn start folder) n = pathIn start (folder ++ [n]) := by
  rw [pathIn, pathIn, List.foldl_append]
  rfl

/-- Behind the start stand the names. -/
theorem relative_pathIn (start : Place) {names : List String} (hnames : ∀ n ∈ names, IsName n)
    (hne : names ≠ []) :
    Path.relative (pathIn start.path names) start.path = Path.ofComponents names := by
  rw [pathIn, ← start.path_into hnames]
  exact start.relative_into hnames hne

/-- The warning about a folder that lies too deep. -/
def depthWarning (start : String) (names : List String) : Warning :=
  ⟨.depthLimit, "Maximum depth reached at " ++ pathIn start names, some (pathIn start names)⟩

/-- A scan of a tree without links, from a place. -/
structure Survey where
  tree : FileTree
  plain : tree.Plain
  start : Place
  exclusion : Exclusion
  maxDepth : Nat

namespace Survey

variable (v : Survey)

/-! ## 1. What names lead to -/

/-- What the scan is told. -/
def settings : ScanSettings := ⟨v.start.path, v.exclusion, v.maxDepth⟩

/-- What names lead to from the start. -/
def at? (names : List String) : Option Entry := v.tree.root.at? (v.start.names ++ names)

/-- Names lead to a folder. -/
def IsFolder (folder : List String) : Prop := ∃ entries, v.at? folder = some (.folder entries)

/-- The path of what names lead to. -/
def path (names : List String) : String := pathIn v.start.path names

/-- The real path of what names lead to. -/
def realPath (names : List String) : String := FileTree.pathOf (v.start.names ++ names)

variable {v} {folder names more : List String} {n : String} {e d : Entry}

theorem at?_append (folder below : List String) :
    v.at? (folder ++ below) = (v.at? folder).bind fun e => e.at? below := by
  rw [at?, ← List.append_assoc, Entry.at?_append]
  rfl

/-- Whatever lies inside of something, that is a folder. -/
theorem isFolder_of_append {below : List String} (hne : below ≠ [])
    (h : v.at? (folder ++ below) = some e) : v.IsFolder folder := by
  rw [at?_append, Option.bind_eq_some_iff] at h
  obtain ⟨d, hd, hbelow⟩ := h
  obtain ⟨n, below, rfl⟩ := List.exists_cons_of_ne_nil hne
  obtain ⟨entries, -, rfl, -⟩ := Entry.exists_folder_of_at?_cons hbelow
  exact ⟨entries, hd⟩

theorem plain_of_at? (h : v.at? names = some e) : e.Plain :=
  (Entry.Plain.at? v.plain.entries h).1

theorem isName_of_at? (h : v.at? names = some e) : ∀ n ∈ names, IsName n := fun n hn =>
  (Entry.Plain.at? v.plain.entries h).2 n (List.mem_append_right _ hn)

/-- What is in the tree is at a place. -/
theorem exists_place (h : v.at? names = some e) : ∃ p : Place,
    p.path = v.path names ∧ p.names = v.start.names ++ names ∧
      v.tree.root.at? p.names = some e :=
  ⟨v.start.into names (isName_of_at? h), v.start.path_into _, rfl, h⟩

theorem kind?_path (h : v.at? names = some e) :
    v.tree.kind? (v.path names) = .ok (some e) := by
  obtain ⟨p, hpath, -, hentry⟩ := exists_place h
  rw [← hpath]
  exact FileTree.kind?_path v.plain hentry

theorem realPath_path (h : v.at? names = some e) :
    v.tree.realPath (v.path names) = v.realPath names := by
  obtain ⟨p, hpath, hnames, hentry⟩ := exists_place h
  rw [← hpath, realPath, ← hnames]
  exact FileTree.realPath_path v.plain hentry

theorem relative_path (hne : names ≠ []) (h : v.at? names = some e) :
    Path.relative (v.path names) v.start.path = Path.ofComponents names :=
  relative_pathIn v.start (isName_of_at? h) hne

/-- Different names lead to different paths. -/
theorem path_inj (hnames : v.at? names = some e) (hmore : v.at? more = some d)
    (h : v.path names = v.path more) : names = more := by
  obtain ⟨p, hp, hpnames, -⟩ := exists_place hnames
  obtain ⟨q, hq, hqnames, -⟩ := exists_place hmore
  have hsteps := congrArg Path.steps (hp.trans (h.trans hq.symm))
  rw [p.steps_path, q.steps_path, hpnames, hqnames] at hsteps
  exact List.append_cancel_left hsteps

/-- Different names lead to different real paths. -/
theorem realPath_inj (hnames : v.at? names = some e) (hmore : v.at? more = some d)
    (h : v.realPath names = v.realPath more) : names = more :=
  List.append_cancel_left (FileTree.pathOf_inj (Entry.Plain.at? v.plain.entries hnames).2
    (Entry.Plain.at? v.plain.entries hmore).2 h)

theorem join_path (folder : List String) (n : String) :
    Path.join (v.path folder) n = v.path (folder ++ [n]) :=
  join_pathIn v.start.path folder n

/-! ## 2. What is in a folder -/

/-- The names in a folder, in order. -/
def listed (v : Survey) (folder : List String) : List String :=
  match v.at? folder with
  | some (.folder entries) => Text.sortTexts (Table.keys entries)
  | _ => []

theorem listed_eq {entries : List (String × Entry)} (h : v.at? folder = some (.folder entries)) :
    v.listed folder = Text.sortTexts (Table.keys entries) := by
  rw [listed, h]

theorem list_path (h : v.IsFolder folder) :
    v.tree.list (v.path folder) = .ok (v.listed folder) := by
  obtain ⟨entries, hentries⟩ := h
  obtain ⟨p, hpath, -, hentry⟩ := exists_place hentries
  rw [listed_eq hentries, ← hpath]
  exact FileTree.list_path v.plain hentry

theorem mem_listed_iff : n ∈ v.listed folder ↔ ∃ e, v.at? (folder ++ [n]) = some e := by
  rw [at?_append, listed]
  cases v.at? folder with
  | none => simp
  | some e =>
    cases e with
    | folder entries =>
      have hkeys : n ∈ Table.keys entries ↔ ∃ e, Table.get? entries n = some e := by
        rw [← not_iff_not, ← Table.get?_eq_none_iff, Option.eq_none_iff_forall_ne_some]
        simp
      simp only [Text.sortTexts, List.mem_mergeSort, hkeys]
      simp [Entry.at?, Entry.child?]
    | _ => simp [Entry.at?, Entry.child?]

/-- Names in a folder come in order, and none twice. -/
theorem listed_pairwise (v : Survey) (folder : List String) :
    (v.listed folder).Pairwise (· < ·) := by
  unfold listed
  split
  · rename_i entries hentries
    cases plain_of_at? hentries with
    | folder distinct _ _ =>
      exact Text.sortTexts_pairwise distinct
  · exact List.Pairwise.nil

/-- A name in a folder stands for a folder that is not passed over. -/
def opens (v : Survey) (folder : List String) (n : String) : Bool :=
  match v.at? (folder ++ [n]) with
  | some (.folder _) => !Text.begins "." n && !defaultExcluded.contains n &&
      !v.exclusion.excludes (Path.ofComponents (folder ++ [n]))
  | _ => false

/-- A name in a folder stands for a source file that is not passed over. -/
def takes (v : Survey) (folder : List String) (n : String) : Bool :=
  match v.at? (folder ++ [n]) with
  | some (.file _) => !Text.begins "." n && (Language.ofPath? n).isSome &&
      !v.exclusion.excludes (Path.ofComponents (folder ++ [n]))
  | _ => false

theorem opens_iff : v.opens folder n = true ↔ v.IsFolder (folder ++ [n]) ∧
    Text.begins "." n = false ∧ n ∉ defaultExcluded ∧
    v.exclusion.excludes (Path.ofComponents (folder ++ [n])) = false := by
  rw [opens, IsFolder]
  cases v.at? (folder ++ [n]) with
  | none => simp
  | some e => cases e <;> simp [and_assoc]

theorem takes_iff : v.takes folder n = true ↔
    (∃ content, v.at? (folder ++ [n]) = some (.file content)) ∧
    Text.begins "." n = false ∧ (Language.ofPath? n).isSome = true ∧
    v.exclusion.excludes (Path.ofComponents (folder ++ [n])) = false := by
  rw [takes]
  cases v.at? (folder ++ [n]) with
  | none => simp
  | some e => cases e <;> simp [and_assoc]

/-- A name in a folder stands for a folder that is entered next. -/
def enters (v : Survey) (folder : List String) (n : String) : Bool :=
  v.opens folder n && decide (folder.length < v.maxDepth)

/-- A name in a folder stands for a folder that is too deep. -/
def stopsAt (v : Survey) (folder : List String) (n : String) : Bool :=
  v.opens folder n && !decide (folder.length < v.maxDepth)

/-- The names of a folder that stand for folders entered next. -/
def inner (v : Survey) (folder : List String) : List String :=
  (v.listed folder).filter (v.enters folder)

/-- Of some folders, what has a property inside, folder by folder. -/
def within (v : Survey) (p : List String → String → Bool) (folders : List (List String)) :
    List (List String) :=
  folders.flatMap fun folder => ((v.listed folder).filter (p folder)).map (folder ++ [·])

theorem mem_within_iff {p : List String → String → Bool} {folders : List (List String)} :
    names ∈ v.within p folders ↔ ∃ folder n, names = folder ++ [n] ∧ folder ∈ folders ∧
      n ∈ v.listed folder ∧ p folder n = true := by
  simp only [within, List.mem_flatMap, List.mem_map, List.mem_filter]
  constructor
  · rintro ⟨folder, hfolder, n, ⟨hn, hp⟩, rfl⟩
    exact ⟨folder, n, rfl, hfolder, hn, hp⟩
  · rintro ⟨folder, n, rfl, hfolder, hn, hp⟩
    exact ⟨folder, hfolder, n, ⟨hn, hp⟩, rfl⟩

/-! ## 3. Steps -/

/-- The state after some folders have been entered, with the files found and the
folders that were too deep. -/
def seen (v : Survey) (folders files deep : List (List String)) : ScanState where
  entered := (folders.map v.realPath).reverse
  reported := (files.map v.realPath).reverse
  found := { files := files.map v.path, warnings := deep.map (depthWarning v.start.path) }

/-- The state after some folders have been entered. -/
def after (v : Survey) (folders : List (List String)) : ScanState :=
  v.seen folders (v.within v.takes folders) (v.within v.stopsAt folders)

theorem after_nil : v.after [] = {} := rfl

variable {folders files deep : List (List String)}

theorem report_seen (hnew : v.realPath names ∉ files.map v.realPath) :
    (v.seen folders files deep).report (v.path names) (v.realPath names) =
      v.seen folders (files ++ [names]) deep := by
  have hcontains : ¬ (v.seen folders files deep).reported.contains (v.realPath names) = true := by
    simpa [seen] using hnew
  rw [ScanState.report, if_neg hcontains]
  simp [seen]

theorem warn_seen (folders files deep : List (List String)) (names : List String) :
    (v.seen folders files deep).warn .depthLimit ("Maximum depth reached at " ++ v.path names)
      (v.path names) = v.seen folders files (deep ++ [names]) := by
  simp [seen, ScanState.warn, depthWarning, path]

/-- One name of a folder. -/
theorem scanName_seen (hn : n ∈ v.listed folder)
    (hnew : v.realPath (folder ++ [n]) ∉ files.map v.realPath) :
    scanName v.tree v.settings (v.path folder) folder.length (v.seen folders files deep) n =
      (v.seen folders (files ++ if v.takes folder n then [folder ++ [n]] else [])
        (deep ++ if v.stopsAt folder n then [folder ++ [n]] else []),
      if v.enters folder n then some (v.path (folder ++ [n])) else none) := by
  obtain ⟨e, he⟩ := mem_listed_iff.mp hn
  have hrelative := relative_path (by simp) he
  simp only [scanName, settings, join_path, kind?_path he, realPath_path he, hrelative, enters,
    stopsAt, opens, takes, he]
  cases hdot : Text.begins "." n with
  | true => cases e <;> simp
  | false =>
    cases e with
    | file content =>
      cases hlanguage : Language.ofPath? n <;>
        cases hexcluded : v.exclusion.excludes (Path.ofComponents (folder ++ [n])) <;>
          simp [report_seen hnew]
    | folder entries =>
      have hdepth : (v.maxDepth : Int) < (folder.length : Int) + 1 ↔
          ¬ folder.length < v.maxDepth := by
        omega
      cases hdefault : defaultExcluded.contains n <;>
        cases hexcluded : v.exclusion.excludes (Path.ofComponents (folder ++ [n])) <;>
          by_cases hdeep : folder.length < v.maxDepth <;>
            simp [hdepth, hdeep, warn_seen]
    | link target => cases plain_of_at? he

/-- The names of a folder in turn. -/
theorem scanNames_seen (hdistinct : names.Nodup) (hnames : ∀ n ∈ names, n ∈ v.listed folder)
    (hnew : ∀ n ∈ names, v.realPath (folder ++ [n]) ∉ files.map v.realPath) :
    scanNames v.tree v.settings (v.path folder) folder.length (v.seen folders files deep) names =
      (v.seen folders (files ++ (names.filter (v.takes folder)).map (folder ++ [·]))
        (deep ++ (names.filter (v.stopsAt folder)).map (folder ++ [·])),
      (names.filter (v.enters folder)).map fun n => v.path (folder ++ [n])) := by
  induction names generalizing files deep with
  | nil => simp [scanNames]
  | cons n names ih =>
    rw [List.nodup_cons] at hdistinct
    rw [List.forall_mem_cons] at hnames hnew
    rw [scanNames, scanName_seen hnames.1 hnew.1]
    dsimp only
    rw [ih hdistinct.2 hnames.2]
    · cases htakes : v.takes folder n <;> cases hstops : v.stopsAt folder n <;>
        cases henters : v.enters folder n <;> simp [htakes, hstops, henters]
    · intro m hm hmem
      rw [List.map_append, List.mem_append] at hmem
      rcases hmem with hmem | hmem
      · exact hnew.2 m hm hmem
      · split at hmem
        · obtain ⟨e, he⟩ := mem_listed_iff.mp (hnames.2 m hm)
          obtain ⟨d, hd⟩ := mem_listed_iff.mp hnames.1
          have hsame := realPath_inj he hd (List.mem_singleton.mp hmem)
          have heq : m = n := by simpa using hsame
          exact hdistinct.1 (heq ▸ hm)
        · cases hmem

/-- **One step.** A folder that has not been entered is entered, and the folders
inside of it are to be entered next. -/
theorem scanFolder_after (hfolder : v.IsFolder folder) (hfolders : ∀ f ∈ folders, v.IsFolder f)
    (hnew : folder ∉ folders) :
    scanFolder v.tree v.settings (v.after folders) (v.path folder) folder.length =
      (v.after (folders ++ [folder]), (v.inner folder).map fun n => v.path (folder ++ [n])) := by
  obtain ⟨entries, hentries⟩ := hfolder
  have hentered : ¬ (v.after folders).entered.contains (v.realPath folder) = true := by
    simp only [after, seen, List.contains_reverse, List.contains_iff_mem, List.mem_map, not_exists]
    rintro f ⟨hf, hreal⟩
    obtain ⟨inside, hinside⟩ := hfolders f hf
    exact hnew (realPath_inj hinside hentries hreal ▸ hf)
  have hunreported : ∀ n ∈ v.listed folder,
      v.realPath (folder ++ [n]) ∉ (v.within v.takes folders).map v.realPath := by
    intro n hn hmem
    obtain ⟨names, hnames, hreal⟩ := List.mem_map.mp hmem
    obtain ⟨f, m, rfl, hf, hm, -⟩ := mem_within_iff.mp hnames
    obtain ⟨e, he⟩ := mem_listed_iff.mp hm
    obtain ⟨d, hd⟩ := mem_listed_iff.mp hn
    obtain ⟨rfl, -⟩ := List.append_inj' (realPath_inj he hd hreal) rfl
    exact hnew hf
  have hadd : { v.after folders with
      entered := v.realPath folder :: (v.after folders).entered } =
        v.seen (folders ++ [folder]) (v.within v.takes folders) (v.within v.stopsAt folders) := by
    simp [after, seen]
  have hdistinct : (v.listed folder).Nodup := (v.listed_pairwise folder).imp ne_of_lt
  unfold scanFolder
  dsimp only
  rw [realPath_path hentries, if_neg hentered, list_path ⟨entries, hentries⟩, hadd]
  dsimp only
  rw [scanNames_seen hdistinct (fun _ hn => hn) hunreported]
  simp [after, within, inner]

end Survey

end PackageAudit.Source
