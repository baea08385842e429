/-
PackageAudit.Proofs.Source.Tour — the steps of a scan in a tree with links.

Folders and files are again the names that lead to them from the start, but
different names may now lead to one folder, and names may lead through a link
that cannot be followed. What a scan does with one name of a folder is said
once (`Look`); all that is known about a step follows from that.

Two things are kept. The files found are admissible, and each has a real path
of its own (`Sound`). And of each folder that has been entered every name has
been met: it is passed over for a reason, or reported, or warned of, or what it
leads to has been entered or still waits on the stack (`Progress`).
-/
import PackageAudit.Proofs.FileTree.Links
import PackageAudit.Proofs.Source.Scan

namespace PackageAudit.Source

open PackageAudit.Path (IsName Place)
open PackageAudit.FileTree (Found Fault)

/-- A scan of a tree from a place. -/
structure Tour where
  tree : FileTree
  wellFormed : tree.WellFormed
  start : Place
  exclusion : Exclusion
  maxDepth : Int

namespace Tour

variable (v : Tour)

/-! ## 1. What names lead to -/

/-- What the scan is told. -/
def settings : ScanSettings := ⟨v.start.path, v.exclusion, v.maxDepth⟩

/-- The path of what names lead to. -/
def path (names : List String) : String := pathIn v.start.path names

/-- What names lead to from the start. -/
def find (names : List String) : Except Fault Found := v.tree.find (v.path names)

/-- The real path of what names lead to. -/
def realPath (names : List String) : String := v.tree.realPath (v.path names)

/-- Names lead to a folder. -/
def IsFolder (names : List String) : Prop :=
  ∃ place entries, v.find names = .ok ⟨place, .folder entries⟩

/-- Names lead to a file. -/
def IsFile (names : List String) : Prop :=
  ∃ place content, v.find names = .ok ⟨place, .file content⟩

variable {v} {folder names more : List String} {n : String} {found : Found}

theorem find_eq (h : ∀ n ∈ names, IsName n) :
    v.find names = v.tree.follow 40 [] (v.start.names ++ names) :=
  FileTree.find_foldl_join v.wellFormed v.start h

theorem join_path (folder : List String) (n : String) :
    Path.join (v.path folder) n = v.path (folder ++ [n]) :=
  join_pathIn v.start.path folder n

theorem relative_path (hne : names ≠ []) (h : ∀ n ∈ names, IsName n) :
    Path.relative (v.path names) v.start.path = Path.ofComponents names :=
  relative_pathIn v.start h hne

theorem not_isFile_of_isFolder (h : v.IsFolder names) : ¬ v.IsFile names := by
  obtain ⟨place, entries, h⟩ := h
  rintro ⟨place', content, h'⟩
  rw [h] at h'
  cases h'

/-- The names in a folder, in order. -/
def listed (v : Tour) (folder : List String) : List String := v.tree.listed (v.path folder)

/-- A name of a folder that is not passed over and leads to a folder. -/
structure Opens (v : Tour) (folder : List String) (n : String) : Prop where
  isFolder : v.IsFolder (folder ++ [n])
  visible : Text.begins "." n = false
  kept : n ∉ defaultExcluded
  included : v.exclusion.excludes (Path.ofComponents (folder ++ [n])) = false

/-- A name of a folder that is not passed over and leads to a source file. -/
structure Takes (v : Tour) (folder : List String) (n : String) : Prop where
  isFile : v.IsFile (folder ++ [n])
  visible : Text.begins "." n = false
  language : (Language.ofPath? n).isSome = true
  included : v.exclusion.excludes (Path.ofComponents (folder ++ [n])) = false

/-! ## 2. One name -/

/-- What may come of a name of a folder: the new state, and the path of a folder to
be entered. -/
inductive Look (v : Tour) (folder : List String) (n : String) (s : ScanState) :
    ScanState × Option String → Prop where
  | passedOver (hopens : ¬ v.Opens folder n) (htakes : ¬ v.Takes folder n)
      (hfault : Text.begins "." n = false → v.find (folder ++ [n]) ≠ .error .tooManyLinks) :
      Look v folder n s (s, none)
  | fault (message : String) (h : ∀ found, v.find (folder ++ [n]) ≠ .ok found) :
      Look v folder n s (s.warn .permissionDenied message (v.path (folder ++ [n])), none)
  | tooDeep (hopens : v.Opens folder n) (hdepth : v.maxDepth < folder.length + 1) :
      Look v folder n s (s.warn .depthLimit ("Maximum depth reached at " ++ v.path (folder ++ [n]))
        (v.path (folder ++ [n])), none)
  | enter (hopens : v.Opens folder n) (hdepth : folder.length + 1 ≤ v.maxDepth) :
      Look v folder n s (s, some (v.path (folder ++ [n])))
  | file (htakes : v.Takes folder n) :
      Look v folder n s (s.report (v.path (folder ++ [n])) (v.realPath (folder ++ [n])), none)

/-- A name that leads to a folder. -/
theorem look_folder (hfolder : v.IsFolder (folder ++ [n])) (hdot : Text.begins "." n = false)
    (s : ScanState) :
    Look v folder n s
      (if defaultExcluded.contains n ||
          v.exclusion.excludes (Path.ofComponents (folder ++ [n])) then (s, none)
        else if (folder.length : Int) + 1 > v.maxDepth then
          (s.warn .depthLimit ("Maximum depth reached at " ++ v.path (folder ++ [n]))
            (v.path (folder ++ [n])), none)
        else (s, some (v.path (folder ++ [n])))) := by
  split
  · rename_i hskip
    refine .passedOver (fun h => ?_) (fun h => not_isFile_of_isFolder hfolder h.isFile)
      (fun _ => ?_)
    · simp [h.kept, h.included] at hskip
    · obtain ⟨place, entries, hfind⟩ := hfolder
      simp [hfind]
  · rename_i hskip
    simp only [Bool.or_eq_true, not_or, List.contains_iff_mem, Bool.not_eq_true] at hskip
    have hopens : v.Opens folder n := ⟨hfolder, hdot, hskip.1, hskip.2⟩
    split
    · rename_i hdeep
      exact .tooDeep hopens hdeep
    · rename_i hdeep
      exact .enter hopens (not_lt.mp hdeep)

/-- A name that leads to a file. -/
theorem look_file (hfile : v.IsFile (folder ++ [n])) (hdot : Text.begins "." n = false)
    (s : ScanState) :
    Look v folder n s
      (if (Language.ofPath? n).isNone ||
          v.exclusion.excludes (Path.ofComponents (folder ++ [n])) then (s, none)
        else (s.report (v.path (folder ++ [n])) (v.realPath (folder ++ [n])), none)) := by
  split
  · rename_i hskip
    refine .passedOver (fun h => not_isFile_of_isFolder h.isFolder hfile) (fun h => ?_)
      (fun _ => ?_)
    · have hlanguage := h.language
      simp [h.included] at hskip
      simp [hskip] at hlanguage
    · obtain ⟨place, content, hfind⟩ := hfile
      simp [hfind]
  · rename_i hskip
    simp only [Bool.or_eq_true, not_or, Bool.not_eq_true, Option.isNone_eq_false_iff] at hskip
    exact .file ⟨hfile, hdot, hskip.1, hskip.2⟩

/-- **One name.** -/
theorem look_scanName (hnames : ∀ m ∈ folder, IsName m) (hn : IsName n) (s : ScanState) :
    Look v folder n s
      (scanName v.tree v.settings (v.path folder) folder.length s n) := by
  have hall : ∀ m ∈ folder ++ [n], IsName m := by
    simpa [or_imp, forall_and] using ⟨hnames, hn⟩
  have hrelative := relative_path (v := v) (by simp) hall
  simp only [scanName, settings, join_path, hrelative, FileTree.kind?]
  cases hdot : Text.begins "." n with
  | true =>
    rw [if_pos rfl]
    exact .passedOver (fun h => by simp [h.visible] at hdot) (fun h => by simp [h.visible] at hdot)
      (fun h => by simp [h] at hdot)
  | false =>
    rw [if_neg Bool.false_ne_true]
    cases hfind : v.tree.find (v.path (folder ++ [n])) with
    | error f =>
      have hnone : ∀ found, v.find (folder ++ [n]) ≠ .ok found := fun found h => by
        cases hfind.symm.trans h
      cases f with
      | notFound =>
        refine .passedOver (fun h => ?_) (fun h => ?_) (fun _ h => by cases hfind.symm.trans h)
        · obtain ⟨place, entries, hok⟩ := h.isFolder
          exact hnone _ hok
        · obtain ⟨place, content, hok⟩ := h.isFile
          exact hnone _ hok
      | _ => exact .fault _ hnone
    | ok found =>
      obtain ⟨place, e⟩ := found
      cases e with
      | folder entries => exact look_folder ⟨place, entries, hfind⟩ hdot s
      | file content => exact look_file ⟨place, content, hfind⟩ hdot s
      | link target =>
        obtain ⟨hentry, hlink⟩ := FileTree.at?_of_find v.wellFormed hfind
        exact absurd hentry (hlink target)

/-! ## 3. What is kept -/

/-- A folder that a scan may enter under these names. -/
structure MayEnter (v : Tour) (folder : List String) : Prop where
  isName : ∀ n ∈ folder, IsName n
  admits : Admits v.exclusion folder
  reached : folder = [] ∨ (folder.length ≤ v.maxDepth ∧ v.IsFolder folder)

theorem mayEnter_nil (v : Tour) : v.MayEnter [] := ⟨by simp, admits_nil _, Or.inl rfl⟩

theorem MayEnter.inside (h : v.MayEnter folder) (hn : IsName n) (hopens : v.Opens folder n)
    (hdepth : folder.length + 1 ≤ v.maxDepth) : v.MayEnter (folder ++ [n]) where
  isName := by simpa [or_imp, forall_and] using ⟨h.isName, hn⟩
  admits := admits_append_singleton_iff.mpr
    ⟨h.admits, hopens.visible, hopens.kept, hopens.included⟩
  reached := Or.inr ⟨by simpa using hdepth, hopens.isFolder⟩

/-- The path of a file that a scan may find. -/
def Admissible (v : Tour) (file : String) : Prop :=
  ∃ folder n, file = v.path (folder ++ [n]) ∧ v.MayEnter folder ∧ IsName n ∧ v.Takes folder n

/-- The files found are admissible, and each is another file. -/
structure Sound (v : Tour) (s : ScanState) : Prop where
  reported : s.reported = (s.found.files.map v.tree.realPath).reverse
  nodup : s.reported.Nodup
  admissible : ∀ file ∈ s.found.files, v.Admissible file

theorem sound_start (v : Tour) : v.Sound {} := ⟨rfl, List.nodup_nil, by simp⟩

theorem Sound.warn {s : ScanState} (h : v.Sound s) (kind : WarningKind) (message path : String) :
    v.Sound (s.warn kind message path) :=
  ⟨h.reported, h.nodup, h.admissible⟩

theorem Sound.report {s : ScanState} (h : v.Sound s) (hfolder : v.MayEnter folder)
    (hn : IsName n) (htakes : v.Takes folder n) :
    v.Sound (s.report (v.path (folder ++ [n])) (v.realPath (folder ++ [n]))) := by
  rw [ScanState.report]
  split
  · exact h
  · rename_i hnew
    rw [List.contains_iff_mem] at hnew
    refine ⟨?_, List.nodup_cons.mpr ⟨hnew, h.nodup⟩, ?_⟩
    · simp [h.reported, realPath]
    · simp only [List.mem_append, List.mem_singleton]
      rintro file (hfile | rfl)
      · exact h.admissible file hfile
      · exact ⟨folder, n, rfl, hfolder, hn, htakes⟩

/-- What has been entered, reported and warned of in a state has been in a later
one. -/
structure Extends (s s' : ScanState) : Prop where
  entered : s.entered ⊆ s'.entered
  reported : s.reported ⊆ s'.reported
  warnings : s.found.warnings ⊆ s'.found.warnings

theorem Extends.refl (s : ScanState) : Extends s s :=
  ⟨List.Subset.refl _, List.Subset.refl _, List.Subset.refl _⟩

theorem Extends.trans {s s' s'' : ScanState} (h : Extends s s') (h' : Extends s' s'') :
    Extends s s'' :=
  ⟨List.Subset.trans h.entered h'.entered, List.Subset.trans h.reported h'.reported,
    List.Subset.trans h.warnings h'.warnings⟩

theorem extends_warn (s : ScanState) (kind : WarningKind) (message path : String) :
    Extends s (s.warn kind message path) :=
  ⟨List.Subset.refl _, List.Subset.refl _, List.subset_append_left _ _⟩

theorem extends_report (s : ScanState) (path real : String) : Extends s (s.report path real) := by
  rw [ScanState.report]
  split
  · exact .refl s
  · exact ⟨List.Subset.refl _, List.subset_cons_self _ _, List.Subset.refl _⟩

theorem entered_report (s : ScanState) (path real : String) :
    (s.report path real).entered = s.entered := by
  rw [ScanState.report]
  split <;> rfl

theorem mem_reported_report (s : ScanState) (path real : String) :
    real ∈ (s.report path real).reported := by
  rw [ScanState.report]
  split
  · rename_i h
    exact List.contains_iff_mem.mp h
  · exact List.mem_cons_self

/-- Why nothing is left to be done about a name of a folder. -/
inductive Met (v : Tour) (s : ScanState) (folder : List String) (n : String) : Prop where
  | passedOver (hopens : ¬ v.Opens folder n) (htakes : ¬ v.Takes folder n)
      (hfault : Text.begins "." n = false → v.find (folder ++ [n]) ≠ .error .tooManyLinks)
  | fault (message : String) (hnone : ∀ found, v.find (folder ++ [n]) ≠ .ok found)
      (h : ⟨.permissionDenied, message, some (v.path (folder ++ [n]))⟩ ∈ s.found.warnings)
  | tooDeep (hopens : v.Opens folder n) (hdepth : v.maxDepth < folder.length + 1)
      (h : depthWarning v.start.path (folder ++ [n]) ∈ s.found.warnings)
  | entered (hfolder : v.IsFolder (folder ++ [n])) (h : v.realPath (folder ++ [n]) ∈ s.entered)
  | reported (htakes : v.Takes folder n) (h : v.realPath (folder ++ [n]) ∈ s.reported)

theorem Met.extends {s s' : ScanState} (h : v.Met s folder n) (hs : Extends s s') :
    v.Met s' folder n := by
  cases h with
  | passedOver hopens htakes hfault => exact .passedOver hopens htakes hfault
  | fault message hnone h => exact .fault message hnone (hs.warnings h)
  | tooDeep hopens hdepth h => exact .tooDeep hopens hdepth (hs.warnings h)
  | entered hfolder h => exact .entered hfolder (hs.entered h)
  | reported htakes h => exact .reported htakes (hs.reported h)

/-! ## 4. The names of a folder -/

/-- What looking at names of a folder comes to: a new state, and the names of
folders to be entered. -/
structure Visit (v : Tour) (folder names : List String) (s s' : ScanState)
    (inner : List String) : Prop where
  sound : v.Sound s'
  entered : s'.entered = s.entered
  later : Extends s s'
  sublist : inner.Sublist names
  mayEnter : ∀ n ∈ inner, v.MayEnter (folder ++ [n])
  met : ∀ n ∈ names, v.Met s' folder n ∨ n ∈ inner

/-- One name, as what it adds to a visit. -/
theorem Look.visit {s s' : ScanState} {sub : Option String} (hfolder : v.MayEnter folder)
    (hn : IsName n) (hs : v.Sound s) (h : v.Look folder n s (s', sub)) :
    ∃ inner, v.Visit folder [n] s s' inner ∧
      sub.toList = inner.map fun m => v.path (folder ++ [m]) := by
  cases h with
  | passedOver hopens htakes hfault =>
    refine ⟨[], ⟨hs, rfl, .refl s, List.nil_sublist _, by simp, ?_⟩, rfl⟩
    simpa using Met.passedOver hopens htakes hfault
  | fault message hnone =>
    refine ⟨[], ⟨hs.warn _ _ _, rfl, extends_warn s _ _ _, List.nil_sublist _, by simp, ?_⟩, rfl⟩
    simpa using Met.fault message hnone (by simp [ScanState.warn])
  | tooDeep hopens hdepth =>
    refine ⟨[], ⟨hs.warn _ _ _, rfl, extends_warn s _ _ _, List.nil_sublist _, by simp, ?_⟩, rfl⟩
    simpa using Met.tooDeep hopens hdepth (by simp [ScanState.warn, depthWarning, path])
  | enter hopens hdepth =>
    refine ⟨[n], ⟨hs, rfl, .refl s, List.Sublist.refl _, ?_, by simp⟩, rfl⟩
    simpa using hfolder.inside hn hopens hdepth
  | file htakes =>
    refine ⟨[], ⟨hs.report hfolder hn htakes, entered_report s _ _, extends_report s _ _,
      List.nil_sublist _, by simp, ?_⟩, rfl⟩
    simpa using Met.reported htakes (mem_reported_report s _ _)

theorem Visit.append {s s' s'' : ScanState} {inner inside : List String}
    (h : v.Visit folder names s s' inner) (h' : v.Visit folder more s' s'' inside) :
    v.Visit folder (names ++ more) s s'' (inner ++ inside) where
  sound := h'.sound
  entered := h'.entered.trans h.entered
  later := h.later.trans h'.later
  sublist := h.sublist.append h'.sublist
  mayEnter := by simpa [or_imp, forall_and] using ⟨h.mayEnter, h'.mayEnter⟩
  met := by
    intro n hn
    rw [List.mem_append]
    rcases List.mem_append.mp hn with hn | hn
    · exact (h.met n hn).imp (fun hmet => hmet.extends h'.later) Or.inl
    · exact (h'.met n hn).imp_right Or.inr

/-- **The names of a folder.** -/
theorem visit_scanNames (hfolder : v.MayEnter folder) (hnames : ∀ n ∈ names, IsName n)
    {s : ScanState} (hs : v.Sound s) :
    ∃ s' inner, v.Visit folder names s s' inner ∧
      scanNames v.tree v.settings (v.path folder) folder.length s names =
        (s', inner.map fun n => v.path (folder ++ [n])) := by
  induction names generalizing s with
  | nil => exact ⟨s, [], ⟨hs, rfl, .refl s, List.Sublist.refl _, by simp, by simp⟩, rfl⟩
  | cons n names ih =>
    rw [List.forall_mem_cons] at hnames
    have hlook := look_scanName (v := v) hfolder.isName hnames.1 s
    rw [scanNames]
    generalize scanName v.tree v.settings (v.path folder) folder.length s n = result at hlook ⊢
    obtain ⟨s', sub⟩ := result
    obtain ⟨inner, hvisit, hsub⟩ := hlook.visit hfolder hnames.1 hs
    obtain ⟨s'', inside, hrest, hscan⟩ := ih hnames.2 hvisit.sound
    refine ⟨s'', inner ++ inside, hvisit.append hrest, ?_⟩
    dsimp only
    rw [hscan, hsub, List.map_append]

/-! ## 5. Folders -/

/-- A scan on its way: the folders listed so far, and those on the stack. -/
structure Progress (v : Tour) (done stack : List (List String)) (s : ScanState) : Prop where
  sound : v.Sound s
  entered : s.entered = (done.map v.realPath).reverse
  nodup : s.entered.Nodup
  mayEnter : ∀ folder ∈ done ++ stack, v.MayEnter folder
  met : ∀ folder ∈ done, ∀ n ∈ v.listed folder, v.Met s folder n ∨ folder ++ [n] ∈ stack
  root : v.realPath [] ∈ s.entered ∨ [] ∈ stack

theorem progress_start (v : Tour) : v.Progress [] [[]] {} :=
  ⟨v.sound_start, rfl, List.nodup_nil, by simp [mayEnter_nil], by simp, by simp⟩

variable {done stack inside : List (List String)} {s s' : ScanState}

/-- What is on the stack behind a name of a folder is a folder. -/
theorem Progress.isFolder (h : v.Progress done stack s) (hmem : folder ++ [n] ∈ stack) :
    v.IsFolder (folder ++ [n]) := by
  rcases (h.mayEnter _ (List.mem_append_right _ hmem)).reached with hnil | ⟨-, hfolder⟩
  · exact absurd hnil (by simp)
  · exact hfolder

/-- A folder leaves the stack when it has been entered. -/
theorem Progress.pop (h : v.Progress done (folder :: stack) s) (hs : v.Sound s')
    (hentered : s'.entered = s.entered) (hlater : Extends s s')
    (hfolder : v.realPath folder ∈ s.entered) : v.Progress done stack s' where
  sound := hs
  entered := hentered.trans h.entered
  nodup := hentered ▸ h.nodup
  mayEnter := fun f hf => h.mayEnter f (by
    rw [List.mem_append] at hf
    exact List.mem_append.mpr (hf.imp_right (List.mem_cons_of_mem _)))
  met := by
    intro f hf n hn
    rcases h.met f hf n hn with hmet | hmem
    · exact Or.inl (hmet.extends hlater)
    · have hbehind := h.isFolder hmem
      rcases List.mem_cons.mp hmem with heq | hmem
      · exact Or.inl (.entered hbehind (heq ▸ hlater.entered hfolder))
      · exact Or.inr hmem
  root := by
    rcases h.root with hroot | hmem
    · exact Or.inl (hlater.entered hroot)
    · rcases List.mem_cons.mp hmem with heq | hmem
      · exact Or.inl (heq ▸ hlater.entered hfolder)
      · exact Or.inr hmem

/-- A folder is listed, and what it has inside goes on the stack. -/
theorem Progress.enter (h : v.Progress done (folder :: stack) s)
    (hnew : v.realPath folder ∉ s.entered) (hs : v.Sound s')
    (hentered : s'.entered = v.realPath folder :: s.entered) (hlater : Extends s s')
    (hinside : ∀ f ∈ inside, v.MayEnter f)
    (hmet : ∀ n ∈ v.listed folder, v.Met s' folder n ∨ folder ++ [n] ∈ inside) :
    v.Progress (done ++ [folder]) (inside ++ stack) s' where
  sound := hs
  entered := by simp [hentered, h.entered]
  nodup := by
    rw [hentered]
    exact List.nodup_cons.mpr ⟨hnew, h.nodup⟩
  mayEnter := by
    have hbefore := h.mayEnter
    simp only [List.mem_append, List.mem_cons, List.not_mem_nil, or_false] at hbefore ⊢
    rintro f ((hf | hf) | hf | hf)
    · exact hbefore f (Or.inl hf)
    · exact hbefore f (Or.inr (Or.inl hf))
    · exact hinside f hf
    · exact hbefore f (Or.inr (Or.inr hf))
  met := by
    intro f hf n hn
    rw [List.mem_append]
    have hfolder : v.realPath folder ∈ s'.entered := by simp [hentered]
    rcases List.mem_append.mp hf with hf | hf
    · rcases h.met f hf n hn with hmet | hmem
      · exact Or.inl (hmet.extends hlater)
      · have hbehind := h.isFolder hmem
        rcases List.mem_cons.mp hmem with heq | hmem
        · exact Or.inl (.entered hbehind (heq ▸ hfolder))
        · exact Or.inr (Or.inr hmem)
    · obtain rfl := List.mem_singleton.mp hf
      exact (hmet n hn).imp_right Or.inl
  root := by
    rw [List.mem_append]
    have hfolder : v.realPath folder ∈ s'.entered := by simp [hentered]
    rcases h.root with hroot | hmem
    · exact Or.inl (hlater.entered hroot)
    · rcases List.mem_cons.mp hmem with heq | hmem
      · exact Or.inl (heq ▸ hfolder)
      · exact Or.inr (Or.inr hmem)

/-- **A folder that has been entered** is warned of and left. -/
theorem progress_again (h : v.Progress done (folder :: stack) s)
    (hfolder : v.realPath folder ∈ s.entered) :
    ∃ s', scanFolder v.tree v.settings s (v.path folder) folder.length = (s', []) ∧
      s'.entered = s.entered ∧ v.Progress done stack s' := by
  have hcontains : s.entered.contains (v.tree.realPath (v.path folder)) = true :=
    List.contains_iff_mem.mpr hfolder
  refine ⟨s.warn .symlinkCycle ("Directory already visited: " ++ v.path folder) (v.path folder),
    by rw [scanFolder, if_pos hcontains], rfl, ?_⟩
  exact h.pop (h.sound.warn _ _ _) rfl (extends_warn s _ _ _) hfolder

/-- **A folder that has not been entered** is listed once, and no more folders go on
the stack than it has names. -/
theorem progress_enter (h : v.Progress done (folder :: stack) s)
    (hnew : v.realPath folder ∉ s.entered) :
    ∃ (s' : ScanState) (inner : List String),
      scanFolder v.tree v.settings s (v.path folder) folder.length =
        (s', inner.map fun n => v.path (folder ++ [n])) ∧
      s'.entered = v.realPath folder :: s.entered ∧ inner.length ≤ (v.listed folder).length ∧
      v.Progress (done ++ [folder]) (inner.map (folder ++ [·]) ++ stack) s' := by
  have hcontains : ¬ s.entered.contains (v.tree.realPath (v.path folder)) = true :=
    fun hmem => hnew (List.contains_iff_mem.mp hmem)
  have hmay : v.MayEnter folder := h.mayEnter folder (by simp)
  let start : ScanState := { s with entered := v.realPath folder :: s.entered }
  have hstart : v.Sound start := ⟨h.sound.reported, h.sound.nodup, h.sound.admissible⟩
  have hlater : Extends s start :=
    ⟨List.subset_cons_self _ _, List.Subset.refl _, List.Subset.refl _⟩
  rw [scanFolder, if_neg hcontains]
  cases hlist : v.tree.list (v.path folder) with
  | error e =>
    have hnone : v.listed folder = [] := by rw [listed, FileTree.listed, hlist]
    refine ⟨_, [], rfl, rfl, Nat.zero_le _, ?_⟩
    exact h.enter hnew (hstart.warn _ _ _) rfl (hlater.trans (extends_warn start _ _ _))
      (by simp) (by simp [hnone])
  | ok names =>
    have hnames : v.listed folder = names := by rw [listed, FileTree.listed, hlist]
    have hall : ∀ n ∈ v.listed folder, IsName n := fun n =>
      FileTree.isName_of_mem_listed v.wellFormed
    rw [hnames] at hall
    obtain ⟨s', inner, hvisit, hscan⟩ := visit_scanNames hmay hall hstart
    refine ⟨s', inner, hscan, hvisit.entered, hnames ▸ hvisit.sublist.length_le, ?_⟩
    refine h.enter hnew hvisit.sound hvisit.entered (hlater.trans hvisit.later) ?_ ?_
    · simpa using hvisit.mayEnter
    · intro n hn
      refine (hvisit.met n (hnames ▸ hn)).imp_right fun hmem => ?_
      exact List.mem_map_of_mem hmem

end Tour

end PackageAudit.Source
