/-
PackageAudit.Proofs.Installed.BadEntries — entries that are no packages.

An entry is bad when it leads to no folder and to no manifest that can be used
(`IsBad`): a file among the packages, a link that leads nowhere or to itself, a
manifest that is no object. Two searches, one in a tree and one in the tree without
such entries, read the same packages in step (`loadPackage_without` up to
`loadLevels_without`), as long as the names in the folders opened can be followed.

That is needed. One name that cannot be followed, such as that of a link to itself,
ends the whole search in an error (`not_exists_load_of_self_link`), although hidden names and
scopes are spared. The two halves are one statement, `load_without_bad`.
-/
import PackageAudit.Proofs.FileTree.Without
import PackageAudit.Proofs.Installed.Reached

namespace PackageAudit

open PackageAudit.Path (IsName IsPlace Place)
open PackageAudit.FileTree (pathOf TakesNoFolder)

namespace Installed

variable {t : FileTree} {gone : List String → Bool} {place : List String}
  {folder modules parent project : String} {depth maxDepth : Nat} {s s' : Search}

/-! ## 1. Bad entries -/

/-- What stands at a place leads to no folder, and no manifest that can be used is found
where it leads. -/
structure IsBad (t : FileTree) (place : List String) : Prop where
  noFolder : t.isFolder (pathOf place) = false
  noManifest : ∀ folder found, t.find (pathOf place) = .ok found →
    t.find (Path.join folder "package.json") = .ok found → t.manifest? folder = none

/-- A link that leads nowhere, or to itself. -/
theorem isBad_of_find_error {f : FileTree.Fault} (h : t.find (pathOf place) = .error f) :
    IsBad t place where
  noFolder := by rw [FileTree.isFolder, h]
  noManifest folder found hfound := by
    rw [h] at hfound
    cases hfound

/-- A file that holds no object, or a link to one. -/
theorem isBad_of_objectIn? {p : List String} {octets : Text.Octets}
    (h : t.find (pathOf place) = .ok ⟨p, .file octets⟩)
    (hnone : FileTree.objectIn? octets = none) : IsBad t place where
  noFolder := by rw [FileTree.isFolder, h]
  noManifest folder found hfound hmanifest := by
    obtain rfl := Except.ok.inj (h.symm.trans hfound)
    rw [FileTree.manifest?_eq, hmanifest]
    exact hnone

section

variable (ht : t.WellFormed) (hbad : ∀ p, gone p = true → IsBad t p)

include hbad in
theorem takesNoFolder_of_isBad : t.TakesNoFolder gone := fun p hp => (hbad p hp).noFolder

include ht hbad

/-- A manifest says the same without bad entries. -/
theorem manifest?_without (folder : String) :
    (t.without gone).manifest? folder = t.manifest? folder := by
  rw [FileTree.manifest?_eq]
  rcases FileTree.less_find ht (takesNoFolder_of_isBad hbad) (Path.join folder "package.json") with
    hsame | ⟨hnone, hfound⟩
  · rw [hsame, FileTree.manifest?_eq]
    cases t.find (Path.join folder "package.json") with
    | error f => rfl
    | ok found =>
      obtain ⟨p, e⟩ := found
      cases e <;> rfl
  · rw [hnone]
    cases hfind : t.find (Path.join folder "package.json") with
    | error f => rw [FileTree.manifest?_eq, hfind]
    | ok found =>
      obtain ⟨p, hp, hplace⟩ := hfound found hfind
      exact ((hbad p hp).noManifest folder found hplace hfind).symm

theorem canStat_without {path : String} (h : t.CanStat path) : (t.without gone).CanStat path := by
  rw [FileTree.canStat_iff] at h ⊢
  intro f hf
  rcases FileTree.less_find ht (takesNoFolder_of_isBad hbad) path with hsame | ⟨hnone, -⟩
  · rw [hsame] at hf
    cases hfind : t.find path with
    | error f' =>
      rw [hfind] at hf
      cases hf
      exact h f hfind
    | ok found =>
      rw [hfind] at hf
      cases hf
  · rw [hnone] at hf
    cases hf
    rfl

/-- What is listed without bad entries was listed before, and what is no longer listed led to no
folder. -/
theorem listed_without_cases (hpath : IsPlace folder) : ∃ q : String → Bool,
    (t.without gone).listed folder = (t.listed folder).filter q ∧
      ∀ n ∈ t.listed folder, q n = false → t.isFolder (Path.join folder n) = false := by
  by_cases hfolder : t.isFolder folder = true
  · obtain ⟨place, entries, hfind⟩ := FileTree.exists_find_of_isFolder hfolder
    refine ⟨fun n => !gone (place ++ [n]),
      FileTree.listed_without ht (takesNoFolder_of_isBad hbad) hfind, fun n hn hq => ?_⟩
    have hname := FileTree.isName_of_mem_listed ht hn
    exact FileTree.isFolder_join_of_gone ht (takesNoFolder_of_isBad hbad) hpath hfind hname
      (by simpa using hq)
  · rw [Bool.not_eq_true] at hfolder
    refine ⟨fun _ => true, ?_, by simp⟩
    rw [FileTree.listed_eq_nil hfolder, FileTree.listed_eq_nil, List.filter_nil]
    rwa [FileTree.isFolder_without ht (takesNoFolder_of_isBad hbad)]

theorem opens_without (hpath : IsPlace modules) (h : Opens t modules) :
    Opens (t.without gone) modules := by
  intro n hn hvisible hscope
  obtain ⟨q, hlisted, -⟩ := listed_without_cases ht hbad hpath
  rw [hlisted] at hn
  exact canStat_without ht hbad (h n (List.mem_of_mem_filter hn) hvisible hscope)

theorem scopesOpen_without (hpath : IsPlace modules) (h : ScopesOpen t modules) :
    ScopesOpen (t.without gone) modules := by
  intro scope hscope hat n hn hvisible
  obtain ⟨q, hlisted, -⟩ := listed_without_cases ht hbad hpath
  rw [hlisted] at hscope
  have hmem := List.mem_of_mem_filter hscope
  have hplace := hpath.join (FileTree.isName_of_mem_listed ht hmem)
  obtain ⟨q', hinside, -⟩ := listed_without_cases ht hbad hplace
  rw [hinside] at hn
  exact canStat_without ht hbad (h scope hmem hat n (List.mem_of_mem_filter hn) hvisible)

/-! ## 2. The folders of packages -/

theorem foldersAmong_without (folder : String) (names : List String) :
    foldersAmong (t.without gone) folder names = foldersAmong t folder names := by
  rw [foldersAmong, foldersAmong, FileTree.isFolder_without ht (takesNoFolder_of_isBad hbad)]

omit ht hbad in
/-- Names that lead to no folder can be left out. -/
theorem foldersAmong_filter {names : List String} {q : String → Bool}
    (h : ∀ n ∈ names, q n = false → t.isFolder (Path.join folder n) = false) :
    foldersAmong t folder (names.filter q) = foldersAmong t folder names := by
  rw [foldersAmong, foldersAmong, List.filter_map, List.filter_map, List.filter_filter,
    List.filter_filter, List.filter_filter]
  congr 1
  refine List.filter_congr fun n hn => ?_
  by_cases hq : q n = true
  · simp [hq]
  · rw [Bool.not_eq_true] at hq
    simp [hq, h n hn hq]

/-- A name stands for the same packages without bad entries. -/
theorem packagesAt_without (hpath : IsPlace modules) {n : String} (hn : n ∈ t.listed modules) :
    packagesAt (t.without gone) modules n = packagesAt t modules n := by
  have hplace := hpath.join (FileTree.isName_of_mem_listed ht hn)
  obtain ⟨q, hlisted, hnone⟩ := listed_without_cases ht hbad hplace
  rw [packagesAt, packagesAt, foldersAmong_without ht hbad, foldersAmong_without ht hbad, hlisted,
    foldersAmong_filter hnone]

omit ht hbad in
/-- A name that leads to no folder stands for no packages. -/
theorem packagesAt_eq_nil {n : String} (h : t.isFolder (Path.join modules n) = false) :
    packagesAt t modules n = [] := by
  rw [packagesAt, FileTree.listed_eq_nil h]
  split
  · rfl
  · by_cases hhidden : Text.begins "." n = true <;> simp [foldersAmong, hhidden, h]

/-- **The folders of packages** are the same without bad entries. -/
theorem packagesIn_without (hpath : IsPlace modules) :
    packagesIn (t.without gone) modules = packagesIn t modules := by
  obtain ⟨q, hlisted, hnone⟩ := listed_without_cases ht hbad hpath
  have hflat : ∀ names : List String, (∀ n ∈ names, n ∈ t.listed modules) →
      (names.filter q).flatMap (packagesAt (t.without gone) modules) =
        names.flatMap (packagesAt t modules) := by
    intro names hnames
    induction names with
    | nil => rfl
    | cons n names ih =>
      obtain ⟨hn, hrest⟩ := List.forall_mem_cons.mp hnames
      rw [List.flatMap_cons, List.filter_cons, ← ih hrest]
      split
      · rw [List.flatMap_cons, packagesAt_without ht hbad hpath hn]
      · rename_i hq
        rw [packagesAt_eq_nil (hnone n hn (Bool.eq_false_iff.mpr hq)), List.nil_append]
  rw [packagesIn, packagesIn, hlisted]
  exact hflat _ fun _ => id

/-! ## 3. Two searches in step -/

theorem loadPackage_without (parent : String) (depth : Nat) (hrecord : s'.record = s.record)
    (hfolder : t.isFolder folder = true) :
    (loadPackage (t.without gone) parent depth s' folder).1.record =
        (loadPackage t parent depth s folder).1.record ∧
      (loadPackage (t.without gone) parent depth s' folder).2 =
        (loadPackage t parent depth s folder).2 := by
  have hloads := loads_loadPackage t parent depth s folder
  have hloads' := loads_loadPackage (t.without gone) parent depth s' folder
  have hmanifest := manifest?_without ht hbad folder
  have hreal := FileTree.realPath_without ht (takesNoFolder_of_isBad hbad) hfolder
  have hnested := FileTree.isFolder_without ht (takesNoFolder_of_isBad hbad)
  have hknown := Search.known_eq hrecord
  have hpackages := Search.packages_eq hrecord
  generalize loadPackage t parent depth s folder = r at hloads ⊢
  generalize loadPackage (t.without gone) parent depth s' folder = r' at hloads' ⊢
  cases hloads with
  | passedOver hold hsame =>
    cases hloads' with
    | passedOver _ hsame' => exact ⟨hsame'.trans (hrecord.trans hsame.symm), rfl⟩
    | recorded hm hnew =>
      rw [hmanifest] at hm
      rw [hreal, hknown] at hnew
      exact absurd (hold _ hm) hnew
  | recorded hm hnew hsame =>
    cases hloads' with
    | passedOver hold _ =>
      rw [← hknown, ← hreal] at hnew
      exact absurd (hold _ (hmanifest.trans hm)) hnew
    | recorded hm' _ hsame' =>
      obtain rfl := Option.some.inj (hm.symm.trans (hmanifest.symm.trans hm'))
      rw [hsame, hsame', hreal, hknown, hpackages, hnested]
      exact ⟨rfl, rfl⟩

omit ht hbad in
/-- The own `node_modules` of packages stand in their folders. -/
theorem exists_of_mem_nested {packages : List String}
    (h : modules ∈ (loadPackages t parent depth s packages).2) :
    ∃ folder ∈ packages, modules = Path.join folder "node_modules" := by
  induction packages generalizing s with
  | nil => cases h
  | cons folder packages ih =>
    have hloads := loads_loadPackage t parent depth s folder
    rw [loadPackages] at h
    generalize loadPackage t parent depth s folder = r at hloads h
    rcases List.mem_append.mp h with hown | hmore
    · refine ⟨folder, List.mem_cons_self, ?_⟩
      cases hloads with
      | passedOver => cases hown
      | recorded =>
        rw [Option.mem_toList, Option.filter_eq_some_iff, Option.some.injEq] at hown
        exact hown.1.symm
    · obtain ⟨other, hmem, heq⟩ := ih hmore
      exact ⟨other, List.mem_cons_of_mem _ hmem, heq⟩

theorem loadPackages_without (parent : String) (depth : Nat) {packages : List String}
    (hrecord : s'.record = s.record)
    (hfolders : ∀ folder ∈ packages, t.isFolder folder = true) :
    (loadPackages (t.without gone) parent depth s' packages).1.record =
        (loadPackages t parent depth s packages).1.record ∧
      (loadPackages (t.without gone) parent depth s' packages).2 =
        (loadPackages t parent depth s packages).2 := by
  induction packages generalizing s s' with
  | nil => exact ⟨hrecord, rfl⟩
  | cons folder packages ih =>
    obtain ⟨hfirst, hrest⟩ := List.forall_mem_cons.mp hfolders
    obtain ⟨hsame, hown⟩ := loadPackage_without ht hbad parent depth hrecord hfirst
    obtain ⟨hend, hmore⟩ := ih hsame hrest
    rw [loadPackages, loadPackages]
    exact ⟨hend, congrArg₂ (fun own more => own.toList ++ more) hown hmore⟩

/-- **A level** read in both trees. -/
theorem loadLevel_without (depth : Nat) {folders : List String} (hrecord : s'.record = s.record)
    (hplaces : ∀ modules ∈ folders, IsPlace modules)
    (hopens : ∀ modules ∈ folders, Opens t modules ∧ ScopesOpen t modules) :
    ∃ s₁ s₁' nested, loadLevel t depth s folders = .ok (s₁, nested) ∧
      loadLevel (t.without gone) depth s' folders = .ok (s₁', nested) ∧
      s₁'.record = s₁.record ∧ ∀ modules ∈ nested, IsPlace modules := by
  induction folders generalizing s s' with
  | nil => exact ⟨s, s', [], rfl, rfl, hrecord, by simp⟩
  | cons modules folders ih =>
    obtain ⟨hplace, hplaces⟩ := List.forall_mem_cons.mp hplaces
    obtain ⟨⟨hopen, hscopes⟩, hopens⟩ := List.forall_mem_cons.mp hopens
    obtain ⟨⟨s₁, packages⟩, hpackages⟩ := (exists_packageFolders_iff (s := s)).mpr hopen
    obtain ⟨⟨s₁', packages'⟩, hpackages'⟩ :=
      (exists_packageFolders_iff (s := s')).mpr (opens_without ht hbad hplace hopen)
    obtain ⟨hsame, hfound⟩ := packageFolders_eq_ok hpackages
    obtain ⟨hsame', hfound'⟩ := packageFolders_eq_ok hpackages'
    obtain rfl := hfound hscopes
    obtain rfl : packages' = packagesIn t modules :=
      (hfound' (scopesOpen_without ht hbad hplace hscopes)).trans
        (packagesIn_without ht hbad hplace)
    have hinside : ∀ folder ∈ packagesIn t modules, IsPlace folder ∧ t.isFolder folder = true := by
      intro folder hmem
      obtain ⟨parts, hleads, rfl⟩ := mem_packagesIn_iff.mp hmem
      exact ⟨isPlace_folderOf ht hplace hleads, hleads.isFolder⟩
    have hstart : s₁'.record = s₁.record := hsame'.trans (hrecord.trans hsame.symm)
    obtain ⟨hmore, hnested⟩ := loadPackages_without ht hbad modules depth hstart
      fun folder hmem => (hinside folder hmem).2
    obtain ⟨s₂, s₂', nested, hload, hload', hend, hin⟩ := ih hmore hplaces hopens
    refine ⟨s₂, s₂', (loadPackages t modules depth s₁ (packagesIn t modules)).2 ++ nested,
      ?_, ?_, hend, ?_⟩
    · rw [loadLevel, hpackages]
      simp only [bind, Except.bind, hload]
      rfl
    · rw [loadLevel, hpackages']
      simp only [bind, Except.bind, hload', hnested]
      rfl
    · intro inner hinner
      rcases List.mem_append.mp hinner with hinner | hinner
      · obtain ⟨folder, hmem, rfl⟩ := exists_of_mem_nested hinner
        exact (hinside folder hmem).1.join (by decide)
      · exact hin inner hinner

/-- A run through the levels of both trees. -/
theorem loadLevels_without {below : Nat} {folders : List String} (hrecord : s'.record = s.record)
    (hplaces : ∀ modules ∈ folders, IsPlace modules)
    (hopens : ∀ modules ∈ opened t below depth s folders, Opens t modules ∧ ScopesOpen t modules) :
    ∃ s₁ s₁', loadLevels t below depth s folders = .ok s₁ ∧
      loadLevels (t.without gone) below depth s' folders = .ok s₁' ∧ s₁'.record = s₁.record := by
  induction below generalizing depth s s' folders with
  | zero =>
    obtain ⟨s₁, s₁', nested, hload, hload', hend, -⟩ :=
      loadLevel_without ht hbad depth hrecord hplaces hopens
    exact ⟨s₁, s₁', by rw [loadLevels_zero, hload]; rfl, by rw [loadLevels_zero, hload']; rfl, hend⟩
  | succ below ih =>
    rw [opened, List.forall_mem_append] at hopens
    obtain ⟨s₁, s₁', nested, hload, hload', hsame, hin⟩ :=
      loadLevel_without ht hbad depth hrecord hplaces hopens.1
    rw [hload] at hopens
    obtain ⟨s₂, s₂', hrest, hrest', hend⟩ := ih hsame hin hopens.2
    refine ⟨s₂, s₂', ?_, ?_, hend⟩
    · rw [loadLevels_succ, hload]
      exact hrest
    · rw [loadLevels_succ, hload']
      exact hrest'

end

/-! ## 4. The search of a project -/

/-- **Bad entries.** A search gives packages exactly when each name in each folder
`node_modules` that it opens can be followed, hidden names and scopes aside. When the
names in the scopes can be followed too, the packages are those that are found without the bad
entries of the tree. -/
theorem load_without_bad (ht : t.WellFormed) (project : String) (maxDepth : Nat)
    (hbad : ∀ p, gone p = true → IsBad t p) :
    ((∃ r, load t project maxDepth = .ok r) ↔
      ∀ modules ∈ openedIn t project maxDepth, Opens t modules) ∧
    ((∀ modules ∈ openedIn t project maxDepth, Opens t modules ∧ ScopesOpen t modules) →
      ∃ r r', load t project maxDepth = .ok r ∧
        load (t.without gone) project maxDepth = .ok r' ∧ r'.packages = r.packages) := by
  refine ⟨exists_load_iff, fun hopens => ?_⟩
  have hsame := FileTree.isFolder_without ht (takesNoFolder_of_isBad hbad)
  rw [openedIn] at hopens
  by_cases htop : t.isFolder (topOf project) = true
  · rw [if_pos htop] at hopens
    have htop' : (t.without gone).isFolder (topOf project) = true := by rwa [hsame]
    have hplaces : ∀ modules ∈ [topOf project], IsPlace modules := by
      rw [List.forall_mem_singleton]
      exact (Route.top (t := t)).isPlace ht
    have hstart : (start project).record = (start project).record := rfl
    obtain ⟨s, s', hload, hload', hrecord⟩ := loadLevels_without ht hbad hstart hplaces hopens
    refine ⟨s.registry, s'.registry, ?_, ?_, Search.packages_eq hrecord⟩
    · rw [load_eq_of_isFolder maxDepth htop, hload]
      rfl
    · rw [load_eq_of_isFolder maxDepth htop', hload']
      rfl
  · have htop' : ¬ (t.without gone).isFolder (topOf project) = true := by rwa [hsame]
    exact ⟨_, _, load_eq_of_not_isFolder maxDepth htop, load_eq_of_not_isFolder maxDepth htop', rfl⟩

/-- A project with an installed package, and entries of three kinds that are none: a link
that leads nowhere, a file, and a folder with an empty manifest. -/
def brokenPackages : FileTree := ⟨.folder [("p", .folder [("node_modules", .folder [
  ("a", .folder [("package.json", .file [123, 125])]),
  ("b", .link "/nowhere"),
  ("c", .file []),
  ("d", .folder [("package.json", .file [])])])])]⟩

/-- Where they stand. -/
def brokenPlaces : List (List String) :=
  [["p", "node_modules", "b"], ["p", "node_modules", "c"],
    ["p", "node_modules", "d", "package.json"]]

theorem wellFormed_brokenPackages : brokenPackages.WellFormed := by
  refine ⟨⟨_, rfl⟩, ?_⟩
  simp [brokenPackages, Table.Distinct, Table.keys]
  decide

/-- The link leads nowhere. -/
theorem find_brokenPackages : brokenPackages.find "/p/node_modules/b" = .error .notFound := by
  let q : Place := ⟨1, ["p", "node_modules", "b"], Or.inl rfl, by decide⟩
  have hpath : "/p/node_modules/b" = q.path := by decide
  have hparts : Path.components "/nowhere" = ["", "nowhere"] := by decide
  have habsolute : Path.isAbsolute "/nowhere" = true := by decide
  have hlink := FileTree.follow_link wellFormed_brokenPackages ["p", "node_modules"] "b" "/nowhere"
    rfl (by decide) rfl (by decide) 40 []
  rw [habsolute, hparts] at hlink
  rw [hpath, FileTree.find_place wellFormed_brokenPackages]
  exact hlink

theorem isBad_brokenPlaces (p : List String) (h : brokenPlaces.contains p = true) :
    IsBad brokenPackages p := by
  have hempty : FileTree.objectIn? [] = none := by
    have hdecode : Text.Utf8.decode [] = .ok "" := rfl
    have hparse : ∃ e, Json.parse "" = .error e := ⟨_, rfl⟩
    have htext : String.ofList (Text.unifyLineEnds "".toList) = "" := rfl
    obtain ⟨e, he⟩ := hparse
    simp only [FileTree.objectIn?, hdecode, htext, he]
  rw [List.contains_iff_mem] at h
  simp only [brokenPlaces, List.mem_cons, List.not_mem_nil, or_false] at h
  rcases h with rfl | rfl | rfl
  · have hpath : pathOf ["p", "node_modules", "b"] = "/p/node_modules/b" := by decide
    exact isBad_of_find_error (hpath ▸ find_brokenPackages)
  · exact isBad_of_objectIn? (p := ["p", "node_modules", "c"]) rfl hempty
  · exact isBad_of_objectIn? (p := ["p", "node_modules", "d", "package.json"]) rfl hempty

/-- Bad entries among packages are passed over. -/
theorem load_without_bad_brokenPackages : brokenPackages.WellFormed ∧
    (∀ p, brokenPlaces.contains p = true → IsBad brokenPackages p) ∧
    ∃ r r', load brokenPackages "/p" 0 = .ok r ∧
      load (brokenPackages.without brokenPlaces.contains) "/p" 0 = .ok r' ∧
      r'.packages = r.packages := by
  refine ⟨wellFormed_brokenPackages, isBad_brokenPlaces, ?_⟩
  refine (load_without_bad wellFormed_brokenPackages "/p" 0 isBad_brokenPlaces).2 ?_
  have htop : topOf "/p" = "/p/node_modules" := by decide
  have hlisted : brokenPackages.listed "/p/node_modules" = ["a", "b", "c", "d"] :=
    List.mergeSort_of_pairwise (by decide)
  have hopened : openedIn brokenPackages "/p" 0 = ["/p/node_modules"] := by
    rw [openedIn, htop]
    rfl
  rw [hopened, List.forall_mem_singleton]
  constructor
  · have hb : brokenPackages.CanStat "/p/node_modules/b" :=
      FileTree.canStat_iff.mpr (by simp [find_brokenPackages])
    have hall : ∀ n ∈ ["a", "b", "c", "d"],
        brokenPackages.CanStat (Path.join "/p/node_modules" n) := by
      simp only [List.forall_mem_cons, List.not_mem_nil, false_imp_iff, implies_true, and_true]
      exact ⟨⟨_, rfl⟩, hb, ⟨_, rfl⟩, ⟨_, rfl⟩⟩
    rw [Opens, hlisted]
    exact fun n hn _ _ => hall n hn
  · have hnone : ∀ n ∈ ["a", "b", "c", "d"], Text.begins "@" n = false := by decide
    rw [ScopesOpen, hlisted]
    intro n hn hat
    rw [hnone n hn] at hat
    cases hat

/-! ## 5. A link to itself -/

/-- **A link to itself** among the packages of a project ends the search in an error, at
whatever depth that is to end. -/
theorem not_exists_load_of_self_link (ht : t.WellFormed) {entries : List (String × Entry)}
    {n : String} (hfind : t.find (topOf project) = .ok ⟨place, .folder entries⟩)
    (hlink : Table.get? entries n = some (.link n)) (hvisible : Text.begins "." n = false)
    (hunscoped : Text.begins "@" n = false) (maxDepth : Nat) :
    ¬ ∃ r, load t project maxDepth = .ok r := by
  have hkey : n ∈ Table.keys entries := List.mem_map_of_mem (Table.mem_of_get? hlink)
  have hn : n ∈ t.listed (topOf project) := FileTree.mem_listed_iff.mpr ⟨_, _, hfind, hkey⟩
  have hname := FileTree.isName_of_mem_listed ht hn
  have hopened : topOf project ∈ openedIn t project maxDepth := by
    have hfolder : t.isFolder (topOf project) = true := by rw [FileTree.isFolder, hfind]
    rw [openedIn, if_pos hfolder]
    cases maxDepth with
    | zero => exact List.mem_cons_self
    | succ below => exact List.mem_append_left _ List.mem_cons_self
  have hlost := FileTree.find_self_link ht ((Route.top (t := t)).isPlace ht) hfind hname hlink
  rw [exists_load_iff]
  intro hopens
  exact (hopens _ hopened n hn hvisible hunscoped).links hlost

/-- A project with an installed package, and a link to itself beside it. -/
def selfLinked : FileTree := ⟨.folder [("p", .folder [("node_modules", .folder [
  ("bad", .link "bad"),
  ("good", .folder [("package.json", .file [123, 125])])])])]⟩

/-- The link is a bad entry, and the search gives no packages. -/
theorem load_selfLinked : selfLinked.WellFormed ∧
    IsBad selfLinked ["p", "node_modules", "bad"] ∧
    ¬ ∃ r, load selfLinked "/p" 5 = .ok r := by
  have hwell : selfLinked.WellFormed := by
    refine ⟨⟨_, rfl⟩, ?_⟩
    simp [selfLinked, Table.Distinct, Table.keys]
    decide
  have htop : topOf "/p" = "/p/node_modules" := by decide
  have hfind : ∃ entries, selfLinked.find (topOf "/p") =
      .ok ⟨["p", "node_modules"], .folder entries⟩ ∧
        Table.get? entries "bad" = some (.link "bad") := by
    rw [htop]
    exact ⟨_, rfl, rfl⟩
  obtain ⟨entries, hfind, hlink⟩ := hfind
  have hpath : Path.join (topOf "/p") "bad" = pathOf ["p", "node_modules", "bad"] := by
    rw [htop]
    decide
  have hlost := FileTree.find_self_link hwell ((Route.top (t := selfLinked)).isPlace hwell) hfind
    (by decide) hlink
  rw [hpath] at hlost
  exact ⟨hwell, isBad_of_find_error hlost,
    not_exists_load_of_self_link hwell hfind hlink (by decide) (by decide) 5⟩

end Installed

end PackageAudit
