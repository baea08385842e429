/-
PackageAudit.Proofs.Installed.Walk — the steps of the search for packages.

Each function of the search gets a lemma that says what comes of it. Warnings
aside, a search is what it has recorded (`Search.record`), and a package is
recorded where a manifest can be used and the package is not known (`Loads`).
The folders of packages are a list of the tree alone (`packagesIn`), as long as
the names in a folder `node_modules` and in its scopes can be followed.

The search ends in an error for one reason only: a name in a folder
`node_modules` that it opens, hidden names and scopes aside, cannot be followed
(`exists_load_iff`).
-/
import PackageAudit.Installed.Load
import PackageAudit.Proofs.Collection
import PackageAudit.Proofs.FileTree.Links
import PackageAudit.Proofs.Text.Cut

namespace PackageAudit

/-! ## 1. Names that can be followed -/

namespace FileTree

variable {t : FileTree} {path folder : String}

/-- A path can be followed; what it leads to may be missing. -/
def CanStat (t : FileTree) (path : String) : Prop := ∃ found, t.kind? path = .ok found

theorem canStat_iff : t.CanStat path ↔ ∀ f, t.find path = .error f → f = .notFound := by
  rw [CanStat, kind?]
  cases t.find path with
  | ok found => simp
  | error f => cases f <;> simp

theorem leadsToFolder_of_canStat (h : t.CanStat path) :
    t.leadsToFolder path = .ok (t.isFolder path) := by
  rw [canStat_iff] at h
  rw [leadsToFolder, kind?, isFolder]
  cases hfind : t.find path with
  | ok found =>
    obtain ⟨place, e⟩ := found
    cases e <;> rfl
  | error f =>
    obtain rfl := h f hfind
    rfl

theorem exists_leadsToFolder_iff : (∃ b, t.leadsToFolder path = .ok b) ↔ t.CanStat path := by
  rw [leadsToFolder, CanStat]
  cases t.kind? path <;> simp [Except.map]

/-- What the manifest in a folder says, if it can be used. -/
def manifest? (t : FileTree) (folder : String) : Option (Table Json) :=
  match t.readJson (Path.join folder "package.json") with
  | .ok (.obj m) => some m
  | _ => none

/-- The object that the octets of a file stand for. -/
def objectIn? (octets : Text.Octets) : Option (Table Json) :=
  match Text.Utf8.decode octets with
  | .error _ => none
  | .ok s =>
    match Json.parse (String.ofList (Text.unifyLineEnds s.toList)) with
    | .ok (.obj m) => some m
    | _ => none

/-- A manifest is an object in a file. -/
theorem manifest?_eq : t.manifest? folder =
    match t.find (Path.join folder "package.json") with
    | .ok ⟨_, .file octets⟩ => objectIn? octets
    | _ => none := by
  rw [manifest?, readJson, readWith, readText, read]
  cases t.find (Path.join folder "package.json") with
  | error f => rfl
  | ok found =>
    obtain ⟨place, e⟩ := found
    cases e with
    | file octets =>
      simp only [objectIn?]
      cases Text.Utf8.decode octets with
      | error e => rfl
      | ok s =>
        dsimp only
        cases Json.parse (String.ofList (Text.unifyLineEnds s.toList)) with
        | error e => rfl
        | ok document => cases document <;> rfl
    | _ => rfl

end FileTree

namespace Installed

variable {t : FileTree} {s s' : Search} {folder modules parent : String} {names : List String}

/-! ## 2. What is recorded -/

/-- What a search has recorded: the packages, and their names and real paths. -/
def Search.record (s : Search) : List InstalledPackage × List (String × String) :=
  (s.registry.packages, s.known)

theorem Search.known_eq (h : s'.record = s.record) : s'.known = s.known :=
  congrArg Prod.snd h

theorem Search.packages_eq (h : s'.record = s.record) :
    s'.registry.packages = s.registry.packages :=
  congrArg Prod.fst h

/-- The name that a manifest gives to the package in a folder. -/
def nameIn (m : Table Json) (folder parent : String) : String :=
  ((m.get? "name").bind Json.string?).getD (Path.relative folder parent)

/-- What may come of a folder of a package: the new search, and the folder of its own
packages. -/
inductive Loads (t : FileTree) (parent : String) (depth : Nat) (s : Search) (folder : String) :
    Search × Option String → Prop where
  | passedOver {s' : Search}
      (h : ∀ m, t.manifest? folder = some m → (nameIn m folder parent, t.realPath folder) ∈ s.known)
      (hrecord : s'.record = s.record) : Loads t parent depth s folder (s', none)
  | recorded {s' : Search} {m : Table Json} (hmanifest : t.manifest? folder = some m)
      (hnew : (nameIn m folder parent, t.realPath folder) ∉ s.known)
      (hrecord : s'.record =
        (s.registry.packages ++ [ofManifest m (nameIn m folder parent) folder depth],
          (nameIn m folder parent, t.realPath folder) :: s.known)) :
      Loads t parent depth s folder
        (s', (some (Path.join folder "node_modules")).filter t.isFolder)

theorem record_readPackage (t : FileTree) (s : Search) (folder : String) :
    (readPackage t s folder).1.record = s.record := by
  rw [readPackage]
  split
  · split <;> rfl
  · rfl

theorem readPackage_snd (t : FileTree) (s : Search) (folder : String) :
    (readPackage t s folder).2 = t.manifest? folder := by
  rw [readPackage, FileTree.manifest?]
  split
  · cases t.readJson (Path.join folder "package.json") with
    | error e => rfl
    | ok document => cases document <;> rfl
  · rename_i hfile
    cases hread : t.readJson (Path.join folder "package.json") with
    | error e => rfl
    | ok document => exact absurd (FileTree.isFile_of_readWith hread) hfile

/-- **One folder of a package.** -/
theorem loads_loadPackage (t : FileTree) (parent : String) (depth : Nat) (s : Search)
    (folder : String) : Loads t parent depth s folder (loadPackage t parent depth s folder) := by
  have hrecord := record_readPackage t s folder
  have hmanifest := readPackage_snd t s folder
  rw [loadPackage]
  generalize readPackage t s folder = r at hrecord hmanifest ⊢
  obtain ⟨s₁, found⟩ := r
  dsimp only at hrecord hmanifest ⊢
  have hknown : s₁.known = s.known := Search.known_eq hrecord
  cases found with
  | none => exact .passedOver (by simp [← hmanifest]) hrecord
  | some m =>
    dsimp only
    split
    · rename_i hcontains
      refine .passedOver (fun m' hm' => ?_) hrecord
      rw [← hmanifest, Option.some.injEq] at hm'
      rw [← hm', ← hknown]
      exact List.contains_iff_mem.mp hcontains
    · rename_i hcontains
      have hnew : (nameIn m folder parent, t.realPath folder) ∉ s.known := by
        rw [← hknown]
        exact fun hmem => hcontains (List.contains_iff_mem.mpr hmem)
      have hnested : (if t.isFolder (Path.join folder "node_modules") = true
          then some (Path.join folder "node_modules") else none) =
          (some (Path.join folder "node_modules")).filter t.isFolder := by
        rw [Option.filter_some]
      rw [hnested]
      refine .recorded hmanifest.symm hnew ?_
      rw [← hknown, ← Search.packages_eq hrecord]
      rfl

/-! ## 3. The folders of packages -/

/-- The folders among names of a folder, hidden ones left out. -/
def foldersAmong (t : FileTree) (folder : String) (names : List String) : List String :=
  ((names.filter fun n => !Text.begins "." n).map (Path.join folder)).filter t.isFolder

/-- The folders of packages that a name in `node_modules` stands for. -/
def packagesAt (t : FileTree) (modules name : String) : List String :=
  if Text.begins "@" name then
    foldersAmong t (Path.join modules name) (t.listed (Path.join modules name))
  else foldersAmong t modules [name]

/-- The folders of packages in `node_modules`. -/
def packagesIn (t : FileTree) (modules : String) : List String :=
  (t.listed modules).flatMap (packagesAt t modules)

/-- The names of a folder can be followed, hidden ones aside. -/
def VisibleFollowed (t : FileTree) (folder : String) (names : List String) : Prop :=
  ∀ n ∈ names, Text.begins "." n = false → t.CanStat (Path.join folder n)

/-- The names in a folder `node_modules` can be followed, hidden ones and scopes aside. -/
def Opens (t : FileTree) (modules : String) : Prop :=
  ∀ n ∈ t.listed modules, Text.begins "." n = false → Text.begins "@" n = false →
    t.CanStat (Path.join modules n)

/-- The names in the scopes of a folder `node_modules` can be followed, hidden ones aside. -/
def ScopesOpen (t : FileTree) (modules : String) : Prop :=
  ∀ scope ∈ t.listed modules, Text.begins "@" scope = true →
    VisibleFollowed t (Path.join modules scope) (t.listed (Path.join modules scope))

theorem foldersUpTo_eq (h : VisibleFollowed t folder names) :
    foldersUpTo t folder names = (foldersAmong t folder names, none) := by
  induction names with
  | nil => rfl
  | cons n names ih =>
    obtain ⟨hfirst, hrest⟩ := List.forall_mem_cons.mp h
    rw [foldersUpTo, ih hrest]
    by_cases hhidden : Text.begins "." n = true
    · rw [if_pos hhidden]
      simp [foldersAmong, hhidden]
    · rw [Bool.not_eq_true] at hhidden
      simp only [hhidden, Bool.false_eq_true, if_false,
        FileTree.leadsToFolder_of_canStat (hfirst hhidden)]
      simp [foldersAmong, hhidden, List.filter_cons]

theorem record_scopeFolders : (scopeFolders t s folder).1.record = s.record := by
  rw [scopeFolders]
  split
  · rfl
  · split <;> rfl

theorem scopeFolders_snd (h : VisibleFollowed t folder (t.listed folder)) :
    (scopeFolders t s folder).2 = foldersAmong t folder (t.listed folder) := by
  rw [FileTree.listed] at h ⊢
  rw [scopeFolders]
  cases hlist : t.list folder with
  | error e => rfl
  | ok names =>
    rw [hlist] at h
    simp only [foldersUpTo_eq h]

/-- A scope is not hidden. -/
theorem begins_dot_of_scope {name : String} (h : Text.begins "@" name = true) :
    Text.begins "." name = false := by
  by_contra hdot
  rw [Bool.not_eq_false] at hdot
  obtain ⟨rest, hrest⟩ := Text.begins_iff.mp h
  obtain ⟨rest', hrest'⟩ := Text.begins_iff.mp hdot
  rw [Text.after?_eq_some_iff] at hrest hrest'
  rw [hrest] at hrest'
  cases hrest'

/-- The names in `node_modules` give folders of packages exactly when those that are no
scopes can be followed. -/
theorem exists_packageFoldersOf_iff : (∃ r, packageFoldersOf t modules s names = .ok r) ↔
    ∀ n ∈ names, Text.begins "." n = false → Text.begins "@" n = false →
      t.CanStat (Path.join modules n) := by
  induction names generalizing s with
  | nil => simp [packageFoldersOf]
  | cons n names ih =>
    rw [List.forall_mem_cons, packageFoldersOf]
    by_cases hhidden : Text.begins "." n = true
    · simp [hhidden, ih]
    · rw [Bool.not_eq_true] at hhidden
      by_cases hscope : Text.begins "@" n = true
      · simp only [hhidden, hscope, Bool.false_eq_true, if_false, if_true, bind_eq_ok_iff]
        rw [← ih (s := (scopeFolders t s (Path.join modules n)).1)]
        constructor
        · rintro ⟨r, r', h, -⟩
          exact ⟨by simp, r', h⟩
        · rintro ⟨-, r', h⟩
          exact ⟨_, r', h, rfl⟩
      · rw [Bool.not_eq_true] at hscope
        simp only [hhidden, hscope, Bool.false_eq_true, if_false, bind_eq_ok_iff, forall_const]
        rw [← ih (s := s), ← FileTree.exists_leadsToFolder_iff]
        constructor
        · rintro ⟨r, found, hfound, r', h, -⟩
          exact ⟨⟨found, hfound⟩, r', h⟩
        · rintro ⟨⟨found, hfound⟩, r', h⟩
          exact ⟨_, found, hfound, r', h, rfl⟩

/-- The folders found are those of the tree, unless a name in a scope cannot be
followed. -/
theorem packageFoldersOf_eq_ok {folders : List String}
    (h : packageFoldersOf t modules s names = .ok (s', folders)) : s'.record = s.record ∧
      ((∀ scope ∈ names, Text.begins "@" scope = true → VisibleFollowed t
        (Path.join modules scope) (t.listed (Path.join modules scope))) →
        folders = names.flatMap (packagesAt t modules)) := by
  induction names generalizing s s' folders with
  | nil =>
    cases h
    exact ⟨rfl, fun _ => rfl⟩
  | cons n names ih =>
    rw [packageFoldersOf] at h
    rw [List.forall_mem_cons, List.flatMap_cons]
    by_cases hhidden : Text.begins "." n = true
    · simp only [hhidden, if_true] at h
      have hscope : ¬ Text.begins "@" n = true := fun hscope => by
        simp [begins_dot_of_scope hscope] at hhidden
      refine ⟨(ih h).1, fun ⟨_, hopen⟩ => ?_⟩
      rw [(ih h).2 hopen, packagesAt, if_neg hscope]
      simp [foldersAmong, hhidden]
    · rw [Bool.not_eq_true] at hhidden
      by_cases hscope : Text.begins "@" n = true
      · simp only [hhidden, hscope, Bool.false_eq_true, if_false, if_true, bind_eq_ok_iff] at h
        obtain ⟨⟨s₁, rest⟩, hrest, h⟩ := h
        cases h
        refine ⟨(ih hrest).1.trans record_scopeFolders, fun ⟨hinside, hopen⟩ => ?_⟩
        rw [(ih hrest).2 hopen, scopeFolders_snd (hinside hscope), packagesAt, if_pos hscope]
      · simp only [hhidden, hscope, Bool.false_eq_true, if_false, bind_eq_ok_iff] at h
        obtain ⟨found, hfound, ⟨s₁, rest⟩, hrest, h⟩ := h
        cases h
        refine ⟨(ih hrest).1, fun ⟨_, hopen⟩ => ?_⟩
        have hstat := FileTree.exists_leadsToFolder_iff.mp ⟨found, hfound⟩
        rw [FileTree.leadsToFolder_of_canStat hstat, Except.ok.injEq] at hfound
        rw [(ih hrest).2 hopen, packagesAt, if_neg hscope, ← hfound]
        by_cases hfolder : t.isFolder (Path.join modules n) = true <;>
          simp [foldersAmong, hhidden, hfolder]

theorem exists_packageFolders_iff :
    (∃ r, packageFolders t s modules = .ok r) ↔ Opens t modules := by
  rw [packageFolders, Opens, FileTree.listed]
  cases t.list modules with
  | error e => simp
  | ok names => exact exists_packageFoldersOf_iff

theorem packageFolders_eq_ok {folders : List String}
    (h : packageFolders t s modules = .ok (s', folders)) :
    s'.record = s.record ∧ (ScopesOpen t modules → folders = packagesIn t modules) := by
  rw [packageFolders] at h
  rw [ScopesOpen, packagesIn, FileTree.listed]
  cases hlist : t.list modules with
  | error e =>
    rw [hlist] at h
    cases h
    exact ⟨rfl, fun _ => rfl⟩
  | ok names =>
    rw [hlist] at h
    exact packageFoldersOf_eq_ok h

/-! ## 4. Levels -/

variable {depth : Nat} {folders : List String}

/-- A level can be read exactly when each of its folders can. -/
theorem exists_loadLevel_iff (t : FileTree) (depth : Nat) (s : Search) (folders : List String) :
    (∃ r, loadLevel t depth s folders = .ok r) ↔ ∀ modules ∈ folders, Opens t modules := by
  induction folders generalizing s with
  | nil => simp [loadLevel]
  | cons modules folders ih =>
    rw [List.forall_mem_cons, loadLevel, ← exists_packageFolders_iff (s := s)]
    simp only [bind_eq_ok_iff]
    constructor
    · rintro ⟨r, packages, hpackages, more, hmore, -⟩
      exact ⟨⟨packages, hpackages⟩, (ih _).mp ⟨more, hmore⟩⟩
    · rintro ⟨⟨packages, hpackages⟩, hrest⟩
      obtain ⟨more, hmore⟩ := (ih _).mpr hrest
      exact ⟨_, packages, hpackages, more, hmore, rfl⟩

/-- No folders are a level like others. -/
theorem loadLevels_zero (depth : Nat) (s : Search) (folders : List String) :
    loadLevels t 0 depth s folders = (loadLevel t depth s folders).map (·.1) := by
  cases folders <;> rfl

theorem loadLevels_succ (below depth : Nat) (s : Search) (folders : List String) :
    loadLevels t (below + 1) depth s folders =
      loadLevel t depth s folders >>= fun r => loadLevels t below (depth + 1) r.1 r.2 := by
  cases folders with
  | nil =>
    rw [loadLevels, loadLevel]
    change _ = loadLevels t below (depth + 1) s []
    rw [loadLevels]
  | cons modules folders =>
    rw [loadLevels]
    exact List.cons_ne_nil modules folders

/-- The folders `node_modules` that a search opens on its way through the levels. -/
def opened (t : FileTree) : Nat → Nat → Search → List String → List String
  | 0, _, _, folders => folders
  | below + 1, depth, s, folders => folders ++
    match loadLevel t depth s folders with
    | .ok (s', nested) => opened t below (depth + 1) s' nested
    | .error _ => []

theorem exists_loadLevels_iff {below : Nat} : (∃ s', loadLevels t below depth s folders = .ok s') ↔
    ∀ modules ∈ opened t below depth s folders, Opens t modules := by
  induction below generalizing depth s folders with
  | zero =>
    rw [loadLevels_zero, opened, ← exists_loadLevel_iff t depth s]
    cases loadLevel t depth s folders <;> simp [Except.map]
  | succ below ih =>
    rw [loadLevels_succ, opened, List.forall_mem_append,
      ← exists_loadLevel_iff t depth s]
    cases hlevel : loadLevel t depth s folders with
    | error e => simp [bind, Except.bind]
    | ok r =>
      rw [← ih]
      simp [bind, Except.bind]

/-! ## 5. The search of a project -/

/-- The folder `node_modules` of a project. -/
def topOf (project : String) : String := Path.join (Path.absolute "/" project) "node_modules"

/-- The search of a project at its start. -/
def start (project : String) : Search :=
  { registry := { root := Path.absolute "/" project, present := true } }

/-- The folders `node_modules` that the search of a project opens. -/
def openedIn (t : FileTree) (project : String) (maxDepth : Nat) : List String :=
  if t.isFolder (topOf project) then opened t maxDepth 0 (start project) [topOf project] else []

theorem load_eq_of_isFolder {project : String} (maxDepth : Nat)
    (h : t.isFolder (topOf project) = true) : load t project maxDepth =
      (loadLevels t maxDepth 0 (start project) [topOf project]).map Search.registry := by
  rw [topOf] at h
  rw [load]
  simp only [h, if_true]
  rfl

theorem load_eq_of_not_isFolder {project : String} (maxDepth : Nat)
    (h : ¬ t.isFolder (topOf project) = true) :
    load t project maxDepth = .ok { root := Path.absolute "/" project } := by
  rw [topOf] at h
  rw [load]
  simp only [if_neg h]

/-- **When a search ends in an error.** It gives packages exactly when each name in each
folder `node_modules` that it opens can be followed, hidden names and scopes aside. -/
theorem exists_load_iff {project : String} {maxDepth : Nat} :
    (∃ r, load t project maxDepth = .ok r) ↔
      ∀ modules ∈ openedIn t project maxDepth, Opens t modules := by
  rw [openedIn]
  by_cases htop : t.isFolder (topOf project) = true
  · rw [if_pos htop, ← exists_loadLevels_iff, load_eq_of_isFolder maxDepth htop]
    cases loadLevels t maxDepth 0 (start project) [topOf project] <;> simp [Except.map]
  · rw [if_neg htop, load_eq_of_not_isFolder maxDepth htop]
    simp

end Installed

end PackageAudit
