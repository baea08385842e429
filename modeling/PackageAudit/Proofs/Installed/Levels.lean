/-
PackageAudit.Proofs.Installed.Levels — the search for packages, level by level.

What a level starts from is one invariant (`Begun`): all that is reached at lesser
depths is recorded, once and at its least depth, and all that is reached at the
depth of the level is recorded or held by a folder that is to be opened. A folder
of a package that is read keeps what holds inside of a level
(`Level.loadPackage`). So a level leads to the next (`Begun.loadLevel`), and a run
through the levels to what it is for (`Begun.loadLevels`): `load_exact`.

That the packages are recorded at their least depth needs no look at the queue. A
package is recorded on a level only if it is not known, and then it is not reached
at a lesser depth, since all that is has been recorded.
-/
import PackageAudit.Proofs.Installed.Reached

namespace PackageAudit.Installed

open PackageAudit.Path (IsName IsPlace Place)

variable {t : FileTree} {project modules : String} {parts : List String}
  {depth maxDepth : Nat} {s s' : Search} {next folders : List String}

/-! ## 1. What has been recorded -/

/-- The name and the real path of a package. -/
def packageKey (t : FileTree) (p : InstalledPackage) : String × String :=
  (p.name, t.realPath p.location)

/-- What holds of the packages recorded while a level is read. -/
structure Recorded (t : FileTree) (project : String) (depth : Nat) (s : Search) : Prop where
  keys : s.registry.packages.map (packageKey t) = s.known.reverse
  nodup : s.known.Nodup
  bound : ∀ p ∈ s.registry.packages, p.depth ≤ depth
  reached : ∀ p ∈ s.registry.packages, ReachedAt t project p.depth (packageKey t p)
  least : ∀ p ∈ s.registry.packages, ∀ d, ReachedAt t project d (packageKey t p) → p.depth ≤ d
  sorted : (s.registry.packages.map InstalledPackage.depth).Pairwise (· ≤ ·)
  before : ∀ d < depth, ∀ key, ReachedAt t project d key → key ∈ s.known

/-- A folder `node_modules` to be opened on a level: a route to it leads over packages
that are recorded. -/
def Pending (t : FileTree) (project : String) (depth : Nat) (s : Search) (modules : String) :
    Prop :=
  ∃ seen, Route t project seen modules ∧ seen.length = depth ∧ seen ⊆ s.known

/-- What holds inside of a level, with the folders found so far for the next one. -/
structure Level (t : FileTree) (project : String) (depth : Nat) (s : Search)
    (next : List String) : Prop where
  recorded : Recorded t project depth s
  pending : ∀ modules ∈ next, Pending t project (depth + 1) s modules
  nests : ∀ p ∈ s.registry.packages, p.depth = depth → ∀ inner,
    Holds t (Path.join (packageKey t p).2 "node_modules") inner →
      ∃ modules ∈ next, Accessible t modules → Holds t modules inner

/-- What a level starts from. -/
structure Begun (t : FileTree) (project : String) (depth : Nat) (s : Search)
    (folders : List String) : Prop where
  recorded : Recorded t project depth s
  less : ∀ p ∈ s.registry.packages, p.depth < depth
  pending : ∀ modules ∈ folders, Pending t project depth s modules
  covered : ∀ key, ReachedAt t project depth key →
    key ∈ s.known ∨ ∃ modules ∈ folders, Accessible t modules → Holds t modules key

theorem Pending.mono (h : Pending t project depth s modules) (hknown : s.known ⊆ s'.known) :
    Pending t project depth s' modules := by
  obtain ⟨seen, hroute, hlength, hseen⟩ := h
  exact ⟨seen, hroute, hlength, List.Subset.trans hseen hknown⟩

theorem Recorded.congr (h : Recorded t project depth s) (hrecord : s'.record = s.record) :
    Recorded t project depth s' := by
  have hknown := Search.known_eq hrecord
  have hpackages := Search.packages_eq hrecord
  constructor
  all_goals simp only [hknown, hpackages]
  exacts [h.keys, h.nodup, h.bound, h.reached, h.least, h.sorted, h.before]

theorem Level.congr (h : Level t project depth s next) (hrecord : s'.record = s.record) :
    Level t project depth s' next where
  recorded := h.recorded.congr hrecord
  pending modules hmem :=
    (h.pending modules hmem).mono (Search.known_eq hrecord ▸ List.Subset.refl _)
  nests := by
    rw [Search.packages_eq hrecord]
    exact h.nests

/-- Every known name and real path is that of a package. -/
theorem Recorded.exists_package (h : Recorded t project depth s) {key : String × String}
    (hkey : key ∈ s.known) : ∃ p ∈ s.registry.packages, packageKey t p = key := by
  rw [← List.mem_reverse, ← h.keys] at hkey
  exact List.mem_map.mp hkey

/-! ## 2. One package -/

/-- The package in a folder has the name and the real path by which it is known. -/
theorem nameIn_eq (ht : t.WellFormed) (hmodules : IsPlace modules) (hleads : Leads t modules parts)
    (m : Table Json) : (nameIn m (folderOf modules parts) modules,
      t.realPath (folderOf modules parts)) = keyOf t modules parts m := by
  obtain ⟨q, rfl⟩ := hmodules
  have hpath : folderOf q.path parts = (q.into parts (hleads.isName ht)).path :=
    (q.path_into _).symm
  rw [nameIn, keyOf, hpath, q.relative_into _ hleads.ne_nil]

/-- Recording a package that is not known. -/
theorem Recorded.add (h : Recorded t project depth s) {p : InstalledPackage}
    (hdepth : p.depth = depth) (hreached : ReachedAt t project depth (packageKey t p))
    (hnew : packageKey t p ∉ s.known)
    (hrecord : s'.record = (s.registry.packages ++ [p], packageKey t p :: s.known)) :
    Recorded t project depth s' := by
  have hknown : s'.known = packageKey t p :: s.known := congrArg Prod.snd hrecord
  have hpackages : s'.registry.packages = s.registry.packages ++ [p] := congrArg Prod.fst hrecord
  constructor
  · rw [hpackages, hknown, List.map_append, List.reverse_cons, h.keys]
    rfl
  · rw [hknown]
    exact List.nodup_cons.mpr ⟨hnew, h.nodup⟩
  · rw [hpackages, List.forall_mem_append]
    exact ⟨h.bound, by simp [hdepth]⟩
  · rw [hpackages, List.forall_mem_append]
    exact ⟨h.reached, by simpa [hdepth] using hreached⟩
  · rw [hpackages, List.forall_mem_append]
    refine ⟨h.least, ?_⟩
    simp only [List.mem_singleton, forall_eq, hdepth]
    intro d hd
    by_contra hless
    exact hnew (h.before d (Nat.lt_of_not_le hless) _ hd)
  · rw [hpackages, List.map_append, List.pairwise_append]
    refine ⟨h.sorted, List.pairwise_singleton _ _, ?_⟩
    simpa [hdepth] using h.bound
  · intro d hd key hkey
    rw [hknown]
    exact List.mem_cons_of_mem _ (h.before d hd key hkey)

/-- What is recorded for the package in a folder. -/
theorem packageKey_ofManifest (ht : t.WellFormed) (hmodules : IsPlace modules)
    (hleads : Leads t modules parts) (m : Table Json) (depth : Nat) :
    packageKey t (ofManifest m (nameIn m (folderOf modules parts) modules)
      (folderOf modules parts) depth) = keyOf t modules parts m := by
  have hplace : Path.normalize (folderOf modules parts) = folderOf modules parts :=
    (Path.isPlace_iff.mp (isPlace_folderOf ht hmodules hleads)).2
  rw [packageKey, ofManifest, hplace, ← nameIn_eq ht hmodules hleads m]

/-- Recording a package that is not known, with the folder of its own packages if it
has one. -/
theorem Level.add (h : Level t project depth s next) {p : InstalledPackage}
    (hdepth : p.depth = depth) (hreached : ReachedAt t project depth (packageKey t p))
    (hnew : packageKey t p ∉ s.known)
    (hrecord : s'.record = (s.registry.packages ++ [p], packageKey t p :: s.known))
    {nested : List String}
    (hpending : ∀ modules ∈ nested, Pending t project (depth + 1) s' modules)
    (hnests : ∀ inner, Holds t (Path.join (packageKey t p).2 "node_modules") inner →
      ∃ modules ∈ nested, Accessible t modules → Holds t modules inner) :
    Level t project depth s' (next ++ nested) where
  recorded := h.recorded.add hdepth hreached hnew hrecord
  pending := by
    have hknown : s'.known = packageKey t p :: s.known := congrArg Prod.snd hrecord
    have hmore : s.known ⊆ s'.known := hknown ▸ List.subset_cons_self _ _
    rw [List.forall_mem_append]
    exact ⟨fun modules hmem => (h.pending modules hmem).mono hmore, hpending⟩
  nests := by
    have hpackages : s'.registry.packages = s.registry.packages ++ [p] := congrArg Prod.fst hrecord
    rw [hpackages, List.forall_mem_append]
    constructor
    · intro p' hp' hlevel inner hinner
      obtain ⟨modules, hmem, hholds⟩ := h.nests p' hp' hlevel inner hinner
      exact ⟨modules, List.mem_append_left _ hmem, hholds⟩
    · simp only [List.mem_singleton, forall_eq]
      intro _ inner hinner
      obtain ⟨modules, hmem, hholds⟩ := hnests inner hinner
      exact ⟨modules, List.mem_append_right _ hmem, hholds⟩

section

variable (ht : t.WellFormed) (haccess : RoutesAccessible t project maxDepth)
  (hdepth : depth ≤ maxDepth)

include ht haccess hdepth

/-- **Reading a package** keeps what holds inside of a level, and if its manifest can be
used then it is known. -/
theorem Level.loadPackage (h : Level t project depth s next)
    (hpending : Pending t project depth s modules) (hleads : Leads t modules parts)
    {nested : Option String}
    (hload : loadPackage t modules depth s (folderOf modules parts) = (s', nested)) :
    Level t project depth s' (next ++ nested.toList) ∧ s.known ⊆ s'.known ∧
      ∀ m, t.manifest? (folderOf modules parts) = some m → keyOf t modules parts m ∈ s'.known := by
  obtain ⟨seen, hroute, rfl, hseen⟩ := hpending
  have hmodules := hroute.isPlace ht
  have hname := nameIn_eq ht hmodules hleads
  have hloads := loads_loadPackage t modules seen.length s (folderOf modules parts)
  rw [hload] at hloads
  cases hloads with
  | passedOver hknown hrecord =>
    have hsame := Search.known_eq hrecord
    rw [Option.toList_none, List.append_nil, hsame]
    exact ⟨h.congr hrecord, List.Subset.refl _, fun m hm => hname m ▸ hknown m hm⟩
  | @recorded _ m hmanifest hnew hrecord =>
    rw [hname] at hnew hrecord
    have hkey := packageKey_ofManifest ht hmodules hleads m seen.length
    have hreached := hroute.reachedAt ht haccess hdepth ⟨parts, m, hleads, hmanifest, rfl⟩
    have hknown : s'.known = keyOf t modules parts m :: s.known := congrArg Prod.snd hrecord
    rw [← hkey] at hreached hnew hrecord
    refine ⟨h.add rfl hreached hnew hrecord ?_ ?_, hknown ▸ List.subset_cons_self _ _, ?_⟩
    · intro inside hinside
      rw [Option.mem_toList, Option.filter_eq_some_iff, Option.some.injEq] at hinside
      obtain ⟨rfl, -⟩ := hinside
      have hfresh : keyOf t modules parts m ∉ seen := fun hmem => hnew (hkey ▸ hseen hmem)
      refine ⟨_, hroute.nested hleads hmanifest hfresh, rfl, ?_⟩
      rw [hknown]
      exact List.cons_subset_cons _ hseen
    · rw [hkey]
      intro inner hinner
      obtain ⟨hfollows, hstat⟩ := follows_nested ht hroute haccess hleads hdepth
      have hfolder := isFolder_of_holds hfollows hstat hinner
      refine ⟨_, ?_, fun haccessible =>
        (holds_iff_of_follows ht hfollows haccessible hstat).mp hinner⟩
      rw [Option.mem_toList, Option.filter_eq_some_iff]
      exact ⟨rfl, hfolder⟩
    · intro m' hm'
      obtain rfl := Option.some.inj (hmanifest.symm.trans hm')
      rw [hknown]
      exact List.mem_cons_self

/-! ## 3. Levels -/

/-- Reading packages one after the other. -/
theorem Level.loadPackages (h : Level t project depth s next)
    (hpending : Pending t project depth s modules) {packages nested : List String}
    (hpackages : ∀ folder ∈ packages, ∃ parts, Leads t modules parts ∧
      folder = folderOf modules parts)
    (hload : loadPackages t modules depth s packages = (s', nested)) :
    Level t project depth s' (next ++ nested) ∧ s.known ⊆ s'.known ∧
      ∀ parts m, Leads t modules parts → folderOf modules parts ∈ packages →
        t.manifest? (folderOf modules parts) = some m → keyOf t modules parts m ∈ s'.known := by
  induction packages generalizing s next nested with
  | nil =>
    cases hload
    exact ⟨by rwa [List.append_nil], List.Subset.refl _, by simp⟩
  | cons folder packages ih =>
    rw [List.forall_mem_cons] at hpackages
    obtain ⟨⟨parts, hleads, rfl⟩, hrest⟩ := hpackages
    rw [Installed.loadPackages] at hload
    cases hfirst : Installed.loadPackage t modules depth s (folderOf modules parts) with
    | mk s₁ own =>
      cases hmore : Installed.loadPackages t modules depth s₁ packages with
      | mk s₂ more =>
        simp only [hfirst, hmore, Prod.mk.injEq] at hload
        obtain ⟨rfl, rfl⟩ := hload
        obtain ⟨hlevel, hsub, -⟩ := h.loadPackage ht haccess hdepth hpending hleads hfirst
        obtain ⟨hlevel', hsub', hknown⟩ := ih hlevel (hpending.mono hsub) hrest hmore
        refine ⟨by rwa [← List.append_assoc], List.Subset.trans hsub hsub', ?_⟩
        intro parts' m hleads' hmem hmanifest
        rcases List.mem_cons.mp hmem with heq | hmem
        · -- The step says so of all names that lead to the folder.
          rw [← heq] at hfirst
          exact hsub' ((h.loadPackage ht haccess hdepth hpending hleads' hfirst).2.2 m hmanifest)
        · exact hknown parts' m hleads' hmem hmanifest

/-- Opening the folders of a level one after the other. -/
theorem Level.loadLevel (h : Level t project depth s next)
    (hpending : ∀ modules ∈ folders, Pending t project depth s modules) :
    ∃ s' nested, loadLevel t depth s folders = .ok (s', nested) ∧
      Level t project depth s' (next ++ nested) ∧ s.known ⊆ s'.known ∧
      ∀ modules ∈ folders, ∀ key, Holds t modules key → key ∈ s'.known := by
  induction folders generalizing s next with
  | nil => exact ⟨s, [], rfl, by rwa [List.append_nil], List.Subset.refl _, by simp⟩
  | cons modules folders ih =>
    obtain ⟨hfirst, hrest⟩ := List.forall_mem_cons.mp hpending
    obtain ⟨seen, hroute, hlength, -⟩ := id hfirst
    have haccessible := haccess seen modules hroute (hlength ▸ hdepth)
    have hopens : Opens t modules := fun n hn hvisible _ => haccessible.names n hn hvisible
    obtain ⟨⟨s₁, packages⟩, hpackages⟩ := (exists_packageFolders_iff (s := s)).mpr hopens
    obtain ⟨hrecord, hfound⟩ := packageFolders_eq_ok hpackages
    obtain rfl := hfound haccessible.scopes
    have hsame : s.known ⊆ s₁.known := Search.known_eq hrecord ▸ List.Subset.refl _
    cases hload : Installed.loadPackages t modules depth s₁ (packagesIn t modules) with
    | mk s₂ nested =>
      obtain ⟨hlevel, hsub, hknown⟩ := (h.congr hrecord).loadPackages ht haccess hdepth
        (hfirst.mono hsame) (fun folder => mem_packagesIn_iff.mp) hload
      have hsub₂ := List.Subset.trans hsame hsub
      obtain ⟨s₃, more, hmore, hlevel', hsub', hknown'⟩ :=
        ih hlevel fun inside hmem => (hrest inside hmem).mono hsub₂
      refine ⟨s₃, nested ++ more, ?_, by rwa [← List.append_assoc],
        List.Subset.trans hsub₂ hsub', ?_⟩
      · rw [Installed.loadLevel, hpackages]
        simp only [bind, Except.bind, hload, hmore]
        rfl
      · intro inside hmem key hholds
        rcases List.mem_cons.mp hmem with rfl | hmem
        · obtain ⟨parts, m, hleads, hmanifest, rfl⟩ := hholds
          have hfolder := mem_packagesIn_iff.mpr ⟨parts, hleads, rfl⟩
          exact hsub' (hknown parts m hleads hfolder hmanifest)
        · exact hknown' inside hmem key hholds

/-- **One level.** What a level starts from holds again after it, of the next one. -/
theorem Begun.loadLevel (h : Begun t project depth s folders) :
    ∃ s' nested, loadLevel t depth s folders = .ok (s', nested) ∧
      Begun t project (depth + 1) s' nested := by
  have hlevel : Level t project depth s [] := ⟨h.recorded, by simp, fun p hp hdepth =>
    absurd hdepth (Nat.ne_of_lt (h.less p hp))⟩
  obtain ⟨s', nested, hload, hlevel', hsub, hknown⟩ := hlevel.loadLevel ht haccess hdepth h.pending
  rw [List.nil_append] at hlevel'
  have hthis : ∀ key, ReachedAt t project depth key → key ∈ s'.known := by
    intro key hkey
    rcases h.covered key hkey with hmem | ⟨modules, hmem, hholds⟩
    · exact hsub hmem
    · obtain ⟨seen, hroute, hlength, -⟩ := h.pending modules hmem
      exact hknown modules hmem key (hholds (haccess seen modules hroute (hlength ▸ hdepth)))
  have hbefore : ∀ d < depth + 1, ∀ key, ReachedAt t project d key → key ∈ s'.known := by
    intro d hd key hkey
    rcases Nat.lt_succ_iff_lt_or_eq.mp hd with hless | rfl
    · exact hlevel'.recorded.before d hless key hkey
    · exact hthis key hkey
  have hbound := hlevel'.recorded.bound
  refine ⟨s', nested, hload, ⟨?_, fun p hp => Nat.lt_succ_of_le (hbound p hp), hlevel'.pending, ?_⟩⟩
  · exact { hlevel'.recorded with
      bound := fun p hp => Nat.le_succ_of_le (hbound p hp)
      before := hbefore }
  · intro inner hinner
    cases hinner with
    | @nested _ key _ hkey hholds =>
      obtain ⟨p, hp, rfl⟩ := hlevel'.recorded.exists_package (hthis key hkey)
      rcases Nat.lt_or_eq_of_le (hbound p hp) with hless | heq
      · -- Recorded on a higher level, the package is reached there, and so is what is in it.
        exact Or.inl (hbefore _ (Nat.succ_lt_succ hless) inner
          (.nested (hlevel'.recorded.reached p hp) hholds))
      · exact Or.inr (hlevel'.nests p hp heq inner hholds)

end

/-- A run through the levels. -/
theorem Begun.loadLevels (ht : t.WellFormed) (haccess : RoutesAccessible t project maxDepth)
    {below : Nat} (hdepth : depth + below = maxDepth) (h : Begun t project depth s folders) :
    ∃ s' nested, loadLevels t below depth s folders = .ok s' ∧
      Begun t project (maxDepth + 1) s' nested := by
  induction below generalizing depth s folders with
  | zero =>
    obtain rfl : depth = maxDepth := hdepth
    obtain ⟨s', nested, hload, hbegun⟩ := h.loadLevel ht haccess (Nat.le_refl _)
    exact ⟨s', nested, by rw [loadLevels_zero, hload]; rfl, hbegun⟩
  | succ below ih =>
    obtain ⟨s₁, nested, hload, hbegun⟩ := h.loadLevel ht haccess (by omega)
    obtain ⟨s', final, hrest, hend⟩ := ih (by omega) hbegun
    exact ⟨s', final, by rw [loadLevels_succ, hload]; exact hrest, hend⟩

/-! ## 4. The search of a project -/

theorem begun_start (t : FileTree) (project : String) :
    Begun t project 0 (start project) [topOf project] := by
  have hpackages : (start project).registry.packages = [] := rfl
  have hknown : (start project).known = [] := rfl
  constructor
  · constructor <;> simp [hpackages, hknown]
  · simp [hpackages]
  · rw [List.forall_mem_singleton]
    exact ⟨[], .top, rfl, List.nil_subset _⟩
  · intro key hkey
    cases hkey with
    | top h => exact Or.inr ⟨_, List.mem_singleton_self _, fun _ => h⟩

/-- Nothing is reached in a project without `node_modules`. -/
theorem ReachedAt.isFolder {key : String × String} (h : ReachedAt t project depth key) :
    t.isFolder (topOf project) = true := by
  induction h with
  | top h => exact h.isFolder
  | nested _ _ ih => exact ih

/-- **The search is exact.** Where the names on its way can be followed, a search gives
packages. These are the packages reached through at most the given number of nested
folders `node_modules`, each once and at its least depth, and they come by depth. -/
theorem load_exact (ht : t.WellFormed) (project : String) (maxDepth : Nat)
    (haccess : RoutesAccessible t project maxDepth) :
    ∃ r, load t project maxDepth = .ok r ∧
      (r.packages.map (packageKey t)).Nodup ∧
      (∀ key, key ∈ r.packages.map (packageKey t) ↔
        ∃ depth ≤ maxDepth, ReachedAt t project depth key) ∧
      (∀ p ∈ r.packages, ReachedAt t project p.depth (packageKey t p) ∧
        ∀ depth, ReachedAt t project depth (packageKey t p) → p.depth ≤ depth) ∧
      (r.packages.map InstalledPackage.depth).Pairwise (· ≤ ·) := by
  by_cases htop : t.isFolder (topOf project) = true
  · obtain ⟨s, nested, hload, hend⟩ :=
      (begun_start t project).loadLevels ht haccess (Nat.zero_add maxDepth)
    have hrecorded := hend.recorded
    refine ⟨s.registry, ?_, ?_, ?_, fun p hp => ⟨hrecorded.reached p hp, hrecorded.least p hp⟩,
      hrecorded.sorted⟩
    · rw [load_eq_of_isFolder maxDepth htop, hload]
      rfl
    · rw [hrecorded.keys]
      exact List.nodup_reverse.mpr hrecorded.nodup
    · intro key
      constructor
      · intro hkey
        obtain ⟨p, hp, rfl⟩ := List.mem_map.mp hkey
        exact ⟨p.depth, Nat.le_of_lt_succ (hend.less p hp), hrecorded.reached p hp⟩
      · rintro ⟨depth, hdepth, hreached⟩
        rw [hrecorded.keys, List.mem_reverse]
        exact hrecorded.before depth (Nat.lt_succ_of_le hdepth) key hreached
  · have hnone : ∀ key depth, ¬ ReachedAt t project depth key :=
      fun key depth h => htop h.isFolder
    refine ⟨_, load_eq_of_not_isFolder maxDepth htop, List.nodup_nil, ?_, ?_, List.Pairwise.nil⟩
    · simp [hnone]
    · intro p hp
      cases hp

/-! ## 5. A package in itself -/

/-- A project with a package that has itself installed, by a link. -/
def loopedPackages : FileTree := ⟨.folder [("p", .folder [("node_modules", .folder [("a", .folder [
  ("package.json", .file [123, 125]),
  ("node_modules", .folder [("a", .link "/p/node_modules/a")])])])])]⟩

theorem wellFormed_loopedPackages : loopedPackages.WellFormed := by
  refine ⟨⟨_, rfl⟩, ?_⟩
  simp [loopedPackages, Table.Distinct, Table.keys]
  decide

/-- Behind its link the package leads to the same. -/
theorem find_loopedPackages (names : List String) (hnames : ∀ n ∈ names, IsName n) :
    loopedPackages.find (names.foldl Path.join "/p/node_modules/a/node_modules/a") =
      loopedPackages.follow 39 ["p", "node_modules", "a"] names := by
  let q : Place :=
    ⟨1, ["p", "node_modules", "a", "node_modules", "a"], Or.inl rfl, by decide⟩
  have hparts : Path.components "/p/node_modules/a" = ["", "p", "node_modules", "a"] := by decide
  have habsolute : Path.isAbsolute "/p/node_modules/a" = true := by decide
  have hpath : "/p/node_modules/a/node_modules/a" = q.path := by decide
  have hlink := FileTree.follow_link wellFormed_loopedPackages
    ["p", "node_modules", "a", "node_modules"] "a" "/p/node_modules/a" rfl (by decide) rfl
    (by decide) 40 names
  rw [habsolute, hparts] at hlink
  rw [hpath, FileTree.find_foldl_join wellFormed_loopedPackages q hnames]
  exact hlink

/-- What is in the package, under both paths. -/
theorem find_inside_loopedPackages : ∀ path ∈ ["/p/node_modules/a",
    "/p/node_modules/a/node_modules/a"],
    (∃ entries, loopedPackages.find path = .ok ⟨["p", "node_modules", "a"], .folder entries⟩) ∧
    loopedPackages.find (Path.join path "package.json") =
      .ok ⟨["p", "node_modules", "a", "package.json"], .file [123, 125]⟩ ∧
    ∃ entries, loopedPackages.find (Path.join path "node_modules") =
      .ok ⟨["p", "node_modules", "a", "node_modules"], .folder entries⟩ := by
  simp only [List.forall_mem_cons, List.not_mem_nil, false_imp_iff, implies_true, and_true]
  refine ⟨⟨⟨_, rfl⟩, rfl, ⟨_, rfl⟩⟩, ⟨_, (find_loopedPackages [] (by decide)).trans rfl⟩,
    (find_loopedPackages ["package.json"] (by decide)).trans rfl,
    ⟨_, (find_loopedPackages ["node_modules"] (by decide)).trans rfl⟩⟩

theorem leads_loopedPackages (hlisted : loopedPackages.listed modules = ["a"])
    (h : Leads loopedPackages modules parts) : parts = ["a"] := by
  cases h with
  | plain hn =>
    rw [hlisted, List.mem_singleton] at hn
    rw [hn]
  | inScope hscope hat =>
    rw [hlisted, List.mem_singleton] at hscope
    rw [hscope] at hat
    exact absurd hat (by decide)

theorem listed_loopedPackages : loopedPackages.listed "/p/node_modules" = ["a"] ∧
    loopedPackages.listed "/p/node_modules/a/node_modules" = ["a"] :=
  ⟨List.mergeSort_singleton _, List.mergeSort_singleton _⟩

/-- Two routes: into `node_modules`, and into that of the package. -/
theorem route_loopedPackages {seen : List (String × String)}
    (h : Route loopedPackages "/p" seen modules) :
    modules = "/p/node_modules" ∧ seen = [] ∨
      modules = "/p/node_modules/a/node_modules" ∧ ∃ m,
        loopedPackages.manifest? "/p/node_modules/a" = some m ∧
          seen = [keyOf loopedPackages "/p/node_modules" ["a"] m] := by
  obtain ⟨⟨_, hfolder⟩, hfile, -⟩ := find_inside_loopedPackages _ List.mem_cons_self
  obtain ⟨⟨_, hfolder'⟩, hfile', -⟩ :=
    find_inside_loopedPackages _ (List.mem_cons_of_mem _ List.mem_cons_self)
  induction h with
  | top => exact Or.inl ⟨by decide, rfl⟩
  | @nested seen modules parts m hroute hleads hmanifest hnew ih =>
    rcases ih with ⟨rfl, rfl⟩ | ⟨rfl, m', hm', rfl⟩
    · obtain rfl := leads_loopedPackages listed_loopedPackages.1 hleads
      exact Or.inr ⟨rfl, m, hmanifest, rfl⟩
    · obtain rfl := leads_loopedPackages listed_loopedPackages.2 hleads
      have hmanifest' : loopedPackages.manifest? "/p/node_modules/a/node_modules/a" =
          loopedPackages.manifest? "/p/node_modules/a" :=
        FileTree.manifest?_congr (hfile'.trans hfile.symm)
      have hreal : loopedPackages.realPath "/p/node_modules/a/node_modules/a" =
          loopedPackages.realPath "/p/node_modules/a" := by
        rw [FileTree.realPath_of_find hfolder', FileTree.realPath_of_find hfolder]
      obtain rfl := Option.some.inj (hm'.symm.trans (hmanifest'.symm.trans hmanifest))
      have hfirst : folderOf "/p/node_modules" ["a"] = "/p/node_modules/a" := by decide
      have hagain : folderOf "/p/node_modules/a/node_modules" ["a"] =
          "/p/node_modules/a/node_modules/a" := by decide
      have hkey : keyOf loopedPackages "/p/node_modules/a/node_modules" ["a"] m' =
          keyOf loopedPackages "/p/node_modules" ["a"] m' := by
        rw [keyOf, keyOf, hfirst, hagain, hreal]
      exact absurd (List.mem_singleton.mpr hkey) hnew

theorem routesAccessible_loopedPackages : RoutesAccessible loopedPackages "/p" 5 := by
  have hcan {path : String} {found : FileTree.Found} (h : loopedPackages.find path = .ok found) :
      loopedPackages.CanStat path := FileTree.canStat_iff.mpr (by simp [h])
  have haccess {modules : String} (hlisted : loopedPackages.listed modules = ["a"])
      (hinside : Path.join modules "a" ∈ ["/p/node_modules/a",
        "/p/node_modules/a/node_modules/a"]) : Accessible loopedPackages modules := by
    obtain ⟨⟨_, hfolder⟩, hfile, ⟨_, hnested⟩⟩ := find_inside_loopedPackages _ hinside
    refine ⟨?_, ?_, fun parts hleads => ?_⟩
    · rw [hlisted, VisibleFollowed, List.forall_mem_singleton]
      exact fun _ => hcan hfolder
    · rw [ScopesOpen, hlisted, List.forall_mem_singleton]
      exact fun hat => absurd hat (by decide)
    · obtain rfl := leads_loopedPackages hlisted hleads
      intro n hn
      rcases List.mem_pair.mp hn with rfl | rfl
      · exact hcan hfile
      · exact hcan hnested
  intro seen modules hroute _
  rcases route_loopedPackages hroute with ⟨rfl, -⟩ | ⟨rfl, -⟩
  · exact haccess listed_loopedPackages.1 (List.mem_cons_self)
  · exact haccess listed_loopedPackages.2 (List.mem_cons_of_mem _ List.mem_cons_self)

/-- The package is reached at all depths, and recorded once at the first. -/
theorem load_exact_loopedPackages : loopedPackages.WellFormed ∧
    RoutesAccessible loopedPackages "/p" 5 ∧
    ∃ r, load loopedPackages "/p" 5 = .ok r ∧
      (r.packages.map (packageKey loopedPackages)).Nodup ∧
      ∃ p ∈ r.packages, packageKey loopedPackages p = ("a", "/p/node_modules/a") ∧ p.depth = 0 := by
  refine ⟨wellFormed_loopedPackages, routesAccessible_loopedPackages, ?_⟩
  obtain ⟨r, hload, hnodup, hexact, hleast, -⟩ :=
    load_exact wellFormed_loopedPackages "/p" 5 routesAccessible_loopedPackages
  obtain ⟨⟨_, hfolder⟩, hfile, -⟩ := find_inside_loopedPackages _ List.mem_cons_self
  have hmanifest : loopedPackages.manifest? "/p/node_modules/a" = some [] := by
    have hdecode : Text.Utf8.decode [123, 125] = .ok "\x7b\x7d" := rfl
    have hparse : Json.parse "\x7b\x7d" = .ok (.obj []) := rfl
    have htext : String.ofList (Text.unifyLineEnds "\x7b\x7d".toList) = "\x7b\x7d" := rfl
    simp only [FileTree.manifest?, FileTree.readJson, FileTree.readWith, FileTree.readText,
      FileTree.read, hfile, hdecode, htext, hparse, Except.mapError]
  have hreached : ReachedAt loopedPackages "/p" 0 ("a", "/p/node_modules/a") := by
    have htop : topOf "/p" = "/p/node_modules" := by decide
    refine .top ⟨["a"], [], ?_, ?_, ?_⟩
    · rw [htop]
      have hisFolder : loopedPackages.isFolder "/p/node_modules/a" = true := by
        rw [FileTree.isFolder, hfolder]
      exact .plain (listed_loopedPackages.1 ▸ List.mem_cons_self) (by decide) (by decide) hisFolder
    · have hfolderOf : folderOf (topOf "/p") ["a"] = "/p/node_modules/a" := by decide
      rw [hfolderOf, hmanifest]
    · have hplace : FileTree.pathOf ["p", "node_modules", "a"] = "/p/node_modules/a" := by decide
      have hreal := (FileTree.realPath_of_find hfolder).trans hplace
      have hfolderOf : folderOf "/p/node_modules" ["a"] = "/p/node_modules/a" := by decide
      rw [htop, keyOf, hfolderOf, hreal]
      rfl
  obtain ⟨p, hp, hkey⟩ := List.mem_map.mp ((hexact _).mpr ⟨0, Nat.zero_le _, hreached⟩)
  have hdepth := (hleast p hp).2 0 (hkey ▸ hreached)
  exact ⟨r, hload, hnodup, p, hp, hkey, Nat.le_zero.mp hdepth⟩

end PackageAudit.Installed
