/-
PackageAudit.Proofs.Installed.Reached — where packages are reached.

A package is a name and a real path. It is reached at a depth when a folder
`node_modules` holds it that is the one of the project, or stands in a package
reached one level higher (`ReachedAt`); a package may be reached at many depths,
with links that lead back at all of them.

A search opens folders under the paths by which it came (`Route`), while packages
are reached by their real paths. Under both a folder holds the same as long as the
paths do not run out of links (`holds_iff_of_follows`), and this is all that is asked
of links (`Accessible`). So what a route leads to is reached at its length
(`Route.reachedAt`). It holds of every tree in which each entry can be followed, up to
the number of links that a path may lead through (`routesAccessible_of_entriesFollowed`).
-/
import PackageAudit.Proofs.Installed.Walk

namespace PackageAudit

open PackageAudit.Path (IsName IsPlace Place)

namespace FileTree

variable {t : FileTree} {path other : String}

/-! ## 1. Paths that lead to the same -/

theorem listed_congr (h : t.find path = t.find other) : t.listed path = t.listed other := by
  rw [listed, listed, list, list, h]
  cases t.find other with
  | error f => rfl
  | ok found =>
    obtain ⟨place, e⟩ := found
    cases e <;> rfl

theorem isFolder_congr (h : t.find path = t.find other) : t.isFolder path = t.isFolder other := by
  rw [isFolder, isFolder, h]

theorem manifest?_congr
    (h : t.find (Path.join path "package.json") = t.find (Path.join other "package.json")) :
    t.manifest? path = t.manifest? other := by
  rw [manifest?_eq, manifest?_eq, h]

theorem realPath_congr (h : t.find path = t.find other) (hfolder : t.isFolder other = true) :
    t.realPath path = t.realPath other := by
  rw [isFolder] at hfolder
  rw [realPath, realPath, h]
  cases hfind : t.find other with
  | error f => simp [hfind] at hfolder
  | ok found => rfl

/-- A path that can be followed does not run out of links. -/
theorem CanStat.links (h : t.CanStat path) : t.find path ≠ .error .tooManyLinks := by
  intro hfault
  cases canStat_iff.mp h _ hfault

/-- Wherever the first path leads on, the second leads to the same. -/
def Follows (t : FileTree) (path other : String) : Prop :=
  ∀ names : List String, (∀ n ∈ names, IsName n) →
    t.find (names.foldl Path.join path) ≠ .error .tooManyLinks →
    t.find (names.foldl Path.join other) = t.find (names.foldl Path.join path)

/-- A name in a folder leads to the same under the real path of the folder. -/
theorem follows_realPath (ht : t.WellFormed) (hpath : IsPlace path)
    (hfolder : t.isFolder path = true) {n : String} (hn : IsName n) :
    t.Follows (Path.join path n) (Path.join (t.realPath path) n) := by
  intro names hnames hlinks
  obtain ⟨place, entries, hfind⟩ := exists_find_of_isFolder hfolder
  have hall : ∀ m ∈ n :: names, IsName m := List.forall_mem_cons.mpr ⟨hn, hnames⟩
  exact find_foldl_join_realPath ht hpath hfind hall hlinks

end FileTree

namespace Installed

variable {t : FileTree} {project modules other : String} {parts : List String}
  {key inner : String × String} {depth maxDepth : Nat} {m : Table Json}

/-! ## 2. Packages and where they are reached -/

/-- The folder of a package, by the names that lead to it from `node_modules`. -/
def folderOf (modules : String) (parts : List String) : String := parts.foldl Path.join modules

/-- The names that lead from a folder `node_modules` to the folder of a package: its own
name, or that of a scope and its own. -/
inductive Leads (t : FileTree) (modules : String) : List String → Prop where
  | plain {n : String} (hn : n ∈ t.listed modules) (hscope : Text.begins "@" n = false)
      (hvisible : Text.begins "." n = false)
      (hfolder : t.isFolder (Path.join modules n) = true) : Leads t modules [n]
  | inScope {scope n : String} (hscope : scope ∈ t.listed modules)
      (hat : Text.begins "@" scope = true) (hn : n ∈ t.listed (Path.join modules scope))
      (hvisible : Text.begins "." n = false)
      (hfolder : t.isFolder (Path.join (Path.join modules scope) n) = true) :
      Leads t modules [scope, n]

/-- The name and the real path of the package in a folder. The name is what the manifest
says, else what leads to the folder. -/
def keyOf (t : FileTree) (modules : String) (parts : List String) (m : Table Json) :
    String × String :=
  (((m.get? "name").bind Json.string?).getD (Path.ofComponents parts),
    t.realPath (folderOf modules parts))

/-- A folder `node_modules` holds a package of a name and a real path. -/
def Holds (t : FileTree) (modules : String) (key : String × String) : Prop :=
  ∃ parts m, Leads t modules parts ∧ t.manifest? (folderOf modules parts) = some m ∧
    key = keyOf t modules parts m

/-- A package is reached through a number of folders `node_modules` below the one of the
project. -/
inductive ReachedAt (t : FileTree) (project : String) : Nat → String × String → Prop where
  | top {key : String × String} (h : Holds t (topOf project) key) : ReachedAt t project 0 key
  | nested {depth : Nat} {key inner : String × String} (hkey : ReachedAt t project depth key)
      (h : Holds t (Path.join key.2 "node_modules") inner) : ReachedAt t project (depth + 1) inner

/-- The folders `node_modules` behind packages no two of which are the same, under the
paths by which a search may come to them. -/
inductive Route (t : FileTree) (project : String) : List (String × String) → String → Prop where
  | top : Route t project [] (topOf project)
  | nested {seen : List (String × String)} {modules : String} {parts : List String}
      {m : Table Json} (h : Route t project seen modules) (hleads : Leads t modules parts)
      (hmanifest : t.manifest? (folderOf modules parts) = some m)
      (hnew : keyOf t modules parts m ∉ seen) :
      Route t project (keyOf t modules parts m :: seen)
        (Path.join (folderOf modules parts) "node_modules")

/-- What a search looks at behind a folder `node_modules` can be followed: the names in
it and in its scopes, and the manifest and the own `node_modules` of each package. -/
structure Accessible (t : FileTree) (modules : String) : Prop where
  names : VisibleFollowed t modules (t.listed modules)
  scopes : ScopesOpen t modules
  packages : ∀ parts, Leads t modules parts → ∀ n ∈ ["package.json", "node_modules"],
    t.CanStat (Path.join (folderOf modules parts) n)

theorem Leads.isName (ht : t.WellFormed) (h : Leads t modules parts) : ∀ n ∈ parts, IsName n := by
  cases h with
  | plain hn => simpa using FileTree.isName_of_mem_listed ht hn
  | inScope hscope _ hn =>
    simpa using ⟨FileTree.isName_of_mem_listed ht hscope, FileTree.isName_of_mem_listed ht hn⟩

theorem Leads.ne_nil (h : Leads t modules parts) : parts ≠ [] := by
  cases h <;> simp

theorem Leads.isFolder (h : Leads t modules parts) :
    t.isFolder (folderOf modules parts) = true := by
  cases h with
  | plain _ _ _ hfolder => exact hfolder
  | inScope _ _ _ _ hfolder => exact hfolder

/-- A package is held by a folder. -/
theorem Holds.isFolder (h : Holds t modules key) : t.isFolder modules = true := by
  obtain ⟨parts, m, hleads, -⟩ := h
  have hmem : ∃ n, n ∈ t.listed modules := by
    cases hleads with
    | plain hn => exact ⟨_, hn⟩
    | inScope hscope => exact ⟨_, hscope⟩
  obtain ⟨n, hn⟩ := hmem
  obtain ⟨place, entries, hfind, -⟩ := FileTree.mem_listed_iff.mp hn
  rw [FileTree.isFolder, hfind]

/-- The folders of packages are those that names lead to. -/
theorem mem_packagesIn_iff {folder : String} : folder ∈ packagesIn t modules ↔
    ∃ parts, Leads t modules parts ∧ folder = folderOf modules parts := by
  simp only [packagesIn, List.mem_flatMap, packagesAt]
  constructor
  · rintro ⟨n, hn, hfolder⟩
    split at hfolder
    · rename_i hscope
      simp only [foldersAmong, List.mem_filter, List.mem_map, Bool.not_eq_true'] at hfolder
      obtain ⟨⟨inner, ⟨hinner, hvisible⟩, rfl⟩, hfolder⟩ := hfolder
      exact ⟨[n, inner], .inScope hn hscope hinner hvisible hfolder, rfl⟩
    · rename_i hscope
      simp only [foldersAmong, List.mem_filter, List.mem_map, Bool.not_eq_true',
        List.mem_singleton] at hfolder
      obtain ⟨⟨inner, ⟨rfl, hvisible⟩, rfl⟩, hfolder⟩ := hfolder
      exact ⟨[inner], .plain hn (Bool.eq_false_iff.mpr hscope) hvisible hfolder, rfl⟩
  · rintro ⟨parts, hleads, rfl⟩
    cases hleads with
    | @plain n hn hscope hvisible hfolder =>
      refine ⟨n, hn, ?_⟩
      simp [hscope, foldersAmong, hvisible, hfolder, folderOf]
    | @inScope scope n hscope hat hn hvisible hfolder =>
      refine ⟨scope, hscope, ?_⟩
      rw [if_pos hat, foldersAmong, List.mem_filter]
      refine ⟨List.mem_map.mpr ⟨n, ?_, rfl⟩, hfolder⟩
      simpa [hvisible] using hn

/-! ## 3. One folder under two paths -/

section

variable (ht : t.WellFormed) (hfollows : t.Follows modules other) (haccess : Accessible t modules)
  (hstat : t.CanStat modules)

include hfollows hstat in
theorem same_of_follows : t.find other = t.find modules :=
  hfollows [] (by simp) hstat.links

include ht hfollows haccess in
/-- A name in the folder leads to the same under both paths. -/
theorem find_eq_of_follows {n : String} (hn : n ∈ t.listed modules)
    (hvisible : Text.begins "." n = false) :
    t.find (Path.join other n) = t.find (Path.join modules n) := by
  have hname := FileTree.isName_of_mem_listed ht hn
  exact hfollows [n] (by simpa using hname) (haccess.names n hn hvisible).links

include ht hfollows haccess hstat in
theorem leads_iff_of_follows : Leads t other parts ↔ Leads t modules parts := by
  have hlisted := FileTree.listed_congr (same_of_follows hfollows hstat)
  have hscope : ∀ scope ∈ t.listed modules, Text.begins "@" scope = true →
      t.listed (Path.join other scope) = t.listed (Path.join modules scope) := by
    intro scope hmem hat
    exact FileTree.listed_congr
      (find_eq_of_follows ht hfollows haccess hmem (begins_dot_of_scope hat))
  have hinside : ∀ scope ∈ t.listed modules, Text.begins "@" scope = true →
      ∀ n ∈ t.listed (Path.join modules scope), Text.begins "." n = false →
      t.find (Path.join (Path.join other scope) n) =
        t.find (Path.join (Path.join modules scope) n) := by
    intro scope hmem hat n hn hvisible
    have hnames : ∀ m ∈ [scope, n], IsName m := by
      simpa using ⟨FileTree.isName_of_mem_listed ht hmem, FileTree.isName_of_mem_listed ht hn⟩
    exact hfollows [scope, n] hnames (haccess.scopes scope hmem hat n hn hvisible).links
  constructor
  · intro h
    cases h with
    | plain hn hunscoped hvisible hfolder =>
      rw [hlisted] at hn
      rw [FileTree.isFolder_congr (find_eq_of_follows ht hfollows haccess hn hvisible)] at hfolder
      exact .plain hn hunscoped hvisible hfolder
    | inScope hmem hat hn hvisible hfolder =>
      rw [hlisted] at hmem
      rw [hscope _ hmem hat] at hn
      rw [FileTree.isFolder_congr (hinside _ hmem hat _ hn hvisible)] at hfolder
      exact .inScope hmem hat hn hvisible hfolder
  · intro h
    cases h with
    | plain hn hunscoped hvisible hfolder =>
      rw [← FileTree.isFolder_congr (find_eq_of_follows ht hfollows haccess hn hvisible)] at hfolder
      exact .plain (hlisted ▸ hn) hunscoped hvisible hfolder
    | inScope hmem hat hn hvisible hfolder =>
      rw [← FileTree.isFolder_congr (hinside _ hmem hat _ hn hvisible)] at hfolder
      exact .inScope (hlisted ▸ hmem) hat (hscope _ hmem hat ▸ hn) hvisible hfolder

include ht hfollows haccess hstat in
/-- **A folder under two paths** holds the same packages. -/
theorem holds_iff_of_follows : Holds t other key ↔ Holds t modules key := by
  have hpackage : ∀ parts, Leads t modules parts →
      t.manifest? (folderOf other parts) = t.manifest? (folderOf modules parts) ∧
      ∀ m, keyOf t other parts m = keyOf t modules parts m := by
    intro parts hleads
    have hnames := hleads.isName ht
    obtain ⟨place, entries, hfind⟩ := FileTree.exists_find_of_isFolder hleads.isFolder
    have hfolder : t.find (folderOf other parts) = t.find (folderOf modules parts) :=
      hfollows parts hnames (by rw [← folderOf, hfind]; simp)
    have hmanifest : t.find (Path.join (folderOf other parts) "package.json") =
        t.find (Path.join (folderOf modules parts) "package.json") := by
      have hstat := haccess.packages parts hleads "package.json" (by simp)
      have hall : ∀ n ∈ parts ++ ["package.json"], IsName n := by
        simp only [List.forall_mem_append]
        exact ⟨hnames, by decide⟩
      have hboth := hfollows (parts ++ ["package.json"]) hall
      rw [List.foldl_append, List.foldl_append] at hboth
      exact hboth hstat.links
    refine ⟨FileTree.manifest?_congr hmanifest, fun m => ?_⟩
    rw [keyOf, keyOf, FileTree.realPath_congr hfolder hleads.isFolder]
  constructor
  · rintro ⟨parts, m, hleads, hmanifest, rfl⟩
    rw [leads_iff_of_follows ht hfollows haccess hstat] at hleads
    obtain ⟨hsame, hkey⟩ := hpackage parts hleads
    exact ⟨parts, m, hleads, hsame ▸ hmanifest, hkey m⟩
  · rintro ⟨parts, m, hleads, hmanifest, rfl⟩
    obtain ⟨hsame, hkey⟩ := hpackage parts hleads
    exact ⟨parts, m, (leads_iff_of_follows ht hfollows haccess hstat).mpr hleads,
      hsame ▸ hmanifest, (hkey m).symm⟩

include hfollows hstat in
theorem isFolder_of_holds (h : Holds t other key) : t.isFolder modules = true := by
  rw [← FileTree.isFolder_congr (same_of_follows hfollows hstat)]
  exact h.isFolder

end

/-! ## 4. Routes -/

/-- What is asked of the routes of a search. -/
def RoutesAccessible (t : FileTree) (project : String) (maxDepth : Nat) : Prop :=
  ∀ seen modules, Route t project seen modules → seen.length ≤ maxDepth → Accessible t modules

theorem isPlace_folderOf (ht : t.WellFormed) (hmodules : IsPlace modules)
    (hleads : Leads t modules parts) : IsPlace (folderOf modules parts) := by
  obtain ⟨q, rfl⟩ := hmodules
  exact ⟨q.into parts (hleads.isName ht), q.path_into _⟩

theorem Route.isPlace (ht : t.WellFormed) {seen : List (String × String)}
    (h : Route t project seen modules) : IsPlace modules := by
  induction h with
  | top =>
    have hroot : IsPlace (Path.absolute "/" project) :=
      Path.isPlace_normalize (Path.isAbsolute_join (by decide) project)
    exact hroot.join (by decide)
  | nested _ hleads _ _ ih => exact (isPlace_folderOf ht ih hleads).join (by decide)

section

variable (ht : t.WellFormed) {seen : List (String × String)} (hroute : Route t project seen modules)
  (haccess : RoutesAccessible t project maxDepth)

include ht hroute haccess in
/-- The own `node_modules` of a package leads to the same as that under its real path. -/
theorem follows_nested (hleads : Leads t modules parts) (hseen : seen.length ≤ maxDepth) :
    t.Follows (Path.join (folderOf modules parts) "node_modules")
        (Path.join (t.realPath (folderOf modules parts)) "node_modules") ∧
      t.CanStat (Path.join (folderOf modules parts) "node_modules") :=
  ⟨FileTree.follows_realPath ht (isPlace_folderOf ht (hroute.isPlace ht) hleads) hleads.isFolder
      (by decide),
    (haccess seen modules hroute hseen).packages parts hleads "node_modules" (by simp)⟩

include ht hroute haccess in
/-- What a route leads to is reached at its length. -/
theorem Route.reachedAt (hseen : seen.length ≤ maxDepth) (h : Holds t modules key) :
    ReachedAt t project seen.length key := by
  induction hroute generalizing key with
  | top => exact .top h
  | @nested seen modules parts m hroute hleads hmanifest hnew ih =>
    have hbefore : seen.length ≤ maxDepth := by
      rw [List.length_cons] at hseen
      omega
    have hnested := haccess _ _ (hroute.nested hleads hmanifest hnew) hseen
    have hkey := ih hbefore ⟨parts, m, hleads, hmanifest, rfl⟩
    obtain ⟨hfollows, hstat⟩ := follows_nested ht hroute haccess hleads hbefore
    exact .nested hkey ((holds_iff_of_follows ht hfollows hnested hstat).mpr h)

end

/-! ## 5. Trees whose entries can be followed -/

/-- Each entry of each folder of a tree can be followed. -/
def EntriesFollowed (t : FileTree) : Prop :=
  ∀ place entries, t.root.at? place = some (.folder entries) →
    ∀ n ∈ Table.keys entries, t.CanStat (FileTree.pathOf (place ++ [n]))

/-- Then each name in a folder can be followed under each path to the folder that leads on
without running out of links. -/
theorem EntriesFollowed.canStat (h : EntriesFollowed t) (ht : t.WellFormed) {folder n : String}
    (hpath : IsPlace folder) (hfolder : t.isFolder folder = true) (hn : IsName n)
    (hlinks : t.find (Path.join folder n) ≠ .error .tooManyLinks) :
    t.CanStat (Path.join folder n) := by
  obtain ⟨place, entries, hfind⟩ := FileTree.exists_find_of_isFolder hfolder
  have hentry := (FileTree.at?_of_find ht hfind).1
  have hplace := (ht.entries.at? hentry).2
  have hall : ∀ m ∈ place ++ [n], IsName m := by
    simpa [or_imp, forall_and] using ⟨hplace, hn⟩
  let q : Place := ⟨1, place, Or.inl rfl, hplace⟩
  let inside : Place := ⟨1, place ++ [n], Or.inl rfl, hall⟩
  have hreal : t.find (Path.join q.path n) = t.find (Path.join folder n) := by
    rw [show q.path = t.realPath folder from (FileTree.realPath_of_find hfind).symm]
    exact FileTree.follows_realPath ht hpath hfolder hn [] (by simp) hlinks
  have hjoin : t.find (Path.join q.path n) = t.follow 40 [] (place ++ [n]) :=
    FileTree.find_foldl_join ht q (List.forall_mem_singleton.mpr hn)
  rw [FileTree.canStat_iff, ← hreal, hjoin]
  by_cases hkey : n ∈ Table.keys entries
  · have hstat := h place entries hentry n hkey
    have hinside : t.find (FileTree.pathOf (place ++ [n])) = t.follow 40 [] (place ++ [n]) :=
      FileTree.find_place ht inside
    rwa [FileTree.canStat_iff, hinside] at hstat
  · have halong := FileTree.along_at? [] hplace hentry (FileTree.noLink_of_folder hentry)
    rw [FileTree.follow_append, halong]
    intro f hf
    have hmissing := FileTree.follow_missing hentry hn hkey 40 []
    exact (Except.error.inj (hmissing.symm.trans hf)).symm

/-- **What is asked of routes** holds of a tree whose entries can be followed, if no path
on a route runs out of links. -/
theorem routesAccessible_of_entriesFollowed (ht : t.WellFormed) (h : EntriesFollowed t)
    (hlinks : ∀ seen modules, Route t project seen modules → seen.length ≤ maxDepth →
      ∀ names : List String, names.length ≤ 3 →
        t.find (names.foldl Path.join modules) ≠ .error .tooManyLinks) :
    RoutesAccessible t project maxDepth := by
  intro seen modules hroute hseen
  have hplace := hroute.isPlace ht
  have hlimit := hlinks seen modules hroute hseen
  have hinside {folder n : String} (hn : n ∈ t.listed folder) (hpath : IsPlace folder)
      (hlinks : t.find (Path.join folder n) ≠ .error .tooManyLinks) :
      t.CanStat (Path.join folder n) := by
    obtain ⟨place, entries, hfind, -⟩ := FileTree.mem_listed_iff.mp hn
    have hfolder : t.isFolder folder = true := by rw [FileTree.isFolder, hfind]
    exact h.canStat ht hpath hfolder (FileTree.isName_of_mem_listed ht hn) hlinks
  refine ⟨fun n hn _ => ?_, fun scope hscope _ n hn _ => ?_, fun parts hleads n hn => ?_⟩
  · exact hinside hn hplace (hlimit [n] (by simp))
  · exact hinside hn (hplace.join (FileTree.isName_of_mem_listed ht hscope))
      (hlimit [scope, n] (by simp))
  · have hname : IsName n := by
      rcases List.mem_pair.mp hn with rfl | rfl <;> decide
    have hlength : (parts ++ [n]).length ≤ 3 := by
      cases hleads <;> simp
    have hmore := hlimit (parts ++ [n]) hlength
    rw [List.foldl_append] at hmore
    exact h.canStat ht (isPlace_folderOf ht hplace hleads) hleads.isFolder hname hmore

end Installed

end PackageAudit
