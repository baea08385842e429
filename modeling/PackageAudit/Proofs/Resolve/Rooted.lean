/-
PackageAudit.Proofs.Resolve.Rooted — the paths in a resolver's configuration.

A compiler configuration may name its base and its targets by relative paths,
and it may take both from configurations that it extends. Each of them is seen
from the folder of the file that has it, and these files are found from the
root of the project. So all paths of a configuration that was loaded start at
the root (`rooted_of_load`).
-/
import PackageAudit.Proofs.Path.Place
import PackageAudit.Proofs.Resolve.Unbundled

namespace PackageAudit

open PackageAudit.Path (isAbsolute IsSuffix)

/-! ## 1. Chains of configurations -/

namespace CompilerOptions

variable {t : FileTree} {root path : String}

/-- The configurations read so far are at paths from the root. -/
def Chain.Rooted (c : Chain) : Prop := ∀ config ∈ c.configs, isAbsolute config.1 = true

theorem isAbsolute_extendedFile? {folder base file : String} (hroot : isAbsolute root = true)
    (hfolder : isAbsolute folder = true) (h : extendedFile? t root folder base = some file) :
    isAbsolute file = true := by
  unfold extendedFile? at h
  extract_lets candidate at h
  have hcandidate : isAbsolute candidate = true := by
    dsimp only [candidate]
    split
    · exact Path.isAbsolute_normalize (Path.isAbsolute_join hfolder base)
    · exact Path.isAbsolute_joinAll hroot ["node_modules", base]
  have hmem := List.mem_of_find?_eq_some h
  simp only [List.mem_cons, List.not_mem_nil, or_false] at hmem
  rcases hmem with rfl | rfl | rfl
  · exact hcandidate
  · exact Path.isAbsolute_append hcandidate ".json"
  · exact Path.isAbsolute_join hcandidate "tsconfig.json"

theorem isAbsolute_of_mem_extendedFiles (hroot : isAbsolute root = true)
    (hpath : isAbsolute path = true) {bases : List Json} {files : List String}
    {warnings : List Warning} (h : extendedFiles t root path bases = .ok (files, warnings)) :
    ∀ file ∈ files, isAbsolute file = true := by
  induction bases generalizing files warnings with
  | nil =>
    cases h
    simp
  | cons base bases ih =>
    cases base with
    | str base =>
      rw [extendedFiles, bind_eq_ok_iff] at h
      obtain ⟨⟨rest, more⟩, hrest, h⟩ := h
      dsimp only at h
      split at h
      · rename_i file hfile
        cases h
        have habsolute := isAbsolute_extendedFile? hroot (Path.isAbsolute_parent hpath) hfile
        exact List.forall_mem_cons.mpr ⟨habsolute, ih hrest⟩
      · cases h
        exact ih hrest
    | _ => cases h

theorem Chain.Rooted.readConfig {c : Chain} (hc : c.Rooted) (hpath : isAbsolute path = true) :
    (readConfig t c path).1.Rooted := by
  unfold CompilerOptions.readConfig
  split
  · exact hc
  · intro config hconfig
    rcases List.mem_append.mp hconfig with hconfig | hconfig
    · exact hc config hconfig
    · rw [List.mem_singleton.mp hconfig]
      exact hpath
  · exact hc

/-- Reading on keeps to paths from the root. -/
theorem Chain.Rooted.readChain (hroot : isAbsolute root = true) {fuel : Nat} {c c' : Chain}
    (hc : c.Rooted) (hpath : isAbsolute path = true)
    (h : CompilerOptions.readChain t root fuel c path = .ok c') : c'.Rooted := by
  induction fuel generalizing c c' path with
  | zero =>
    cases h
    exact hc
  | succ fuel ih =>
    rw [CompilerOptions.readChain] at h
    split at h
    · cases h
      exact hc
    have hread := Chain.Rooted.readConfig (t := t)
      (c := { c with seen := t.realPath path :: c.seen }) hc hpath
    split at h
    · rename_i hstep
      cases h
      rwa [hstep] at hread
    · rename_i read data hstep
      rw [hstep] at hread
      rw [bind_eq_ok_iff] at h
      obtain ⟨⟨files, warnings⟩, hfiles, h⟩ := h
      have habsolute := isAbsolute_of_mem_extendedFiles hroot hpath hfiles
      dsimp only at h
      refine foldlM_preserves (P := Chain.Rooted) ?_ ?_ h
      swap
      · exact hread
      intro before file after hfile hbefore hstep
      exact ih hbefore (habsolute file (List.mem_reverse.mp hfile)) hstep

/-! ## 2. Settings -/

/-- The base of all paths and the folder of the mappings are paths from the root. -/
structure Settings.Rooted (s : Settings) : Prop where
  baseUrl : ∀ base ∈ s.baseUrl, isAbsolute base = true
  paths : ∀ m ∈ s.paths, isAbsolute m.2 = true

theorem Settings.Rooted.override {s : Settings} (hs : s.Rooted) (hpath : isAbsolute path = true)
    (data : Table Json) : (s.override path data).Rooted := by
  have hfolder := Path.isAbsolute_parent hpath
  unfold Settings.override
  split
  · constructor
    · dsimp only
      split
      · intro base hbase
        rw [Option.mem_some_iff] at hbase
        rw [← hbase]
        exact Path.isAbsolute_normalize (Path.isAbsolute_join hfolder _)
      · exact hs.baseUrl
    · dsimp only
      split
      · intro m hm
        rw [Option.mem_some_iff] at hm
        rw [← hm]
        exact hfolder
      · exact hs.paths
  · exact hs

theorem rooted_settingsOf {configs : List (String × Table Json)}
    (h : ∀ config ∈ configs, isAbsolute config.1 = true) : (settingsOf configs).Rooted := by
  induction configs with
  | nil => exact ⟨by simp [settingsOf], by simp [settingsOf]⟩
  | cons config configs ih =>
    rw [List.forall_mem_cons] at h
    exact (ih h.2).override h.1 config.2

theorem isAbsolute_of_mem_mappingsOf {s : Settings} (hs : s.Rooted) {m : PathMapping}
    (hm : m ∈ mappingsOf s) {target : String} (htarget : target ∈ m.targets) :
    isAbsolute target = true := by
  unfold mappingsOf at hm
  split at hm
  · cases hm
  · rename_i patterns folder hpaths
    obtain ⟨⟨pattern, targets⟩, -, hmapping⟩ := List.mem_filterMap.mp hm
    have hbase : isAbsolute (s.baseUrl.getD folder) = true := by
      cases hbase : s.baseUrl with
      | none => exact hs.paths _ hpaths
      | some base => exact hs.baseUrl base hbase
    have hplace : ∀ text, isAbsolute (Path.normalize (Path.join (s.baseUrl.getD folder) text)) =
        true := fun text => Path.isAbsolute_normalize (Path.isAbsolute_join hbase text)
    cases targets with
    | str text =>
      cases hmapping
      rw [List.mem_singleton.mp htarget]
      exact hplace text
    | arr texts =>
      cases hmapping
      obtain ⟨text, -, rfl⟩ := List.mem_map.mp htarget
      exact hplace text
    | _ => cases hmapping

theorem rooted_of_load (hroot : isAbsolute root = true) (hpath : isAbsolute path = true)
    {baseUrl : Option String} {mappings : List PathMapping} {warnings : List Warning}
    (h : load t root path = .ok (baseUrl, mappings, warnings)) :
    (∀ base ∈ baseUrl, isAbsolute base = true) ∧
      ∀ m ∈ mappings, ∀ target ∈ m.targets, isAbsolute target = true := by
  rw [load, bind_eq_ok_iff] at h
  obtain ⟨chain, hchain, h⟩ := h
  simp only [pure, Except.pure, Except.ok.injEq, Prod.mk.injEq] at h
  obtain ⟨rfl, rfl, -⟩ := h
  have hsettings := rooted_settingsOf
    (Chain.Rooted.readChain hroot (c := {}) (by simp [Chain.Rooted]) hpath hchain)
  exact ⟨hsettings.baseUrl, fun m hm target => isAbsolute_of_mem_mappingsOf hsettings hm⟩

end CompilerOptions

/-! ## 3. Configurations -/

namespace ResolverConfig

/-- The paths of a configuration start at the root, and its extensions can
stand behind any name. -/
structure Rooted (c : ResolverConfig) : Prop where
  root : isAbsolute c.root = true
  extensions : ∀ e ∈ c.extensions, IsSuffix e
  baseUrl : ∀ base ∈ c.baseUrl, isAbsolute base = true
  targets : ∀ m ∈ c.pathMappings, ∀ target ∈ m.targets, isAbsolute target = true

theorem isAbsolute_compilerConfig? {t : FileTree} {root path : String}
    (hroot : isAbsolute root = true) (h : compilerConfig? t root = some path) :
    isAbsolute path = true := by
  obtain ⟨name, -, rfl⟩ := List.mem_map.mp (List.mem_of_find?_eq_some h)
  exact Path.isAbsolute_join hroot name

/-- **Loaded configurations.** All paths of a configuration that was loaded start
at the root. -/
theorem rooted_of_load {t : FileTree} {project : String} {aliases : List (List Json)}
    {reader : Script.Reader} {c : ResolverConfig} {warnings : List Warning}
    (h : load t project aliases reader = .ok (c, warnings)) : c.Rooted := by
  obtain ⟨settings, hsettings, given, -, vite, -, vitest, -, webpack, -, jest, -, hresult⟩ :=
    load_eq_ok_iff.mp h
  obtain rfl := (Prod.mk.inj hresult).1
  have hroot : isAbsolute (Path.absolute "/" project) = true :=
    Path.isAbsolute_absolute (by decide) project
  have hpaths : (∀ base ∈ settings.1, isAbsolute base = true) ∧
      ∀ m ∈ settings.2.1, ∀ target ∈ m.targets, isAbsolute target = true := by
    unfold compilerSettings at hsettings
    cases hpath : compilerConfig? t (Path.absolute "/" project) with
    | none =>
      rw [hpath, Option.elim_none] at hsettings
      obtain rfl := Except.ok.inj hsettings
      simp
    | some path =>
      rw [hpath, Option.elim_some] at hsettings
      exact CompilerOptions.rooted_of_load hroot (isAbsolute_compilerConfig? hroot hpath) hsettings
  -- The projections go first: comparing a path with one would evaluate the path.
  constructor <;> dsimp only
  · exact hroot
  · decide
  · exact hpaths.1
  · exact hpaths.2

end ResolverConfig

end PackageAudit
