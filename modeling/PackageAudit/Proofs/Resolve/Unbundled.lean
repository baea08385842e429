/-
PackageAudit.Proofs.Resolve.Unbundled — the parts of a configuration, and
projects without configurations of bundlers and of a test runner.

A configuration of the resolver is put together from parts, each of which can
fail by itself (`load_eq_ok_iff`). Most of the files in which there may be one
are missing in most projects. Where they are, the configuration is that of the
compiler, with the aliases that are given as options (`Unbundled.load`).
-/
import PackageAudit.Proofs.Collection
import PackageAudit.Proofs.FileTree.Plain
import PackageAudit.Resolve.Load

namespace PackageAudit

open PackageAudit.Path (IsName Place)

namespace ResolverConfig

variable {reader : Script.Reader} {t : FileTree} {root : String}

/-! ## 1. Parts -/

/-- The settings of the compiler configuration of a project, if there is one. -/
def compilerSettings (t : FileTree) (root : String) :
    Except ConfigError (Option String × List PathMapping × List Warning) :=
  (compilerConfig? t root).elim (.ok (none, [], [])) (CompilerOptions.load t root)

/-- What loading gives, part by part. -/
theorem load_eq_ok_iff {project : String} {aliases : List (List Json)}
    {result : ResolverConfig × List Warning} :
    let x : AliasConfig.Context := ⟨t, Path.absolute "/" project, reader⟩
    load t project aliases reader = .ok result ↔
      ∃ settings, compilerSettings t (Path.absolute "/" project) = .ok settings ∧
      ∃ given, aliases.mapM (optionAlias x) = .ok given ∧
      ∃ vite, AliasConfig.ofBundler x .vite "vite.config" = .ok vite ∧
      ∃ vitest, AliasConfig.ofBundler x .vite "vitest.config" = .ok vitest ∧
      ∃ webpack, AliasConfig.ofBundler x .webpack "webpack.config" = .ok webpack ∧
      ∃ jest, AliasConfig.ofTestRunner x = .ok jest ∧
        ({ root := Path.absolute "/" project, baseUrl := settings.1, pathMappings := settings.2.1,
           aliases := given ++ (((vite.append vitest).append webpack).append jest).1 },
          settings.2.2 ++ (((vite.append vitest).append webpack).append jest).2) = result := by
  unfold load compilerSettings
  dsimp only
  cases compilerConfig? t (Path.absolute "/" project) <;>
    simp only [bind_eq_ok_iff, pure, Except.pure, Option.elim_none, Option.elim_some,
      Except.ok.injEq]

/-! ## 2. Missing configurations -/

/-- The names of configurations of bundlers and of the test runner. -/
def bundlerFiles : List String :=
  "jest.config.json" :: ["vite.config", "vitest.config", "webpack.config", "jest.config"].flatMap
    fun stem => [".js", ".ts", ".mjs", ".cjs", ".mts", ".cts"].map (stem ++ ·)

theorem isName_of_mem_bundlerFiles : ∀ n ∈ bundlerFiles, IsName n := by decide

/-- A project without configurations of bundlers and of a test runner, in files of
their own and in the manifest. -/
structure Unbundled (t : FileTree) (root : String) : Prop where
  missing : ∀ name ∈ bundlerFiles, t.isFile (Path.join root name) = false
  mappers : ∀ reader, AliasConfig.jsonMappers ⟨t, root, reader⟩ "package.json"
    (fun data => (data.member? "jest").getD .null) = []

/-- A JSON file that is missing has no mappers. -/
theorem jsonMappers_of_missing {name : String} {part : Json → Json}
    (h : t.isFile (Path.join root name) = false) :
    AliasConfig.jsonMappers ⟨t, root, reader⟩ name part = [] := by
  simp only [AliasConfig.jsonMappers, h]
  rfl

/-- Files are missing if their names are. -/
theorem missing_of_keys (ht : t.Plain) (q : Place) {entries : List (String × Entry)}
    (hentries : t.root.at? q.names = some (.folder entries)) {names : List String}
    (hnames : ∀ n ∈ names, IsName n) (hkeys : ∀ n ∈ names, n ∉ Table.keys entries) :
    ∀ n ∈ names, t.isFile (Path.join q.path n) = false := by
  intro n hn
  have hname := hnames n hn
  have hpath : (q.inside n hname).path = Path.join q.path n :=
    (q.path_inside hname).trans (q.join_path (Path.isAbsolute_of_noSlash hname.noSlash)).symm
  have hnone : t.root.at? (q.names ++ [n]) = none := by
    rw [Entry.at?_append, hentries, Option.bind_some, Entry.at?, Entry.child?,
      Table.get?_eq_none_iff.mpr (hkeys n hn)]
    rfl
  rw [← hpath]
  exact FileTree.isFile_path_eq_false ht hnone

namespace Unbundled

variable (h : Unbundled t root)

include h

theorem configFiles (stem : String)
    (hstem : stem ∈ ["vite.config", "vitest.config", "webpack.config", "jest.config"]) :
    AliasConfig.configFiles ⟨t, root, reader⟩ stem = [] := by
  refine List.filter_eq_nil_iff.mpr fun path hpath => ?_
  obtain ⟨e, he, rfl⟩ := List.mem_map.mp hpath
  have hfile : stem ++ e ∈ bundlerFiles :=
    List.mem_cons_of_mem _ (List.mem_flatMap.mpr ⟨stem, hstem, List.mem_map_of_mem he⟩)
  rw [h.missing _ hfile]
  exact Bool.false_ne_true

theorem ofBundler (reader : Script.Reader) (source : AliasSource) (stem : String)
    (hstem : stem ∈ ["vite.config", "vitest.config", "webpack.config", "jest.config"]) :
    AliasConfig.ofBundler ⟨t, root, reader⟩ source stem = .ok ([], []) := by
  rw [AliasConfig.ofBundler, h.configFiles stem hstem]
  rfl

theorem ofTestRunner : AliasConfig.ofTestRunner ⟨t, root, reader⟩ = .ok ([], []) := by
  have hjson : AliasConfig.jsonMappers ⟨t, root, reader⟩ "jest.config.json" id = [] :=
    jsonMappers_of_missing (h.missing "jest.config.json" List.mem_cons_self)
  rw [AliasConfig.ofTestRunner, hjson, h.mappers, h.configFiles "jest.config" (by simp)]
  rfl

/-- **Configurations without bundlers.** What the compiler configuration says, and
the aliases that are given. -/
theorem load {project : String} (hroot : Path.absolute "/" project = root)
    {aliases : List (List Json)} {given : List Alias}
    (hgiven : aliases.mapM (optionAlias ⟨t, root, reader⟩) = .ok given)
    {settings : Option String × List PathMapping × List Warning}
    (hsettings : compilerSettings t root = .ok settings) :
    ResolverConfig.load t project aliases reader =
      .ok ({ root, baseUrl := settings.1, pathMappings := settings.2.1, aliases := given },
        settings.2.2) := by
  subst hroot
  have hvite := h.ofBundler reader .vite "vite.config" (by simp)
  have hvitest := h.ofBundler reader .vite "vitest.config" (by simp)
  have hwebpack := h.ofBundler reader .webpack "webpack.config" (by simp)
  refine load_eq_ok_iff.mpr ⟨settings, hsettings, given, hgiven, _, hvite, _, hvitest, _, hwebpack,
    _, h.ofTestRunner, ?_⟩
  simp only [AliasConfig.Found.append, List.append_nil]

end Unbundled

end ResolverConfig

end PackageAudit
