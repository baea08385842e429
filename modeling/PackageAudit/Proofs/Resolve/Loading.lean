/-
PackageAudit.Proofs.Resolve.Loading — when the configuration of the resolver
can be loaded.

Every part of the configuration is read by itself, and the whole can be loaded
exactly when each part can (`load_returns`). In a compiler configuration and
those that it extends only what is said to be extended must be texts; in the
tables of the test runner only the patterns matter, and of these only what they
ask for.
-/
import PackageAudit.Proofs.FileTree.Texts
import PackageAudit.Proofs.Resolve.Extends
import PackageAudit.Proofs.Resolve.Unbundled
import PackageAudit.Resolve.Load

namespace PackageAudit

/-! ## 1. Aliases -/

namespace AliasConfig

variable {x : Context}

theorem exists_collect_iff {α : Type} {f : α → Except ConfigError Found} {items : List α} :
    (∃ found, collect f items = .ok found) ↔ ∀ item ∈ items, ∃ found, f item = .ok found := by
  induction items with
  | nil => simp [collect]
  | cons item items ih =>
    rw [List.forall_mem_cons, ← ih, collect]
    simp only [bind_eq_ok_iff]
    constructor
    · rintro ⟨_, first, hfirst, rest, hrest, -⟩
      exact ⟨⟨first, hfirst⟩, rest, hrest⟩
    · rintro ⟨⟨first, hfirst⟩, rest, hrest⟩
      exact ⟨_, first, hfirst, rest, hrest, rfl⟩

/-- What is no pattern is so for how it is written. -/
def Asks (pattern flags : String) : Prop :=
  ∀ e, Regex.Pattern.ofLiteral pattern flags = .error e → e.fault.isSyntax = true

theorem exists_ofPattern_iff {source : AliasSource} {path pattern flags target : String}
    {isPath : Bool} : (∃ found, ofPattern source path pattern flags target isPath = .ok found) ↔
      Asks pattern flags := by
  unfold ofPattern Asks
  cases Regex.Pattern.ofLiteral pattern flags with
  | ok p => simp
  | error e => by_cases h : e.fault.isSyntax = true <;> simp [h]

/-- The mappers of the JSON files: those of the test runner, and the manifest. -/
def documentMappers (x : Context) : List Mapper :=
  jsonMappers x "jest.config.json" id ++
    jsonMappers x "package.json" fun data => (data.member? "jest").getD .null

theorem exists_ofTestRunner_iff : (∃ found, ofTestRunner x = .ok found) ↔
    ∃ mappers warnings, scriptMappers x (configFiles x "jest.config") = .ok (mappers, warnings) ∧
      ∀ m ∈ documentMappers x ++ mappers, Asks m.pattern "" := by
  have hmappers : ∀ mappers : List Mapper, (∀ m ∈ mappers, Asks m.pattern "") ↔
      ∃ found, collect (Mapper.toAlias x) mappers = .ok found := by
    intro mappers
    rw [exists_collect_iff]
    exact forall₂_congr fun m _ => exists_ofPattern_iff.symm
  simp only [hmappers]
  unfold ofTestRunner
  simp only [bind_eq_ok_iff]
  constructor
  · rintro ⟨_, ⟨mappers, warnings⟩, hscripts, found, hfound, -⟩
    exact ⟨mappers, warnings, hscripts, found, hfound⟩
  · rintro ⟨mappers, warnings, hscripts, found, hfound⟩
    exact ⟨_, (mappers, warnings), hscripts, found, hfound, rfl⟩

end AliasConfig

/-! ## 2. The whole configuration -/

namespace ResolverConfig

open AliasConfig CompilerOptions

theorem exists_optionAlias_iff {x : Context} {row : List Json} :
    (∃ a, optionAlias x row = .ok a) ↔ ∃ key target, row = [.str key, .str target] := by
  constructor
  · rintro ⟨a, ha⟩
    unfold optionAlias at ha
    split at ha
    · exact ⟨_, _, rfl⟩
    all_goals cases ha
  · rintro ⟨key, target, rfl⟩
    exact ⟨_, rfl⟩

variable {t : FileTree} {root : String}

/-- The settings of a compiler configuration can be had exactly when each one
read tells by texts what it extends. -/
theorem exists_compilerSettings_iff : (∃ settings, compilerSettings t root = .ok settings) ↔
    ∀ path, compilerConfig? t root = some path →
      ∃ chain, Follows t root {} [path] chain ∧ chain.ExtendsTexts := by
  unfold compilerSettings
  cases compilerConfig? t root with
  | none => simp
  | some path =>
    obtain ⟨chain, hfollows, -⟩ := exists_follows t root path
    simp only [Option.elim_some, Option.some.injEq, forall_eq']
    constructor
    · rintro ⟨settings, hsettings⟩
      refine ⟨chain, hfollows, ?_⟩
      by_contra hother
      obtain ⟨e, he⟩ := load_eq_error hfollows hother
      cases hsettings.symm.trans he
    · rintro ⟨chain, hfollows, htexts⟩
      exact ⟨_, load_eq hfollows htexts⟩

/-- **Loading the configuration.** It succeeds exactly when what is extended is
told by texts, the rows of the alias table are keys and targets, the scripts of
bundlers and of the test runner can be made out, and the patterns of the test
runner do not ask for too much. Then it has the settings of the compiler
configuration, and the warnings about that one come first. -/
theorem load_returns (t : FileTree) (project : String) (aliases : List (List Json))
    (reader : Script.Reader) :
    let root := Path.absolute "/" project
    let x : Context := ⟨t, root, reader⟩
    ((∃ config warnings, load t project aliases reader = .ok (config, warnings)) ↔
      (∀ path, compilerConfig? t root = some path →
        ∃ chain, Follows t root {} [path] chain ∧ chain.ExtendsTexts) ∧
      (∀ row ∈ aliases, ∃ key target, row = [.str key, .str target]) ∧
      (∃ found, ofBundler x .vite "vite.config" = .ok found) ∧
      (∃ found, ofBundler x .vite "vitest.config" = .ok found) ∧
      (∃ found, ofBundler x .webpack "webpack.config" = .ok found) ∧
      ∃ mappers warnings, scriptMappers x (configFiles x "jest.config") = .ok (mappers, warnings) ∧
        ∀ m ∈ documentMappers x ++ mappers, Asks m.pattern "") ∧
    ∀ config warnings path, load t project aliases reader = .ok (config, warnings) →
      compilerConfig? t root = some path →
      ∃ chain, Follows t root {} [path] chain ∧ chain.warnings <+: warnings ∧
        config.baseUrl = (settingsOf chain.configs).baseUrl ∧
        config.pathMappings = mappingsOf (settingsOf chain.configs) := by
  intro root x
  constructor
  · constructor
    · rintro ⟨config, warnings, hload⟩
      obtain ⟨settings, hsettings, given, hgiven, vite, hvite, vitest, hvitest, webpack, hwebpack,
        jest, hjest, -⟩ := load_eq_ok_iff.mp hload
      refine ⟨exists_compilerSettings_iff.mp ⟨_, hsettings⟩, fun row hrow => ?_, ⟨_, hvite⟩,
        ⟨_, hvitest⟩, ⟨_, hwebpack⟩, exists_ofTestRunner_iff.mp ⟨_, hjest⟩⟩
      exact exists_optionAlias_iff.mp (exists_mapM_eq_ok_iff.mp ⟨_, hgiven⟩ row hrow)
    · rintro ⟨hcompiler, hrows, ⟨vite, hvite⟩, ⟨vitest, hvitest⟩, ⟨webpack, hwebpack⟩, hrunner⟩
      obtain ⟨settings, hsettings⟩ := exists_compilerSettings_iff.mpr hcompiler
      obtain ⟨jest, hjest⟩ := exists_ofTestRunner_iff.mpr hrunner
      obtain ⟨given, hgiven⟩ := exists_mapM_eq_ok_iff.mpr fun row hrow =>
        exists_optionAlias_iff.mpr (hrows row hrow)
      exact ⟨_, _, load_eq_ok_iff.mpr ⟨settings, hsettings, given, hgiven, vite, hvite, vitest,
        hvitest, webpack, hwebpack, jest, hjest, rfl⟩⟩
  · intro config warnings path hload hpath
    obtain ⟨settings, hsettings, given, -, vite, -, vitest, -, webpack, -, jest, -, hresult⟩ :=
      load_eq_ok_iff.mp hload
    obtain ⟨chain, hfollows, htexts⟩ :=
      exists_compilerSettings_iff.mp ⟨settings, hsettings⟩ path hpath
    rw [compilerSettings, hpath, Option.elim_some, load_eq hfollows htexts] at hsettings
    obtain rfl := Except.ok.inj hsettings
    obtain ⟨rfl, rfl⟩ := Prod.mk.inj hresult
    exact ⟨chain, hfollows, List.prefix_append _ _, rfl, rfl⟩

/-- A project whose compiler configuration extends another one. -/
def baseExtended : FileTree := ⟨.folder [("p", .folder [
  ("base.json", .file (Text.Utf8.encode
    "\x7b\"compilerOptions\": \x7b\"baseUrl\": \"src\"\x7d\x7d")),
  ("tsconfig.json", .file (Text.Utf8.encode "\x7b\"extends\": \"./base.json\"\x7d"))])]⟩

theorem plain_baseExtended : baseExtended.Plain where
  root := ⟨_, rfl⟩
  entries := Entry.Plain.empty.put (by decide)
    ((Entry.Plain.empty.put (n := "base.json") (by decide) (.file _)).put (n := "tsconfig.json")
      (by decide) (.file _))

theorem unbundled_baseExtended : Unbundled baseExtended "/p" where
  missing := missing_of_keys plain_baseExtended ⟨1, ["p"], Or.inl rfl, by decide⟩ rfl
    isName_of_mem_bundlerFiles (by decide)
  mappers _ := jsonMappers_of_missing rfl

/-- Both configurations of the project are read, and the base is that of the
second one. -/
theorem follows_baseExtended : ∃ chain, Follows baseExtended "/p" {} ["/p/tsconfig.json"] chain ∧
    chain.ExtendsTexts ∧ (settingsOf chain.configs).baseUrl = some "/p/src" := by
  let named : Table Json := [("extends", .str "./base.json")]
  let base : Table Json := [("compilerOptions", .obj [("baseUrl", .str "src")])]
  let first : Chain := (({} : Chain).see baseExtended "/p/tsconfig.json").take baseExtended "/p"
    "/p/tsconfig.json" named
  let last : Chain := (first.see baseExtended "/p/base.json").take baseExtended "/p"
    "/p/base.json" base
  have hnamed : baseExtended.readRelaxed "/p/tsconfig.json" = .ok (.obj named) :=
    FileTree.readRelaxed_of_write rfl rfl ⟨by decide, by decide, by with_unfolding_all rfl⟩
  have hbase : baseExtended.readRelaxed "/p/base.json" = .ok (.obj base) :=
    FileTree.readRelaxed_of_write rfl rfl ⟨by decide, by decide, by with_unfolding_all rfl⟩
  have hfiles : filesOf baseExtended "/p" "/p/tsconfig.json" (basesOf named) =
      ["/p/base.json"] := by
    decide +kernel
  have hnew : baseExtended.realPath "/p/base.json" ∉ first.seen := by decide
  have hrest : Follows baseExtended "/p" first ["/p/base.json"] last :=
    .taken hnew hbase (.done _)
  have hpending : (filesOf baseExtended "/p" "/p/tsconfig.json" (basesOf named)).reverse ++ [] =
      ["/p/base.json"] := by
    rw [hfiles]
    rfl
  refine ⟨last, .taken (by simp) hnamed (hpending ▸ hrest), ?_, by decide⟩
  intro file hfile
  have hcases : file = ("/p/tsconfig.json", named) ∨ file = ("/p/base.json", base) := by
    simpa [last, first, Chain.take, Chain.see] using hfile
  have hbases : basesOf named = [.str "./base.json"] ∧ basesOf base = [] := ⟨rfl, rfl⟩
  rcases hcases with rfl | rfl
  · simp [hbases.1]
  · simp [hbases.2]

/-- Such a project has a configuration, with the base that is extended. -/
theorem load_returns_baseExtended :
    ∃ config warnings, load baseExtended "/p" [] = .ok (config, warnings) ∧
      config.baseUrl = some "/p/src" := by
  obtain ⟨chain, hfollows, htexts, hbase⟩ := follows_baseExtended
  have hconfig : compilerConfig? baseExtended "/p" = some "/p/tsconfig.json" := by rfl
  obtain ⟨hreturns, hsettings⟩ := load_returns baseExtended "/p" [] Script.read
  have hroot : Path.absolute "/" "/p" = "/p" := by rfl
  simp only [hroot] at hreturns hsettings
  have hcompiler : ∀ path, compilerConfig? baseExtended "/p" = some path →
      ∃ chain, Follows baseExtended "/p" {} [path] chain ∧ chain.ExtendsTexts := by
    intro path hpath
    obtain rfl : "/p/tsconfig.json" = path := Option.some.inj (hconfig.symm.trans hpath)
    exact ⟨chain, hfollows, htexts⟩
  have hmappers : documentMappers ⟨baseExtended, "/p", Script.read⟩ = [] := by decide +kernel
  have hvite := unbundled_baseExtended.ofBundler Script.read .vite "vite.config" (by simp)
  have hvitest := unbundled_baseExtended.ofBundler Script.read .vite "vitest.config" (by simp)
  have hwebpack := unbundled_baseExtended.ofBundler Script.read .webpack "webpack.config" (by simp)
  have hscripts : scriptMappers ⟨baseExtended, "/p", Script.read⟩
      (configFiles ⟨baseExtended, "/p", Script.read⟩ "jest.config") = .ok ([], []) := by
    rw [unbundled_baseExtended.configFiles "jest.config" (by simp)]
    rfl
  obtain ⟨config, warnings, hload⟩ := hreturns.mpr ⟨hcompiler, by simp, ⟨_, hvite⟩, ⟨_, hvitest⟩,
    ⟨_, hwebpack⟩, [], [], hscripts, by simp [hmappers]⟩
  obtain ⟨chain', hfollows', -, hbase', -⟩ := hsettings config warnings _ hload hconfig
  obtain rfl := hfollows.unique hfollows'
  exact ⟨config, warnings, hload, hbase'.trans hbase⟩

/-- A project whose compiler configuration extends a number. -/
def numberExtended : FileTree := ⟨.folder [("p", .folder [
  ("tsconfig.json", .file (Text.Utf8.encode "\x7b\"extends\": [1]\x7d"))])]⟩

/-- The number is no warning. -/
theorem load_numberExtended :
    ¬ ∃ config warnings, load numberExtended "/p" [] = .ok (config, warnings) := by
  have herror : load numberExtended "/p" [] = .error (.unexpectedValue (.int 1)) := by
    with_unfolding_all rfl
  rintro ⟨config, warnings, hload⟩
  cases herror.symm.trans hload

end ResolverConfig

end PackageAudit
