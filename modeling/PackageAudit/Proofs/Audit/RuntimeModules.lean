/-
PackageAudit.Proofs.Audit.RuntimeModules — what an audit makes of the modules
of the runtime and of addresses.

Neither is a package. A name that a run takes for one comes from a reference
whose deciding specifier does not belong to the runtime
(`candidates_outside_runtime`). Addresses are kept out of what is written in a
source file, but not of what an alias puts there: such an address is cut at
its first slash and installed (`address_behind_alias_installed`).

What is imported of the runtime counts for its type definitions. An import is
told to be of the runtime by the name of its module, so it counts unless it
was of the runtime by its prefix alone (`runtime_import_counts`,
`prefixed_import_not_counted`).
-/
import PackageAudit.Proofs.Audit.OneFile
import PackageAudit.Proofs.Resolve.RuntimeName

namespace PackageAudit

/-! ## 1. Where the packages of a run come from -/

namespace Facts

variable {f : Facts}

/-- A missing package is imported. -/
theorem imports_of_missing (hm : f.manifest.Indexed) (hu : f.usages.Distinct) {i : Issue}
    (hi : i ∈ f.issues) (hkind : i.kind = .missing) : f.imports i.name = true := by
  have hpos := countAbout_pos hi hkind rfl
  rw [countAbout_main hm hu (Or.inl rfl)] at hpos
  by_contra himports
  simp [isUndeclared, himports] at hpos

/-- A declared package that is looked at and not used has its issue. -/
theorem unusedIssue_mem_issues {d : Declared} (hd : d ∈ f.manifest.dependencies)
    (h : f.isUnused d = true) : unusedIssue d ∈ f.issues :=
  List.mem_append_left _ (List.mem_append_left _
    (List.mem_map_of_mem (List.mem_filter.mpr ⟨hd, h⟩)))

/-- What an import leads to is an issue. -/
theorem mem_issues_of_mem_importIssues {name : String} {usages : List Usage} {i : Issue}
    (hu : (name, usages) ∈ f.usages) (hi : i ∈ f.importIssues name usages) : i ∈ f.issues := by
  have husage : i ∈ f.usageIssues :=
    List.mem_flatMap.mpr ⟨_, (List.mergeSort_perm f.usages _).mem_iff.mpr hu, hi⟩
  exact List.mem_append_left _ (List.mem_append_right _ husage)

/-- A name that has to be declared has its main issue. -/
theorem mainIssue_mem_issues {name : String} {usages : List Usage} (hu : (name, usages) ∈ f.usages)
    (h : f.isUndeclared name = true) : f.mainIssue name usages ∈ f.issues := by
  refine mem_issues_of_mem_importIssues hu ?_
  rw [importIssues_of_isUndeclared h, undeclaredIssues_eq]
  exact List.mem_cons_self

end Facts

namespace Audit

open Specifier (isAddress isBuiltin packageName stripped)

variable {r : Request} {m : Material} {rep : Report} {name : String}

/-- The packages of a run are those that specifiers stand for. -/
theorem Reads.exists_of_imports (h : Reads r m)
    (himports : (m.facts r.options).imports name = true) :
    ∃ s ∈ m.files, ∃ x ∈ s.references,
      Resolver.resolve r.tree m.config x.reference.specifier s.path
        (x.reference.kind == .stylesheetImport) = .ok (.external name false) := by
  obtain ⟨s, hs, x, hx, hmodule⟩ := SourceFile.mem_keys_usages.mp (Table.has_iff.mp himports)
  refine ⟨s, hs, x, hx, ?_⟩
  rw [h.module_eq hs hx] at hmodule
  cases hresolve : Resolver.resolve r.tree m.config x.reference.specifier s.path
      (x.reference.kind == .stylesheetImport) with
  | error e => simp [hresolve, Except.toOption] at hmodule
  | ok found => simpa [hresolve, Except.toOption] using hmodule

/-- Names that are reported as missing or installed are imported. -/
theorem imports_of_missing (hread : read r = .ok m) (hreport : report r m = .ok rep) {i : Issue}
    (hi : i ∈ rep.issues) (hkind : i.kind = .missing) :
    (m.facts r.options).imports i.name = true := by
  rw [issues_of_report hreport] at hi
  exact Facts.imports_of_missing ((read_eq_ok_iff.mp hread).indexed_manifest r.options)
    (distinct_usages_facts m r.options) (mem_issues_facts hi (Or.inl hkind)) hkind

/-- What classification finds is reported. -/
theorem mem_issues_of_mem_facts (hreport : report r m = .ok rep) {i : Issue}
    (hi : i ∈ (m.facts r.options).issues) : i ∈ rep.issues := by
  rw [issues_of_report hreport]
  exact List.mem_append_left _ (List.mem_append_left _ hi)

/-- **Packages are none of the runtime.** A specifier stands for a package
exactly if nothing but aliases and packages is left for it and the specifier
that decides does not belong to the runtime; it is an address only if it takes
the place of the one that was written. Every name that a run imports, reports
as missing or installs comes from such a specifier. -/
theorem candidates_outside_runtime (t : FileTree) (c : ResolverConfig) (specifier file : String)
    (stylesheet : Bool) (package : String) :
    (Resolver.resolve t c specifier file stylesheet = .ok (.external package false) ↔
      Resolver.Unplaced t c (stripped specifier) ∧
      ∃ source,
        Resolver.Decides t c (Path.parent file) (stripped specifier) stylesheet source ∧
        package = packageName source ∧ isBuiltin source = false ∧
        (isAddress source = true → source ≠ stripped specifier)) ∧
    ∀ (r : Request) (m : Material) (rep : Report), read r = .ok m → report r m = .ok rep →
      ∀ name,
        ((m.facts r.options).imports name = true ∨
          (∃ i ∈ rep.issues, i.kind = .missing ∧ i.name = name) ∨
          (∃ development, name ∈ rep.missingNames development)) →
        ∃ s ∈ m.files, ∃ x ∈ s.references, ∃ source,
          Resolver.Decides r.tree m.config (Path.parent s.path) (stripped x.reference.specifier)
            (x.reference.kind == .stylesheetImport) source ∧
          name = packageName source ∧ isBuiltin source = false ∧
          (isAddress source = true → source ≠ stripped x.reference.specifier) := by
  refine ⟨Resolver.resolve_eq_package_iff, ?_⟩
  intro r m rep hread hreport name hname
  have himports : (m.facts r.options).imports name = true := by
    rcases hname with himports | ⟨i, hi, hkind, rfl⟩ | ⟨development, hinstalled⟩
    · exact himports
    · exact imports_of_missing hread hreport hi hkind
    · obtain ⟨i, hi, -, hkind, rfl⟩ := Report.mem_missingNames.mp hinstalled
      exact imports_of_missing hread hreport hi hkind
  obtain ⟨s, hs, x, hx, hresolve⟩ := (read_eq_ok_iff.mp hread).exists_of_imports himports
  obtain ⟨-, source, hsource⟩ := Resolver.resolve_eq_package_iff.mp hresolve
  exact ⟨s, hs, x, hx, source, hsource⟩

/-- A project with a package and an alias for an address. -/
def aliasToAddress : Request :=
  oneFile "\x7b\x7d" "import 'cdn';\nimport 'lodash/fp';\n"
    [[.str "cdn", .str "https://cdn.example.com/lib.js"]]

/-- The alias of the project. -/
def cdnAlias : Alias where
  key := "cdn"
  target := "https://cdn.example.com/lib.js"
  kind := .ofPrefix
  isPath := false
  source := .options

/-- What the script of the project imports. -/
def aliasToAddressImports : List ResolvedReference := [
  ⟨⟨"cdn", .staticImport, "/p/index.js", 1⟩, some (.external "https:" false)⟩,
  ⟨⟨"lodash/fp", .staticImport, "/p/index.js", 2⟩, some (.external "lodash" false)⟩]

/-- What is read of the project. -/
def aliasToAddressRead : Material :=
  oneFileRead { path := "/p/package.json" } { root := "/p", aliases := [cdnAlias] }
    aliasToAddressImports

theorem reads_aliasToAddress : Reads aliasToAddress aliasToAddressRead :=
  reads_oneFile rfl ⟨by decide, by decide, by with_unfolding_all rfl⟩
    (by with_unfolding_all rfl) rfl (by with_unfolding_all rfl) (by decide +kernel)

theorem exists_report_aliasToAddress :
    ∃ rep, report aliasToAddress aliasToAddressRead = .ok rep :=
  ⟨_, rfl⟩

/-- A package that a specifier names itself. -/
theorem candidates_outside_runtime_lodash :
    ∃ m rep, read aliasToAddress = .ok m ∧ report aliasToAddress m = .ok rep ∧
      (m.facts aliasToAddress.options).imports "lodash" = true ∧
      ∃ s ∈ m.files, ∃ x ∈ s.references, ∃ source,
        Resolver.Decides aliasToAddress.tree m.config (Path.parent s.path)
          (stripped x.reference.specifier) (x.reference.kind == .stylesheetImport) source ∧
        "lodash" = packageName source ∧ isBuiltin source = false ∧
        (isAddress source = true → source ≠ stripped x.reference.specifier) := by
  have hread := read_eq_ok_iff.mpr reads_aliasToAddress
  obtain ⟨rep, hreport⟩ := exists_report_aliasToAddress
  have himports : (aliasToAddressRead.facts aliasToAddress.options).imports "lodash" = true := by
    rfl
  have hcandidates := (candidates_outside_runtime aliasToAddress.tree aliasToAddressRead.config
    "lodash/fp" "/p/index.js" false "lodash").2
  exact ⟨_, rep, hread, hreport, himports,
    hcandidates _ _ _ hread hreport "lodash" (Or.inl himports)⟩

/-- The alias puts an address in the place of a specifier. The address is cut at
its first slash, reported as a missing package and installed. -/
theorem address_behind_alias_installed :
    ∃ m rep, read aliasToAddress = .ok m ∧ report aliasToAddress m = .ok rep ∧
      (∃ s ∈ m.files, ∃ x ∈ s.references,
        Resolver.resolve aliasToAddress.tree m.config x.reference.specifier s.path
          (x.reference.kind == .stylesheetImport) = .ok (.external "https:" false) ∧
        Resolver.Decides aliasToAddress.tree m.config (Path.parent s.path)
          (stripped x.reference.specifier) (x.reference.kind == .stylesheetImport)
          "https://cdn.example.com/lib.js") ∧
      isAddress "https://cdn.example.com/lib.js" = true ∧
      (m.facts aliasToAddress.options).imports "https:" = true ∧
      (∃ i ∈ rep.issues, i.kind = .missing ∧ i.name = "https:") ∧
      "https:" ∈ rep.missingNames false := by
  have hresolve : Resolver.resolve aliasToAddress.tree aliasToAddressRead.config "cdn" "/p/index.js"
      false = .ok (.external "https:" false) := by
    decide +kernel
  have hdecides : Resolver.Decides aliasToAddress.tree aliasToAddressRead.config
      (Path.parent "/p/index.js") (stripped "cdn") false "https://cdn.example.com/lib.js" :=
    .ofAlias (List.nil_append [cdnAlias]).symm (by simp) (by decide +kernel) rfl
  obtain ⟨rep, hreport⟩ := exists_report_aliasToAddress
  have husage : (aliasToAddressRead.facts aliasToAddress.options).usages.get? "https:" =
      some [⟨"index.js", 1, .staticImport⟩] := by
    decide +kernel
  have hissue := mem_issues_of_mem_facts hreport
    (Facts.mainIssue_mem_issues (Table.mem_of_get? husage) rfl)
  exact ⟨aliasToAddressRead, rep, read_eq_ok_iff.mpr reads_aliasToAddress, hreport,
    ⟨_, List.mem_cons_self, _, List.mem_cons_self, hresolve, hdecides⟩,
    rfl, rfl, ⟨_, hissue, rfl, rfl⟩,
    Report.mem_missingNames.mpr ⟨_, hissue, rfl, rfl, rfl⟩⟩

end Audit

/-! ## 2. Imports of the runtime -/

namespace SourceFile

open Specifier (isBuiltin stripped)

variable {t : FileTree} {c : ResolverConfig} {name : String}

/-- A module of the runtime has a name of the runtime, unless it was of the
runtime by its prefix alone. -/
theorem isBuiltin_name_iff {specifier file : String} {stylesheet : Bool}
    (hbuiltin : isBuiltin specifier = true)
    (hresolve : Resolver.resolve t c specifier file stylesheet = .ok (.external name true)) :
    isBuiltin name = true ↔
      ∀ rest, Text.after? "node:" (stripped specifier) = some rest → isBuiltin rest = true := by
  have hstripped := Specifier.isBuiltin_stripped hbuiltin
  rcases (Resolver.resolve_eq_external_iff rfl).mp hresolve with
    ⟨rest, hprefixed, rfl, -⟩ | ⟨hprefixed, haddress, -, -⟩ | ⟨hplace, source, -, rfl, hsource⟩
  · rw [Specifier.isBuiltin_packageName, hprefixed]
    simp
  · rw [Specifier.isBuiltin_of_isAddress haddress hprefixed] at hstripped
    cases hstripped
  · rw [Specifier.isBuiltin_packageName, ← hsource, hplace.prefixed]
    simp

theorem usesBuiltin_of_mem {sources : List SourceFile} {s : SourceFile} (hs : s ∈ sources)
    {x : ResolvedReference} (hx : x ∈ s.references) (huse : isBuiltinUse x = true) :
    usesBuiltin sources = true :=
  List.any_eq_true.mpr ⟨s, hs, List.any_eq_true.mpr ⟨x, hx, huse⟩⟩

/-- The type definitions of the runtime are used when the runtime is. -/
theorem isUsed_runtimeTypes {f : Facts} (h : f.builtinImported = true) :
    f.isUsed "@types/node" = true := by
  have htarget : Dependency.typesTarget? "@types/node" = some "node" := rfl
  simp [Facts.isUsed, htarget, h]

/-- **Imports of the runtime count for its types.** Take a reference whose
specifier belongs to the runtime and that resolves to no package. It counts as
an import of the runtime exactly if what stands behind a prefix, where there
is one, belongs to the runtime too. If it counts, the type definitions of the
runtime are used, whatever else is known of the project. -/
theorem runtime_import_counts {sources : List SourceFile} {s : SourceFile} (hs : s ∈ sources)
    {x : ResolvedReference} (hx : x ∈ s.references)
    (hbuiltin : isBuiltin x.reference.specifier = true)
    (hresolve : Resolver.resolve t c x.reference.specifier s.path
      (x.reference.kind == .stylesheetImport) = .ok (.external name true))
    (hmodule : x.module_ = some (.external name true)) :
    (isBuiltinUse x = true ↔
      ∀ rest, Text.after? "node:" (stripped x.reference.specifier) = some rest →
        isBuiltin rest = true) ∧
    ((∀ rest, Text.after? "node:" (stripped x.reference.specifier) = some rest →
        isBuiltin rest = true) →
      usesBuiltin sources = true ∧
      ∀ f : Facts, f.builtinImported = usesBuiltin sources →
        (∀ d ∈ f.manifest.dependencies, d.name = "@types/node" →
          d.name ∈ f.used.map Declared.name) ∧
        (f.manifest.Indexed → f.countAbout .unused "@types/node" = 0)) := by
  have huse : isBuiltinUse x = isBuiltin name := by rw [isBuiltinUse, hmodule]
  rw [huse]
  refine ⟨isBuiltin_name_iff hbuiltin hresolve, fun hrest => ?_⟩
  have hname : isBuiltinUse x = true :=
    huse.trans ((isBuiltin_name_iff hbuiltin hresolve).mpr hrest)
  have huses := usesBuiltin_of_mem hs hx hname
  refine ⟨huses, fun f hf => ?_⟩
  have hused := isUsed_runtimeTypes (hf.trans huses)
  refine ⟨fun d hd hd' => ?_, fun hm => Facts.countAbout_unused_of_isUsed hm hused⟩
  exact Facts.mem_used_of_isUsed hd (hd' ▸ hused)

/-- A file that imports a part of a module of the runtime by its prefix. -/
def importsPromises : SourceFile where
  path := "/p/index.js"
  language := some .script
  references := [⟨⟨"node:fs/promises", .staticImport, "/p/index.js", 1⟩,
    some (.external "fs" true)⟩]

/-- The prefix does no harm to a name that belongs to the runtime without it. -/
theorem runtime_import_counts_promises :
    isBuiltin "node:fs/promises" = true ∧
    Text.after? "node:" (stripped "node:fs/promises") = some "fs/promises" ∧
    isBuiltin "fs/promises" = true ∧ usesBuiltin [importsPromises] = true := by
  have hprefixed : Text.after? "node:" (stripped "node:fs/promises") = some "fs/promises" := by
    rfl
  have hbuiltin : isBuiltin "fs/promises" = true := rfl
  have hmem : importsPromises ∈ [importsPromises] := List.mem_singleton_self _
  have hcounts := (runtime_import_counts (t := ⟨.folder []⟩) (c := { root := "/p" }) hmem
    List.mem_cons_self rfl (by decide +kernel) rfl).2
  refine ⟨rfl, hprefixed, hbuiltin, (hcounts ?_).1⟩
  intro rest hrest
  obtain rfl := Option.some.inj (hprefixed.symm.trans hrest)
  exact hbuiltin

end SourceFile

namespace Audit

/-- A project with the type definitions of the runtime that imports a module
which has a name by its prefix alone. -/
def prefixedImport : Request :=
  oneFile "\x7b\"devDependencies\": \x7b\"@types/node\": \"^20.0.0\"\x7d\x7d"
    "import 'node:test';\n" []

/-- The type definitions. -/
def runtimeTypes : Declared := ⟨"@types/node", "^20.0.0", .development⟩

/-- What is read of the project. -/
def prefixedImportRead : Material :=
  oneFileRead {
      path := "/p/package.json"
      declared := [("@types/node", runtimeTypes)]
      raw := [("devDependencies", .obj [("@types/node", .str "^20.0.0")])] }
    { root := "/p" }
    [⟨⟨"node:test", .staticImport, "/p/index.js", 1⟩, some (.external "test" true)⟩]

theorem reads_prefixedImport : Reads prefixedImport prefixedImportRead :=
  reads_oneFile rfl ⟨by decide, by decide, by with_unfolding_all rfl⟩
    (by with_unfolding_all rfl) rfl (by with_unfolding_all rfl) (by decide +kernel)

/-- Without its prefix the module has no name of the runtime. The import does not
count, and the type definitions are reported as unused and removed. -/
theorem prefixed_import_not_counted :
    ∃ m rep, read prefixedImport = .ok m ∧ report prefixedImport m = .ok rep ∧
      (∃ s ∈ m.files, ∃ x ∈ s.references,
        Specifier.isBuiltin x.reference.specifier = true ∧
        Resolver.resolve prefixedImport.tree m.config x.reference.specifier s.path
          (x.reference.kind == .stylesheetImport) = .ok (.external "test" true) ∧
        x.module_ = some (.external "test" true)) ∧
      SourceFile.usesBuiltin m.files = false ∧
      m.manifest.declares "@types/node" = true ∧
      (m.facts prefixedImport.options).isUsed "@types/node" = false ∧
      (∃ i ∈ rep.issues, i.kind = .unused ∧ i.name = "@types/node") ∧
      "@types/node" ∈ rep.surelyUnused := by
  have hresolve : Resolver.resolve prefixedImport.tree prefixedImportRead.config "node:test"
      "/p/index.js" false = .ok (.external "test" true) := by
    decide +kernel
  have hunused :
      (prefixedImportRead.facts prefixedImport.options).isUnused runtimeTypes = true := by
    rfl
  obtain ⟨rep, hreport⟩ : ∃ rep, report prefixedImport prefixedImportRead = .ok rep := ⟨_, rfl⟩
  have hissue := mem_issues_of_mem_facts hreport
    (Facts.unusedIssue_mem_issues (List.mem_singleton_self runtimeTypes) hunused)
  exact ⟨prefixedImportRead, rep, read_eq_ok_iff.mpr reads_prefixedImport, hreport,
    ⟨_, List.mem_cons_self, _, List.mem_cons_self, rfl, hresolve, rfl⟩,
    rfl, rfl, rfl, ⟨_, hissue, rfl, rfl⟩,
    Report.mem_surelyUnused.mpr ⟨_, hissue, rfl, rfl, rfl⟩⟩

end Audit

end PackageAudit
