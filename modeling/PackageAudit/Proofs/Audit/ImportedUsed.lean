/-
PackageAudit.Proofs.Audit.ImportedUsed — a declared package that is imported
is not reported as unused.

A reference goes a long way to the verdict on a package: the resolver turns
its specifier into a module, the usages of all modules are put together by
package, and classification asks whether a package is among them. Each step
may drop a name. Without aliases the resolver drops those of the runtime
alone (`external_of_resolve`), and the steps behind it drop none
(`imported_never_unused`).

That exception is wide. A specifier is one of the runtime by its first
component, so a package that replaces a module of the runtime under its own
name counts as unused however often it is imported
(`runtime_name_reported_unused`).
-/
import PackageAudit.Proofs.Audit.OneFile
import PackageAudit.Proofs.Resolve.External

namespace PackageAudit

/-! ## 1. What a specifier names -/

namespace Specifier

/-- What a reference names: its specifier without white space around it, query
and fragment, and in a stylesheet without the tilde that marks a package. -/
def bare (specifier : String) (stylesheet : Bool) : String :=
  let spec := stripQuery (Text.strip specifier)
  if stylesheet then (Text.after? "~" spec).getD spec else spec

section

variable {specifier : String} {stylesheet : Bool}

/-- Nothing but a tilde is taken off. -/
theorem bare_eq (h : Text.after? "~" (stripQuery (Text.strip specifier)) = none) :
    bare specifier stylesheet = stripQuery (Text.strip specifier) := by
  simp [bare, h]

theorem after?_tilde_eq_none {s : String} {c : Char} (h : s.toList.head? = some c)
    (hc : c ≠ '~') : Text.after? "~" s = none := by
  rw [Option.eq_none_iff_forall_ne_some]
  intro rest hrest
  rw [Text.after?_eq_some_iff] at hrest
  rw [hrest] at h
  exact hc (Option.some.inj h).symm

theorem after?_tilde_of_isAddress {s : String} (h : isAddress s = true) :
    Text.after? "~" s = none := by
  rw [isAddress, Bool.or_eq_true] at h
  rcases h with hscheme | hslashes
  · rw [hasScheme] at hscheme
    split at hscheme
    · rename_i c cs hs
      simp only [Bool.and_eq_true] at hscheme
      refine after?_tilde_eq_none (c := c) (by rw [hs]; rfl) ?_
      rintro rfl
      exact absurd hscheme.1.1 (by decide)
    · cases hscheme
  · obtain ⟨rest, hrest⟩ := Text.begins_iff.mp hslashes
    rw [Text.after?_eq_some_iff] at hrest
    exact after?_tilde_eq_none (c := '/') (by rw [hrest]; rfl) (by decide)

end

end Specifier

namespace Resolver

variable {t : FileTree} {c : ResolverConfig} {specifier file folder spec : String}
  {stylesheet : Bool} {name : String} {builtin : Bool}

/-- Without aliases the specifier without the tilde of stylesheets decides. -/
theorem Decides.eq_of_no_aliases {source : String} (haliases : c.aliases = [])
    (h : Decides t c folder spec stylesheet source) :
    source = if stylesheet then (Text.after? "~" spec).getD spec else spec := by
  cases h with
  | ofAlias split =>
    rw [haliases] at split
    exact absurd split (by simp)
  | ofTilde _ sheet tilde =>
    rw [if_pos sheet, tilde, Option.getD_some]
  | itself _ _ sheet =>
    cases stylesheet with
    | false => rfl
    | true => rw [if_pos rfl, (sheet rfl).1, Option.getD_none]

/-- **From specifiers to packages.** Without aliases, what resolves to a
package is that of the bare specifier, unless the runtime or an address is
meant. -/
theorem external_of_resolve (haliases : c.aliases = [])
    (haddress : Specifier.isAddress (Specifier.bare specifier stylesheet) = false)
    (hbuiltin : Specifier.isBuiltin (Specifier.bare specifier stylesheet) = false)
    (h : resolve t c specifier file stylesheet = .ok (.external name builtin)) :
    name = Specifier.packageName (Specifier.bare specifier stylesheet) ∧ builtin = false := by
  rcases (resolve_eq_external_iff rfl).mp h with
    ⟨rest, hruntime, -, -⟩ | ⟨-, haddr, -, -⟩ | ⟨-, source, hdecides, rfl, rfl⟩
  · -- A module of the runtime by its prefix has no tilde in front.
    have htilde : Text.after? "~" (Specifier.stripped specifier) = none := by
      refine Specifier.after?_tilde_eq_none (c := 'n') ?_ (by decide)
      rw [Text.after?_eq_some_iff.mp hruntime]
      rfl
    rw [Specifier.bare_eq htilde, Specifier.isBuiltin] at hbuiltin
    rw [Specifier.stripped] at hruntime
    rw [Text.begins_iff.mpr ⟨_, hruntime⟩] at hbuiltin
    cases hbuiltin
  · rw [Specifier.bare_eq (Specifier.after?_tilde_of_isAddress haddr)] at haddress
    exact absurd haddr (by simpa [Specifier.stripped] using haddress)
  · have hbare : source = Specifier.bare specifier stylesheet :=
      hdecides.eq_of_no_aliases haliases
    exact hbare ▸ ⟨rfl, hbare ▸ hbuiltin⟩

end Resolver

/-! ## 2. From packages to verdicts -/

/-- What a reference names. -/
def Reference.bareName (r : Reference) : String :=
  Specifier.bare r.specifier (r.kind == .stylesheetImport)

namespace Audit

/-- **What is imported is not reported as unused.** In a project without
aliases take a reference that resolves to a package and names neither an
address nor, by its first component, a module of the runtime. If its package
is declared it is among the used ones. No unused issue of the report is about
it, and the script that mends the project does not remove it. -/
theorem imported_never_unused {r : Request} {m : Material} {rep : Report}
    (hread : read r = .ok m) (hreport : report r m = .ok rep) (haliases : m.config.aliases = [])
    {s : SourceFile} (hs : s ∈ m.files) {x : ResolvedReference} (hx : x ∈ s.references)
    {name : String} {builtin : Bool}
    (hexternal : Resolver.resolve r.tree m.config x.reference.specifier s.path
      (x.reference.kind == .stylesheetImport) = .ok (.external name builtin))
    (haddress : Specifier.isAddress x.reference.bareName = false)
    (hbuiltin : Specifier.isBuiltin x.reference.bareName = false) :
    (m.manifest.declares (Specifier.packageName x.reference.bareName) = true →
      Specifier.packageName x.reference.bareName ∈
        (m.facts r.options).used.map Declared.name) ∧
    (∀ i ∈ rep.issues, i.kind = .unused →
      i.name ≠ Specifier.packageName x.reference.bareName) ∧
    Specifier.packageName x.reference.bareName ∉ rep.surelyUnused := by
  have hreads := read_eq_ok_iff.mp hread
  have hm := hreads.indexed_manifest r.options
  obtain ⟨rfl, rfl⟩ := Resolver.external_of_resolve haliases haddress hbuiltin hexternal
  have hmodule : x.module_ = some (.external (Specifier.packageName x.reference.bareName) false) :=
    (hreads.module_eq hs hx).trans (congrArg Except.toOption hexternal)
  have hused := Facts.isUsed_of_imports (imports_facts r.options hs hx hmodule)
  have hunused : ∀ i ∈ rep.issues, i.kind = .unused →
      i.name ≠ Specifier.packageName x.reference.bareName := by
    intro i hi hkind hname
    rw [issues_of_report hreport] at hi
    have hpos := Facts.countAbout_pos (mem_issues_facts hi (Or.inr hkind)) hkind hname
    exact Nat.ne_of_gt hpos (Facts.countAbout_unused_of_isUsed hm hused)
  refine ⟨fun hdeclares => ?_, hunused, fun hremoved => ?_⟩
  · obtain ⟨d, hd, hname⟩ := hm.exists_of_declares hdeclares
    exact hname ▸ Facts.mem_used_of_isUsed hd (hname ▸ hused)
  · obtain ⟨i, hi, _, hkind, hname⟩ := Report.mem_surelyUnused.mp hremoved
    exact hunused i hi hkind hname

/-! ## 3. A project -/

/-- A project that declares and imports two packages, one of them under the name
of a module of the runtime. -/
def twoPackages : Request where
  tree := ⟨.folder [("p", .folder [
    ("index.js", .file (Text.Utf8.encode "import 'buffer';\nimport 'lodash';\n")),
    ("package.json", .file (Text.Utf8.encode
      "\x7b\"dependencies\": \x7b\"buffer\": \"^6.0.3\", \"lodash\": \"^4.17.21\"\x7d\x7d"))])]⟩
  project := "/p"
  lookup := fun _ => .ok .null
  timing := { startedAt := "" }

/-- The import of the package with a name of the runtime. -/
def bufferImport : ResolvedReference :=
  ⟨⟨"buffer", .staticImport, "/p/index.js", 1⟩, some (.external "buffer" true)⟩

/-- The import of the other package. -/
def lodashImport : ResolvedReference :=
  ⟨⟨"lodash", .staticImport, "/p/index.js", 2⟩, some (.external "lodash" false)⟩

/-- What is read of the project. -/
def twoPackagesRead : Material where
  root := "/p"
  manifest := {
    path := "/p/package.json"
    declared := [("buffer", ⟨"buffer", "^6.0.3", .production⟩),
      ("lodash", ⟨"lodash", "^4.17.21", .production⟩)]
    raw := [("dependencies", .obj [("buffer", .str "^6.0.3"), ("lodash", .str "^4.17.21")])] }
  config := { root := "/p", baseUrl := none, pathMappings := [], aliases := [] }
  configWarnings := []
  scan := { files := ["/p/index.js"] }
  sources := [({
    path := "/p/index.js"
    language := some .script
    references := [bufferImport, lodashImport] }, [])]
  installed := { root := "/p" }
  toolConfigs := []

theorem reads_twoPackages : Reads twoPackages twoPackagesRead :=
  reads_oneFile rfl ⟨by decide, by decide, by with_unfolding_all rfl⟩
    (by with_unfolding_all rfl) rfl (by with_unfolding_all rfl) (by decide +kernel)

theorem exists_report_twoPackages :
    ∃ rep, report twoPackages twoPackagesRead = .ok rep :=
  ⟨_, rfl⟩

/-- A declared package whose name is none of the runtime. -/
theorem imported_never_unused_lodash :
    ∃ m rep, read twoPackages = .ok m ∧ report twoPackages m = .ok rep ∧
      m.manifest.declares "lodash" = true ∧
      "lodash" ∈ (m.facts twoPackages.options).used.map Declared.name ∧
      (∀ i ∈ rep.issues, i.kind = .unused → i.name ≠ "lodash") ∧ "lodash" ∉ rep.surelyUnused := by
  have hexternal : Resolver.resolve twoPackages.tree twoPackagesRead.config "lodash" "/p/index.js"
      false = .ok (.external "lodash" false) := by
    decide +kernel
  have hpackage : Specifier.packageName lodashImport.reference.bareName = "lodash" := by
    decide +kernel
  have hread := read_eq_ok_iff.mpr reads_twoPackages
  obtain ⟨rep, hreport⟩ := exists_report_twoPackages
  have hverdicts := imported_never_unused (x := lodashImport) hread hreport rfl List.mem_cons_self
    (List.mem_cons_of_mem _ List.mem_cons_self) hexternal (by decide +kernel) (by decide +kernel)
  rw [hpackage] at hverdicts
  exact ⟨_, rep, hread, hreport, rfl, hverdicts.1 rfl, hverdicts.2⟩

/-- The package `buffer` is declared and imported, and it is removed: its name
is one of the runtime. -/
theorem runtime_name_reported_unused :
    ∃ m rep, read twoPackages = .ok m ∧ report twoPackages m = .ok rep ∧
      m.config.aliases = [] ∧ m.config.pathMappings = [] ∧ m.config.baseUrl = none ∧
      (∃ s ∈ m.files, ∃ x ∈ s.references, x.reference.bareName = "buffer" ∧
        Resolver.resolve twoPackages.tree m.config x.reference.specifier s.path
          (x.reference.kind == .stylesheetImport) = .ok (.external "buffer" true)) ∧
      Text.begins "node:" "buffer" = false ∧ Specifier.isRelative "buffer" = false ∧
      Specifier.isAddress "buffer" = false ∧ Specifier.packageName "buffer" = "buffer" ∧
      m.manifest.declares "buffer" = true ∧
      (∃ i ∈ rep.issues, i.kind = .unused ∧ i.name = "buffer") ∧ "buffer" ∈ rep.surelyUnused := by
  have hexternal : Resolver.resolve twoPackages.tree twoPackagesRead.config "buffer" "/p/index.js"
      false = .ok (.external "buffer" true) := by
    decide +kernel
  have hunused : (twoPackagesRead.facts twoPackages.options).isUnused
      ⟨"buffer", "^6.0.3", .production⟩ = true := by
    decide +kernel
  obtain ⟨rep, hreport⟩ := exists_report_twoPackages
  have hissue : Facts.unusedIssue ⟨"buffer", "^6.0.3", .production⟩ ∈ rep.issues := by
    rw [issues_of_report hreport]
    refine List.mem_append_left _ (List.mem_append_left _ (List.mem_append_left _
      (List.mem_append_left _ (List.mem_map_of_mem (List.mem_filter.mpr ⟨?_, hunused⟩)))))
    exact List.mem_cons_self
  have hremoved : "buffer" ∈ rep.surelyUnused :=
    Report.mem_surelyUnused.mpr ⟨_, hissue, by decide +kernel, rfl, rfl⟩
  exact ⟨twoPackagesRead, rep, read_eq_ok_iff.mpr reads_twoPackages, hreport, rfl, rfl, rfl,
    ⟨_, List.mem_cons_self, bufferImport, List.mem_cons_self, by decide +kernel, hexternal⟩,
    by decide +kernel, by decide +kernel, by decide +kernel, by decide +kernel, by decide +kernel,
    ⟨_, hissue, rfl, rfl⟩, hremoved⟩

end Audit

end PackageAudit
