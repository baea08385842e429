/-
PackageAudit.Proofs.Audit.Reading — what an audit has read, and which of its
issues are about single packages.

Reading is a chain of steps of which each can fail; `read_eq_ok_iff` says
once what holds when none does, and nothing here opens the chain again. From
it follows that the tables that classification works on have distinct keys
(`distinct_usages`, `indexed_manifest`), so its laws hold of every run. The
issues of a report are those of the classification, of cycles and of peers;
unused and missing packages are found by the first alone.
-/
import PackageAudit.Audit.Basic
import PackageAudit.Proofs.Collection
import PackageAudit.Proofs.Dependency.Partition

namespace PackageAudit

/-! ## 1. Source files -/

namespace SourceFile

theorem resolveReference_fst (resolve : Resolve) (file shown : String) (r : Reference) :
    (resolveReference resolve file shown r).1 =
      ⟨r, (resolve r.specifier file (r.kind == .stylesheetImport)).toOption⟩ := by
  rw [resolveReference]
  cases resolve r.specifier file (r.kind == .stylesheetImport) <;> rfl

theorem references_read (t : FileTree) (root : String) (resolve : Resolve) (path : String)
    (reader : Script.Reader) :
    (read t root resolve path reader).1.references = match t.readLenient path with
      | .error _ => []
      | .ok content =>
        (Import.extract path content (Language.ofPath? path) reader).references.map fun r =>
          ⟨r, (resolve r.specifier path (r.kind == .stylesheetImport)).toOption⟩ := by
  rw [read]
  cases t.readLenient path with
  | error e => rfl
  | ok content =>
    dsimp only
    rw [List.map_map]
    exact List.map_congr_left fun r _ => resolveReference_fst resolve path _ r

/-- The references of a file that was read stand for what their specifiers
resolve to. -/
theorem module_of_mem_references {t : FileTree} {root path : String} {resolve : Resolve}
    {reader : Script.Reader} {x : ResolvedReference}
    (hx : x ∈ (read t root resolve path reader).1.references) :
    x.module_ = (resolve x.reference.specifier path
      (x.reference.kind == .stylesheetImport)).toOption := by
  rw [references_read] at hx
  split at hx
  · cases hx
  · obtain ⟨reference, _, rfl⟩ := List.mem_map.mp hx
    rfl

theorem path_read (t : FileTree) (root : String) (resolve : Resolve) (path : String)
    (reader : Script.Reader) : (read t root resolve path reader).1.path = path := by
  simp only [read]
  cases t.readLenient path <;> rfl

/-- The usages have each package once. -/
theorem distinct_usages (root : String) (sources : List SourceFile) :
    (usages root sources).Distinct :=
  Table.distinct_foldl_update _ List.nodup_nil

/-- The packages that are used are those that some reference stands for. -/
theorem mem_keys_usages {root : String} {sources : List SourceFile} {name : String} :
    name ∈ (usages root sources).keys ↔
      ∃ s ∈ sources, ∃ x ∈ s.references, x.module_ = some (.external name false) := by
  have husage : ∀ x, (∃ u, usage? root x = some (name, u)) ↔
      x.module_ = some (.external name false) := by
    intro x
    rw [usage?]
    split <;> simp_all
  have hpairs : name ∈ ((sources.flatMap fun s => s.references.filterMap (usage? root)).map
      fun p => p.1) ↔ ∃ s ∈ sources, ∃ x ∈ s.references, ∃ u, usage? root x = some (name, u) := by
    simp only [List.mem_map, List.mem_flatMap, List.mem_filterMap]
    constructor
    · rintro ⟨⟨_, u⟩, ⟨s, hs, x, hx, hu⟩, rfl⟩
      exact ⟨s, hs, x, hx, u, hu⟩
    · rintro ⟨s, hs, x, hx, u, hu⟩
      exact ⟨(name, u), ⟨s, hs, x, hx, hu⟩, rfl⟩
  rw [usages, Table.mem_keys_foldl_update, hpairs]
  simp [Table.keys, husage]

end SourceFile

namespace Audit

/-! ## 2. Reading -/

/-- What has been read is what the tree holds. -/
structure Reads (r : Request) (m : Material) : Prop where
  root : m.root = Path.absolute "/" r.project
  manifest : Manifest.load r.tree m.root = .ok m.manifest
  config : ResolverConfig.load r.tree m.root r.options.aliases r.reader =
    .ok (m.config, m.configWarnings)
  scan : m.scan = Source.scan r.tree m.root r.options.excludePatterns r.options.maxScanDepth
  sources : m.sources =
    m.scan.files.map fun path =>
      SourceFile.read r.tree m.root (SourceFile.resolveBy r.tree m.config) path r.reader
  installed : Installed.load r.tree m.root r.options.maxTraversalDepth = .ok m.installed
  toolConfigs : m.toolConfigs = Dependency.toolConfigTexts r.tree m.root

theorem read_eq_ok_iff {r : Request} {m : Material} : read r = .ok m ↔ Reads r m := by
  rw [read, readIn]
  simp only [bind_eq_ok_iff, mapError_eq_ok_iff, Completion.gather_eq]
  constructor
  · rintro ⟨manifest, hmanifest, ⟨config, warnings⟩, hconfig, installed, hinstalled, h⟩
    have hm := Except.ok.inj h
    subst hm
    -- The projections go first: comparing a path with one would evaluate the path.
    constructor <;> dsimp only
    · exact hmanifest
    · exact hconfig
    · exact hinstalled
  · intro h
    rw [← h.root, ← h.scan, ← h.toolConfigs]
    refine ⟨_, h.manifest, _, h.config, _, h.installed, ?_⟩
    rw [← h.sources]
    rfl

/-! ## 3. What was read -/

section

variable {r : Request} {m : Material}

/-- The references of the source files stand for what the resolver makes of
them. -/
theorem Reads.module_eq (h : Reads r m) {s : SourceFile} (hs : s ∈ m.files)
    {x : ResolvedReference} (hx : x ∈ s.references) :
    x.module_ = (Resolver.resolve r.tree m.config x.reference.specifier s.path
      (x.reference.kind == .stylesheetImport)).toOption := by
  obtain ⟨y, hy, rfl⟩ := List.mem_map.mp hs
  rw [h.sources] at hy
  obtain ⟨path, _, rfl⟩ := List.mem_map.mp hy
  rw [SourceFile.module_of_mem_references hx, SourceFile.path_read, SourceFile.resolveBy]
  cases Resolver.resolve r.tree m.config x.reference.specifier path
    (x.reference.kind == .stylesheetImport) <;> rfl

theorem Reads.indexed_manifest (h : Reads r m) (options : Options) :
    (m.facts options).manifest.Indexed :=
  Manifest.indexed_of_load h.manifest

theorem distinct_usages_facts (m : Material) (options : Options) :
    (m.facts options).usages.Distinct :=
  SourceFile.distinct_usages _ _

/-- A package is imported when some reference stands for it. -/
theorem imports_facts (options : Options) {s : SourceFile} (hs : s ∈ m.files)
    {x : ResolvedReference} (hx : x ∈ s.references) {name : String}
    (hmodule : x.module_ = some (.external name false)) :
    (m.facts options).imports name = true :=
  Table.has_iff.mpr (SourceFile.mem_keys_usages.mpr ⟨s, hs, x, hx, hmodule⟩)

/-! ## 4. The issues of a report -/

theorem kind_of_mem_cycleIssues : ∀ i ∈ m.cycleIssues, i.kind = .circularImport := by
  intro i hi
  obtain ⟨cycle, _, rfl⟩ := List.mem_map.mp hi
  rfl

theorem kind_of_mem_peerIssues {p : Peer.Analysis} :
    ∀ i ∈ p.conflicts ++ p.missingIssues, i.kind = .peerConflict ∨ i.kind = .peerMissing := by
  intro i hi
  rcases List.mem_append.mp hi with hi | hi
  · rcases List.mem_append.mp hi with hi | hi
    · obtain ⟨c, _, rfl⟩ := List.mem_map.mp hi
      exact Or.inl rfl
    · obtain ⟨c, _, rfl⟩ := List.mem_map.mp hi
      exact Or.inl rfl
  · obtain ⟨q, _, rfl⟩ := List.mem_map.mp hi
    exact Or.inr rfl

/-- Missing and unused packages are found by classification alone. -/
theorem mem_issues_facts {options : Options} {i : Issue} (hi : i ∈ m.issues options)
    (hkind : i.kind = .missing ∨ i.kind = .unused) : i ∈ (m.facts options).issues := by
  rcases List.mem_append.mp hi with hi | hi
  · rcases List.mem_append.mp hi with hi | hi
    · exact hi
    · rw [kind_of_mem_cycleIssues i hi] at hkind
      exact absurd hkind (by decide)
  · cases hpeers : m.peers? options with
    | none =>
      rw [hpeers] at hi
      cases hi
    | some p =>
      rw [hpeers] at hi
      rcases kind_of_mem_peerIssues i hi with h | h <;>
        exact absurd (h ▸ hkind) (by decide)

theorem issues_of_report {rep : Report} (h : report r m = .ok rep) :
    rep.issues = m.issues r.options := by
  rw [report, reportIn] at h
  obtain ⟨⟨outdated, warnings⟩, _, h⟩ := bind_eq_ok_iff.mp h
  rw [← Except.ok.inj h]

theorem run_eq_ok_iff {rep : Report} :
    run r = .ok rep ↔ ∃ m, read r = .ok m ∧ report r m = .ok rep :=
  bind_eq_ok_iff

/-- **No script works against itself.** Whatever the project, the script that
mends it does not remove a package that it installs. -/
theorem not_installed_and_removed {rep : Report} (h : run r = .ok rep) {development : Bool}
    {name : String} (hmissing : name ∈ rep.missingNames development) :
    name ∉ rep.surelyUnused := by
  obtain ⟨m, hread, hreport⟩ := run_eq_ok_iff.mp h
  have hm := (read_eq_ok_iff.mp hread).indexed_manifest r.options
  refine Facts.not_mem_surelyUnused_of_missing hm (distinct_usages_facts m r.options) ?_ hmissing
  intro i hi hkind
  rw [issues_of_report hreport] at hi
  exact mem_issues_facts hi hkind

end

end Audit

end PackageAudit
