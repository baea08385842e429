/-
PackageAudit.Proofs.Dependency.Partition — every package has one verdict.

The issues about single packages come from two loops, over the declared
packages and over the imported ones, and each has reasons to pass a name
over. Both loops run over tables with distinct keys, and what they find is
about the key at hand, so the issues about a name are those of its own
entries (`countAbout_unused`, `countAbout_of_import`). From there on it is a
case split on one name: `importIssues` gives a name that is not declared one
main issue, missing or phantom, and any name at most one misplaced issue.

`classification_partition` puts the verdicts together, with what follows for
the script that mends a project: nothing is both installed and removed.
-/
import PackageAudit.Dependency.Classification
import PackageAudit.Report.FixScript
import PackageAudit.Proofs.Table

namespace PackageAudit

/-! ## 1. Manifests and reports -/

namespace Manifest

/-- Each dependency is declared once, under its name. -/
structure Indexed (m : Manifest) : Prop where
  distinct : m.declared.Distinct
  named : ∀ e ∈ m.declared, e.2.name = e.1

theorem Indexed.name_eq {m : Manifest} (hm : m.Indexed) {name : String} {d : Declared}
    (h : m.get? name = some d) : d.name = name :=
  hm.named (name, d) (Table.mem_of_get? h)

theorem Indexed.get?_of_mem {m : Manifest} (hm : m.Indexed) {d : Declared}
    (h : d ∈ m.dependencies) : m.get? d.name = some d := by
  obtain ⟨⟨name, d⟩, he, rfl⟩ := List.mem_map.mp h
  have hname : d.name = name := hm.named (name, d) he
  rw [hname]
  exact Table.get?_of_mem hm.distinct he

/-- The names of the declared packages are distinct. -/
theorem Indexed.nodup_names {m : Manifest} (hm : m.Indexed) :
    (m.dependencies.map Declared.name).Nodup := by
  have hnames : m.dependencies.map Declared.name = m.declared.keys := by
    rw [Manifest.dependencies, Table.values, Table.keys, List.map_map]
    exact List.map_congr_left hm.named
  exact hnames ▸ hm.distinct

theorem Indexed.exists_of_declares {m : Manifest} (hm : m.Indexed) {name : String}
    (h : m.declares name = true) : ∃ d ∈ m.dependencies, d.name = name := by
  obtain ⟨e, he, rfl⟩ := List.mem_map.mp (Table.has_iff.mp h)
  exact ⟨e.2, List.mem_map_of_mem he, hm.named e he⟩

theorem indexed_ofDeclared (path : String) (name version : Option String)
    (declared : List Declared) (scripts : Table String) :
    (ofDeclared path name version declared scripts).Indexed := by
  refine ⟨Table.distinct_ofPairs _, fun e he => ?_⟩
  obtain ⟨d, _, rfl⟩ := List.mem_map.mp (Table.mem_of_mem_ofPairs e he)
  rfl

theorem Indexed.declare {m : Manifest} (hm : m.Indexed) (type : DependencyType) (name : String)
    (range : Json) : (m.declare type name range).Indexed := by
  rw [Manifest.declare]
  split
  · exact ⟨hm.distinct, hm.named⟩
  · refine ⟨Table.distinct_put hm.distinct, fun e he => ?_⟩
    rcases Table.mem_put he with rfl | he
    · rfl
    · exact hm.named e he

theorem Indexed.addSection {m : Manifest} (hm : m.Indexed) (type : DependencyType) :
    (m.addSection type).Indexed := by
  rw [Manifest.addSection]
  split
  · exact hm
  · exact hm
  · exact List.foldlRecOn _ _ hm fun _ hm e _ => hm.declare type e.1 e.2
  · exact ⟨hm.distinct, hm.named⟩

theorem indexed_ofObject (path : String) (raw : Table Json) : (ofObject path raw).Indexed := by
  rw [ofObject]
  refine List.foldlRecOn _ _ ⟨List.nodup_nil, ?_⟩ fun _ hm type _ => hm.addSection type
  intro e he
  cases he

/-- A manifest that was read declares each dependency once, under its name. -/
theorem indexed_of_load {t : FileTree} {project : String} {m : Manifest}
    (h : load t project = .ok m) : m.Indexed := by
  rw [load] at h
  split at h
  · split at h <;> cases h
    exact indexed_ofObject _ _
  · cases h

end Manifest

instance : LawfulBEq IssueKind where
  rfl {k} := by cases k <;> rfl
  eq_of_beq {k l} h := by cases k <;> cases l <;> first | rfl | cases h

theorem Report.mem_missingNames {r : Report} {development : Bool} {name : String} :
    name ∈ r.missingNames development ↔ ∃ i ∈ r.issues, isForDevelopment i = development ∧
      i.kind = .missing ∧ i.name = name := by
  simp [missingNames, ofKind, and_assoc]

theorem Report.mem_surelyUnused {r : Report} {name : String} :
    name ∈ r.surelyUnused ↔ ∃ i ∈ r.issues, (i.confidence == .high) = true ∧
      i.kind = .unused ∧ i.name = name := by
  simp [surelyUnused, ofKind, and_assoc]

namespace Facts

variable {f : Facts} {kind : IssueKind} {name : String}

/-! ## 2. Issues about a name -/

/-- How many issues of a kind are about a name. -/
def countAbout (f : Facts) (kind : IssueKind) (name : String) : Nat :=
  f.issues.countP fun i => i.kind == kind && i.name == name

theorem unusedIssues_eq_flatMap (f : Facts) : f.unusedIssues =
    f.manifest.declared.flatMap fun e => if f.isUnused e.2 then [unusedIssue e.2] else [] := by
  rw [unusedIssues, Manifest.dependencies, Table.values]
  induction f.manifest.declared with
  | nil => rfl
  | cons e t ih =>
    rw [List.map_cons, List.filter_cons, List.flatMap_cons, ← ih]
    split <;> rfl

theorem kind_of_mem_unusedIssues : ∀ i ∈ f.unusedIssues, i.kind = .unused := by
  intro i hi
  obtain ⟨d, _, rfl⟩ := List.mem_map.mp hi
  rfl

theorem kind_of_mem_duplicateIssues : ∀ i ∈ f.duplicateIssues, i.kind = .duplicate := by
  intro i hi
  obtain ⟨found, _, rfl⟩ := List.mem_map.mp hi
  rfl

/-- Which of the two main issues an imported package has. -/
def mainKind (f : Facts) (name : String) : IssueKind :=
  if f.installed.present && f.installed.has name then .phantom else .missing

/-- The main issue of an imported package that is not declared. -/
def mainIssue (f : Facts) (name : String) (usages : List Usage) : Issue :=
  if f.installed.present && f.installed.has name then f.phantomIssue name usages
  else missingIssue name usages

theorem kind_mainIssue (f : Facts) (name : String) (usages : List Usage) :
    (f.mainIssue name usages).kind = f.mainKind name := by
  rw [mainIssue, mainKind]
  split <;> rfl

theorem name_mainIssue (f : Facts) (name : String) (usages : List Usage) :
    (f.mainIssue name usages).name = name := by
  rw [mainIssue]
  split <;> rfl

/-- The main issue comes first; types that are declared alone are misplaced. -/
theorem undeclaredIssues_eq (f : Facts) (name : String) (usages : List Usage) :
    f.undeclaredIssues name usages = f.mainIssue name usages ::
      if f.manifest.declares (Dependency.typesScope ++ Dependency.typesName name) then
        [typesOnlyIssue name usages] else [] := by
  simp only [undeclaredIssues, mainIssue]
  split <;> rfl

/-- The name is imported and has to be declared: it is not that of the project,
not declared yet and not that of type definitions. -/
def isUndeclared (f : Facts) (name : String) : Bool :=
  f.imports name && f.manifest.name != some name && !f.manifest.declares name &&
    !Dependency.isTypes name

/-- What an import leads to is a main issue, if the name has to be declared, or
the name is misplaced. It is about the imported name or what is declared under
it. -/
theorem cases_of_mem_importIssues {usages : List Usage} {i : Issue}
    (h : i ∈ f.importIssues name usages) :
    (i.kind = f.mainKind name ∨ i.kind = .misplaced) ∧
      (i.name = name ∨ ∃ d, f.manifest.get? name = some d ∧ i.name = d.name) := by
  rw [importIssues] at h
  split at h
  · cases h
  · split at h
    · rename_i d hd
      rw [declaredIssues] at h
      split at h
      · cases h
      · rw [List.mem_singleton.mp h]
        exact ⟨Or.inr rfl, Or.inr ⟨d, hd, rfl⟩⟩
    · split at h
      · cases h
      · rw [undeclaredIssues_eq] at h
        rcases List.mem_cons.mp h with rfl | h
        · exact ⟨Or.inl (kind_mainIssue f name usages), Or.inl (name_mainIssue f name usages)⟩
        · split at h
          · rw [List.mem_singleton.mp h]
            exact ⟨Or.inr rfl, Or.inl rfl⟩
          · cases h

/-- What an import leads to is about the imported name. -/
theorem name_of_mem_importIssues (hm : f.manifest.Indexed) {usages : List Usage} {i : Issue}
    (h : i ∈ f.importIssues name usages) : i.name = name := by
  rcases (cases_of_mem_importIssues h).2 with hname | ⟨d, hd, hname⟩
  · exact hname
  · exact hname.trans (hm.name_eq hd)

theorem mem_usageIssues {i : Issue} (h : i ∈ f.usageIssues) :
    ∃ e ∈ f.usages, i ∈ f.importIssues e.1 e.2 := by
  obtain ⟨e, he, hi⟩ := List.mem_flatMap.mp h
  exact ⟨e, (List.mergeSort_perm f.usages _).mem_iff.mp he, hi⟩

theorem kind_ne_unused_of_mem_usageIssues : ∀ i ∈ f.usageIssues, i.kind ≠ .unused := by
  intro i hi
  obtain ⟨e, _, hi⟩ := mem_usageIssues hi
  rcases (cases_of_mem_importIssues hi).1 with h | h
  · rw [h, mainKind]
    split <;> decide
  · rw [h]
    decide

theorem countP_eq_zero_of_kind (kind : IssueKind) (name : String) {issues : List Issue}
    (h : ∀ i ∈ issues, i.kind ≠ kind) :
    issues.countP (fun i => i.kind == kind && i.name == name) = 0 := by
  rw [List.countP_eq_zero]
  intro i hi
  rw [beq_false_of_ne (h i hi), Bool.false_and]
  exact Bool.false_ne_true

/-! ## 3. Each loop has the issues of its own entries -/

/-- A name has an unused issue for its own declaration alone. -/
theorem countAbout_unused (hm : f.manifest.Indexed) (name : String) :
    f.countAbout .unused name =
      (f.manifest.get? name).elim 0 fun d => if f.isUnused d then 1 else 0 := by
  have hname : ∀ e ∈ f.manifest.declared,
      ∀ i ∈ (if f.isUnused e.2 then [unusedIssue e.2] else []), i.name = e.1 := by
    intro e he i hi
    split at hi
    · rw [List.mem_singleton.mp hi]
      exact hm.named e he
    · cases hi
  have hunused := Table.countP_flatMap hm.distinct hname (fun i => i.kind == .unused) name
  have himports := countP_eq_zero_of_kind .unused name (kind_ne_unused_of_mem_usageIssues (f := f))
  have hroles := countP_eq_zero_of_kind .unused name
    fun i hi => (kind_of_mem_duplicateIssues (f := f) i hi).trans_ne (by decide)
  rw [countAbout, issues, List.countP_append, List.countP_append, unusedIssues_eq_flatMap, hunused,
    himports, hroles, Manifest.get?]
  cases f.manifest.declared.get? name with
  | none => rfl
  | some d =>
    dsimp only [Option.elim_some]
    split <;> rfl

/-- A name has other issues for its own imports alone. -/
theorem countAbout_of_import (hm : f.manifest.Indexed) (hu : f.usages.Distinct)
    (hunused : kind ≠ .unused) (hduplicate : kind ≠ .duplicate) (name : String) :
    f.countAbout kind name =
      (f.usages.get? name).elim 0 fun usages =>
        (f.importIssues name usages).countP fun i => i.kind == kind := by
  have hsorted : f.usageIssues.countP (fun i => i.kind == kind && i.name == name) =
      (f.usages.flatMap fun e => f.importIssues e.1 e.2).countP
        fun i => i.kind == kind && i.name == name :=
    ((List.mergeSort_perm f.usages _).flatMap_right _).countP_eq _
  have hdeclarations := countP_eq_zero_of_kind kind name
    fun i hi => (kind_of_mem_unusedIssues (f := f) i hi).trans_ne hunused.symm
  have hroles := countP_eq_zero_of_kind kind name
    fun i hi => (kind_of_mem_duplicateIssues (f := f) i hi).trans_ne hduplicate.symm
  rw [countAbout, issues, List.countP_append, List.countP_append, hsorted, hdeclarations, hroles,
    Nat.zero_add, Nat.add_zero]
  exact Table.countP_flatMap hu (fun e _ i hi => name_of_mem_importIssues hm hi) _ name

/-! ## 4. The issues of one import -/

theorem imports_iff : f.imports name = true ↔ ∃ usages, f.usages.get? name = some usages := by
  rw [imports, Table.has_iff, ← not_iff_not, ← Table.get?_eq_none_iff]
  cases f.usages.get? name <;> simp

/-- A name that has to be declared is given its main issue. -/
theorem importIssues_of_isUndeclared (h : f.isUndeclared name = true) (usages : List Usage) :
    f.importIssues name usages = f.undeclaredIssues name usages := by
  simp only [isUndeclared, Bool.and_eq_true, bne_iff_ne, Bool.not_eq_true'] at h
  obtain ⟨⟨⟨_, hname⟩, hdeclared⟩, htypes⟩ := h
  have hget : f.manifest.get? name = none := by
    rw [Manifest.get?, Table.get?_eq_none_iff, ← Table.has_iff, ← Manifest.declares, hdeclared]
    exact Bool.false_ne_true
  rw [importIssues, hget, htypes, beq_false_of_ne hname]
  rfl

/-- Another name that is imported is misplaced at most. -/
theorem importIssues_of_not_isUndeclared (h : f.isUndeclared name = false)
    (himports : f.imports name = true) (usages : List Usage) :
    f.importIssues name usages = [] ∨
      ∃ i : Issue, i.kind = .misplaced ∧ f.importIssues name usages = [i] := by
  rw [importIssues]
  split
  · exact Or.inl rfl
  · rename_i hname
    split
    · rename_i d _
      rw [declaredIssues]
      split
      · exact Or.inl rfl
      · exact Or.inr ⟨_, rfl, rfl⟩
    · rename_i hget
      split
      · exact Or.inl rfl
      · rename_i htypes
        have hdeclares : f.manifest.declares name = false := by
          rw [← Bool.not_eq_true, Manifest.declares, Table.has_iff]
          exact Table.get?_eq_none_iff.mp hget
        rw [isUndeclared, himports, hdeclares] at h
        simp [bne, hname, htypes] at h

/-- A name has a main issue exactly if it has to be declared, and then only
the one that the installed packages decide on. -/
theorem countAbout_main (hm : f.manifest.Indexed) (hu : f.usages.Distinct)
    (hkind : kind = .missing ∨ kind = .phantom) (name : String) :
    f.countAbout kind name = if f.isUndeclared name && f.mainKind name == kind then 1 else 0 := by
  have hunused : kind ≠ .unused := by rcases hkind with rfl | rfl <;> decide
  have hduplicate : kind ≠ .duplicate := by rcases hkind with rfl | rfl <;> decide
  have hmisplaced : (IssueKind.misplaced == kind) = false := by
    rcases hkind with rfl | rfl <;> decide
  rw [countAbout_of_import hm hu hunused hduplicate]
  cases hget : f.usages.get? name with
  | none =>
    have himports : f.imports name = false := by
      rw [← Bool.not_eq_true, imports_iff, hget]
      simp
    rw [isUndeclared, himports]
    rfl
  | some usages =>
    rw [Option.elim_some]
    cases hundeclared : f.isUndeclared name with
    | true =>
      rw [importIssues_of_isUndeclared hundeclared, undeclaredIssues_eq, List.countP_cons,
        kind_mainIssue, Bool.true_and]
      have htypes : (if f.manifest.declares (Dependency.typesScope ++ Dependency.typesName name)
          then [typesOnlyIssue name usages] else []).countP (fun i => i.kind == kind) = 0 := by
        split
        · exact List.countP_cons_of_neg (by rw [typesOnlyIssue, hmisplaced]; decide)
        · rfl
      rw [htypes, Nat.zero_add]
    | false =>
      rcases importIssues_of_not_isUndeclared hundeclared (imports_iff.mpr ⟨_, hget⟩) usages with
        h | ⟨i, hi, h⟩
      · rw [h]
        rfl
      · rw [h, List.countP_singleton, hi, hmisplaced]
        rfl

/-- Main issues are no misplaced ones, and there is at most one more. -/
theorem countAbout_misplaced_le_one (hm : f.manifest.Indexed) (hu : f.usages.Distinct)
    (name : String) : f.countAbout .misplaced name ≤ 1 := by
  rw [countAbout_of_import hm hu (by decide) (by decide)]
  cases hget : f.usages.get? name with
  | none => exact Nat.zero_le 1
  | some usages =>
    rw [Option.elim_some]
    cases hundeclared : f.isUndeclared name with
    | true =>
      have hmain : (f.mainKind name == .misplaced) = false := by
        rw [mainKind]
        split <;> rfl
      rw [importIssues_of_isUndeclared hundeclared, undeclaredIssues_eq, List.countP_cons,
        kind_mainIssue, hmain]
      refine Nat.le_trans List.countP_le_length ?_
      split <;> exact Nat.le_of_ble_eq_true rfl
    | false =>
      rcases importIssues_of_not_isUndeclared hundeclared (imports_iff.mpr ⟨_, hget⟩) usages with
        h | ⟨i, _, h⟩
      · rw [h]
        exact Nat.zero_le 1
      · rw [h]
        exact List.countP_le_length

/-! ## 5. All verdicts together -/

theorem isUsed_of_imports (h : f.imports name = true) : f.isUsed name = true := by
  rw [isUsed, if_pos h]

theorem isUsed_of_mem_used (h : name ∈ f.used.map Declared.name) : f.isUsed name = true := by
  obtain ⟨d, hd, rfl⟩ := List.mem_map.mp h
  exact (List.mem_filter.mp hd).2

theorem mem_used_of_isUsed {d : Declared} (hd : d ∈ f.manifest.dependencies)
    (h : f.isUsed d.name = true) : d.name ∈ f.used.map Declared.name :=
  List.mem_map_of_mem (List.mem_filter.mpr ⟨hd, h⟩)

theorem countAbout_unused_of_isUsed (hm : f.manifest.Indexed) (h : f.isUsed name = true) :
    f.countAbout .unused name = 0 := by
  rw [countAbout_unused hm]
  cases hget : f.manifest.get? name with
  | none => rfl
  | some d =>
    rw [Option.elim_some, isUnused, hm.name_eq hget, h]
    rfl

/-- A missing package is imported, and an imported one is used. -/
theorem not_missing_or_not_unused (hm : f.manifest.Indexed) (hu : f.usages.Distinct)
    (name : String) : f.countAbout .missing name = 0 ∨ f.countAbout .unused name = 0 := by
  cases himports : f.imports name with
  | true => exact Or.inr (countAbout_unused_of_isUsed hm (isUsed_of_imports himports))
  | false =>
    refine Or.inl ?_
    rw [countAbout_main hm hu (Or.inl rfl), isUndeclared, himports]
    rfl

theorem countAbout_pos {i : Issue} (hi : i ∈ f.issues) (hkind : i.kind = kind)
    (hname : i.name = name) : 0 < f.countAbout kind name :=
  List.countP_pos_iff.mpr ⟨i, hi, by rw [hkind, hname, beq_self_eq_true, beq_self_eq_true]; rfl⟩

/-- A script that installs a package does not remove it, whatever else the
report is about. -/
theorem not_mem_surelyUnused_of_missing (hm : f.manifest.Indexed) (hu : f.usages.Distinct)
    {r : Report} (hr : ∀ i ∈ r.issues, i.kind = .missing ∨ i.kind = .unused → i ∈ f.issues)
    {development : Bool} (hmissing : name ∈ r.missingNames development) :
    name ∉ r.surelyUnused := by
  intro hunused
  obtain ⟨i, hi, _, hikind, hiname⟩ := Report.mem_missingNames.mp hmissing
  obtain ⟨j, hj, _, hjkind, hjname⟩ := Report.mem_surelyUnused.mp hunused
  have hipos := countAbout_pos (hr i hi (Or.inl hikind)) hikind hiname
  have hjpos := countAbout_pos (hr j hj (Or.inr hjkind)) hjkind hjname
  rcases not_missing_or_not_unused hm hu name with h | h
  · exact Nat.ne_of_gt hipos h
  · exact Nat.ne_of_gt hjpos h

/-- **Classification is a partition.** A declared package is never both used
and unused; it has one unused issue if it is not used and looked at, else
none, and it is used if it is imported. A name that has to be declared has one
issue among missing and phantom, a phantom exactly if it is installed, and no
other name has such an issue. No name is misplaced twice. So nothing is both
missing and unused, nor installed and removed by one script. -/
theorem classification_partition {f : Facts} (hm : f.manifest.Indexed)
    (hu : f.usages.Distinct) :
    (∀ d ∈ f.manifest.dependencies,
      ¬ (d.name ∈ f.used.map Declared.name ∧ 0 < f.countAbout .unused d.name) ∧
      f.countAbout .unused d.name =
        (if !f.isUsed d.name && f.options.inScope d.type then 1 else 0) ∧
      (f.usages.has d.name = true → d.name ∈ f.used.map Declared.name)) ∧
    (∀ name,
      if f.isUndeclared name then
        f.countAbout .missing name + f.countAbout .phantom name = 1 ∧
        (f.countAbout .phantom name = 1 ↔ f.installed.present && f.installed.has name)
      else f.countAbout .missing name = 0 ∧ f.countAbout .phantom name = 0) ∧
    (∀ name, f.countAbout .misplaced name ≤ 1) ∧
    (∀ name, ¬ (0 < f.countAbout .missing name ∧ 0 < f.countAbout .unused name)) ∧
    ∀ r : Report, (∀ i ∈ r.issues, i.kind = .missing ∨ i.kind = .unused → i ∈ f.issues) →
      ∀ development, ∀ name ∈ r.missingNames development, name ∉ r.surelyUnused := by
  refine ⟨fun d hd => ⟨?_, ?_, ?_⟩, fun name => ?_, countAbout_misplaced_le_one hm hu, ?_, ?_⟩
  · rintro ⟨hused, hpos⟩
    exact Nat.ne_of_gt hpos (countAbout_unused_of_isUsed hm (isUsed_of_mem_used hused))
  · rw [countAbout_unused hm, hm.get?_of_mem hd, Option.elim_some, isUnused]
  · exact fun h => mem_used_of_isUsed hd (isUsed_of_imports h)
  · rw [countAbout_main hm hu (Or.inl rfl), countAbout_main hm hu (Or.inr rfl), mainKind]
    cases f.isUndeclared name with
    | false => exact ⟨rfl, rfl⟩
    | true => cases f.installed.present && f.installed.has name <;> decide
  · rintro name ⟨hmissing, hunused⟩
    rcases not_missing_or_not_unused hm hu name with h | h
    · exact Nat.ne_of_gt hmissing h
    · exact Nat.ne_of_gt hunused h
  · exact fun r hr development name h => not_mem_surelyUnused_of_missing hm hu hr h

/-- A project with a package of each verdict. -/
def oneOfEach : Facts where
  manifest := .ofDeclared "/p/package.json" (some "app") none [
    ⟨"react", "^18.0.0", .production⟩, ⟨"left-pad", "^1.0.0", .production⟩,
    ⟨"jest", "^29.0.0", .development⟩, ⟨"@types/node", "^20.0.0", .development⟩] []
  installed := {
    root := "/p"
    present := true
    packages := [{ name := "lodash", version := "4.17.21", location := "/p/node_modules/lodash" }] }
  project := "/p"
  usages := [
    ("react", [⟨"src/a.js", 1, .staticImport⟩]), ("lodash", [⟨"src/a.js", 2, .staticImport⟩]),
    ("axios", [⟨"src/b.js", 1, .requireCall⟩]), ("app", [⟨"src/b.js", 2, .staticImport⟩])]

/-- An unused, a missing and a phantom package; the project itself is none. -/
theorem classification_partition_oneOfEach :
    oneOfEach.countAbout .unused "left-pad" = 1 ∧
    oneOfEach.countAbout .missing "axios" + oneOfEach.countAbout .phantom "axios" = 1 ∧
    oneOfEach.countAbout .phantom "lodash" = 1 ∧
    oneOfEach.countAbout .missing "app" = 0 := by
  have hm : oneOfEach.manifest.Indexed := Manifest.indexed_ofDeclared _ _ _ _ _
  have hu : oneOfEach.usages.Distinct := by decide
  have hdeclared : ⟨"left-pad", "^1.0.0", .production⟩ ∈ oneOfEach.manifest.dependencies :=
    List.mem_cons_of_mem _ List.mem_cons_self
  obtain ⟨hunused, himport, _⟩ := classification_partition hm hu
  have hleftPad := (hunused _ hdeclared).2.1
  have haxios := himport "axios"
  have hlodash := himport "lodash"
  have happ := himport "app"
  rw [if_pos (by decide +kernel)] at haxios hlodash
  rw [if_neg (by decide +kernel)] at happ
  refine ⟨hleftPad.trans (by decide +kernel), haxios.1, hlodash.2.mpr (by decide +kernel), happ.1⟩

end Facts

end PackageAudit
