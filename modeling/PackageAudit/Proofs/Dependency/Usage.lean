/-
PackageAudit.Proofs.Dependency.Usage — importing more never makes a package
unused.

The verdict on a declared package comes from one question after the other, and
some answers end the questioning: type definitions are asked about what they
describe and about nothing else. `Evidence` lists what can speak for a package,
with no order among its forms, and `isUsed_iff` says that the verdict is that
there is some. Each form asks for imports and never for the absence of one, so
evidence stands when packages are added to the imported ones (`Evidence.mono`).

`usage_mono` draws the conclusion for the two lists of a classification: the used
packages and the unused ones.
-/
import PackageAudit.Proofs.Dependency.Partition

namespace PackageAudit.Facts

variable {f g : Facts} {name : String}

/-! ## 1. What speaks for a package -/

/-- What speaks for a declared package: it is imported; it describes the runtime,
of which a module is imported, or an imported package; or it describes nothing,
and a rule with an imported trigger, a script or the configuration of a tool
names it. -/
inductive Evidence (f : Facts) (name : String) : Prop where
  | imported (h : f.imports name = true)
  | describesRuntime (htarget : Dependency.typesTarget? name = some "node")
      (h : f.builtinImported = true)
  | describes {target : String} (htarget : Dependency.typesTarget? name = some target)
      (hother : target ≠ "node") (h : f.imports target = true)
  | rule (htarget : Dependency.typesTarget? name = none) {r : UsageRule}
      (hr : r ∈ f.options.usageRules) (hcovers : r.covers name = true) {trigger : String}
      (htrigger : trigger ∈ r.triggers) (h : f.imports trigger = true)
  | script (htarget : Dependency.typesTarget? name = none) (h : f.usedInScripts name = true)
  | config (htarget : Dependency.typesTarget? name = none) (h : f.usedInConfigs name = true)

theorem usedByRule_iff : f.usedByRule name = true ↔ ∃ r ∈ f.options.usageRules,
    r.covers name = true ∧ ∃ trigger ∈ r.triggers, f.imports trigger = true := by
  simp only [usedByRule, List.any_eq_true, Bool.and_eq_true]

/-- A package is used when something speaks for it. -/
theorem isUsed_iff : f.isUsed name = true ↔ f.Evidence name := by
  constructor
  · -- Each way in which the questioning ends well is a form of evidence.
    intro h
    rw [isUsed] at h
    split at h
    · rename_i himported
      exact .imported himported
    · split at h
      · rename_i target htarget
        split at h
        · rename_i hnode
          exact .describesRuntime (beq_iff_eq.mp hnode ▸ htarget) h
        · rename_i hother
          exact .describes htarget (fun heq => hother (beq_iff_eq.mpr heq)) h
      · rename_i htarget
        rw [Bool.or_eq_true, Bool.or_eq_true, usedByRule_iff] at h
        rcases h with (⟨r, hr, hcovers, trigger, htrigger, h⟩ | h) | h
        · exact .rule htarget hr hcovers htrigger h
        · exact .script htarget h
        · exact .config htarget h
  · intro h
    rw [isUsed]
    split
    · rfl
    · cases h with
      | imported h => contradiction
      | describesRuntime htarget h => simpa [htarget] using h
      | describes htarget hother h => simpa [htarget, hother] using h
      | rule htarget hr hcovers htrigger h =>
        simp [htarget, usedByRule_iff.mpr ⟨_, hr, hcovers, _, htrigger, h⟩]
      | script htarget h => simp [htarget, h]
      | config htarget h => simp [htarget, h]

/-! ## 2. More imports -/

/-- What is known of the same project when other packages are imported. -/
def withUsages (f : Facts) (usages : Table (List Usage)) (builtinImported : Bool) : Facts :=
  { f with usages, builtinImported }

section

variable {usages : Table (List Usage)} {builtinImported : Bool}

theorem imports_withUsages_of_subset (hkeys : f.usages.keys ⊆ usages.keys)
    (h : f.imports name = true) : (f.withUsages usages builtinImported).imports name = true :=
  Table.has_iff.mpr (hkeys (Table.has_iff.mp h))

/-- What speaks for a package still does when more is imported. -/
theorem Evidence.mono (hkeys : f.usages.keys ⊆ usages.keys)
    (hbuiltin : f.builtinImported = true → builtinImported = true) (h : f.Evidence name) :
    (f.withUsages usages builtinImported).Evidence name := by
  cases h with
  | imported h => exact .imported (imports_withUsages_of_subset hkeys h)
  | describesRuntime htarget h => exact .describesRuntime htarget (hbuiltin h)
  | describes htarget hother h =>
    exact .describes htarget hother (imports_withUsages_of_subset hkeys h)
  | rule htarget hr hcovers htrigger h =>
    exact .rule htarget hr hcovers htrigger (imports_withUsages_of_subset hkeys h)
  | script htarget h => exact .script htarget h
  | config htarget h => exact .config htarget h

theorem isUsed_mono (hkeys : f.usages.keys ⊆ usages.keys)
    (hbuiltin : f.builtinImported = true → builtinImported = true)
    (h : f.isUsed name = true) : (f.withUsages usages builtinImported).isUsed name = true :=
  isUsed_iff.mpr ((isUsed_iff.mp h).mono hkeys hbuiltin)

/-- The unused issues among all are those of the declared packages that are looked
at and not used. -/
theorem filter_unused_issues (f : Facts) :
    f.issues.filter (fun i => i.kind == .unused) = f.unusedIssues := by
  have hunused : f.unusedIssues.filter (fun i => i.kind == .unused) = f.unusedIssues :=
    List.filter_eq_self.mpr fun i hi => beq_iff_eq.mpr (kind_of_mem_unusedIssues i hi)
  have husages : f.usageIssues.filter (fun i => i.kind == .unused) = [] :=
    List.filter_eq_nil_iff.mpr fun i hi => by
      simpa using kind_ne_unused_of_mem_usageIssues i hi
  have hroles : f.duplicateIssues.filter (fun i => i.kind == .unused) = [] :=
    List.filter_eq_nil_iff.mpr fun i hi => by
      simp [kind_of_mem_duplicateIssues i hi]
  rw [issues, List.filter_append, List.filter_append, hunused, husages, hroles, List.append_nil,
    List.append_nil]

/-- **More imports, more used packages.** When every imported package is still
imported, and modules of the runtime are if they were, the used packages are still
used, in their order, and the unused issues are some of those there were. -/
theorem usage_mono (f : Facts) (hkeys : f.usages.keys ⊆ usages.keys)
    (hbuiltin : f.builtinImported = true → builtinImported = true) :
    f.used.Sublist (f.withUsages usages builtinImported).used ∧
    ((f.withUsages usages builtinImported).issues.filter fun i => i.kind == .unused).Sublist
      (f.issues.filter fun i => i.kind == .unused) := by
  constructor
  · exact List.monotone_filter_right _ fun d hd => isUsed_mono hkeys hbuiltin hd
  · rw [filter_unused_issues, filter_unused_issues]
    refine List.Sublist.map _ (List.monotone_filter_right _ fun d hd => ?_)
    rw [isUnused, Bool.and_eq_true, Bool.not_eq_true'] at hd ⊢
    refine ⟨?_, hd.2⟩
    rw [← Bool.not_eq_true] at hd ⊢
    exact fun hused => hd.1 (isUsed_mono hkeys hbuiltin hused)

end

/-- A project of which only one package is imported; the others are used through
packages that are not, or through the runtime. -/
def onePackageImported : Facts where
  manifest := .ofDeclared "/p/package.json" (some "app") none [
    ⟨"left-pad", "^1.0.0", .production⟩, ⟨"eslint-plugin-react", "^7.0.0", .development⟩,
    ⟨"@types/babel__core", "^7.0.0", .development⟩, ⟨"@types/node", "^20.0.0", .development⟩] []
  installed := { root := "/p" }
  project := "/p"
  usages := [("left-pad", [⟨"src/a.js", 1, .staticImport⟩])]

/-- Usages of more packages. -/
def moreUsages : Table (List Usage) := [
  ("@babel/core", [⟨"src/b.js", 1, .staticImport⟩]), ("eslint", [⟨"src/b.js", 2, .requireCall⟩]),
  ("left-pad", [⟨"src/a.js", 1, .staticImport⟩])]

/-- With those and a module of the runtime all its packages are used. -/
theorem usage_mono_onePackageImported :
    onePackageImported.usages.keys ⊆ moreUsages.keys ∧
    (onePackageImported.used.map Declared.name = ["left-pad"] ∧
      (onePackageImported.withUsages moreUsages true).used.map Declared.name =
        ["left-pad", "eslint-plugin-react", "@types/babel__core", "@types/node"]) ∧
    onePackageImported.used.Sublist (onePackageImported.withUsages moreUsages true).used ∧
    ((onePackageImported.withUsages moreUsages true).issues.filter fun i =>
      i.kind == .unused).Sublist (onePackageImported.issues.filter fun i => i.kind == .unused) := by
  have hkeys : onePackageImported.usages.keys ⊆ moreUsages.keys := by decide
  exact ⟨hkeys, ⟨by decide +kernel, by decide +kernel⟩,
    usage_mono onePackageImported hkeys fun _ => rfl⟩

end PackageAudit.Facts
