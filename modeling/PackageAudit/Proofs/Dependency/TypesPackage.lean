/-
PackageAudit.Proofs.Dependency.TypesPackage — type definitions and the
packages that they describe.

A package gives its name to type definitions (`typesName`), and a name of
type definitions says what they describe (`typesTarget?`). The way back is
read off the first two underscores, so it leads to where it started from the
names of `NamesTypes` alone: another name has underscores of its own where the
end of a scope is looked for, or a scope that nothing follows
(`typesTarget?_typesName_iff`).

Two verdicts depend on these maps. A package of which only the type
definitions are declared is misplaced, by the first map; type definitions are
unused when nothing imports what they describe, by the second one and with an
exception for those of the runtime. `types_verdicts` says when one package of
type definitions gets both.
-/
import PackageAudit.Proofs.Audit.RuntimeModules
import PackageAudit.Proofs.Text.Cut

namespace PackageAudit

namespace Dependency

/-! ## 1. Two underscores -/

theorem atUnderscores_iff {cs : List Char} : atUnderscores cs = true ↔ ['_', '_'] <+: cs := by
  unfold atUnderscores
  split
  · simp
  · rename_i hother
    simp only [Bool.false_eq_true, false_iff]
    rintro ⟨rest, rfl⟩
    exact hother rest rfl

/-- Nothing is cut where two underscores stand nowhere. -/
theorem cutUnderscores_eq_none_iff {cs : List Char} :
    cutUnderscores cs = none ↔ ¬ ['_', '_'] <:+: cs := by
  induction cs with
  | nil => simp [cutUnderscores]
  | cons c cs ih =>
    rw [cutUnderscores, List.infix_cons_iff, ← atUnderscores_iff]
    by_cases h : atUnderscores (c :: cs) = true
    · simp [h]
    · simp [h, ih]

/-- Two underscores at the front are the first two. -/
theorem eq_nil_of_underscores {rest before behind : List Char}
    (h : '_' :: '_' :: rest = before ++ '_' :: '_' :: behind)
    (hnone : ¬ ['_', '_'] <:+: before ++ ['_']) : before = [] := by
  match before with
  | [] => rfl
  | [_] =>
    obtain ⟨rfl, -⟩ := List.cons.inj h
    exact absurd List.infix_rfl hnone
  | _ :: _ :: before =>
    obtain ⟨hfirst, h⟩ := List.cons.inj h
    obtain ⟨hsecond, -⟩ := List.cons.inj h
    exact absurd ⟨[], before ++ ['_'], by simp [← hfirst, ← hsecond]⟩ hnone

/-- The cut is at the first two underscores: the part before them has none, even
with the first one of them at its end. -/
theorem cutUnderscores_eq_some_iff {cs before behind : List Char} :
    cutUnderscores cs = some (before, behind) ↔
      cs = before ++ '_' :: '_' :: behind ∧ ¬ ['_', '_'] <:+: before ++ ['_'] := by
  induction cs generalizing before with
  | nil => simp [cutUnderscores]
  | cons c cs ih =>
    rw [cutUnderscores]
    by_cases h : atUnderscores (c :: cs) = true
    · obtain ⟨rest, hrest⟩ := atUnderscores_iff.mp h
      obtain ⟨rfl, rfl⟩ := List.cons.inj hrest
      rw [if_pos h]
      constructor
      · intro heq
        obtain ⟨rfl, rfl⟩ := Prod.mk.inj (Option.some.inj heq)
        exact ⟨rfl, fun hinside => absurd hinside.length_le (by simp)⟩
      · rintro ⟨hcs, hnone⟩
        obtain rfl := eq_nil_of_underscores hcs hnone
        simpa using hcs
    · rw [if_neg h]
      cases before with
      | nil =>
        have hne : c :: cs ≠ '_' :: '_' :: behind := fun hcs =>
          h (atUnderscores_iff.mpr ⟨behind, hcs.symm⟩)
        simp [hne]
      | cons d before =>
        have hstart : d = c → cs = before ++ '_' :: '_' :: behind →
            ¬ ['_', '_'] <+: d :: (before ++ ['_']) := by
          rintro rfl rfl hahead
          refine h (atUnderscores_iff.mpr (hahead.trans ?_))
          exact ⟨'_' :: behind, by simp⟩
        have hmap : (cutUnderscores cs).map (fun parts => (c :: parts.1, parts.2)) =
            some (d :: before, behind) ↔ d = c ∧ cutUnderscores cs = some (before, behind) := by
          cases cutUnderscores cs with
          | none => simp
          | some parts => simp [Prod.ext_iff, and_assoc, eq_comm (a := c)]
        simp only [hmap, ih, List.cons_append, List.cons.injEq, List.infix_cons_iff, not_or]
        constructor
        · rintro ⟨hd, hcs, hnone⟩
          exact ⟨⟨hd.symm, hcs⟩, hstart hd hcs, hnone⟩
        · rintro ⟨⟨hd, hcs⟩, -, hnone⟩
          exact ⟨hd.symm, hcs, hnone⟩

/-! ## 2. There and back -/

/-- A package whose name can be told from that of its type definitions. Without a
scope the name has no two underscores; with a scope there is one slash, and no
two underscores up to the first one that is written for it. -/
def NamesTypes (name : String) : Prop :=
  (Text.begins "@" name = false ∧ ¬ ['_', '_'] <:+: name.toList) ∨
  ∃ scope rest : List Char, name.toList = '@' :: scope ++ '/' :: rest ∧ '/' ∉ scope ∧ '/' ∉ rest ∧
    ¬ ['_', '_'] <:+: scope ++ ['_']

theorem typesTarget?_typesScope (base : String) : typesTarget? (typesScope ++ base) =
    some (match cutUnderscores base.toList with
      | some (scope, rest) => "@" ++ String.ofList scope ++ "/" ++ String.ofList rest
      | none => base) := by
  have hbase : Text.after? typesScope (typesScope ++ base) = some base :=
    Text.after?_eq_some_iff.mpr String.toList_append
  rw [typesTarget?, hbase]
  rfl

theorem exists_typesTarget? (base : String) :
    ∃ target, typesTarget? (typesScope ++ base) = some target :=
  ⟨_, typesTarget?_typesScope base⟩

theorem not_mem_replaceChar {c : Char} {new cs : List Char} (h : c ∉ new) :
    c ∉ Text.replaceChar c new cs := by
  intro hmem
  obtain ⟨d, _, hd⟩ := List.mem_flatMap.mp hmem
  by_cases hdc : d = c
  · simp only [hdc, beq_self_eq_true, if_true] at hd
    exact h hd
  · rw [if_neg (by simpa using hdc)] at hd
    exact hdc (List.mem_singleton.mp hd).symm

theorem replaceChar_of_not_mem {c : Char} {cs : List Char} (h : c ∉ cs) (new : List Char) :
    Text.replaceChar c new cs = cs := by
  induction cs with
  | nil => rfl
  | cons d cs ih =>
    rw [List.mem_cons, not_or] at h
    have hd : (d == c) = false := beq_false_of_ne (Ne.symm h.1)
    rw [Text.replaceChar, List.flatMap_cons, hd]
    exact congrArg (d :: ·) (ih h.2)

/-- The only slash of a text is replaced. -/
theorem replaceChar_between {c : Char} {new front back : List Char} (hfront : c ∉ front)
    (hback : c ∉ back) : Text.replaceChar c new (front ++ c :: back) = front ++ new ++ back := by
  have hf := replaceChar_of_not_mem hfront new
  have hb := replaceChar_of_not_mem hback new
  rw [Text.replaceChar] at hf hb
  rw [Text.replaceChar, List.flatMap_append, List.flatMap_cons, hf, hb, beq_self_eq_true,
    if_pos rfl, List.append_assoc]

theorem eq_scoped_iff {name : String} {scope rest : List Char} :
    "@" ++ String.ofList scope ++ "/" ++ String.ofList rest = name ↔
      name.toList = '@' :: scope ++ '/' :: rest := by
  rw [← String.toList_inj, eq_comm]
  simp

/-- Without a scope the name is its own, as long as nothing in it is cut. -/
theorem typesTarget?_typesName_of_unscoped {name : String} (hat : Text.after? "@" name = none) :
    typesTarget? (typesScope ++ typesName name) = some name ↔ NamesTypes name := by
  have hbegins : Text.begins "@" name = false := by
    rw [← Bool.not_eq_true, Text.begins_iff, hat]
    simp
  have hno : ∀ scope rest : List Char, name.toList ≠ '@' :: scope ++ '/' :: rest := by
    intro scope rest hname
    have hafter : Text.after? "@" name = some (String.ofList (scope ++ '/' :: rest)) :=
      Text.after?_eq_some_iff.mpr (by simpa using hname)
    cases hat.symm.trans hafter
  have hleft : NamesTypes name ↔ ¬ ['_', '_'] <:+: name.toList := by
    refine ⟨fun h => (h.resolve_right ?_).2, fun h => Or.inl ⟨hbegins, h⟩⟩
    rintro ⟨scope, rest, hname, -⟩
    exact hno scope rest hname
  rw [typesTarget?_typesScope, Option.some.injEq, typesName, hat, hleft,
    ← cutUnderscores_eq_none_iff]
  cases hcut : cutUnderscores name.toList with
  | none => simp
  | some parts => simpa [eq_scoped_iff] using hno parts.1 parts.2

/-- With a scope the cut has to be where its slash was. -/
theorem typesTarget?_typesName_of_scoped {name tail : String}
    (hat : Text.after? "@" name = some tail) :
    typesTarget? (typesScope ++ typesName name) = some name ↔ NamesTypes name := by
  have hname : name.toList = '@' :: tail.toList := by
    simpa using Text.after?_eq_some_iff.mp hat
  have hbegins : Text.begins "@" name = true := Text.begins_iff.mpr ⟨tail, hat⟩
  rw [typesTarget?_typesScope, Option.some.injEq, typesName, hat]
  simp only [String.toList_ofList]
  constructor
  · have hslash : '/' ∉ Text.replaceChar '/' ['_', '_'] tail.toList :=
      not_mem_replaceChar (by simp)
    cases hcut : cutUnderscores (Text.replaceChar '/' ['_', '_'] tail.toList) with
    | none =>
      intro heq
      -- Without a slash nothing was replaced, and the mark of the scope is missing.
      have hlist : Text.replaceChar '/' ['_', '_'] tail.toList = '@' :: tail.toList := by
        rw [← hname, ← heq, String.toList_ofList]
      have hnoslash : '/' ∉ tail.toList := fun hmem =>
        hslash (hlist ▸ List.mem_cons_of_mem _ hmem)
      rw [replaceChar_of_not_mem hnoslash] at hlist
      exact absurd (congrArg List.length hlist) (by simp)
    | some parts =>
      intro heq
      obtain ⟨hparts, hfirst⟩ := cutUnderscores_eq_some_iff.mp hcut
      rw [hparts] at hslash
      simp only [List.mem_append, List.mem_cons, not_or] at hslash
      exact Or.inr ⟨parts.1, parts.2, eq_scoped_iff.mp heq, hslash.1, hslash.2.2.2, hfirst⟩
  · rintro (⟨hno, -⟩ | ⟨scope, rest, hparts, hscope, hrest, hfirst⟩)
    · cases hno.symm.trans hbegins
    · have htail : tail.toList = scope ++ '/' :: rest := by
        simpa [hname] using hparts
      have hcut : cutUnderscores (Text.replaceChar '/' ['_', '_'] tail.toList) =
          some (scope, rest) := by
        rw [htail, replaceChar_between hscope hrest]
        exact cutUnderscores_eq_some_iff.mpr ⟨by simp, hfirst⟩
      rw [hcut]
      exact eq_scoped_iff.mpr hparts

/-- **There and back.** What the type definitions of a package describe is the
package, exactly if its name can be told from theirs. -/
theorem typesTarget?_typesName_iff {name : String} :
    typesTarget? (typesScope ++ typesName name) = some name ↔ NamesTypes name := by
  cases hat : Text.after? "@" name with
  | none => exact typesTarget?_typesName_of_unscoped hat
  | some tail => exact typesTarget?_typesName_of_scoped hat

/-- The name of the runtime is a name like others. -/
theorem namesTypes_node : NamesTypes "node" :=
  Or.inl ⟨rfl, by decide⟩

end Dependency

/-! ## 3. Two verdicts -/

/-- The type definitions that an issue finds declared without their package. -/
def Issue.typesPackage? (i : Issue) : Option String :=
  (i.details.get? "types_package").bind Json.string?

namespace Facts

open Dependency

variable {f : Facts} {name types : String}

/-- Something that type definitions describe is there: a module of the runtime, or
an imported package. -/
def describes (f : Facts) (target : String) : Bool :=
  if target == "node" then f.builtinImported else f.imports target

theorem isUsed_of_typesTarget? {target : String} (h : typesTarget? types = some target) :
    f.isUsed types = (f.imports types || f.describes target) := by
  rw [isUsed, h, describes]
  cases f.imports types <;> rfl

/-- Only a package that has to be declared is found with its type definitions
declared alone. -/
theorem typesPackage?_of_mem_importIssues {usages : List Usage} {i : Issue}
    (himports : f.imports name = true) (h : i ∈ f.importIssues name usages)
    (htypes : i.typesPackage? = some types) :
    f.isUndeclared name = true ∧ f.manifest.declares types = true ∧
      types = typesScope ++ typesName name := by
  rw [importIssues] at h
  split at h
  · cases h
  rename_i hname
  split at h
  · rw [declaredIssues] at h
    split at h
    · cases h
    · rw [List.mem_singleton.mp h] at htypes
      cases htypes
  rename_i hget
  split at h
  · cases h
  rename_i htypesName
  rw [undeclaredIssues_eq, List.mem_cons] at h
  rcases h with rfl | h
  · rw [mainIssue] at htypes
    split at htypes <;> cases htypes
  split at h
  · rename_i hdeclares
    rw [List.mem_singleton.mp h] at htypes
    obtain rfl := Option.some.inj htypes
    have hnone : f.manifest.declares name = false := by
      rw [← Bool.not_eq_true, Manifest.declares, Table.has_iff]
      exact Table.get?_eq_none_iff.mp hget
    refine ⟨?_, hdeclares, rfl⟩
    simp only [isUndeclared, himports, hnone, htypesName, bne, hname, Bool.not_false, Bool.and_self]
  · cases h

theorem declares_of_get? {d : Declared} (h : f.manifest.get? name = some d) :
    f.manifest.declares name = true :=
  Table.has_iff.mpr (List.mem_map_of_mem (Table.mem_of_get? h))

theorem imports_of_isUndeclared (h : f.isUndeclared name = true) : f.imports name = true := by
  simp only [isUndeclared, Bool.and_eq_true] at h
  exact h.1.1.1

/-- A package of which only the type definitions are declared has its issue. -/
theorem typesOnlyIssue_mem_issues {usages : List Usage} (hu : (name, usages) ∈ f.usages)
    (h : f.isUndeclared name = true)
    (hdeclares : f.manifest.declares (typesScope ++ typesName name) = true) :
    typesOnlyIssue name usages ∈ f.issues := by
  refine mem_issues_of_mem_importIssues hu ?_
  rw [importIssues_of_isUndeclared h, undeclaredIssues_eq, if_pos hdeclares]
  exact List.mem_cons_of_mem _ (List.mem_singleton_self _)

/-- **Declared alone.** Type definitions are found without their package exactly
for each package that has to be declared and gives its name to them. -/
theorem exists_typesPackage?_iff :
    (∃ i ∈ f.issues, i.kind = .misplaced ∧ i.typesPackage? = some types) ↔
      ∃ name, f.isUndeclared name = true ∧ f.manifest.declares types = true ∧
        types = typesScope ++ typesName name := by
  constructor
  · rintro ⟨i, hi, hkind, htypes⟩
    rcases List.mem_append.mp hi with hi | hi
    · rcases List.mem_append.mp hi with hi | hi
      · cases (kind_of_mem_unusedIssues i hi).symm.trans hkind
      · obtain ⟨e, he, hi⟩ := mem_usageIssues hi
        have himports : f.imports e.1 = true := Table.has_iff.mpr (List.mem_map_of_mem he)
        exact ⟨e.1, typesPackage?_of_mem_importIssues himports hi htypes⟩
    · cases (kind_of_mem_duplicateIssues i hi).symm.trans hkind
  · rintro ⟨name, hundeclared, hdeclares, rfl⟩
    obtain ⟨usages, husages⟩ := imports_iff.mp (imports_of_isUndeclared hundeclared)
    exact ⟨typesOnlyIssue name usages,
      typesOnlyIssue_mem_issues (Table.mem_of_get? husages) hundeclared hdeclares, rfl, rfl⟩

/-- What is imported is there, but for a package with the name of the runtime. -/
theorem eq_node_of_describes (himports : f.imports name = true)
    (h : f.describes name = false) : name = "node" ∧ f.builtinImported = false := by
  rw [describes] at h
  split at h
  · rename_i hnode
    exact ⟨beq_iff_eq.mp hnode, h⟩
  · cases himports.symm.trans h

/-- Type definitions have an unused issue when they are declared and looked at, and
neither they nor what they describe is there. -/
theorem countAbout_unused_types_pos (hm : f.manifest.Indexed) {target : String}
    (h : typesTarget? types = some target) : 0 < f.countAbout .unused types ↔
      ∃ d, f.manifest.get? types = some d ∧ f.options.inScope d.type = true ∧
        f.imports types = false ∧ f.describes target = false := by
  rw [countAbout_unused hm]
  cases hget : f.manifest.get? types with
  | none => simp
  | some d =>
    rw [Option.elim_some, isUnused, hm.name_eq hget, isUsed_of_typesTarget? h]
    simp only [Option.some.injEq, exists_eq_left']
    cases f.imports types <;> cases f.describes target <;> cases f.options.inScope d.type <;> simp

/-- Type definitions get both verdicts exactly when they are declared, looked at and
not imported, and some package that has to be declared gives its name to them while
what they describe is not there: the runtime, or something else than the package. -/
theorem declared_alone_and_unused_iff (hm : f.manifest.Indexed) :
    (∃ i ∈ f.issues, i.kind = .misplaced ∧ i.typesPackage? = some types) ∧
        0 < f.countAbout .unused types ↔
      (∃ d, f.manifest.get? types = some d ∧ f.options.inScope d.type = true ∧
        f.imports types = false) ∧
      ∃ name, f.isUndeclared name = true ∧ types = typesScope ++ typesName name ∧
        (name = "node" ∧ f.builtinImported = false ∨
          ¬ NamesTypes name ∧ ∀ target, typesTarget? types = some target →
            f.describes target = false) := by
  rw [exists_typesPackage?_iff]
  constructor
  · rintro ⟨⟨name, hundeclared, -, rfl⟩, hunused⟩
    obtain ⟨target, htarget⟩ := exists_typesTarget? (typesName name)
    obtain ⟨d, hd, hscope, himports, hdescribes⟩ :=
      (countAbout_unused_types_pos hm htarget).mp hunused
    refine ⟨⟨d, hd, hscope, himports⟩, name, hundeclared, rfl, ?_⟩
    by_cases hname : NamesTypes name
    · obtain rfl := Option.some.inj
        (htarget.symm.trans (typesTarget?_typesName_iff.mpr hname))
      exact Or.inl (eq_node_of_describes (imports_of_isUndeclared hundeclared) hdescribes)
    · refine Or.inr ⟨hname, fun other hother => ?_⟩
      obtain rfl := Option.some.inj (htarget.symm.trans hother)
      exact hdescribes
  · rintro ⟨⟨d, hd, hscope, himports⟩, name, hundeclared, rfl, hreason⟩
    obtain ⟨target, htarget⟩ := exists_typesTarget? (typesName name)
    refine ⟨⟨name, hundeclared, declares_of_get? hd, rfl⟩,
      (countAbout_unused_types_pos hm htarget).mpr ⟨d, hd, hscope, himports, ?_⟩⟩
    rcases hreason with ⟨rfl, hbuiltin⟩ | ⟨-, hdescribes⟩
    · obtain rfl : "node" = target :=
        Option.some.inj ((typesTarget?_typesName_iff.mpr namesTypes_node).symm.trans htarget)
      exact hbuiltin
    · exact hdescribes target htarget

/-- **Types packages.** What the type definitions of a package describe is the
package, exactly if its name can be told from theirs. Type definitions are found
both declared alone and unused exactly when they are declared, looked at and not
imported, and a package that has to be declared gives its name to them which is
that of the runtime, no module of which is imported, or whose name cannot be told
from theirs, what they describe instead not being there. So they are judged
consistently as long as every package that has to be declared has a name that can
be told, and is none that the runtime has. -/
theorem types_verdicts (hm : f.manifest.Indexed) :
    (∀ name, typesTarget? (typesScope ++ typesName name) = some name ↔ NamesTypes name) ∧
    (∀ types, (∃ i ∈ f.issues, i.kind = .misplaced ∧ i.typesPackage? = some types) ∧
        0 < f.countAbout .unused types ↔
      (∃ d, f.manifest.get? types = some d ∧ f.options.inScope d.type = true ∧
        f.imports types = false) ∧
      ∃ name, f.isUndeclared name = true ∧ types = typesScope ++ typesName name ∧
        (name = "node" ∧ f.builtinImported = false ∨
          ¬ NamesTypes name ∧ ∀ target, typesTarget? types = some target →
            f.describes target = false)) ∧
    ((∀ name, f.isUndeclared name = true → NamesTypes name ∧
        (name = "node" → f.builtinImported = true)) →
      ∀ i ∈ f.issues, i.kind = .misplaced → ∀ types, i.typesPackage? = some types →
        f.countAbout .unused types = 0) := by
  refine ⟨fun name => typesTarget?_typesName_iff, fun types => declared_alone_and_unused_iff hm, ?_⟩
  intro hnames i hi hkind types htypes
  by_contra hunused
  obtain ⟨-, name, hundeclared, -, hreason⟩ :=
    (declared_alone_and_unused_iff hm).mp ⟨⟨i, hi, hkind, htypes⟩, Nat.pos_of_ne_zero hunused⟩
  obtain ⟨hname, hnode⟩ := hnames name hundeclared
  rcases hreason with ⟨rfl, hbuiltin⟩ | ⟨hother, -⟩
  · exact absurd (hnode rfl) (by simp [hbuiltin])
  · exact hother hname

/-- A project that declares the type definitions of packages with and without a
scope, and imports two of these packages. -/
def typesDeclared : Facts where
  manifest := .ofDeclared "/p/package.json" none none [
    ⟨"@types/react", "^18.0.0", .development⟩, ⟨"@types/babel__core", "^7.0.0", .development⟩,
    ⟨"@types/jquery", "^3.0.0", .development⟩] []
  installed := { root := "/p" }
  project := "/p"
  usages := [
    ("react", [⟨"src/a.js", 1, .staticImport⟩]), ("@babel/core", [⟨"src/a.js", 2, .staticImport⟩])]

/-- Definitions without their packages are misplaced and not unused, and those of a
package that is not imported are unused. -/
theorem types_verdicts_typesDeclared :
    (∃ i ∈ typesDeclared.issues, i.kind = .misplaced ∧
      i.typesPackage? = some "@types/babel__core") ∧
    typesDeclared.countAbout .unused "@types/babel__core" = 0 ∧
    0 < typesDeclared.countAbout .unused "@types/jquery" := by
  have hm : typesDeclared.manifest.Indexed := Manifest.indexed_ofDeclared _ _ _ _ _
  have hissue : ∃ i ∈ typesDeclared.issues, i.kind = .misplaced ∧
      i.typesPackage? = some "@types/babel__core" :=
    exists_typesPackage?_iff.mpr ⟨"@babel/core", by decide +kernel, by decide +kernel, by rfl⟩
  have hnames : ∀ name, typesDeclared.isUndeclared name = true → NamesTypes name ∧
      (name = "node" → typesDeclared.builtinImported = true) := by
    intro name hundeclared
    have hkey : name ∈ ["react", "@babel/core"] :=
      Table.has_iff.mp (imports_of_isUndeclared hundeclared)
    rcases List.mem_cons.mp hkey with rfl | hkey
    · exact ⟨Or.inl ⟨rfl, by decide⟩, fun h => absurd h (by decide)⟩
    · obtain rfl := List.mem_singleton.mp hkey
      exact ⟨typesTarget?_typesName_iff.mp (by decide +kernel), fun h => absurd h (by decide)⟩
  obtain ⟨i, hi, hkind, htypes⟩ := hissue
  refine ⟨⟨i, hi, hkind, htypes⟩, (types_verdicts hm).2.2 hnames i hi hkind _ htypes, ?_⟩
  rw [countAbout_unused hm]
  decide +kernel

end Facts

namespace Audit

/-- A project that imports a package with two underscores in its name, and declares
type definitions with the same name. -/
def joinedName : Request :=
  oneFile "\x7b\"devDependencies\": \x7b\"@types/ng__core\": \"^1.0.0\"\x7d\x7d"
    "import 'ng__core';\n" []

/-- The type definitions. -/
def joinedTypes : Declared := ⟨"@types/ng__core", "^1.0.0", .development⟩

/-- What is read of the project. -/
def joinedNameRead : Material :=
  oneFileRead {
      path := "/p/package.json"
      declared := [("@types/ng__core", joinedTypes)]
      raw := [("devDependencies", .obj [("@types/ng__core", .str "^1.0.0")])] }
    { root := "/p" }
    [⟨⟨"ng__core", .staticImport, "/p/index.js", 1⟩, some (.external "ng__core" false)⟩]

theorem reads_joinedName : Reads joinedName joinedNameRead :=
  reads_oneFile rfl ⟨by decide, by decide, by with_unfolding_all rfl⟩
    (by with_unfolding_all rfl) rfl (by with_unfolding_all rfl) (by decide +kernel)

/-- The type definitions are what the package is misplaced for, and they are unused,
since by their name they describe another package. -/
theorem types_declared_alone_and_unused :
    ∃ m rep, read joinedName = .ok m ∧ report joinedName m = .ok rep ∧
      (∃ i ∈ rep.issues, i.kind = .misplaced ∧ i.name = "ng__core" ∧
        i.typesPackage? = some "@types/ng__core") ∧
      (∃ i ∈ rep.issues, i.kind = .unused ∧ i.name = "@types/ng__core") ∧
      "@types/ng__core" ∈ rep.surelyUnused := by
  obtain ⟨rep, hreport⟩ : ∃ rep, report joinedName joinedNameRead = .ok rep := ⟨_, rfl⟩
  have hundeclared :
      (joinedNameRead.facts joinedName.options).isUndeclared "ng__core" = true := by
    decide +kernel
  have hunused : (joinedNameRead.facts joinedName.options).isUnused joinedTypes = true := by
    decide +kernel
  have halone : (joinedNameRead.facts joinedName.options).manifest.declares "@types/ng__core" =
      true := rfl
  obtain ⟨usages, husages⟩ := Facts.imports_iff.mp (Facts.imports_of_isUndeclared hundeclared)
  have hmisplaced := mem_issues_of_mem_facts hreport
    (Facts.typesOnlyIssue_mem_issues (Table.mem_of_get? husages) hundeclared halone)
  have hissue := mem_issues_of_mem_facts hreport
    (Facts.unusedIssue_mem_issues (List.mem_singleton_self joinedTypes) hunused)
  exact ⟨joinedNameRead, rep, read_eq_ok_iff.mpr reads_joinedName, hreport,
    ⟨_, hmisplaced, rfl, rfl, rfl⟩, ⟨_, hissue, rfl, rfl⟩,
    Report.mem_surelyUnused.mpr ⟨_, hissue, rfl, rfl, rfl⟩⟩

end Audit

end PackageAudit
