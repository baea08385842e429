/-
PackageAudit.Proofs.Resolve.RuntimeName — names of the runtime under cutting.

Whether a specifier belongs to the runtime hangs on its first component and
on its prefix. Both survive what the resolver does to a specifier before it
gives a module a name: the ends, the query and the fragment are cut off
(`isBuiltin_stripped`), and only the package part is kept
(`isBuiltin_packageName`). No address belongs to the runtime
(`isBuiltin_of_isAddress`).

The prefix itself does not survive being taken off. That a name is one of the
runtime *because* of its prefix cannot be seen of the name alone.
-/
import PackageAudit.Proofs.Resolve.External
import Mathlib.Data.List.TakeWhile

namespace PackageAudit

/-! ## 1. Beginnings and first components -/

namespace Text

theorem begins_iff_prefix {start s : String} :
    begins start s = true ↔ start.toList <+: s.toList := by
  simp [begins]

/-- A beginning within a run is one of the whole. -/
theorem prefix_takeWhile_iff {p : Char → Bool} {start cs : List Char}
    (h : start.all p = true) : start <+: cs.takeWhile p ↔ start <+: cs := by
  constructor
  · intro hstart
    exact hstart.trans (List.takeWhile_prefix p)
  · rintro ⟨rest, rfl⟩
    rw [List.takeWhile_append_of_pos (List.all_eq_true.mp h)]
    exact List.prefix_append _ _

/-- The first piece is the run before the first separator. -/
theorem head?_splitAt (sep : Char) (cs : List Char) :
    (splitAt sep cs).head? = some (cs.takeWhile (· != sep)) := by
  induction cs with
  | nil => rfl
  | cons c cs ih =>
    by_cases hc : c = sep
    · simp [splitAt, hc]
    · cases hpieces : splitAt sep cs with
      | nil => simp [hpieces] at ih
      | cons piece pieces =>
        simp only [hpieces, List.head?_cons, Option.some.injEq] at ih
        simp [splitAt, hc, hpieces, ih]

end Text

namespace Specifier

variable {s : String}

theorem exists_components (s : String) :
    ∃ rest, Path.components s = String.ofList (s.toList.takeWhile (· != '/')) :: rest := by
  have hhead := Text.head?_splitAt '/' s.toList
  rw [Path.components, Text.pieces]
  cases hpieces : Text.splitAt '/' s.toList with
  | nil => simp [hpieces] at hhead
  | cons piece pieces =>
    simp only [hpieces, List.head?_cons, Option.some.injEq] at hhead
    exact ⟨pieces.map String.ofList, by simp [hhead]⟩

/-- A beginning without slashes is one of the first component. -/
theorem begins_firstComponent {start name : String}
    (hname : name = String.ofList (s.toList.takeWhile (· != '/')))
    (hstart : start.toList.all (· != '/') = true) :
    Text.begins start name = Text.begins start s := by
  rw [Bool.eq_iff_iff, Text.begins_iff_prefix, Text.begins_iff_prefix, hname,
    String.toList_ofList, Text.prefix_takeWhile_iff hstart]

/-- Outside of scopes the package is the first component. -/
theorem packageName_eq (h : Text.begins "@" s = false) :
    packageName s = String.ofList (s.toList.takeWhile (· != '/')) := by
  obtain ⟨rest, hrest⟩ := exists_components s
  simp [packageName, h, hrest]

/-- The name of a package in a scope begins with that of the scope. -/
theorem begins_packageName (h : Text.begins "@" s = true) :
    Text.begins "@" (packageName s) = true := by
  have hscope : "@".toList <+: s.toList.takeWhile (· != '/') :=
    (Text.prefix_takeWhile_iff (by decide)).mpr (Text.begins_iff_prefix.mp h)
  obtain ⟨rest, hrest⟩ := exists_components s
  rw [Text.begins_iff_prefix, packageName, if_pos h, hrest, Path.ofComponents,
    String.toList_intercalate]
  cases rest with
  | nil => simpa using hscope
  | cons second rest =>
    simp only [List.take_succ_cons, List.map_cons, List.intercalate_cons_cons,
      String.toList_ofList, List.append_assoc]
    exact hscope.trans (List.prefix_append _ _)

/-! ## 2. Names of the runtime -/

theorem not_begins_runtime (h : Text.begins "@" s = true) : Text.begins "node:" s = false := by
  rw [Text.begins_iff_prefix] at h
  obtain ⟨rest, hrest⟩ := h
  rw [← Bool.not_eq_true, Text.begins_iff_prefix, ← hrest]
  simp

theorem isBuiltin_of_scope (h : Text.begins "@" s = true) : isBuiltin s = false := by
  simp [isBuiltin, h, not_begins_runtime h]

/-- The package part of a specifier tells whether it belongs to the runtime. -/
theorem isBuiltin_packageName (s : String) : isBuiltin (packageName s) = isBuiltin s := by
  cases hscope : Text.begins "@" s with
  | true => rw [isBuiltin_of_scope hscope, isBuiltin_of_scope (begins_packageName hscope)]
  | false =>
    have hname := packageName_eq hscope
    have hscope' : Text.begins "@" (packageName s) = false :=
      (begins_firstComponent hname (by decide)).trans hscope
    have hruntime : Text.begins "node:" (packageName s) = Text.begins "node:" s :=
      begins_firstComponent hname (by decide)
    have hpackage : packageName (packageName s) = packageName s := by
      rw [packageName_eq hscope', hname, String.toList_ofList, List.takeWhile_idem]
    simp [isBuiltin, hscope, hscope', hruntime, hpackage]

theorem begins_eq_false_of_after? {start : String} (h : Text.after? start s = none) :
    Text.begins start s = false := by
  rw [← Bool.not_eq_true, Text.begins_iff, h]
  simp

/-- A scheme and its colon stand in the first component. -/
theorem mem_firstComponent_of_hasScheme (h : hasScheme s = true) :
    ':' ∈ s.toList.takeWhile (· != '/') := by
  unfold hasScheme at h
  split at h
  · rename_i c cs hs
    simp only [Bool.and_eq_true, beq_iff_eq] at h
    obtain ⟨⟨hletter, -⟩, hcolon⟩ := h
    obtain ⟨rest, hrest⟩ := List.head?_eq_some_iff.mp hcolon
    have hcs : cs = cs.takeWhile isSchemeChar ++ ':' :: rest := by
      rw [← hrest]
      exact (List.prefix_iff_eq_append.mp (List.takeWhile_prefix isSchemeChar)).symm
    have hscheme : ∀ d ∈ c :: cs.takeWhile isSchemeChar, (d != '/') = true := by
      intro d hd
      rw [bne_iff_ne]
      rintro rfl
      rcases List.mem_cons.mp hd with rfl | hd
      · exact absurd hletter (by decide)
      · exact absurd (List.mem_takeWhile_imp hd) (by decide)
    rw [hs, hcs, ← List.cons_append, List.takeWhile_append_of_pos hscheme]
    simp
  · cases h

/-- No address without the prefix of the runtime belongs to the runtime. -/
theorem isBuiltin_of_isAddress (h : isAddress s = true) (hruntime : Text.after? "node:" s = none) :
    isBuiltin s = false := by
  cases hscope : Text.begins "@" s with
  | true => exact isBuiltin_of_scope hscope
  | false =>
    have hname : packageName s ∉ builtins := by
      rw [packageName_eq hscope]
      rw [isAddress, Bool.or_eq_true] at h
      rcases h with hscheme | hslashes
      · intro hmem
        have hcolon : ∀ b ∈ builtins, ':' ∉ b.toList := by decide
        refine hcolon _ hmem ?_
        rw [String.toList_ofList]
        exact mem_firstComponent_of_hasScheme hscheme
      · obtain ⟨rest, hrest⟩ := Text.begins_iff_prefix.mp hslashes
        have hempty : s.toList.takeWhile (· != '/') = [] := by simp [← hrest]
        rw [hempty]
        decide
    simp [isBuiltin, begins_eq_false_of_after? hruntime, hname]

/-! ## 3. Stripped specifiers -/

theorem cutBefore_append {mark : Char} {start : List Char} (rest : List Char) (hne : start ≠ [])
    (hstart : ∀ c ∈ start, c ≠ mark) :
    cutBefore mark (start ++ rest) = start ++ rest.takeWhile (· != mark) := by
  cases start with
  | nil => exact absurd rfl hne
  | cons c cs =>
    have hcs : ∀ d ∈ cs, (d != mark) = true := by
      intro d hd
      exact bne_iff_ne.mpr (hstart d (List.mem_cons_of_mem _ hd))
    rw [List.cons_append, cutBefore, List.takeWhile_append_of_pos hcs]
    rfl

theorem trimBoth_append {p : Char → Bool} {start : List Char} (rest : List Char) (hne : start ≠ [])
    (hstart : ∀ c ∈ start, p c = false) :
    Text.trimBoth p (start ++ rest) = start ++ Text.trimBack p rest := by
  have hkeep : ∀ cs : List Char, cs ≠ [] → (∀ c ∈ cs, p c = false) → ∀ more,
      (cs ++ more).dropWhile p = cs ++ more := by
    intro cs hcs hall more
    obtain ⟨c, ds, rfl⟩ := List.exists_cons_of_ne_nil hcs
    simp [hall c List.mem_cons_self]
  have hback := hkeep start.reverse (by simpa using hne) (by simpa using hstart) []
  rw [List.append_nil] at hback
  rw [Text.trimBoth, Text.trimFront, hkeep start hne hstart rest, Text.trimBack, Text.trimBack,
    List.reverse_append, List.dropWhile_append, hback]
  split
  · rename_i hempty
    simp [List.isEmpty_iff.mp hempty]
  · simp

/-- Characters that end no specifier: not white space, question mark or number sign. -/
def isLasting (c : Char) : Bool := !Text.isSpace c && c != '?' && c != '#'

theorem isLasting_iff {c : Char} :
    isLasting c = true ↔ Text.isSpace c = false ∧ c ≠ '?' ∧ c ≠ '#' := by
  simp [isLasting, and_assoc]

/-- A beginning of such characters stays when a specifier is stripped, and what
follows it is cut short at most. -/
theorem exists_stripped_append {start rest : List Char} (hs : s.toList = start ++ rest)
    (hne : start ≠ []) (hlasting : start.all isLasting = true) :
    ∃ rest', rest' <+: rest ∧ (stripped s).toList = start ++ rest' := by
  have hstart : ∀ c ∈ start, Text.isSpace c = false ∧ c ≠ '?' ∧ c ≠ '#' := fun c hc =>
    isLasting_iff.mp (List.all_eq_true.mp hlasting c hc)
  refine ⟨((Text.trimBack Text.isSpace rest).takeWhile (· != '?')).takeWhile (· != '#'), ?_, ?_⟩
  · have hback : Text.trimBack Text.isSpace rest <+: rest := by
      rw [Text.trimBack, ← List.reverse_suffix, List.reverse_reverse]
      exact List.dropWhile_suffix _
    exact ((List.takeWhile_prefix _).trans (List.takeWhile_prefix _)).trans hback
  · rw [stripped, stripQuery, Text.strip, String.toList_ofList, String.toList_ofList, hs,
      trimBoth_append rest hne fun c hc => (hstart c hc).1,
      cutBefore_append _ hne fun c hc => (hstart c hc).2.1,
      cutBefore_append _ hne fun c hc => (hstart c hc).2.2]

/-- A specifier that begins with the name of a package keeps the name. -/
theorem packageName_stripped (hscope : Text.begins "@" s = false) (hname : packageName s ≠ "")
    (hchars : (packageName s).toList.all isLasting = true) :
    packageName (stripped s) = packageName s := by
  have hfirst := packageName_eq hscope
  have hchars' : (packageName s).toList = s.toList.takeWhile (· != '/') := by
    rw [hfirst, String.toList_ofList]
  rw [hchars'] at hchars
  have hne : s.toList.takeWhile (· != '/') ≠ [] := by
    intro hempty
    exact hname (by rw [hfirst, hempty, String.ofList_nil])
  obtain ⟨rest, hprefix, hstripped⟩ :=
    exists_stripped_append List.takeWhile_append_dropWhile.symm hne hchars
  -- What is left behind the first component still begins with a slash.
  have hslash : ∀ c ∈ rest.head?, (c != '/') = false := by
    intro c hc
    obtain ⟨more, hmore⟩ := hprefix
    obtain ⟨cs, rfl⟩ := List.head?_eq_some_iff.mp hc
    have hhead := List.head?_dropWhile_not (fun c => c != '/') s.toList
    rw [← hmore] at hhead
    simpa using hhead
  have hfirst' : packageName s = String.ofList ((stripped s).toList.takeWhile (· != '/')) := by
    rw [hstripped, Text.takeWhile_append_stop (fun c hc => List.mem_takeWhile_imp hc) hslash,
      hfirst]
  have hscope' : Text.begins "@" (stripped s) = false := by
    rw [← begins_firstComponent hfirst' (by decide), begins_firstComponent hfirst (by decide),
      hscope]
  rw [packageName_eq hscope', ← hfirst']

/-- A specifier of the runtime stays one when it is stripped. -/
theorem isBuiltin_stripped (h : isBuiltin s = true) : isBuiltin (stripped s) = true := by
  rw [isBuiltin, Bool.or_eq_true, Bool.and_eq_true, Bool.not_eq_true', List.contains_iff_mem] at h
  rcases h with hprefix | ⟨hscope, hname⟩
  · obtain ⟨rest, hrest⟩ := Text.begins_iff_prefix.mp hprefix
    obtain ⟨rest', -, hstripped⟩ := exists_stripped_append hrest.symm (by simp) (by decide)
    have hprefix' : Text.begins "node:" (stripped s) = true :=
      Text.begins_iff_prefix.mpr ⟨rest', hstripped.symm⟩
    simp [isBuiltin, hprefix']
  · have hchars : ∀ b ∈ builtins, b ≠ "" ∧ b.toList.all isLasting = true := by decide
    obtain ⟨hne, hchars⟩ := hchars _ hname
    rw [← isBuiltin_packageName, packageName_stripped hscope hne hchars, isBuiltin_packageName]
    simp [isBuiltin, hscope, hname]

end Specifier

end PackageAudit
