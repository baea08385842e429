/-
PackageAudit.Proofs.Resolve.External — which specifiers stand for packages.

A specifier that names neither a module of the runtime nor an address nor a
place is handed to the aliases. What the first of them makes of it, or what
stands behind the tilde of a stylesheet, or the specifier itself decides on
the package (`Decides`). `resolve_eq_external_iff` says of every specifier
whether it stands for something outside of the project, and under which name;
nothing else opens the resolver.

The deciding specifier is asked whether it belongs to the runtime, and not
whether it is an address. The specifier that was written has been asked both.
So a package is never one of the runtime, and it is an address only if an
alias or a tilde brought the address in (`resolve_eq_package_iff`).
-/
import PackageAudit.Resolve.Resolver
import PackageAudit.Proofs.Collection
import PackageAudit.Proofs.Text.Cut
import Mathlib.Tactic.MkIffOfInductiveProp

namespace PackageAudit

namespace Specifier

/-- A specifier without white space around it, query and fragment. -/
def stripped (specifier : String) : String := stripQuery (Text.strip specifier)

end Specifier

namespace Resolver

variable {t : FileTree} {c : ResolverConfig} {specifier file folder spec : String}
  {stylesheet : Bool} {name : String} {builtin : Bool}

/-! ## 1. The deciding specifier -/

/-- The specifier that decides which package is meant by a specifier in a file
of a folder. -/
inductive Decides (t : FileTree) (c : ResolverConfig) (folder spec : String) (stylesheet : Bool) :
    String → Prop where
  /-- What the first alias that applies puts in its place. -/
  | ofAlias {before after : List Alias} {a : Alias} {target : String}
      (split : c.aliases = before ++ a :: after)
      (passed : ∀ b ∈ before, b.apply spec = .ok none)
      (applies : a.apply spec = .ok (some target))
      (package : a.isPath = false) : Decides t c folder spec stylesheet target
  /-- What stands behind a tilde in a stylesheet. -/
  | ofTilde {name : String} (passed : ∀ a ∈ c.aliases, a.apply spec = .ok none)
      (sheet : stylesheet = true) (tilde : Text.after? "~" spec = some name)
      (package : Text.begins "/" name = false) : Decides t c folder spec stylesheet name
  /-- Itself, if it is no stylesheet and does not begin with the home of the project. -/
  | itself (passed : ∀ a ∈ c.aliases, a.apply spec = .ok none)
      (home : Text.after? "~/" spec = none)
      (sheet : stylesheet = true → Text.after? "~" spec = none ∧
        findStylesheet? t (Path.join folder spec) = none) : Decides t c folder spec stylesheet spec

theorem aliased?_eq_none_iff {aliases : List Alias} :
    aliased? t c spec aliases = .ok none ↔ ∀ a ∈ aliases, a.apply spec = .ok none := by
  induction aliases with
  | nil => simp [aliased?]
  | cons a rest ih =>
    rw [aliased?, bind_eq_ok_iff]
    constructor
    · rintro ⟨found, happly, h⟩
      cases found with
      | none => simpa [happly] using ih.mp h
      | some target => cases hpath : a.isPath <;> simp [hpath, pure, Except.pure] at h
    · intro h
      rw [List.forall_mem_cons] at h
      exact ⟨none, h.1, ih.mpr h.2⟩

/-- What the aliases turn into a package. -/
theorem aliased?_eq_external_iff {aliases : List Alias} :
    aliased? t c spec aliases = .ok (some (.external name builtin)) ↔
      ∃ before a after target, aliases = before ++ a :: after ∧
        (∀ b ∈ before, b.apply spec = .ok none) ∧ a.apply spec = .ok (some target) ∧
        a.isPath = false ∧ Specifier.external target = .external name builtin := by
  induction aliases with
  | nil => simp [aliased?]
  | cons a rest ih =>
    rw [aliased?, bind_eq_ok_iff]
    constructor
    · rintro ⟨found, happly, h⟩
      cases found with
      | none =>
        obtain ⟨before, b, after, target, rfl, hbefore, hb⟩ := ih.mp h
        refine ⟨a :: before, b, after, target, rfl, ?_, hb⟩
        exact List.forall_mem_cons.mpr ⟨happly, hbefore⟩
      | some target =>
        cases hpath : a.isPath with
        | true => simp [hpath, pure, Except.pure] at h
        | false =>
          have hexternal : Specifier.external target = .external name builtin := by
            simpa [hpath, pure, Except.pure] using h
          exact ⟨[], a, rest, target, rfl, by simp, happly, hpath, hexternal⟩
    · rintro ⟨before, b, after, target, hsplit, hbefore, happly, hpath, hexternal⟩
      cases before with
      | nil =>
        obtain ⟨rfl, rfl⟩ := List.cons.inj hsplit
        exact ⟨some target, happly, by simp [hpath, hexternal, pure, Except.pure]⟩
      | cons d before =>
        obtain ⟨rfl, rfl⟩ := List.cons.inj hsplit
        rw [List.forall_mem_cons] at hbefore
        exact ⟨none, hbefore.1, ih.mpr ⟨before, b, after, target, rfl, hbefore.2, happly, hpath,
          hexternal⟩⟩

/-! ## 2. What stands for a package -/

/-- Behind the home of the project stands what stands behind a tilde and a slash. -/
theorem after?_home {bare : String} (htilde : Text.after? "~" spec = some bare) :
    Text.after? "~/" spec = Text.after? "/" bare := by
  rw [Text.after?_eq_some_iff] at htilde
  ext rest
  rw [Text.after?_eq_some_iff, Text.after?_eq_some_iff, htilde]
  simp

theorem after?_home_eq_none (htilde : Text.after? "~" spec = none) :
    Text.after? "~/" spec = none := by
  rw [Option.eq_none_iff_forall_ne_some] at htilde ⊢
  intro rest hrest
  rw [Text.after?_eq_some_iff] at hrest
  refine htilde ("/" ++ rest) (Text.after?_eq_some_iff.mpr ?_)
  simpa using hrest

theorem unmapped_script_eq_external_iff :
    unmapped t c folder spec false = .external name builtin ↔
      Text.after? "~/" spec = none ∧ Specifier.external spec = .external name builtin := by
  cases hhome : Text.after? "~/" spec <;> simp [unmapped, hhome]

/-- Without aliases a stylesheet means what stands behind a tilde, and else the
specifier itself, unless that is a place. -/
theorem unmapped_stylesheet_eq_external_iff :
    unmapped t c folder spec true = .external name builtin ↔
      (∃ bare, Text.after? "~" spec = some bare ∧ Text.begins "/" bare = false ∧
        Specifier.external bare = .external name builtin) ∨
      (Text.after? "~" spec = none ∧ findStylesheet? t (Path.join folder spec) = none ∧
        Specifier.external spec = .external name builtin) := by
  cases htilde : Text.after? "~" spec with
  | none =>
    cases hfound : findStylesheet? t (Path.join folder spec) <;>
      simp [unmapped, ofStylesheet?, htilde, hfound, after?_home_eq_none htilde]
  | some bare =>
    cases hslash : Text.begins "/" bare with
    | false => simp [unmapped, ofStylesheet?, htilde, hslash]
    | true =>
      obtain ⟨rest, hrest⟩ := Text.begins_iff.mp hslash
      cases hfound : findStylesheet? t (Path.join folder spec) <;>
        simp [unmapped, ofStylesheet?, htilde, hslash, hfound, after?_home htilde, hrest]

theorem ok_external_iff {source : String} {runtime : Bool} :
    (Except.ok (ModuleId.external source runtime) : Except Regex.Error ModuleId) =
      .ok (.external name builtin) ↔ name = source ∧ builtin = runtime := by
  rw [Except.ok.injEq, ModuleId.external.injEq]
  exact and_congr eq_comm eq_comm

theorem external_eq_iff : Specifier.external spec = .external name builtin ↔
    name = Specifier.packageName spec ∧ builtin = Specifier.isBuiltin spec := by
  rw [Specifier.external, ModuleId.external.injEq]
  exact and_congr eq_comm eq_comm

/-- What no mapping concerns is the package of the deciding specifier. -/
theorem aliased_or_unmapped_iff :
    (do match ← aliased? t c spec c.aliases with
      | some m => return m
      | none => return unmapped t c folder spec stylesheet) =
        Except.ok (ModuleId.external name builtin) ↔
      ∃ source, Decides t c folder spec stylesheet source ∧
        Specifier.external source = .external name builtin := by
  rw [bind_eq_ok_iff]
  constructor
  · rintro ⟨found, haliased, h⟩
    cases found with
    | some m =>
      obtain rfl := Except.ok.inj h
      obtain ⟨before, a, after, target, hsplit, hpassed, happly, hpath, hexternal⟩ :=
        aliased?_eq_external_iff.mp haliased
      exact ⟨target, .ofAlias hsplit hpassed happly hpath, hexternal⟩
    | none =>
      replace h := Except.ok.inj h
      have hpassed := aliased?_eq_none_iff.mp haliased
      cases stylesheet with
      | false =>
        obtain ⟨hhome, hexternal⟩ := unmapped_script_eq_external_iff.mp h
        exact ⟨spec, .itself hpassed hhome (by simp), hexternal⟩
      | true =>
        rcases unmapped_stylesheet_eq_external_iff.mp h with
          ⟨bare, htilde, hpackage, hexternal⟩ | ⟨htilde, hfound, hexternal⟩
        · exact ⟨bare, .ofTilde hpassed rfl htilde hpackage, hexternal⟩
        · exact ⟨spec, .itself hpassed (after?_home_eq_none htilde) (fun _ => ⟨htilde, hfound⟩),
            hexternal⟩
  · rintro ⟨source, hdecides, hexternal⟩
    cases hdecides with
    | ofAlias split passed applies package =>
      exact ⟨some _, aliased?_eq_external_iff.mpr
        ⟨_, _, _, _, split, passed, applies, package, hexternal⟩, rfl⟩
    | ofTilde passed sheet tilde package =>
      subst sheet
      refine ⟨none, aliased?_eq_none_iff.mpr passed, congrArg Except.ok ?_⟩
      exact unmapped_stylesheet_eq_external_iff.mpr (Or.inl ⟨_, tilde, package, hexternal⟩)
    | itself passed home sheet =>
      refine ⟨none, aliased?_eq_none_iff.mpr passed, congrArg Except.ok ?_⟩
      cases stylesheet with
      | false => exact unmapped_script_eq_external_iff.mpr ⟨home, hexternal⟩
      | true =>
        obtain ⟨htilde, hfound⟩ := sheet rfl
        exact unmapped_stylesheet_eq_external_iff.mpr (Or.inr ⟨htilde, hfound, hexternal⟩)

/-- Nothing but aliases and packages is left for a specifier. -/
@[mk_iff]
structure Unplaced (t : FileTree) (c : ResolverConfig) (spec : String) : Prop where
  prefixed : Text.after? "node:" spec = none
  address : Specifier.isAddress spec = false
  relative : Specifier.isRelative spec = false
  mapped : mappedPlace? t c spec = none

/-- **What stands for something outside of the project.** A module of the
runtime by its prefix, an address, or what the deciding specifier names. -/
theorem resolve_eq_external_iff {spec : String} (hspec : Specifier.stripped specifier = spec) :
    resolve t c specifier file stylesheet = .ok (.external name builtin) ↔
      (∃ rest, Text.after? "node:" spec = some rest ∧
        name = Specifier.packageName rest ∧ builtin = true) ∨
      (Text.after? "node:" spec = none ∧ Specifier.isAddress spec = true ∧
        name = spec ∧ builtin = true) ∨
      (Unplaced t c spec ∧
        ∃ source, Decides t c (Path.parent file) spec stylesheet source ∧
          name = Specifier.packageName source ∧ builtin = Specifier.isBuiltin source) := by
  rw [Specifier.stripped] at hspec
  unfold resolve
  simp only [hspec]
  cases hprefixed : Text.after? "node:" spec with
  | some rest =>
    dsimp only
    rw [ok_external_iff]
    simp [unplaced_iff, hprefixed]
  | none =>
    cases haddress : Specifier.isAddress spec with
    | true =>
      dsimp only
      rw [if_pos rfl, ok_external_iff]
      simp [unplaced_iff, haddress]
    | false =>
      cases hrelative : Specifier.isRelative spec with
      | true => simp [unplaced_iff, hrelative]
      | false =>
        cases hmapped : mappedPlace? t c spec with
        | some place => simp [unplaced_iff, hmapped]
        | none =>
          refine Iff.trans aliased_or_unmapped_iff ?_
          simp [unplaced_iff, hprefixed, haddress, hrelative, hmapped, external_eq_iff]

/-- **Where packages come from.** A specifier stands for a package exactly if
the deciding specifier does not belong to the runtime. That one is an address
only if it is not the specifier itself. -/
theorem resolve_eq_package_iff :
    resolve t c specifier file stylesheet = .ok (.external name false) ↔
      Unplaced t c (Specifier.stripped specifier) ∧
        ∃ source, Decides t c (Path.parent file) (Specifier.stripped specifier) stylesheet source ∧
          name = Specifier.packageName source ∧ Specifier.isBuiltin source = false ∧
          (Specifier.isAddress source = true → source ≠ Specifier.stripped specifier) := by
  rw [resolve_eq_external_iff rfl]
  constructor
  · rintro (⟨rest, -, -, h⟩ | ⟨-, -, -, h⟩ | ⟨hplace, source, hdecides, hname, hbuiltin⟩)
    · cases h
    · cases h
    · refine ⟨hplace, source, hdecides, hname, hbuiltin.symm, ?_⟩
      rintro haddress rfl
      rw [hplace.address] at haddress
      cases haddress
  · rintro ⟨hplace, source, hdecides, hname, hbuiltin, -⟩
    exact Or.inr (Or.inr ⟨hplace, source, hdecides, hname, hbuiltin.symm⟩)

end Resolver

end PackageAudit
