/-
PackageAudit.Proofs.Resolve.PackageFolder — path mappings hide no package.

The place that a mapping names is never inside a folder of packages. A file that
was found is asked for that itself; the first target, which stands in when no
file is found, is asked before it is normalized. Normalizing takes components
away and brings none in (`mem_components_normalize`), so both questions come to
the same.

A pattern that is nothing but a star takes every specifier, and so does the base
of all paths. Neither has a target to stand in, so they name files that are
there or nothing at all; a name for which they have no file outside of the
folder of packages goes on to the aliases (`packages_not_hidden`).
-/
import PackageAudit.Proofs.Path.Trail
import PackageAudit.Proofs.Resolve.Mapping

namespace PackageAudit

/-! ## 1. Components -/

namespace Text

/-- With backslashes turned into slashes, a text is cut at both. -/
theorem splitAt_replaceChar (cs : List Char) :
    splitAt '/' (replaceChar '\\' ['/'] cs) = (splitAt '/' cs).flatMap (splitAt '\\') := by
  induction cs with
  | nil => rfl
  | cons c cs ih =>
    have hreplace : replaceChar '\\' ['/'] (c :: cs) =
        (if c == '\\' then ['/'] else [c]) ++ replaceChar '\\' ['/'] cs := rfl
    cases hpieces : splitAt '/' cs with
    | nil => exact absurd hpieces (splitAt_eq_splitOn '/' cs ▸ List.splitOn_ne_nil '/' cs)
    | cons p ps =>
      rw [hpieces, List.flatMap_cons] at ih
      rw [hreplace]
      by_cases hback : c = '\\'
      · subst hback
        simp [splitAt, hpieces, ih]
      by_cases hslash : c = '/'
      · subst hslash
        simp [splitAt, hpieces, ih]
      · cases hp : splitAt '\\' p with
        | nil => exact absurd hp (splitAt_eq_splitOn '\\' p ▸ List.splitOn_ne_nil '\\' p)
        | cons q qs =>
          rw [hp, List.cons_append] at ih
          simp [splitAt, hback, hslash, hpieces, hp, ih]

end Text

namespace Path

theorem mem_of_mem_pushComponent {rooted : Bool} {kept : List String} {part c : String}
    (h : c ∈ pushComponent rooted kept part) : c ∈ kept ∨ c = part := by
  unfold pushComponent at h
  split at h
  · exact .inl h
  split at h
  · exact (List.mem_cons.mp h).symm
  cases kept with
  | nil =>
    dsimp only at h
    split at h
    · cases h
    · exact .inr (List.mem_singleton.mp h)
  | cons last rest =>
    dsimp only at h
    split at h
    · exact (List.mem_cons.mp h).symm
    · exact .inl (List.mem_cons_of_mem last h)

theorem mem_of_mem_normalComponents {path c : String} (h : c ∈ normalComponents path) :
    c ∈ components path := by
  rw [normalComponents, List.mem_reverse] at h
  refine List.foldlRecOn (motive := fun kept => c ∈ kept → c ∈ components path) (components path)
    (pushComponent (isAbsolute path)) (fun hc => absurd hc (List.not_mem_nil)) ?_ h
  intro kept hkept part hpart hc
  rcases mem_of_mem_pushComponent hc with hc | rfl
  · exact hkept hc
  · exact hpart

/-- Normalizing a path brings no component in, save what is written for none. -/
theorem mem_components_normalize {path c : String} (h : c ∈ components (normalize path)) :
    c = "" ∨ c = "." ∨ c ∈ components path := by
  rw [normalize_eq] at h
  split at h
  · have hdot : components "." = ["."] := by decide
    rw [hdot, List.mem_singleton] at h
    exact .inr (.inl h)
  · rw [Trail.components_path, List.mem_append] at h
    rcases h with hslash | hpart
    · exact .inl (List.eq_of_mem_replicate hslash)
    · split at hpart
      · exact .inl (List.mem_singleton.mp hpart)
      · exact .inr (.inr (mem_of_mem_normalComponents hpart))

/-- Between slashes or backslashes of a path stands the name of the folder of
packages. -/
def InPackages (path : String) : Prop :=
  ∃ part ∈ components path, "node_modules" ∈ Text.pieces '\\' part

theorem inPackages_of_normalize {path : String} (h : InPackages (normalize path)) :
    InPackages path := by
  obtain ⟨part, hpart, hname⟩ := h
  rcases mem_components_normalize hpart with rfl | rfl | hpart
  · exact absurd hname (by decide)
  · exact absurd hname (by decide)
  · exact ⟨part, hpart, hname⟩

end Path

namespace Resolver

open PackageAudit.Path (InPackages)

variable {t : FileTree} {c : ResolverConfig} {path file spec place : String} {s : Selected}

theorem outsidePackages_iff : outsidePackages path = true ↔ ¬ InPackages path := by
  have hcomponents : Path.components (String.ofList (Text.replaceChar '\\' ['/'] path.toList)) =
      (Path.components path).flatMap (Text.pieces '\\') := by
    simp only [Path.components, Text.pieces, String.toList_ofList, Text.splitAt_replaceChar,
      List.map_flatMap, List.flatMap_map]
  simp only [outsidePackages, hcomponents, InPackages, Bool.not_eq_true', ← Bool.not_eq_true,
    List.contains_iff_mem, List.mem_flatMap]

/-! ## 2. What is found -/

/-- The files that a path may abbreviate, itself or as a folder. -/
def candidates (c : ResolverConfig) (path : String) : List String :=
  fileCandidates c (Path.normalize path) ++ indexCandidates c (Path.normalize path)

theorem findFile?_eq_some (h : findFile? t c path = some file) :
    file ∈ candidates c path ∧ t.isFile file = true := by
  unfold findFile? at h
  dsimp only at h
  split at h
  · rename_i found hfound
    obtain rfl := Option.some.inj h
    exact ⟨List.mem_append_left _ (List.mem_of_find?_eq_some hfound), List.find?_some hfound⟩
  · split at h
    · exact ⟨List.mem_append_right _ (List.mem_of_find?_eq_some h), List.find?_some h⟩
    · cases h

theorem foundOutside?_eq_some (h : foundOutside? t c path = some file) :
    file ∈ candidates c path ∧ t.isFile file = true ∧ ¬ InPackages file := by
  obtain ⟨hfound, houtside⟩ := Option.filter_eq_some_iff.mp h
  obtain ⟨hmem, hfile⟩ := findFile?_eq_some hfound
  exact ⟨hmem, hfile, outsidePackages_iff.mp houtside⟩

theorem foundOutside?_eq_none (h : ∀ file ∈ candidates c path, t.isFile file = true →
    InPackages file) : foundOutside? t c path = none := by
  cases hfound : foundOutside? t c path with
  | none => rfl
  | some file =>
    obtain ⟨hmem, hfile, houtside⟩ := foundOutside?_eq_some hfound
    exact absurd (h file hmem hfile) houtside

/-- The place of a mapping is a file, or its first target where the pattern is
not for everything. -/
theorem selectedPlace?_eq_some (h : selectedPlace? t c s = some place) :
    ¬ InPackages place ∧ (s.catchAll = true → t.isFile place = true) := by
  unfold selectedPlace? at h
  split at h
  · rename_i found hfound
    obtain rfl := Option.some.inj h
    obtain ⟨target, -, houtside⟩ := List.exists_of_findSome?_eq_some hfound
    obtain ⟨-, hfile, hout⟩ := foundOutside?_eq_some houtside
    exact ⟨hout, fun _ => hfile⟩
  · split at h
    · rename_i first rest htargets
      split at h
      · rename_i hguess
        rw [Bool.and_eq_true, Bool.not_eq_true'] at hguess
        obtain rfl := Option.some.inj h
        refine ⟨fun hin => outsidePackages_iff.mp hguess.2 (Path.inPackages_of_normalize hin), ?_⟩
        intro hcatch
        rw [hcatch] at hguess
        cases hguess.1
      · cases h
    · cases h

theorem selectedPlace?_eq_none (hcatch : s.catchAll = true)
    (h : ∀ target ∈ s.targets, foundOutside? t c target = none) : selectedPlace? t c s = none := by
  unfold selectedPlace?
  rw [List.findSome?_eq_none_iff.mpr h, hcatch]
  dsimp only
  split <;> rfl

theorem basePlace?_eq_some (h : basePlace? t c spec = some place) :
    ¬ InPackages place ∧ t.isFile place = true := by
  obtain ⟨base, -, hfound⟩ := Option.bind_eq_some_iff.mp h
  obtain ⟨-, hfile, hout⟩ := foundOutside?_eq_some hfound
  exact ⟨hout, hfile⟩

/-! ## 3. Names that match only a catch-all -/

/-- A specifier equals a pattern without a star or fits one with a star. -/
def Matches (m : PathMapping) (spec : String) : Prop :=
  '*' ∉ m.pattern.toList ∧ m.pattern = spec ∨ ∃ front star, m.Fits spec front star

/-- No pattern matches a specifier but one that matches everything. -/
def OnlyCatchAll (mappings : List PathMapping) (spec : String) : Prop :=
  ∀ m ∈ mappings, Matches m spec → m.pattern = "*"

/-- The files that a star for everything or the base of all paths would make of
a specifier. -/
inductive Offers (c : ResolverConfig) (spec : String) : String → Prop where
  | catchAll {m : PathMapping} {target filled file : String} (hm : m ∈ c.pathMappings)
      (hpattern : m.pattern = "*") (htarget : target ∈ m.targets)
      (hfills : Alias.Fills spec.toList target filled) (hfile : file ∈ candidates c filled) :
      Offers c spec file
  | base {base file : String} (hbase : c.baseUrl = some base)
      (hfile : file ∈ candidates c (Path.join base spec)) : Offers c spec file

theorem Uses.matches {mappings : List PathMapping} {m : PathMapping} {targets : List String}
    (h : Uses mappings spec m targets) : m ∈ mappings ∧ Matches m spec := by
  cases h with
  | exact hm hplain hpattern => exact ⟨hm, .inl ⟨hplain, hpattern⟩⟩
  | longest _ hm hfits _ _ => exact ⟨hm, .inr ⟨_, _, hfits⟩⟩

/-- A star for everything stands for the whole specifier. -/
theorem Uses.fills_of_catchAll {mappings : List PathMapping} {m : PathMapping}
    {targets : List String} (h : Uses mappings spec m targets) (hpattern : m.pattern = "*") :
    List.Forall₂ (Alias.Fills spec.toList) m.targets targets := by
  cases h with
  | exact _ hplain _ => exact absurd (by simp [hpattern]) hplain
  | longest _ _ hfits _ hfills =>
    have hwhole : m.Fits spec [] spec.toList := ⟨by simp, [], by simp [hpattern], by simp⟩
    obtain ⟨-, rfl⟩ := hfits.unique hwhole
    exact hfills

theorem selected_of_onlyCatchAll (honly : OnlyCatchAll c.pathMappings spec)
    (hs : selectMapping c.pathMappings spec = some s) :
    s.catchAll = true ∧ ∀ target ∈ s.targets, ∀ file ∈ candidates c target, Offers c spec file := by
  obtain ⟨m, huses, hcatch⟩ := uses_of_selectMapping hs
  obtain ⟨hm, hmatches⟩ := huses.matches
  have hpattern := honly m hm hmatches
  refine ⟨by rw [hcatch, hpattern]; rfl, ?_⟩
  intro filled hfilled file hfile
  have htargets := Alias.forall₂_fills_iff.mp (huses.fills_of_catchAll hpattern)
  rw [htargets] at hfilled
  obtain ⟨target, htarget, heq⟩ := List.mem_map.mp hfilled
  exact .catchAll hm hpattern htarget (Alias.fills_iff.mpr heq.symm) hfile

/-- With no file outside of the folder of packages nothing is named. -/
theorem mappedPlace?_eq_none (honly : OnlyCatchAll c.pathMappings spec)
    (hnone : ∀ file, Offers c spec file → t.isFile file = true → InPackages file) :
    mappedPlace? t c spec = none := by
  have hselected : (selectMapping c.pathMappings spec).bind (selectedPlace? t c) = none := by
    cases hs : selectMapping c.pathMappings spec with
    | none => rfl
    | some s =>
      obtain ⟨hcatch, hoffers⟩ := selected_of_onlyCatchAll honly hs
      refine selectedPlace?_eq_none hcatch fun target htarget => foundOutside?_eq_none ?_
      exact fun file hfile => hnone file (hoffers target htarget file hfile)
  have hbase : basePlace? t c spec = none := by
    rw [basePlace?, Option.bind_eq_none_iff]
    intro base hbase
    refine foundOutside?_eq_none fun file hfile => hnone file ?_
    exact .base (Option.filter_eq_some_iff.mp hbase).1 hfile
  rw [mappedPlace?_eq, hselected, hbase, Option.or_none]

/-- **Packages stay packages.** A place that path mappings name is not in a
folder of packages. If nothing but a star for everything matches the specifier,
or if it takes the base of all paths to name the place, there is a file at it.
So a bare name for which these two have no file outside of the folders of
packages goes on to the aliases and from there to the packages. -/
theorem packages_not_hidden (t : FileTree) (c : ResolverConfig) (spec : String) :
    (∀ place, mappedPlace? t c spec = some place →
      ¬ InPackages place ∧
      (OnlyCatchAll c.pathMappings spec → t.isFile place = true) ∧
      (mappedPlace? t { c with baseUrl := none } spec = none → t.isFile place = true)) ∧
    (OnlyCatchAll c.pathMappings spec →
      (∀ file, Offers c spec file → t.isFile file = true → InPackages file) →
      ∀ specifier file stylesheet, Specifier.stripped specifier = spec →
        Text.after? "node:" spec = none → Specifier.isAddress spec = false →
        Specifier.isRelative spec = false →
        resolve t c specifier file stylesheet = (aliased? t c spec c.aliases).map fun found =>
          found.getD (unmapped t c (Path.parent file) spec stylesheet)) := by
  refine ⟨?_, ?_⟩
  · intro place hplace
    rw [mappedPlace?_eq, Option.or_eq_some_iff] at hplace
    rcases hplace with hselected | ⟨-, hbase⟩
    · obtain ⟨s, hs, hplace⟩ := Option.bind_eq_some_iff.mp hselected
      obtain ⟨houtside, hfile⟩ := selectedPlace?_eq_some hplace
      refine ⟨houtside, fun honly => hfile (selected_of_onlyCatchAll honly hs).1, ?_⟩
      intro hnone
      have hwithout : selectedPlace? t { c with baseUrl := none } = selectedPlace? t c :=
        selectedPlace?_congr rfl
      rw [mappedPlace?_eq, hwithout] at hnone
      dsimp only at hnone
      rw [hselected] at hnone
      cases hnone
    · obtain ⟨houtside, hfile⟩ := basePlace?_eq_some hbase
      exact ⟨houtside, fun _ => hfile, fun _ => hfile⟩
  · rintro honly hnone specifier file stylesheet rfl hruntime haddress hrelative
    have hmapped := mappedPlace?_eq_none honly hnone
    unfold Specifier.stripped at hruntime haddress hrelative hmapped ⊢
    unfold resolve
    dsimp only
    rw [hruntime, haddress, hrelative, hmapped]
    cases aliased? t c (Specifier.stripQuery (Text.strip specifier)) c.aliases with
    | error e => rfl
    | ok found => cases found <;> rfl

/-- A star for everything, with the folder of packages among its targets. -/
def openConfig : ResolverConfig where
  root := "/p"
  extensions := [".ts"]
  baseUrl := some "/p"
  pathMappings := [⟨"*", ["/p/types/*", "/p/node_modules/*"]⟩]

/-- A project with one file of its own and one package. -/
def openProject : FileTree :=
  ⟨.folder [("p", .folder [("types", .folder [("own.ts", .file [])]),
    ("node_modules", .folder [("react", .folder [("index.ts", .file [])])])])]⟩

theorem onlyCatchAll_openConfig (spec : String) : OnlyCatchAll openConfig.pathMappings spec := by
  intro m hm _
  rw [List.mem_singleton.mp hm]

/-- What is offered for a package is inside its folder. -/
theorem inPackages_of_offers_react {file : String} (h : Offers openConfig "react" file)
    (hfile : openProject.isFile file = true) : InPackages file := by
  have hall : (["/p/types/react", "/p/node_modules/react", "/p/react"].all fun path =>
      (candidates openConfig path).all fun file =>
        !(openProject.isFile file && outsidePackages file)) = true := by
    decide +kernel
  have hpath : ∃ path ∈ ["/p/types/react", "/p/node_modules/react", "/p/react"],
      file ∈ candidates openConfig path := by
    cases h with
    | catchAll hm _ htarget hfills hmem =>
      obtain rfl := List.mem_singleton.mp hm
      obtain rfl := Alias.fills_iff.mp hfills
      rcases List.mem_pair.mp htarget with rfl | rfl
      · exact ⟨_, by decide, hmem⟩
      · exact ⟨_, by decide, hmem⟩
    | base hbase hmem =>
      obtain rfl := Option.some.inj hbase
      exact ⟨_, by decide, hmem⟩
  obtain ⟨path, hpath, hmem⟩ := hpath
  have hinside := List.all_eq_true.mp (List.all_eq_true.mp hall path hpath) file hmem
  rw [hfile, Bool.true_and, Bool.not_eq_true'] at hinside
  by_contra houtside
  rw [outsidePackages_iff.mpr houtside] at hinside
  cases hinside

theorem packages_not_hidden_react :
    OnlyCatchAll openConfig.pathMappings "react" ∧
    (∀ file, Offers openConfig "react" file → openProject.isFile file = true → InPackages file) ∧
    resolve openProject openConfig "react" "/p/main.ts" false = .ok (.external "react" false) ∧
    mappedPlace? openProject openConfig "own" = some "/p/types/own.ts" ∧
    openProject.isFile "/p/types/own.ts" = true := by
  have honly := onlyCatchAll_openConfig "react"
  have hoffers : ∀ file, Offers openConfig "react" file → openProject.isFile file = true →
      InPackages file := fun _ => inPackages_of_offers_react
  have hown : mappedPlace? openProject openConfig "own" = some "/p/types/own.ts" := by
    decide +kernel
  refine ⟨honly, hoffers, ?_, hown, ?_⟩
  · have hpassed := (packages_not_hidden openProject openConfig "react").2 honly hoffers
    rw [hpassed "react" "/p/main.ts" false (by decide) (by decide) (by decide) (by decide)]
    decide +kernel
  · exact ((packages_not_hidden openProject openConfig "own").1 _ hown).2.1
      (onlyCatchAll_openConfig "own")

end Resolver

end PackageAudit
