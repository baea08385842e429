/-
PackageAudit.Proofs.Resolve.Mapping — which path mapping a specifier goes to.

A specifier goes to the mapping whose pattern is the specifier itself, if that
pattern has no star; else to one whose pattern it fits, such that it fits no
pattern with more text before the star (`Uses`). What the resolver selects is
one of these mappings, and it selects none only if there is none
(`uses_of_selectMapping`, `selectMapping_eq_none_iff`).

The search goes through the mappings from the first to the last, so its answer
could hang on their order. Two patterns with equally much text before the star
that one specifier fits have the same text there, both being beginnings of the
specifier. Where no two such patterns have the same text, one mapping alone is
right, and the order cannot be told from the answer
(`selectMapping_perm`).
-/
import PackageAudit.Proofs.Resolve.External
import Mathlib.Data.List.Forall2
import Mathlib.Data.List.Nodup
import Mathlib.Order.OrderDual

namespace PackageAudit

/-! ## 1. Stars -/

/-- The pattern of a mapping is a text with a star, and `spec` has `star` in
the place of the first one; `front` is what stands before it. -/
def PathMapping.Fits (m : PathMapping) (spec : String) (front star : List Char) : Prop :=
  '*' ∉ front ∧
    ∃ back, m.pattern.toList = front ++ '*' :: back ∧ spec.toList = front ++ star ++ back

namespace Alias

variable {star front back : List Char}

/-- `star` in the place of the first star of a target. -/
inductive Fills (star : List Char) : String → String → Prop where
  | starless {target : String} (h : '*' ∉ target.toList) : Fills star target target
  | first {target filled : String} {front back : List Char} (h : '*' ∉ front)
      (htarget : target.toList = front ++ '*' :: back)
      (hfilled : filled.toList = front ++ star ++ back) : Fills star target filled

theorem cutAt_star (hfront : '*' ∉ front) :
    Text.cutAt '*' (front ++ '*' :: back) = (front, back) := by
  have hne : ∀ c ∈ front, (c != '*') = true := fun c hc => bne_iff_ne.mpr fun h => hfront (h ▸ hc)
  simp [Text.cutAt, List.takeWhile_append_of_pos hne, List.dropWhile_append_of_pos hne]

/-- What a star stands for is what is left between the two ends of a pattern. -/
theorem star?_eq_some_iff (hfront : '*' ∉ front) {text : List Char} :
    star? (front ++ '*' :: back) text = some star ↔ text = front ++ star ++ back := by
  rw [star?, cutAt_star hfront]
  simp only [Bool.and_eq_true, List.isPrefixOf_iff_prefix, List.isSuffixOf_iff_suffix,
    decide_eq_true_eq]
  constructor
  · intro h
    split at h
    · rename_i hends
      obtain ⟨⟨⟨rest, rfl⟩, hback⟩, hlength⟩ := hends
      have hrest : back.length ≤ rest.length := by simpa using hlength
      obtain ⟨middle, rfl⟩ := List.suffix_of_suffix_length_le hback ⟨front, rfl⟩ hrest
      obtain rfl : middle = star := by simpa using h
      rw [List.append_assoc]
    · cases h
  · rintro rfl
    have hsuffix : back <:+ front ++ (star ++ back) := ⟨front ++ star, List.append_assoc ..⟩
    simp [hsuffix]

/-- Characters without a star stay in front. -/
theorem replaceFirstChar_append (h : '*' ∉ front) (rest : List Char) :
    Text.replaceFirstChar '*' star (front ++ rest) =
      front ++ Text.replaceFirstChar '*' star rest := by
  induction front with
  | nil => rfl
  | cons c cs ih =>
    rw [List.mem_cons, not_or] at h
    have hc : (c == '*') = false := beq_eq_false_iff_ne.mpr (Ne.symm h.1)
    simp [Text.replaceFirstChar, hc, ih h.2]

theorem replaceFirstChar_of_not_mem (h : '*' ∉ front) :
    Text.replaceFirstChar '*' star front = front := by
  have happend := @replaceFirstChar_append star front h []
  rwa [List.append_nil, Text.replaceFirstChar, List.append_nil] at happend

theorem replaceFirstChar_star (h : '*' ∉ front) :
    Text.replaceFirstChar '*' star (front ++ '*' :: back) = front ++ star ++ back := by
  rw [replaceFirstChar_append h, List.append_assoc]
  simp [Text.replaceFirstChar]

theorem fills_iff {target filled : String} :
    Fills star target filled ↔ filled = fillStar star target := by
  constructor
  · rintro (h | ⟨h, htarget, hfilled⟩)
    · rw [fillStar, replaceFirstChar_of_not_mem h, String.ofList_toList]
    · rw [fillStar, htarget, replaceFirstChar_star h, ← hfilled, String.ofList_toList]
  · rintro rfl
    by_cases hmem : '*' ∈ target.toList
    · obtain ⟨front, back, htarget, hfront⟩ := List.eq_append_cons_of_mem hmem
      refine .first hfront htarget ?_
      rw [fillStar, String.toList_ofList, htarget, replaceFirstChar_star hfront]
    · rw [fillStar, replaceFirstChar_of_not_mem hmem, String.ofList_toList]
      exact .starless hmem

theorem forall₂_fills_iff {targets filled : List String} :
    List.Forall₂ (Fills star) targets filled ↔ filled = targets.map (fillStar star) := by
  have hfills : Fills star = fun target filled => fillStar star target = filled := by
    funext target filled
    rw [fills_iff, eq_comm (a := filled)]
  rw [hfills, ← List.forall₂_map_left_iff (R := Eq), List.forall₂_eq_eq_eq, eq_comm]

end Alias

namespace PathMapping

variable {m : PathMapping} {spec : String} {front star : List Char}

theorem isWildcard_iff : m.isWildcard = true ↔ '*' ∈ m.pattern.toList := List.contains_iff_mem

/-- The text before the star and what the star stands for are the only ones. -/
theorem Fits.unique {front' star' : List Char} (h : m.Fits spec front star)
    (h' : m.Fits spec front' star') : front = front' ∧ star = star' := by
  obtain ⟨hfront, back, hpattern, hspec⟩ := h
  obtain ⟨hfront', back', hpattern', hspec'⟩ := h'
  have hcut : (front, back) = (front', back') := by
    rw [← Alias.cutAt_star hfront, ← Alias.cutAt_star hfront', ← hpattern, ← hpattern']
  obtain ⟨rfl, rfl⟩ := Prod.mk.inj hcut
  rw [hspec'] at hspec
  simpa [eq_comm] using hspec

end PathMapping

namespace Resolver

open PathMapping

variable {t : FileTree} {c : ResolverConfig} {mappings : List PathMapping} {spec : String}
  {m : PathMapping} {targets : List String} {s : Selected}

theorem frontLength_eq {front star : List Char} (h : m.Fits spec front star) :
    frontLength m = front.length := by
  obtain ⟨hfront, back, hpattern, -⟩ := h
  rw [frontLength, hpattern, Alias.cutAt_star hfront]

theorem mem_fittingWildcards_iff {star : List Char} :
    (m, star) ∈ fittingWildcards mappings spec ↔
      m ∈ mappings ∧ ∃ front, m.Fits spec front star := by
  have hfits : m.isWildcard = true ∧ Alias.star? m.pattern.toList spec.toList = some star ↔
      ∃ front, m.Fits spec front star := by
    rw [isWildcard_iff]
    constructor
    · rintro ⟨hmem, hstar⟩
      obtain ⟨front, back, hpattern, hfront⟩ := List.eq_append_cons_of_mem hmem
      rw [hpattern, Alias.star?_eq_some_iff hfront] at hstar
      exact ⟨front, hfront, back, hpattern, hstar⟩
    · rintro ⟨front, hfront, back, hpattern, hspec⟩
      rw [hpattern, Alias.star?_eq_some_iff hfront]
      exact ⟨by simp, hspec⟩
  rw [← hfits, fittingWildcards, List.mem_filterMap]
  constructor
  · rintro ⟨m', hm', hsome⟩
    split at hsome
    · rename_i hwild
      obtain ⟨star', hstar, heq⟩ := Option.map_eq_some_iff.mp hsome
      obtain ⟨rfl, rfl⟩ := Prod.mk.inj heq
      exact ⟨hm', hwild, hstar⟩
    · cases hsome
  · rintro ⟨hm, hwild, hstar⟩
    exact ⟨m, hm, by simp [hwild, hstar]⟩

theorem longestFront_eq_none_iff {xs : List (PathMapping × List Char)} :
    longestFront xs = none ↔ xs = [] := by
  cases xs <;> simp [longestFront]

/-- Going over to each greater member ends with a greatest one. -/
theorem foldl_greatest {α : Type} (key : α → ℕ) (xs : List α) (x : α) :
    xs.foldl (fun best y => if key best < key y then y else best) x ∈ x :: xs ∧
      ∀ y ∈ x :: xs,
        key y ≤ key (xs.foldl (fun best y => if key best < key y then y else best) x) :=
  @foldl_least α ℕᵒᵈ _ (fun y => OrderDual.toDual (key y)) (fun y best => key best < key y) _
    (fun _ _ => Iff.rfl) xs x

/-- No mapping has a longer front than the one that is kept. -/
theorem longest_of_longestFront {xs : List (PathMapping × List Char)} {x : PathMapping × List Char}
    (h : longestFront xs = some x) : x ∈ xs ∧ ∀ y ∈ xs, frontLength y.1 ≤ frontLength x.1 := by
  cases xs with
  | nil => cases h
  | cons first rest =>
    rw [longestFront, Option.some.injEq] at h
    subst h
    have hgreatest := foldl_greatest (fun y : PathMapping × List Char => frontLength y.1) rest first
    exact hgreatest

/-! ## 2. The mapping that is used -/

/-- A specifier goes to a mapping, and is looked for at these targets. -/
inductive Uses (mappings : List PathMapping) (spec : String) :
    PathMapping → List String → Prop where
  /-- The pattern is the specifier itself, which has no star to fill. -/
  | exact {m : PathMapping} (hm : m ∈ mappings) (hplain : '*' ∉ m.pattern.toList)
      (hpattern : m.pattern = spec) : Uses mappings spec m m.targets
  /-- No pattern is the specifier itself, and of those with a star that it fits
  none has more text before the star. -/
  | longest {m : PathMapping} {front star : List Char} {targets : List String}
      (hnone : ∀ m' ∈ mappings, '*' ∉ m'.pattern.toList → m'.pattern ≠ spec)
      (hm : m ∈ mappings) (hfits : m.Fits spec front star)
      (hlongest : ∀ m' ∈ mappings, ∀ front' star', m'.Fits spec front' star' →
        front'.length ≤ front.length)
      (hfills : List.Forall₂ (Alias.Fills star) m.targets targets) :
      Uses mappings spec m targets

theorem find?_exact_eq_none_iff :
    mappings.find? (fun m => !m.isWildcard && m.pattern == spec) = none ↔
      ∀ m ∈ mappings, '*' ∉ m.pattern.toList → m.pattern ≠ spec := by
  rw [List.find?_eq_none]
  refine forall₂_congr fun m _ => ?_
  rw [← isWildcard_iff]
  simp

/-- **Selection is right.** What is selected are the targets of a mapping that
the specifier goes to. -/
theorem uses_of_selectMapping (h : selectMapping mappings spec = some s) :
    ∃ m, Uses mappings spec m s.targets ∧ s.catchAll = (m.pattern == "*") := by
  unfold selectMapping at h
  split at h
  · rename_i m hfound
    obtain rfl := Option.some.inj h
    obtain ⟨hplain, hpattern⟩ : '*' ∉ m.pattern.toList ∧ m.pattern = spec := by
      rw [← isWildcard_iff]
      simpa using List.find?_some hfound
    refine ⟨m, .exact (List.mem_of_find?_eq_some hfound) hplain hpattern, ?_⟩
    exact (beq_eq_false_iff_ne.mpr fun heq => hplain (by simp [heq])).symm
  · rename_i hnone
    obtain ⟨⟨m, star⟩, hlongest, rfl⟩ := Option.map_eq_some_iff.mp h
    obtain ⟨hmem, hmax⟩ := longest_of_longestFront hlongest
    obtain ⟨hm, front, hfits⟩ := mem_fittingWildcards_iff.mp hmem
    refine ⟨m, .longest (find?_exact_eq_none_iff.mp hnone) hm hfits ?_
      (Alias.forall₂_fills_iff.mpr rfl), rfl⟩
    intro m' hm' front' star' hfits'
    have hle := hmax (m', star') (mem_fittingWildcards_iff.mpr ⟨hm', front', hfits'⟩)
    rwa [frontLength_eq hfits, frontLength_eq hfits'] at hle

/-- Nothing is selected only if the specifier goes to no mapping. -/
theorem selectMapping_eq_none_iff :
    selectMapping mappings spec = none ↔ ∀ m targets, ¬ Uses mappings spec m targets := by
  constructor
  · intro h m targets huses
    unfold selectMapping at h
    split at h
    · cases h
    · rename_i hnone
      rw [Option.map_eq_none_iff, longestFront_eq_none_iff] at h
      cases huses with
      | exact hm hplain hpattern => exact find?_exact_eq_none_iff.mp hnone m hm hplain hpattern
      | longest _ hm hfits _ _ =>
        have hmem := mem_fittingWildcards_iff.mpr ⟨hm, _, hfits⟩
        rw [h] at hmem
        cases hmem
  · intro h
    cases hs : selectMapping mappings spec with
    | none => rfl
    | some s =>
      obtain ⟨m, huses, -⟩ := uses_of_selectMapping hs
      exact absurd huses (h m s.targets)

/-! ## 3. The order of mappings -/

/-- No two patterns that a specifier fits have the same text before the star. -/
def Untied (mappings : List PathMapping) (spec : String) : Prop :=
  ∀ m ∈ mappings, ∀ m' ∈ mappings, ∀ front star star',
    m.Fits spec front star → m'.Fits spec front star' → m = m'

/-- Texts of different length before the star are different. -/
theorem untied_of_nodup (h : (mappings.map frontLength).Nodup) (spec : String) :
    Untied mappings spec := by
  intro m hm m' hm' front star star' hfits hfits'
  exact List.inj_on_of_nodup_map h hm hm'
    ((frontLength_eq hfits).trans (frontLength_eq hfits').symm)

theorem Uses.congr {mappings' : List PathMapping} (h : Uses mappings spec m targets)
    (hsame : ∀ m, m ∈ mappings ↔ m ∈ mappings') : Uses mappings' spec m targets := by
  cases h with
  | exact hm hplain hpattern => exact .exact ((hsame m).mp hm) hplain hpattern
  | longest hnone hm hfits hlongest hfills =>
    exact .longest (fun m' hm' => hnone m' ((hsame m').mpr hm')) ((hsame m).mp hm) hfits
      (fun m' hm' => hlongest m' ((hsame m').mpr hm')) hfills

/-- Two beginnings of one text with at most each other's length are one. -/
theorem front_eq_of_fits {m' : PathMapping} {front front' star star' : List Char}
    (h : m.Fits spec front star) (h' : m'.Fits spec front' star')
    (hlength : front.length = front'.length) : front = front' := by
  obtain ⟨-, back, -, hspec⟩ := h
  obtain ⟨-, back', -, hspec'⟩ := h'
  rw [hspec', List.append_assoc, List.append_assoc] at hspec
  exact (List.append_inj hspec hlength.symm).1.symm

/-- Without ties the mapping and its targets are the only ones. -/
theorem Uses.unique {m' : PathMapping} {targets' : List String}
    (hdistinct : (mappings.map PathMapping.pattern).Nodup) (huntied : Untied mappings spec)
    (h : Uses mappings spec m targets) (h' : Uses mappings spec m' targets') :
    m = m' ∧ targets = targets' := by
  cases h with
  | exact hm hplain hpattern =>
    cases h' with
    | exact hm' hplain' hpattern' =>
      have heq : m = m' :=
        List.inj_on_of_nodup_map hdistinct hm hm' (hpattern.trans hpattern'.symm)
      exact ⟨heq, heq ▸ rfl⟩
    | longest hnone' _ _ _ _ => exact absurd hpattern (hnone' m hm hplain)
  | longest hnone hm hfits hlongest hfills =>
    cases h' with
    | exact hm' hplain' hpattern' => exact absurd hpattern' (hnone m' hm' hplain')
    | longest _ hm' hfits' hlongest' hfills' =>
      have hlength := le_antisymm (hlongest' m hm _ _ hfits) (hlongest m' hm' _ _ hfits')
      obtain rfl := front_eq_of_fits hfits hfits' hlength
      obtain rfl := huntied m hm m' hm' _ _ _ hfits hfits'
      obtain ⟨-, rfl⟩ := hfits.unique hfits'
      rw [Alias.forall₂_fills_iff] at hfills hfills'
      exact ⟨rfl, hfills.trans hfills'.symm⟩

/-- Without ties the order of the mappings cannot be told from the answer. -/
theorem selectMapping_perm {mappings' : List PathMapping}
    (hdistinct : (mappings.map PathMapping.pattern).Nodup) (huntied : Untied mappings spec)
    (hperm : mappings.Perm mappings') :
    selectMapping mappings' spec = selectMapping mappings spec := by
  have hsame : ∀ m, m ∈ mappings ↔ m ∈ mappings' := fun m => hperm.mem_iff
  cases hs : selectMapping mappings spec with
  | none =>
    rw [selectMapping_eq_none_iff] at hs ⊢
    exact fun m targets huses => hs m targets (huses.congr fun m => (hsame m).symm)
  | some s =>
    obtain ⟨m, huses, hcatch⟩ := uses_of_selectMapping hs
    cases hs' : selectMapping mappings' spec with
    | none => exact absurd (huses.congr hsame) (selectMapping_eq_none_iff.mp hs' m s.targets)
    | some s' =>
      obtain ⟨m', huses', hcatch'⟩ := uses_of_selectMapping hs'
      obtain ⟨rfl, htargets⟩ :=
        huses.unique hdistinct huntied (huses'.congr fun m => (hsame m).symm)
      have heq : s' = s := by
        rw [Selected.mk.injEq]
        exact ⟨htargets.symm, hcatch'.trans hcatch.symm⟩
      rw [heq]

/-! ## 4. The place that is named -/

/-- The place that the base of all paths names. -/
def basePlace? (t : FileTree) (c : ResolverConfig) (spec : String) : Option String :=
  (c.baseUrl.filter fun base => !base.isEmpty).bind fun base =>
    foundOutside? t c (Path.join base spec)

theorem mappedPlace?_eq (t : FileTree) (c : ResolverConfig) (spec : String) :
    mappedPlace? t c spec =
      ((selectMapping c.pathMappings spec).bind (selectedPlace? t c)).or (basePlace? t c spec) := by
  unfold mappedPlace?
  cases (selectMapping c.pathMappings spec).bind (selectedPlace? t c) <;> rfl

section

variable {c' : ResolverConfig} (hroot : c'.root = c.root)
  (hextensions : c'.extensions = c.extensions)

include hextensions in
theorem findFile?_congr (path : String) : findFile? t c' path = findFile? t c path := by
  unfold findFile? fileCandidates indexCandidates ResolverConfig.indexFiles
  rw [hextensions]

include hroot in
theorem aliasPlace_congr : aliasPlace c' = aliasPlace c := by
  funext target
  rw [aliasPlace, aliasPlace, hroot]

include hextensions in
theorem foundOutside?_congr : foundOutside? t c' = foundOutside? t c := by
  funext path
  rw [foundOutside?, foundOutside?, findFile?_congr hextensions]

include hextensions in
theorem selectedPlace?_congr : selectedPlace? t c' = selectedPlace? t c := by
  funext s
  rw [selectedPlace?, selectedPlace?, foundOutside?_congr hextensions]

include hextensions in
theorem mappedPlace?_congr (hbase : c'.baseUrl = c.baseUrl)
    (hselected : selectMapping c'.pathMappings spec = selectMapping c.pathMappings spec) :
    mappedPlace? t c' spec = mappedPlace? t c spec := by
  rw [mappedPlace?_eq, mappedPlace?_eq, basePlace?, basePlace?, hselected, hbase,
    selectedPlace?_congr hextensions, foundOutside?_congr hextensions]

include hextensions in
theorem locate_congr : locate t c' = locate t c := by
  funext path
  rw [locate, locate, findFile?_congr hextensions]

include hroot hextensions in
theorem aliased?_congr (aliases : List Alias) :
    aliased? t c' spec aliases = aliased? t c spec aliases := by
  induction aliases with
  | nil => rfl
  | cons a rest ih => rw [aliased?, aliased?, ih, locate_congr hextensions, aliasPlace_congr hroot]

include hroot hextensions in
theorem relativePlace_congr : relativePlace t c' = relativePlace t c := by
  funext folder spec
  rw [relativePlace, relativePlace, locate_congr hextensions, hroot]

include hroot hextensions in
theorem unmapped_congr : unmapped t c' = unmapped t c := by
  funext folder spec stylesheet
  rw [unmapped, unmapped, locate_congr hextensions, hroot]

include hroot hextensions in
/-- Of a configuration only the root, the extensions and the aliases count,
besides the place that is mapped. -/
theorem resolve_congr (haliases : c'.aliases = c.aliases) (specifier file : String)
    (stylesheet : Bool) (hmapped : mappedPlace? t c' (Specifier.stripped specifier) =
      mappedPlace? t c (Specifier.stripped specifier)) :
    resolve t c' specifier file stylesheet = resolve t c specifier file stylesheet := by
  unfold Specifier.stripped at hmapped
  unfold resolve
  dsimp only
  rw [hmapped, relativePlace_congr hroot hextensions, unmapped_congr hroot hextensions, haliases,
    aliased?_congr hroot hextensions]

end

/-- **Path mappings.** A specifier is looked for at the targets of the mapping
that it goes to, a pattern without a star before the pattern with the most text
before its star, and the first star of each target is filled. If no two patterns
that it fits have the same text before the star, every order of the mappings
gives the same module. -/
theorem mapping_of_specifier (t : FileTree) {c : ResolverConfig}
    (hdistinct : (c.pathMappings.map PathMapping.pattern).Nodup) (spec : String) :
    ((∃ m targets, Uses c.pathMappings spec m targets ∧
        selectMapping c.pathMappings spec = some ⟨targets, m.pattern == "*"⟩ ∧
        mappedPlace? t c spec =
          (selectedPlace? t c ⟨targets, m.pattern == "*"⟩).or (basePlace? t c spec)) ∨
      (∀ m targets, ¬ Uses c.pathMappings spec m targets) ∧
        selectMapping c.pathMappings spec = none ∧
        mappedPlace? t c spec = basePlace? t c spec) ∧
    (Untied c.pathMappings spec → ∀ mappings', c.pathMappings.Perm mappings' →
      mappedPlace? t { c with pathMappings := mappings' } spec = mappedPlace? t c spec ∧
      ∀ specifier file stylesheet, Specifier.stripped specifier = spec →
        resolve t { c with pathMappings := mappings' } specifier file stylesheet =
          resolve t c specifier file stylesheet) := by
  refine ⟨?_, ?_⟩
  · cases hs : selectMapping c.pathMappings spec with
    | none =>
      refine .inr ⟨selectMapping_eq_none_iff.mp hs, rfl, ?_⟩
      rw [mappedPlace?_eq, hs, Option.bind_none, Option.none_or]
    | some s =>
      obtain ⟨m, huses, hcatch⟩ := uses_of_selectMapping hs
      have hselected : s = ⟨s.targets, m.pattern == "*"⟩ := by rw [← hcatch]
      refine .inl ⟨m, s.targets, huses, congrArg some hselected, ?_⟩
      rw [mappedPlace?_eq, hs, Option.bind_some, ← hselected]
  · intro huntied mappings' hperm
    have hmapped : mappedPlace? t { c with pathMappings := mappings' } spec =
        mappedPlace? t c spec :=
      mappedPlace?_congr rfl rfl (selectMapping_perm hdistinct huntied hperm)
    refine ⟨hmapped, ?_⟩
    rintro specifier file stylesheet rfl
    refine resolve_congr ?_ ?_ ?_ specifier file stylesheet hmapped
    all_goals rfl

/-- Each pattern takes all that the next one takes. -/
def nestedConfig : ResolverConfig where
  root := "/p"
  pathMappings := [⟨"*", ["/p/any/*"]⟩, ⟨"@/*", ["/p/src/*"]⟩, ⟨"@/ui/*", ["/p/new/*", "/p/ui/*"]⟩]

/-- A project in which the last mapping finds a file at its second target. -/
def nestedFolders : FileTree :=
  ⟨.folder [("p", .folder [("ui", .folder [("button.ts", .file [])]), ("src", .folder [])])]⟩

theorem mapping_of_specifier_nested :
    (nestedConfig.pathMappings.map PathMapping.pattern).Nodup ∧
    Untied nestedConfig.pathMappings "@/ui/button" ∧
    (∃ m, Uses nestedConfig.pathMappings "@/ui/button" m ["/p/new/button", "/p/ui/button"]) ∧
    resolve nestedFolders { nestedConfig with pathMappings := nestedConfig.pathMappings.reverse }
      "@/ui/button?raw" "/p/main.ts" false = .ok (.file "/p/ui/button.ts") := by
  have hdistinct : (nestedConfig.pathMappings.map PathMapping.pattern).Nodup := by decide
  have huntied : Untied nestedConfig.pathMappings "@/ui/button" :=
    untied_of_nodup (by decide) "@/ui/button"
  obtain ⟨hused, hperm⟩ := mapping_of_specifier nestedFolders hdistinct "@/ui/button"
  have hselected : selectMapping nestedConfig.pathMappings "@/ui/button" =
      some ⟨["/p/new/button", "/p/ui/button"], false⟩ := by decide
  refine ⟨hdistinct, huntied, ?_, ?_⟩
  · rcases hused with ⟨m, targets, huses, htargets, -⟩ | ⟨-, hnone, -⟩
    · obtain ⟨rfl, -⟩ := Selected.mk.inj (Option.some.inj (htargets.symm.trans hselected))
      exact ⟨m, huses⟩
    · rw [hselected] at hnone
      cases hnone
  · have hreverse : nestedConfig.pathMappings.Perm nestedConfig.pathMappings.reverse :=
      (List.reverse_perm _).symm
    obtain ⟨-, hresolve⟩ := hperm huntied _ hreverse
    rw [hresolve "@/ui/button?raw" "/p/main.ts" false (by decide)]
    decide +kernel

end Resolver

end PackageAudit
