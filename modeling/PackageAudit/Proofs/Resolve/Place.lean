/-
PackageAudit.Proofs.Resolve.Place — the files that specifiers stand for.

Whatever a specifier looks like, the file that it stands for is given by an
absolute normal path, so two specifiers stand for one file exactly if their
paths are the same text. Each way to find a file starts from the normal form
of a path from the root, and what is tried then differs from it in the last
component or has one more (`isPlace_of_mem_fileCandidates` and the lemmas
beside it); what no file is found for is the normal form itself.
-/
import PackageAudit.Proofs.FileTree.Texts
import PackageAudit.Proofs.Resolve.Extends
import PackageAudit.Proofs.Resolve.Mapping
import PackageAudit.Proofs.Resolve.Rooted
import PackageAudit.Proofs.Resolve.Unbundled
import PackageAudit.Resolve.Resolver

namespace PackageAudit.Resolver

open PackageAudit.Path (IsName IsPlace IsSuffix Place isAbsolute)

variable {t : FileTree} {c : ResolverConfig} {path file folder spec place : String}

/-! ## 1. What is tried -/

theorem isSuffix_of_mem_sourceExtensions {ext e : String} (h : e ∈ sourceExtensions ext) :
    IsSuffix e := by
  unfold sourceExtensions at h
  revert e
  split <;> decide

/-- The files that a place may abbreviate are places. -/
theorem isPlace_of_mem_fileCandidates (hc : ∀ e ∈ c.extensions, IsSuffix e) (hpath : IsPlace path)
    (h : file ∈ fileCandidates c path) : IsPlace file := by
  obtain ⟨q, rfl⟩ := hpath
  obtain ⟨o, n, hfront, hn⟩ := q.exists_front
  obtain ⟨stem, hstem, hslash⟩ := o.splitExtension_front_append hn
  simp only [fileCandidates, List.mem_append, List.mem_cons, List.mem_map] at h
  rcases h with (rfl | ⟨e, he, rfl⟩) | ⟨e, he, rfl⟩
  · exact ⟨q, rfl⟩
  · rw [hfront, String.append_assoc]
    exact o.isPlace_front_append ((hc e he).isName hn)
  · rw [hfront, hstem, String.append_assoc]
    exact o.isPlace_front_append ((isSuffix_of_mem_sourceExtensions he).isName hslash)

/-- The files that stand for a folder are places. -/
theorem isPlace_of_mem_indexCandidates (hc : ∀ e ∈ c.extensions, IsSuffix e) (hpath : IsPlace path)
    (h : file ∈ indexCandidates c path) : IsPlace file := by
  obtain ⟨index, hindex, rfl⟩ := List.mem_map.mp h
  obtain ⟨e, he, rfl⟩ := List.mem_map.mp hindex
  exact hpath.join ((hc e he).isName (by decide))

/-- The stylesheets that a place may abbreviate are places. -/
theorem isPlace_of_mem_stylesheetCandidates (hpath : IsPlace path)
    (h : file ∈ stylesheetCandidates (Path.parent path) (Path.base path)) : IsPlace file := by
  obtain ⟨q, rfl⟩ := hpath
  obtain ⟨o, n, hfront, hn⟩ := q.exists_front
  have hextension : ∀ e ∈ stylesheetExtensions, IsSuffix e := by decide
  have hpartial : '/' ∉ ("_" ++ n).toList := by simpa using hn
  have hjoin : Path.join o.path n = q.path := by
    rw [hfront, o.join_path (Path.isAbsolute_of_noSlash hn)]
  rw [hfront, o.parent_front_append hn, o.base_front_append hn] at h
  simp only [stylesheetCandidates, List.mem_append, List.mem_flatMap, List.mem_cons,
    List.not_mem_nil, or_false, List.mem_map, Path.joinAll, List.foldl_cons, List.foldl_nil] at h
  have ho : IsPlace o.path := ⟨o, rfl⟩
  have hq : IsPlace q.path := ⟨q, rfl⟩
  rcases h with ⟨m, hm, rfl | ⟨e, he, rfl⟩⟩ | ⟨index, hindex, e, he, rfl⟩
  · rcases hm with rfl | rfl
    · rwa [hjoin]
    · exact ho.join (Path.isName_of_mem hpartial (c := '_') (by simp) (by decide))
  · refine ho.join ((hextension e he).isName ?_)
    rcases hm with rfl | rfl
    · exact hn
    · exact hpartial
  · rw [hjoin]
    refine hq.join ((hextension e he).isName ?_)
    rcases hindex with rfl | rfl <;> decide

/-! ## 2. What is found -/

theorem isPlace_of_findFile? (hc : c.Rooted) (hpath : isAbsolute path = true)
    (h : findFile? t c path = some file) : IsPlace file := by
  have hnormal := Path.isPlace_normalize hpath
  unfold findFile? at h
  dsimp only at h
  split at h
  · rename_i found hfound
    obtain rfl := Option.some.inj h
    exact isPlace_of_mem_fileCandidates hc.extensions hnormal (List.mem_of_find?_eq_some hfound)
  · split at h
    · exact isPlace_of_mem_indexCandidates hc.extensions hnormal (List.mem_of_find?_eq_some h)
    · cases h

theorem isPlace_locate (hc : c.Rooted) (hpath : isAbsolute path = true) :
    IsPlace (locate t c path) := by
  rw [locate]
  cases hfound : findFile? t c path with
  | none =>
    rw [Option.getD_none]
    exact Path.isPlace_normalize hpath
  | some file => exact isPlace_of_findFile? hc hpath hfound

theorem isPlace_of_findStylesheet? (hpath : isAbsolute path = true)
    (h : findStylesheet? t path = some file) : IsPlace file := by
  unfold findStylesheet? at h
  have hmem := List.mem_of_find?_eq_some h
  exact isPlace_of_mem_stylesheetCandidates (Path.isPlace_normalize hpath) hmem

theorem isPlace_of_foundOutside? (hc : c.Rooted) (hpath : isAbsolute path = true)
    (h : foundOutside? t c path = some file) : IsPlace file :=
  isPlace_of_findFile? hc hpath (Option.filter_eq_some_iff.mp h).1

/-! ## 3. Path mappings -/

/-- A path from the root stays one when its star is filled. -/
theorem isAbsolute_fillStar (hpath : isAbsolute path = true) (star : List Char) :
    isAbsolute (Alias.fillStar star path) = true := by
  obtain ⟨rest, hrest⟩ := Path.isAbsolute_iff.mp hpath
  refine Path.isAbsolute_iff.mpr ⟨Text.replaceFirstChar '*' star rest, ?_⟩
  rw [Alias.fillStar, String.toList_ofList, hrest]
  rfl

theorem isAbsolute_of_selectMapping (hc : c.Rooted) {s : Selected}
    (h : selectMapping c.pathMappings spec = some s) :
    ∀ target ∈ s.targets, isAbsolute target = true := by
  unfold selectMapping at h
  split at h
  · rename_i m hm
    obtain rfl := Option.some.inj h
    exact hc.targets m (List.mem_of_find?_eq_some hm)
  · obtain ⟨⟨m, star⟩, hm, rfl⟩ := Option.map_eq_some_iff.mp h
    intro target htarget
    obtain ⟨written, hwritten, rfl⟩ := List.mem_map.mp htarget
    have hmem := (mem_fittingWildcards_iff.mp (longest_of_longestFront hm).1).1
    exact isAbsolute_fillStar (hc.targets m hmem written hwritten) star

theorem isPlace_of_selectedPlace? (hc : c.Rooted) {s : Selected}
    (hs : ∀ target ∈ s.targets, isAbsolute target = true)
    (h : selectedPlace? t c s = some place) : IsPlace place := by
  unfold selectedPlace? at h
  split at h
  · rename_i found hfound
    obtain rfl := Option.some.inj h
    obtain ⟨target, htarget, houtside⟩ := List.exists_of_findSome?_eq_some hfound
    exact isPlace_of_foundOutside? hc (hs target htarget) houtside
  · split at h
    · rename_i first rest htargets
      split at h
      · obtain rfl := Option.some.inj h
        exact Path.isPlace_normalize (hs first (htargets ▸ List.mem_cons_self))
      · cases h
    · cases h

theorem isPlace_of_mappedPlace? (hc : c.Rooted) (h : mappedPlace? t c spec = some place) :
    IsPlace place := by
  unfold mappedPlace? at h
  split at h
  · rename_i found hfound
    obtain rfl := Option.some.inj h
    obtain ⟨s, hs, hplace⟩ := Option.bind_eq_some_iff.mp hfound
    exact isPlace_of_selectedPlace? hc (isAbsolute_of_selectMapping hc hs) hplace
  · obtain ⟨base, hbase, hplace⟩ := Option.bind_eq_some_iff.mp h
    have habsolute := hc.baseUrl base (Option.filter_eq_some_iff.mp hbase).1
    exact isPlace_of_foundOutside? hc (Path.isAbsolute_join habsolute spec) hplace

/-! ## 4. Specifiers -/

theorem isAbsolute_aliasPlace (hc : c.Rooted) (target : String) :
    isAbsolute (aliasPlace c target) = true := by
  rw [aliasPlace]
  split
  · rename_i hroot
    obtain ⟨rest, hrest⟩ := Text.begins_iff.mp hroot
    obtain ⟨cs, hcs⟩ := Path.isAbsolute_iff.mp hc.root
    rw [Text.after?_eq_some_iff, hcs] at hrest
    exact Path.isAbsolute_iff.mpr ⟨cs ++ rest.toList, hrest⟩
  · exact Path.isAbsolute_join hc.root _

theorem isPlace_of_aliased? (hc : c.Rooted) {aliases : List Alias}
    (h : aliased? t c spec aliases = .ok (some (.file place))) : IsPlace place := by
  induction aliases with
  | nil => simp [aliased?] at h
  | cons a rest ih =>
    rw [aliased?, bind_eq_ok_iff] at h
    obtain ⟨found, -, h⟩ := h
    cases found with
    | none => exact ih h
    | some target =>
      cases hpath : a.isPath with
      | false => simp [hpath, pure, Except.pure, Specifier.external] at h
      | true =>
        have hplace : locate t c (aliasPlace c target) = place := by
          simpa [hpath, pure, Except.pure] using h
        rw [← hplace]
        exact isPlace_locate hc (isAbsolute_aliasPlace hc target)

theorem isPlace_relativePlace (hc : c.Rooted) (hfolder : isAbsolute folder = true) :
    IsPlace (relativePlace t c folder spec) := by
  rw [relativePlace]
  split
  · split
    · exact isPlace_locate hc (by assumption)
    · exact isPlace_locate hc (Path.isAbsolute_join hc.root _)
  · exact isPlace_locate hc (Path.isAbsolute_join hfolder _)

theorem isPlace_of_ofStylesheet? (hfolder : isAbsolute folder = true)
    (h : ofStylesheet? t folder spec = some (.file place)) : IsPlace place := by
  have hfound : (findStylesheet? t (Path.join folder spec)).map ModuleId.file =
      some (.file place) → IsPlace place := by
    intro hmap
    obtain ⟨file, hfile, heq⟩ := Option.map_eq_some_iff.mp hmap
    obtain rfl := ModuleId.file.inj heq
    exact isPlace_of_findStylesheet? (Path.isAbsolute_join hfolder spec) hfile
  unfold ofStylesheet? at h
  split at h
  · split at h
    · exact hfound h
    · simp [Specifier.external] at h
  · exact hfound h

theorem isPlace_of_unmapped (hc : c.Rooted) (hfolder : isAbsolute folder = true)
    {stylesheet : Bool} (h : unmapped t c folder spec stylesheet = .file place) :
    IsPlace place := by
  unfold unmapped at h
  split at h
  · rename_i m hsheet
    subst h
    split at hsheet
    · exact isPlace_of_ofStylesheet? hfolder hsheet
    · cases hsheet
  · split at h
    · rename_i rest hhome
      obtain rfl := ModuleId.file.inj h
      exact isPlace_locate hc (Path.isAbsolute_join hc.root rest)
    · simp [Specifier.external] at h

/-- **Places.** The file that a specifier in a file stands for is at a place. -/
theorem isPlace_of_resolve (hc : c.Rooted) (hfile : isAbsolute file = true) {specifier : String}
    {stylesheet : Bool} (h : resolve t c specifier file stylesheet = .ok (.file place)) :
    IsPlace place := by
  have hfolder := Path.isAbsolute_parent hfile
  unfold resolve at h
  dsimp only at h
  split at h
  · cases h
  split at h
  · cases h
  split at h
  · simp only [Except.ok.injEq, ModuleId.file.injEq] at h
    rw [← h]
    exact isPlace_relativePlace hc hfolder
  split at h
  · rename_i found hmapped
    simp only [Except.ok.injEq, ModuleId.file.injEq] at h
    exact isPlace_of_mappedPlace? hc (h ▸ hmapped)
  rw [bind_eq_ok_iff] at h
  obtain ⟨aliased, haliased, h⟩ := h
  cases aliased with
  | some m =>
    simp only [pure, Except.pure, Except.ok.injEq] at h
    exact isPlace_of_aliased? hc (h ▸ haliased)
  | none =>
    simp only [pure, Except.pure, Except.ok.injEq] at h
    exact isPlace_of_unmapped hc hfolder h

/-- **Files have one path.** With a configuration that was loaded, whatever
specifier in whatever file stands for a file, it stands for one with an absolute
normal path. -/
theorem resolved_path_normal {project : String} {aliases : List (List Json)}
    {reader : Script.Reader} {warnings : List Warning}
    (hload : ResolverConfig.load t project aliases reader = .ok (c, warnings))
    (hfile : isAbsolute file = true) {specifier : String} {stylesheet : Bool}
    (h : resolve t c specifier file stylesheet = .ok (.file path)) :
    isAbsolute path = true ∧ Path.normalize path = path :=
  Path.isPlace_iff.mp (isPlace_of_resolve (ResolverConfig.rooted_of_load hload) hfile h)

/-- A compiler configuration with a base and a mapping beside it. -/
def mappedOptions : String :=
  "\x7b\"compilerOptions\": \x7b\"baseUrl\": \".//src\", " ++
    "\"paths\": \x7b\"@/*\": [\"../lib/*\"]\x7d\x7d\x7d"

/-- A project with this configuration. -/
def mappedProject : FileTree :=
  ⟨.folder [("p", .folder [("tsconfig.json", .file (Text.Utf8.encode mappedOptions)),
    ("lib", .folder [("deep", .folder [("util.ts", .file [])])])])]⟩

/-- What is loaded of it. -/
def mappedConfig : ResolverConfig where
  root := "/p"
  baseUrl := some "/p/src"
  pathMappings := [⟨"@/*", ["/p/lib/*"]⟩]

theorem plain_mappedProject : mappedProject.Plain where
  root := ⟨_, rfl⟩
  entries := by
    have hdeep : (Entry.folder [("deep", .folder [("util.ts", .file [])])]).Plain :=
      Entry.Plain.empty.put (by decide) (Entry.Plain.empty.put (by decide) (.file _))
    have hproject : (Entry.folder [("tsconfig.json", .file (Text.Utf8.encode mappedOptions)),
        ("lib", .folder [("deep", .folder [("util.ts", .file [])])])]).Plain :=
      (Entry.Plain.empty.put (n := "tsconfig.json") (by decide) (.file _)).put (n := "lib")
        (by decide) hdeep
    exact Entry.Plain.empty.put (by decide) hproject

theorem unbundled_mappedProject : ResolverConfig.Unbundled mappedProject "/p" where
  missing := ResolverConfig.missing_of_keys plain_mappedProject ⟨1, ["p"], Or.inl rfl, by decide⟩
    rfl ResolverConfig.isName_of_mem_bundlerFiles (by decide)
  mappers _ := ResolverConfig.jsonMappers_of_missing rfl

open CompilerOptions in
/-- The compiler configuration extends no other one. -/
theorem settings_mappedProject : CompilerOptions.load mappedProject "/p" "/p/tsconfig.json" =
    .ok (some "/p/src", [⟨"@/*", ["/p/lib/*"]⟩], []) := by
  let data : Table Json := [("compilerOptions", .obj [("baseUrl", .str ".//src"),
    ("paths", .obj [("@/*", .arr [.str "../lib/*"])])])]
  have hread : mappedProject.readRelaxed "/p/tsconfig.json" = .ok (.obj data) :=
    FileTree.readRelaxed_of_write rfl String.ofList_append.symm
      ⟨by decide, by decide, by with_unfolding_all rfl⟩
  let chain : Chain := (({} : Chain).see mappedProject "/p/tsconfig.json").take mappedProject "/p"
    "/p/tsconfig.json" data
  have hfollows : Follows mappedProject "/p" {} ["/p/tsconfig.json"] chain :=
    .taken (by simp) hread (.done _)
  have hextends : chain.ExtendsTexts := by
    intro file hfile
    obtain rfl : file = ("/p/tsconfig.json", data) := List.mem_singleton.mp hfile
    exact List.forall_mem_nil _
  have hsettings : settingsOf chain.configs = {
      baseUrl := some "/p/src"
      paths := some ([("@/*", .arr [.str "../lib/*"])], "/p") } := by
    with_unfolding_all rfl
  have hmappings : mappingsOf (settingsOf chain.configs) = [⟨"@/*", ["/p/lib/*"]⟩] := by
    rw [hsettings]
    with_unfolding_all rfl
  rw [load_eq hfollows hextends, hmappings, hsettings]
  rfl

theorem load_mappedProject :
    ResolverConfig.load mappedProject "/p" [] = .ok (mappedConfig, []) := by
  have hroot : Path.absolute "/" "/p" = "/p" := rfl
  have hconfig : ResolverConfig.compilerConfig? mappedProject "/p" = some "/p/tsconfig.json" := by
    rfl
  have hsettings : ResolverConfig.compilerSettings mappedProject "/p" =
      .ok (some "/p/src", [⟨"@/*", ["/p/lib/*"]⟩], []) := by
    rw [ResolverConfig.compilerSettings, hconfig, Option.elim_some, settings_mappedProject]
  exact unbundled_mappedProject.load hroot rfl hsettings

/-- What is written in place of the star leads up and down. -/
theorem resolved_path_normal_mapped :
    ResolverConfig.load mappedProject "/p" [] = .ok (mappedConfig, []) ∧
    isAbsolute "/p/src/main.ts" = true ∧
    resolve mappedProject mappedConfig "@/x//.././deep/util.js" "/p/src/main.ts" false =
      .ok (.file "/p/lib/deep/util.ts") ∧
    isAbsolute "/p/lib/deep/util.ts" = true ∧
    Path.normalize "/p/lib/deep/util.ts" = "/p/lib/deep/util.ts" := by
  have hfile : isAbsolute "/p/src/main.ts" = true := by decide
  have hresolve : resolve mappedProject mappedConfig "@/x//.././deep/util.js" "/p/src/main.ts"
      false = .ok (.file "/p/lib/deep/util.ts") := by
    decide +kernel
  exact ⟨load_mappedProject, hfile, hresolve,
    resolved_path_normal load_mappedProject hfile hresolve⟩

end PackageAudit.Resolver
