/-
PackageAudit.Proofs.FileTree.Spelling — one file, spelled in different ways.

A path to a file need not be normal: a text that says what is looked for is put
behind a folder as it stands. In a tree without links this does not matter. The
components of a path are followed as they are pushed when the path is
normalized (`along_pushed`), so a path leads to its normal components, if it
leads anywhere. What is seen from the folder of a file then depends on the file
alone (`SameFile.alike_join_parent`), but for the number of slashes in front, and
those lead nowhere else (`find_slashes`).
-/
import PackageAudit.FileTree.Document
import PackageAudit.Proofs.FileTree.Links

namespace PackageAudit

/-! ## 1. Components of joined paths -/

namespace Path

/-- Components are separated by slashes. -/
theorem components_append (front back : String) :
    components (front ++ "/" ++ back) = components front ++ components back := by
  have hsplit := Text.splitAt_append '/' front.toList back.toList
  simp only [components, Text.pieces, String.toList_append, ← List.map_append, ← hsplit]
  simp

theorem components_of_noSlash {s : String} (h : '/' ∉ s.toList) : components s = [s] := by
  have hparts := components_ofComponents (List.cons_ne_nil s []) (by simpa using h)
  rwa [ofComponents, String.intercalate_singleton] at hparts

/-- The components that are left of a path from the root, the last one first. -/
def pushed (path : String) : List String := (components path).foldl (pushComponent true) []

theorem normalComponents_eq {path : String} (h : isAbsolute path = true) :
    normalComponents path = (pushed path).reverse := by
  rw [normalComponents, h, pushed]

theorem pushed_append (front back : String) :
    pushed (front ++ "/" ++ back) =
      (components back).foldl (pushComponent true) (pushed front) := by
  rw [pushed, components_append, List.foldl_append, pushed]

/-- A slash at the end is no component. -/
theorem pushed_append_slash (path : String) : pushed (path ++ "/") = pushed path := by
  have h := pushed_append path ""
  rwa [String.append_empty] at h

/-- What is joined to a path is pushed after it. -/
theorem pushed_join {front path : String} (hfront : isAbsolute front = true)
    (hpath : isAbsolute path = false) :
    pushed (join front path) = (components path).foldl (pushComponent true) (pushed front) := by
  rw [join, hpath, if_neg Bool.false_ne_true]
  split
  · rename_i hends
    have hne : front.isEmpty = false := by
      obtain ⟨rest, hrest⟩ := isAbsolute_iff.mp hfront
      rw [Bool.eq_false_iff, ne_eq, String.isEmpty_iff]
      rintro rfl
      simp at hrest
    rw [hne, Bool.false_or, Text.ends, List.isSuffixOf_iff_suffix] at hends
    obtain ⟨cs, hcs⟩ := hends
    obtain rfl : String.ofList cs ++ "/" = front := by
      rw [← String.toList_inj]
      simpa using hcs
    rw [pushed_append, pushed_append_slash]
  · exact pushed_append front path

/-- Slashes at the end are no components. -/
theorem pushed_trimBack (cs : List Char) :
    pushed (String.ofList (Text.trimBack (· == '/') cs)) = pushed (String.ofList cs) := by
  induction cs using List.reverseRecOn with
  | nil => rfl
  | append_singleton cs c ih =>
    by_cases hc : c = '/'
    · subst hc
      have htrim : Text.trimBack (· == '/') (cs ++ ['/']) = Text.trimBack (· == '/') cs := by
        simp [Text.trimBack]
      have happend : String.ofList (cs ++ ['/']) = String.ofList cs ++ "/" := by
        rw [← String.toList_inj]
        simp
      rw [htrim, ih, happend, pushed_append_slash]
    · have htrim : Text.trimBack (· == '/') (cs ++ [c]) = cs ++ [c] := by
        simp [Text.trimBack, hc]
      rw [htrim]

/-- A path is cut at its last slash. -/
theorem cutLast_append (front : String) {last : String} (h : '/' ∉ last.toList) :
    cutLast (front ++ "/" ++ last) = ((front ++ "/").toList, last.toList) := by
  have htail : ((front ++ "/" ++ last).toList.reverse.takeWhile (· != '/')).reverse =
      last.toList := by
    have hnone : ∀ c ∈ last.toList.reverse, (c != '/') = true := by
      intro c hc
      rw [bne_iff_ne]
      rintro rfl
      exact h (List.mem_reverse.mp hc)
    simp [List.takeWhile_append_of_pos hnone]
  have hlength : (front ++ "/" ++ last).toList.length - last.toList.length =
      (front ++ "/").toList.length := by
    simp
    omega
  have htext : (front ++ "/" ++ last).toList = (front ++ "/").toList ++ last.toList :=
    String.toList_append
  rw [cutLast, htail, hlength, htext, List.take_left]

/-- The folder of a path is what stands before its last component. -/
theorem exists_pushed_parent {path : String} (h : isAbsolute path = true) :
    ∃ front last, path = front ++ "/" ++ last ∧ '/' ∉ last.toList ∧
      pushed (parent path) = pushed front := by
  obtain ⟨rest, hrest⟩ := isAbsolute_iff.mp h
  have hmem : '/' ∈ path.toList.reverse := by simp [hrest]
  obtain ⟨last, front, hparts, hlast⟩ := List.eq_append_cons_of_mem hmem
  have hpath : path = String.ofList front.reverse ++ "/" ++ String.ofList last.reverse := by
    rw [← String.toList_inj, ← List.reverse_reverse path.toList, hparts]
    simp
  have hno : '/' ∉ (String.ofList last.reverse).toList := by simpa using hlast
  refine ⟨_, _, hpath, hno, ?_⟩
  rw [parent, hpath, cutLast_append _ hno]
  dsimp only
  split
  · rw [String.ofList_toList, pushed_append_slash]
  · rw [pushed_trimBack, String.ofList_toList, pushed_append_slash]

end Path

/-! ## 2. Where a path leads to -/

namespace FileTree

open PackageAudit.Path (pushComponent pushed isAbsolute)

variable {t : FileTree} {path other : String} {place p names : List String} {found : Found}
  {content : Text.Octets}

/-- A name leads to where it is pushed, or nowhere. -/
theorem turn_pushed (ht : t.Plain) (place : List String) (name : String) :
    (∃ p, t.turn place name = .here p ∧ p.reverse = pushComponent true place.reverse name) ∨
      ∃ f, t.turn place name = .fault f := by
  rw [turn]
  cases hplace : t.root.at? place with
  | none => exact Or.inr ⟨_, rfl⟩
  | some e =>
    obtain ⟨hplain, hnames⟩ := ht.entries.at? hplace
    cases e with
    | file content => exact Or.inr ⟨_, rfl⟩
    | link target => cases hplain
    | folder entries =>
      dsimp only
      unfold pushComponent
      split
      · exact Or.inl ⟨place, rfl, rfl⟩
      by_cases hup : name = ".."
      · subst hup
        refine Or.inl ⟨place.dropLast, rfl, ?_⟩
        rcases List.eq_nil_or_concat place with rfl | ⟨front, last, rfl⟩
        · rfl
        · have hlast : last ≠ ".." := (hnames last (by simp)).ne_dots
          simp [hlast]
      · have hname : (name == "..") = false := beq_false_of_ne hup
        rw [hname, if_neg Bool.false_ne_true, if_pos (by simpa using hup)]
        cases hget : Table.get? entries name with
        | none => exact Or.inr ⟨_, rfl⟩
        | some c => cases (hplain.child hget).1 <;> exact Or.inl ⟨place ++ [name], rfl, by simp⟩

/-- Names are followed as they are pushed. -/
theorem along_pushed (ht : t.Plain) (place names : List String) :
    (∃ p, t.along place names = .here p ∧
      p.reverse = names.foldl (pushComponent true) place.reverse) ∨
      ∃ f, t.along place names = .fault f := by
  induction names generalizing place with
  | nil => exact Or.inl ⟨place, rfl, rfl⟩
  | cons name names ih =>
    rw [along]
    rcases turn_pushed ht place name with ⟨p, hturn, hp⟩ | ⟨f, hturn⟩
    · rw [hturn, List.foldl_cons, ← hp]
      exact ih p
    · rw [hturn]
      exact Or.inr ⟨f, rfl⟩

/-- The way to what is found, up to its last component. -/
theorem follow_append_eq_ok (ht : t.Plain) {links : Nat} {more : List String}
    (h : t.follow links place (names ++ more) = .ok found) :
    ∃ p, p.reverse = names.foldl (pushComponent true) place.reverse ∧
      t.follow links p more = .ok found := by
  rw [follow_append] at h
  rcases along_pushed ht place names with ⟨p, halong, hp⟩ | ⟨f, halong⟩
  · rw [halong] at h
    exact ⟨p, hp, h⟩
  · rw [halong] at h
    cases h

/-- Above a folder there are folders. -/
theorem exists_folder_dropLast {entries : List (String × Entry)}
    (h : t.root.at? place = some (.folder entries)) :
    ∃ above, t.root.at? place.dropLast = some (.folder above) := by
  rcases List.eq_nil_or_concat place with rfl | ⟨above, n, rfl⟩
  · exact ⟨entries, h⟩
  · rw [List.concat_eq_append, Entry.at?_append, Option.bind_eq_some_iff] at h
    obtain ⟨e, habove, hn⟩ := h
    obtain ⟨inside, -, rfl, -⟩ := Entry.exists_folder_of_at?_cons hn
    exact ⟨inside, by rw [List.concat_eq_append, List.dropLast_concat, habove]⟩

/-- The last component of the way to a file is its name. -/
theorem place_of_turn_file {name : String} (h : t.turn place name = .here p)
    (hfile : t.root.at? p = some (.file content)) : p = place ++ [name] := by
  rw [turn] at h
  split at h
  · rename_i entries hplace
    have hno : ∀ above : List (String × Entry), t.root.at? p ≠ some (.folder above) := by
      intro above hfolder
      cases hfile.symm.trans hfolder
    split at h
    · cases h
      exact absurd hplace (hno entries)
    split at h
    · cases h
      obtain ⟨above, habove⟩ := exists_folder_dropLast hplace
      exact absurd habove (hno above)
    split at h
    · cases h
    · split at h <;> cases h
    · cases h
      rfl
  · cases h
  · cases h

/-- **Files.** The place of the folder of a file is what is pushed of the path of
the folder. -/
theorem pushed_parent (ht : t.Plain) (hpath : isAbsolute path = true)
    (h : t.find path = .ok ⟨place, .file content⟩) :
    pushed (Path.parent path) = place.dropLast.reverse := by
  obtain ⟨front, last, rfl, hlast, hparent⟩ := Path.exists_pushed_parent hpath
  have hentry := at?_place_of_find h
  rw [find] at h
  split at h
  · cases h
  have hcomponents : Path.components last = [last] := Path.components_of_noSlash hlast
  rw [Path.components_append, hcomponents] at h
  obtain ⟨p, hp, h⟩ := follow_append_eq_ok ht h
  rw [follow_eq, along] at h
  cases hturn : t.turn p last with
  | here p' =>
    rw [hturn] at h
    obtain ⟨hplace, -⟩ := stop_eq_ok_iff.mp h
    obtain rfl : place = p' := hplace
    rw [hparent, pushed, place_of_turn_file hturn hentry, List.dropLast_concat, hp]
    rfl
  | link p' more =>
    rcases turn_pushed ht p last with ⟨_, hhere, -⟩ | ⟨_, hfault⟩
    · cases hturn.symm.trans hhere
    · cases hturn.symm.trans hfault
  | fault f =>
    rw [hturn] at h
    cases h

/-! ## 3. Slashes in front -/

/-- How many slashes a path begins with makes no difference. -/
theorem find_slashes (ht : t.Plain) (k : Nat) (s : String) :
    t.find (String.ofList (List.replicate (k + 1) '/') ++ s) =
      t.follow 40 [] (Path.components s) := by
  have hne : (String.ofList (List.replicate (k + 1) '/') ++ s).isEmpty = false := by
    rw [Bool.eq_false_iff, ne_eq, String.isEmpty_iff, ← String.toList_inj]
    simp [List.replicate_succ]
  rw [find, hne, if_neg Bool.false_ne_true, Path.components_replicate_append]
  exact step_replicate ht _ (k + 1) (Path.components s)

/-- Two paths that differ in the number of slashes that they begin with. -/
def Alike (path other : String) : Prop :=
  ∃ j k s, path = String.ofList (List.replicate (j + 1) '/') ++ s ∧
    other = String.ofList (List.replicate (k + 1) '/') ++ s

theorem Alike.find_eq (ht : t.Plain) (h : Alike path other) : t.find path = t.find other := by
  obtain ⟨j, k, s, rfl, rfl⟩ := h
  rw [find_slashes ht, find_slashes ht]

theorem Alike.append (h : Alike path other) (s : String) : Alike (path ++ s) (other ++ s) := by
  obtain ⟨j, k, r, rfl, rfl⟩ := h
  exact ⟨j, k, r ++ s, by rw [String.append_assoc], by rw [String.append_assoc]⟩

theorem Alike.ends_eq (h : Alike path other) : Text.ends "/" path = Text.ends "/" other := by
  -- What comes behind the slashes decides, and where nothing comes they do.
  have hends : ∀ (k : Nat) (s : String),
      (Text.ends "/" (String.ofList (List.replicate (k + 1) '/') ++ s) = true ↔
        s.toList.getLast?.getD '/' = '/') := by
    intro k s
    have htext : (String.ofList (List.replicate (k + 1) '/') ++ s).toList =
        List.replicate (k + 1) '/' ++ s.toList := by
      rw [String.toList_append, String.toList_ofList]
    rw [Text.ends, List.isSuffixOf_iff_suffix, htext]
    rcases List.eq_nil_or_concat s.toList with hs | ⟨cs, c, hs⟩
    · rw [hs]
      exact iff_of_true ⟨List.replicate k '/', by simp [List.replicate_succ']⟩ rfl
    · have hlast : ∀ front : List Char, ['/'] <:+ front ++ [c] ↔ c = '/' := by
        intro front
        constructor
        · rintro ⟨before, hbefore⟩
          exact (List.concat_inj.mp (by simpa using hbefore)).2.symm
        · rintro rfl
          exact ⟨front, rfl⟩
      have happend : List.replicate (k + 1) '/' ++ s.toList =
          (List.replicate (k + 1) '/' ++ cs) ++ [c] := by
        rw [hs, List.concat_eq_append, List.append_assoc]
      rw [happend]
      simpa [hs] using hlast (List.replicate (k + 1) '/' ++ cs)
  obtain ⟨j, k, s, rfl, rfl⟩ := h
  rw [Bool.eq_iff_iff, hends, hends]

/-- Paths in a folder differ as those of the folder do. -/
theorem Alike.join (h : Alike path other) {s : String} (hs : isAbsolute s = false) :
    Alike (Path.join path s) (Path.join other s) := by
  have hne : ∀ {p q : String}, Alike p q → p.isEmpty = false ∧ q.isEmpty = false := by
    rintro _ _ ⟨j, k, s, rfl, rfl⟩
    simp [List.replicate_succ]
  rw [Path.join, Path.join, hs, (hne h).1, (hne h).2, h.ends_eq]
  split
  · rename_i hfalse
    cases hfalse
  split
  · exact h.append s
  · exact (h.append "/").append s

/-- Normal forms of the same components differ in their slashes alone. -/
theorem alike_normalize (hpath : isAbsolute path = true) (hother : isAbsolute other = true)
    (h : pushed path = pushed other) : Alike (Path.normalize path) (Path.normalize other) := by
  have hnormal : ∀ {p : String}, isAbsolute p = true → ∃ k, Path.normalize p =
      String.ofList (List.replicate (k + 1) '/') ++ Path.ofComponents (pushed p).reverse := by
    intro p hp
    obtain ⟨k, hk⟩ := Nat.exists_eq_succ_of_ne_zero (Path.normalPlace p hp).slashes_pos.ne'
    refine ⟨k, ?_⟩
    rw [← Path.path_normalPlace hp, Path.Place.path, hk, ← Path.normalComponents_eq hp]
    rfl
  obtain ⟨j, hj⟩ := hnormal hpath
  obtain ⟨k, hk⟩ := hnormal hother
  exact ⟨j, k, _, hj, by rw [hk, h]⟩

/-! ## 4. One file -/

/-- Two paths lead to one file. -/
def SameFile (t : FileTree) (path other : String) : Prop :=
  ∃ place content, t.find path = .ok ⟨place, .file content⟩ ∧
    t.find other = .ok ⟨place, .file content⟩

theorem exists_find_of_isFile (h : t.isFile path = true) :
    ∃ place content, t.find path = .ok ⟨place, .file content⟩ := by
  rw [isFile] at h
  split at h
  · rename_i place content hfind
    exact ⟨place, content, hfind⟩
  · cases h

theorem SameFile.of_find_eq (h : t.isFile path = true) (hfind : t.find path = t.find other) :
    t.SameFile path other := by
  obtain ⟨place, content, hpath⟩ := exists_find_of_isFile h
  exact ⟨place, content, hpath, hfind.symm.trans hpath⟩

/-- Files with one real path are one file. -/
theorem SameFile.of_realPath (ht : t.Plain) (hpath : t.isFile path = true)
    (hother : t.isFile other = true) (h : t.realPath path = t.realPath other) :
    t.SameFile path other := by
  obtain ⟨place, content, hfind⟩ := exists_find_of_isFile hpath
  obtain ⟨place', content', hfind'⟩ := exists_find_of_isFile hother
  have hentry := at?_place_of_find hfind
  have hentry' := at?_place_of_find hfind'
  rw [realPath_of_find hfind, realPath_of_find hfind'] at h
  obtain rfl : place = place' :=
    pathOf_inj (ht.entries.at? hentry).2 (ht.entries.at? hentry').2 h
  obtain rfl : content = content' := by
    simpa using hentry.symm.trans hentry'
  exact ⟨place, content, hfind, hfind'⟩

/-- One file holds one document. -/
theorem SameFile.readRelaxed_eq (h : t.SameFile path other) :
    t.readRelaxed path = t.readRelaxed other := by
  obtain ⟨place, content, hpath, hother⟩ := h
  simp only [readRelaxed, readWith, readText, read, hpath, hother]

/-- **Seen from a file.** What a relative path leads to from the folder of a file
is the same however the path to the file is spelled, slashes in front apart. -/
theorem SameFile.alike_join_parent (ht : t.Plain) (h : t.SameFile path other)
    (hpath : isAbsolute path = true) (hother : isAbsolute other = true) {s : String}
    (hs : isAbsolute s = false) :
    Alike (Path.normalize (Path.join (Path.parent path) s))
      (Path.normalize (Path.join (Path.parent other) s)) := by
  obtain ⟨place, content, hfind, hfind'⟩ := h
  have hparent := Path.isAbsolute_parent hpath
  have hparent' := Path.isAbsolute_parent hother
  refine alike_normalize (Path.isAbsolute_join hparent s) (Path.isAbsolute_join hparent' s) ?_
  rw [Path.pushed_join hparent hs, Path.pushed_join hparent' hs, pushed_parent ht hpath hfind,
    pushed_parent ht hother hfind']

end FileTree

end PackageAudit
