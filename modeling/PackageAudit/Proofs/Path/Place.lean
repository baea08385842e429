/-
PackageAudit.Proofs.Path.Place — absolute normal paths.

A normal path that starts at the root is one or two slashes with names between
further slashes (`Place`). The paths that are their own normal form are these
(`isPlace_iff`), and normalizing an absolute path always leads to one
(`isPlace_normalize`). As a path a place is a trail whose parts are names, and
what joining and cutting do to it is read off there.
-/
import PackageAudit.Proofs.Path.Trail

namespace PackageAudit.Path

/-! ## 1. Names -/

/-- A component that a normal path keeps, wherever it stands. -/
structure IsName (s : String) : Prop where
  noSlash : '/' ∉ s.toList
  ne_empty : s ≠ ""
  ne_dot : s ≠ "."
  ne_dots : s ≠ ".."

theorem IsName.isPart {s : String} (h : IsName s) : IsPart s := ⟨h.noSlash, h.ne_empty, h.ne_dot⟩

instance (s : String) : Decidable (IsName s) :=
  decidable_of_iff ('/' ∉ s.toList ∧ s ≠ "" ∧ s ≠ "." ∧ s ≠ "..")
    ⟨fun ⟨h₁, h₂, h₃, h₄⟩ => ⟨h₁, h₂, h₃, h₄⟩, fun ⟨h₁, h₂, h₃, h₄⟩ => ⟨h₁, h₂, h₃, h₄⟩⟩

/-- A text without slash is a name if something in it is no dot. -/
theorem isName_of_mem {s : String} {c : Char} (hslash : '/' ∉ s.toList) (hc : c ∈ s.toList)
    (hdot : c ≠ '.') : IsName s where
  noSlash := hslash
  ne_empty := by rintro rfl; simp at hc
  ne_dot := by rintro rfl; simp at hc; exact hdot hc
  ne_dots := by rintro rfl; simp at hc; exact hdot hc

/-- What stands in front of it may be any text without slash: the whole is a
name. -/
def IsSuffix (s : String) : Prop := '/' ∉ s.toList ∧ ∃ c ∈ s.toList, c ≠ '.'

instance (s : String) : Decidable (IsSuffix s) :=
  decidable_of_iff (s.toList.contains '/' = false ∧ s.toList.any (· != '.') = true)
    (by simp [IsSuffix])

theorem IsSuffix.isName {s e : String} (he : IsSuffix e) (hs : '/' ∉ s.toList) :
    IsName (s ++ e) := by
  obtain ⟨hslash, c, hc, hdot⟩ := he
  refine isName_of_mem ?_ (c := c) ?_ hdot
  · simp [hs, hslash]
  · simp [hc]

theorem isAbsolute_iff {path : String} :
    isAbsolute path = true ↔ ∃ rest, path.toList = '/' :: rest := by
  rw [isAbsolute, Text.begins, List.isPrefixOf_iff_prefix]
  constructor
  · rintro ⟨rest, h⟩
    exact ⟨rest, h.symm⟩
  · rintro ⟨rest, h⟩
    exact ⟨rest, h.symm⟩

/-- What has no slash does not start at the root. -/
theorem isAbsolute_of_noSlash {s : String} (h : '/' ∉ s.toList) : isAbsolute s = false := by
  rw [Bool.eq_false_iff, ne_eq, isAbsolute_iff]
  rintro ⟨rest, hrest⟩
  exact h (by simp [hrest])

/-! ## 2. Places -/

/-- An absolute path without anything to be left out. -/
structure Place where
  slashes : Nat
  names : List String
  slashes_eq : slashes = 1 ∨ slashes = 2
  isName : ∀ n ∈ names, IsName n

namespace Place

variable (q : Place)

/-- The path of a place. -/
def path : String := String.ofList (List.replicate q.slashes '/') ++ ofComponents q.names

/-- The text in front of the names inside. -/
def front : String := if q.names = [] then q.path else q.path ++ "/"

/-- The same path, of which only its slashes and parts are known. -/
def trail : Trail where
  slashes := q.slashes
  parts := q.names
  isPart := fun n hn => (q.isName n hn).isPart

/-- A name inside. -/
def inside (n : String) (h : IsName n) : Place where
  slashes := q.slashes
  names := q.names ++ [n]
  slashes_eq := q.slashes_eq
  isName := by
    intro m hm
    rcases List.mem_append.mp hm with hm | hm
    · exact q.isName m hm
    · exact List.mem_singleton.mp hm ▸ h

theorem path_inside {n : String} (h : IsName n) : (q.inside n h).path = q.front ++ n :=
  q.trail.path_inside h.isPart

/-- A place is one of the roots, or a name inside of a place. -/
theorem eq_inside : q.names = [] ∨ ∃ (o : Place) (n : String) (h : IsName n), q = o.inside n h := by
  obtain ⟨slashes, names, slashes_eq, isName⟩ := q
  rcases List.eq_nil_or_concat names with rfl | ⟨names, n, rfl⟩
  · exact Or.inl rfl
  · refine Or.inr ⟨⟨slashes, names, slashes_eq, fun m hm => isName m ?_⟩, n, isName n ?_, ?_⟩
    · simp [hm]
    · simp
    · simp [inside]

/-- A path is a text behind the front of some place. -/
theorem exists_front : ∃ (o : Place) (n : String), q.path = o.front ++ n ∧ '/' ∉ n.toList := by
  rcases q.eq_inside with hnames | ⟨o, n, hn, rfl⟩
  · exact ⟨q, "", by simp [front, hnames], by simp⟩
  · exact ⟨o, n, o.path_inside hn, hn.noSlash⟩

theorem slashes_pos : 0 < q.slashes := by
  rcases q.slashes_eq with h | h <;> omega

theorem isAbsolute_path : isAbsolute q.path = true := by
  rw [isAbsolute, Text.begins]
  obtain ⟨k, hk⟩ := Nat.exists_eq_succ_of_ne_zero q.slashes_pos.ne'
  simp [path, hk, List.replicate_succ]

theorem path_ne_empty : q.path ≠ "" := by
  intro h
  have habsolute := q.isAbsolute_path
  rw [h] at habsolute
  cases habsolute

/-- A path seen from a place stands behind its front. -/
theorem join_path {s : String} (hs : isAbsolute s = false) : join q.path s = q.front ++ s :=
  q.trail.join_path hs

theorem cutLast_front_append {n : String} (hn : '/' ∉ n.toList) :
    cutLast (q.front ++ n) = (q.front.toList, n.toList) :=
  q.trail.cutLast_front_append hn

theorem base_front_append {n : String} (hn : '/' ∉ n.toList) : base (q.front ++ n) = n := by
  rw [base, cutLast_front_append q hn, String.ofList_toList]

theorem parent_front_append {n : String} (hn : '/' ∉ n.toList) :
    parent (q.front ++ n) = q.path :=
  q.trail.parent_front_append hn

end Place

/-! ## 3. Normal forms -/

/-- Whatever is pushed at the root, names are kept. -/
theorem isName_of_mem_pushComponent {kept : List String} {part : String}
    (hkept : ∀ n ∈ kept, IsName n) (hpart : '/' ∉ part.toList) :
    ∀ n ∈ pushComponent true kept part, IsName n := by
  unfold pushComponent
  split
  · exact hkept
  rename_i hskip
  split
  · rename_i hup
    simp at hskip hup
    exact List.forall_mem_cons.mpr ⟨⟨hpart, hskip.1, hskip.2, hup⟩, hkept⟩
  · cases kept with
    | nil => simp
    | cons last rest =>
      rw [List.forall_mem_cons] at hkept
      have hlast : (last == "..") = false := by simpa using hkept.1.ne_dots
      simpa [hlast] using hkept.2

theorem isName_of_mem_foldl_pushComponent {parts kept : List String}
    (hparts : ∀ c ∈ parts, '/' ∉ c.toList) (hkept : ∀ n ∈ kept, IsName n) :
    ∀ n ∈ parts.foldl (pushComponent true) kept, IsName n := by
  induction parts generalizing kept with
  | nil => exact hkept
  | cons part parts ih =>
    rw [List.forall_mem_cons] at hparts
    exact ih hparts.2 (isName_of_mem_pushComponent hkept hparts.1)

/-- The normal form of what starts at the root keeps one slash or two. -/
theorem leadingSlashes_eq {path : String} (habsolute : isAbsolute path = true) :
    leadingSlashes path = 1 ∨ leadingSlashes path = 2 := by
  obtain ⟨rest, hrest⟩ := isAbsolute_iff.mp habsolute
  rw [leadingSlashes]
  split <;> simp_all

/-- The normal form of an absolute path. -/
def normalPlace (path : String) (habsolute : isAbsolute path = true) : Place where
  slashes := leadingSlashes path
  names := normalComponents path
  slashes_eq := leadingSlashes_eq habsolute
  isName := by
    intro n hn
    rw [normalComponents, List.mem_reverse, habsolute] at hn
    exact isName_of_mem_foldl_pushComponent (fun _ => noSlash_of_mem_components) (by simp) n hn

/-- **Normalizing.** The normal form of an absolute path is the path of a place. -/
theorem path_normalPlace {path : String} (habsolute : isAbsolute path = true) :
    (normalPlace path habsolute).path = normalize path := by
  have hne : ¬ (normalPlace path habsolute).path.isEmpty = true := by
    simpa only [String.isEmpty_iff] using (normalPlace path habsolute).path_ne_empty
  exact (if_neg hne).symm

/-- Names are pushed one after the other. -/
theorem foldl_pushComponent_names {names : List String} (h : ∀ n ∈ names, IsName n)
    (rooted : Bool) (kept : List String) :
    names.foldl (pushComponent rooted) kept = names.reverse ++ kept := by
  induction names generalizing kept with
  | nil => rfl
  | cons n names ih =>
    rw [List.forall_mem_cons] at h
    have hpush : pushComponent rooted kept n = n :: kept := by
      simp [pushComponent, h.1.ne_empty, h.1.ne_dot, h.1.ne_dots]
    rw [List.foldl_cons, hpush, ih h.2]
    simp

/-- What consists of names does not begin with a slash. -/
theorem head?_ofComponents {names : List String} (h : ∀ n ∈ names, IsName n) :
    ∀ c ∈ (ofComponents names).toList.head?, c ≠ '/' := by
  cases names with
  | nil => simp [ofComponents]
  | cons n rest =>
    rw [List.forall_mem_cons] at h
    obtain ⟨more, hmore⟩ : ∃ more, (ofComponents (n :: rest)).toList = n.toList ++ more := by
      cases rest with
      | nil => exact ⟨[], by simp [ofComponents]⟩
      | cons m rest => exact ⟨_, by rw [ofComponents, String.intercalate_cons_cons]; simp; rfl⟩
    have hne : n.toList ≠ [] := fun hn => h.1.ne_empty (String.toList_eq_nil_iff.mp hn)
    rw [hmore, List.head?_append_of_ne_nil _ hne]
    rintro c hc rfl
    exact h.1.noSlash (List.mem_of_mem_head? hc)

namespace Place

variable (q : Place)

/-- In front of the names there are as many empty components as slashes. -/
theorem components_path : components q.path =
    List.replicate q.slashes "" ++ if q.names = [] then [""] else q.names :=
  q.trail.components_path

theorem leadingSlashes_path : leadingSlashes q.path = q.slashes := by
  have hfirst : ∀ c ∈ (ofComponents q.names).toList.head?, c ≠ '/' :=
    head?_ofComponents q.isName
  rw [leadingSlashes, path, String.toList_append, String.toList_ofList]
  cases hrest : (ofComponents q.names).toList with
  | nil => rcases q.slashes_eq with h | h <;> simp [h, List.replicate_succ]
  | cons c cs =>
    have hc : c ≠ '/' := hfirst c (by simp [hrest])
    rcases q.slashes_eq with h | h <;> simp [h, List.replicate_succ, hc]

theorem normalComponents_path : normalComponents q.path = q.names := by
  have hskip : ∀ (k : Nat) (rest : List String),
      (List.replicate k "" ++ rest).foldl (pushComponent true) [] =
        rest.foldl (pushComponent true) [] := by
    intro k rest
    induction k with
    | zero => rfl
    | succ k ih => rwa [List.replicate_succ, List.cons_append, List.foldl_cons]
  rw [normalComponents, q.isAbsolute_path, components_path, hskip]
  by_cases hnames : q.names = []
  · rw [if_pos hnames, hnames]
    rfl
  · rw [if_neg hnames, foldl_pushComponent_names q.isName, List.append_nil, List.reverse_reverse]

theorem normalize_path : normalize q.path = q.path := by
  have hne : ¬ q.path.isEmpty = true := by simpa only [String.isEmpty_iff] using q.path_ne_empty
  rw [normalize, leadingSlashes_path, normalComponents_path]
  exact if_neg hne

end Place

/-- A path of a place. -/
def IsPlace (path : String) : Prop := ∃ q : Place, q.path = path

/-- **Places.** The absolute paths that are their own normal form are the paths
of places. -/
theorem isPlace_iff {path : String} :
    IsPlace path ↔ isAbsolute path = true ∧ normalize path = path := by
  constructor
  · rintro ⟨q, rfl⟩
    exact ⟨q.isAbsolute_path, q.normalize_path⟩
  · rintro ⟨habsolute, hnormal⟩
    exact ⟨normalPlace path habsolute, (path_normalPlace habsolute).trans hnormal⟩

theorem isPlace_normalize {path : String} (habsolute : isAbsolute path = true) :
    IsPlace (normalize path) :=
  ⟨normalPlace path habsolute, path_normalPlace habsolute⟩

theorem Place.isPlace_front_append (q : Place) {n : String} (h : IsName n) :
    IsPlace (q.front ++ n) :=
  ⟨q.inside n h, q.path_inside h⟩

/-- A name in a place is a place. -/
theorem IsPlace.join {path n : String} (hpath : IsPlace path) (hn : IsName n) :
    IsPlace (join path n) := by
  obtain ⟨q, rfl⟩ := hpath
  rw [q.join_path (isAbsolute_of_noSlash hn.noSlash)]
  exact q.isPlace_front_append hn

/-! ## 4. Paths from the root -/

theorem isAbsolute_append {front : String} (h : isAbsolute front = true) (rest : String) :
    isAbsolute (front ++ rest) = true := by
  obtain ⟨cs, hcs⟩ := isAbsolute_iff.mp h
  exact isAbsolute_iff.mpr ⟨cs ++ rest.toList, by simp [hcs]⟩

theorem isAbsolute_join {front : String} (h : isAbsolute front = true) (path : String) :
    isAbsolute (join front path) = true := by
  rw [join]
  split
  · assumption
  split
  · exact isAbsolute_append h path
  · exact isAbsolute_append (isAbsolute_append h "/") path

theorem isAbsolute_joinAll {front : String} (h : isAbsolute front = true) (paths : List String) :
    isAbsolute (joinAll (front :: paths)) = true := by
  rw [joinAll]
  induction paths generalizing front with
  | nil => exact h
  | cons path paths ih => exact ih (isAbsolute_join h path)

theorem isAbsolute_normalize {path : String} (h : isAbsolute path = true) :
    isAbsolute (normalize path) = true :=
  (isPlace_iff.mp (isPlace_normalize h)).1

theorem exists_cutLast_cons {path : String} (h : isAbsolute path = true) :
    ∃ rest, (cutLast path).1 = '/' :: rest := by
  obtain ⟨cs, hcs⟩ := isAbsolute_iff.mp h
  have htail : (path.toList.reverse.takeWhile (· != '/')).length ≤ cs.length := by
    rw [hcs, List.reverse_cons, List.takeWhile_append]
    have hle := (List.takeWhile_prefix (· != '/') (l := cs.reverse)).length_le
    rw [List.length_reverse] at hle
    split
    · simp
    · exact hle
  refine ⟨cs.take (cs.length - (path.toList.reverse.takeWhile (· != '/')).length), ?_⟩
  simp only [cutLast, List.length_reverse]
  generalize (path.toList.reverse.takeWhile (· != '/')).length = k at htail ⊢
  rw [hcs, List.length_cons, Nat.sub_add_comm htail, List.take_succ_cons]

theorem isAbsolute_absolute {current : String} (h : isAbsolute current = true) (path : String) :
    isAbsolute (absolute current path) = true :=
  isAbsolute_normalize (isAbsolute_join h path)

/-- The folder of what starts at the root starts there. -/
theorem isAbsolute_parent {path : String} (h : isAbsolute path = true) :
    isAbsolute (parent path) = true := by
  obtain ⟨rest, hrest⟩ := exists_cutLast_cons h
  rw [parent, hrest]
  split
  · exact isAbsolute_iff.mpr ⟨rest, String.toList_ofList⟩
  · rename_i hall
    have hne : rest.reverse.dropWhile (· == '/') ≠ [] := by
      intro hnil
      have hslashes : ∀ c ∈ rest, c = '/' := by simpa [List.dropWhile_eq_nil_iff] using hnil
      exact hall (by simpa using hslashes)
    refine isAbsolute_iff.mpr ⟨(rest.reverse.dropWhile (· == '/')).reverse, ?_⟩
    simp [Text.trimBack, List.dropWhile_append, hne]

/-! ## 5. Extensions -/

/-- A path without its extension stays in its folder. -/
theorem Place.splitExtension_front_append (q : Place) {n : String} (hn : '/' ∉ n.toList) :
    ∃ s, (splitExtension (q.front ++ n)).1 = q.front ++ s ∧ '/' ∉ s.toList := by
  rw [splitExtension, q.cutLast_front_append hn]
  split
  · rename_i hdot
    set body := n.toList.drop (n.toList.takeWhile (· == '.')).length
    set run := body.reverse.takeWhile (· != '.')
    have hrun : run ≠ body.reverse := by
      intro h
      have hmem : '.' ∈ run := by
        rw [h]
        simpa using hdot
      simpa using List.mem_takeWhile_imp hmem
    have hlength : ('.' :: run.reverse).length ≤ n.toList.length := by
      have hbody : body.length ≤ n.toList.length := by simp [body]
      have hle : run.length ≤ body.length := by
        simpa using (List.takeWhile_prefix (· != '.') (l := body.reverse)).length_le
      have hlt : run.length ≠ body.reverse.length :=
        fun h => hrun ((List.takeWhile_prefix _).eq_of_length h)
      simp only [List.length_reverse, List.length_cons] at hlt ⊢
      omega
    refine ⟨String.ofList (n.toList.take (n.toList.length - ('.' :: run.reverse).length)), ?_, ?_⟩
    · rw [← String.toList_inj]
      simp only [String.toList_append, String.toList_ofList, List.length_append]
      rw [Nat.add_sub_assoc hlength, List.take_length_add_append]
    · rw [String.toList_ofList]
      exact fun hmem => hn (List.mem_of_mem_take hmem)
  · exact ⟨n, rfl, hn⟩

/-! ## 6. Names of a place -/

namespace Place

variable (q : Place)

/-- A chain of names inside. -/
def into (names : List String) (h : ∀ n ∈ names, IsName n) : Place where
  slashes := q.slashes
  names := q.names ++ names
  slashes_eq := q.slashes_eq
  isName := by
    intro m hm
    rcases List.mem_append.mp hm with hm | hm
    · exact q.isName m hm
    · exact h m hm

/-- The path of a chain of names is made name by name. -/
theorem path_into {names : List String} (h : ∀ n ∈ names, IsName n) :
    (q.into names h).path = names.foldl join q.path := by
  induction names generalizing q with
  | nil => simp [into, path]
  | cons n names ih =>
    rw [List.forall_mem_cons] at h
    have hinto : q.into (n :: names) (List.forall_mem_cons.mpr h) =
        (q.inside n h.1).into names h.2 := by
      simp [into, inside]
    rw [hinto, ih, List.foldl_cons, path_inside, join_path q (isAbsolute_of_noSlash h.1.noSlash)]

theorem filter_components_path : (components q.path).filter (· != "") = q.names := by
  have hnames : ∀ n ∈ q.names, n ≠ "" := fun n hn => (q.isName n hn).ne_empty
  rw [components_path]
  by_cases hempty : q.names = []
  · simp [hempty]
  · simpa [hempty] using hnames

/-- The steps to a place are its names. -/
theorem steps_path : steps q.path = q.names := by
  rw [steps, absolute, join, if_pos q.isAbsolute_path, normalize_path, filter_components_path]

theorem dropCommon_append (front rest : List String) :
    dropCommon front (front ++ rest) = ([], rest) := by
  induction front with
  | nil => cases rest <;> rfl
  | cons a front ih => simpa [dropCommon] using ih

/-- What is inside is seen from the place by its names. -/
theorem relative_into {names : List String} (h : ∀ n ∈ names, IsName n) (hne : names ≠ []) :
    relative (q.into names h).path q.path = ofComponents names := by
  simp only [relative, steps_path]
  rw [show (q.into names h).names = q.names ++ names from rfl, dropCommon_append]
  simp [hne]

end Place

/-- The steps of a path are names. -/
theorem isName_of_mem_steps {path n : String} (h : n ∈ steps path) : IsName n := by
  have habsolute : isAbsolute (join "/" path) = true := isAbsolute_join (by decide) path
  rw [steps, absolute, ← path_normalPlace habsolute, Place.filter_components_path] at h
  exact Place.isName _ n h

end PackageAudit.Path
