/-
PackageAudit.Proofs.FileTree.Links — trees with links.

Names are followed from a place until a link is met (`along`); a link costs
one of the links that a path may lead through, and following goes on from
where its target starts. So once a part of a path has led somewhere, the rest
is followed from there with the links that are left (`exists_follow_append`),
and with more of them it leads to the same (`follow_of_le`). Two paths that
lead to one place therefore lead to the same with the same names behind them,
unless one of them runs out of links (`follow_append_eq_or`). This is what real
paths are good for, and `find_realPath` says that they lead where they should.

Nothing is assumed of the links: they may lead nowhere, to themselves, or to a
folder that they stand in.
-/
import PackageAudit.Proofs.FileTree.Plain

namespace PackageAudit

open PackageAudit.Path (IsName Place)

/-! ## 1. Names in a tree -/

/-- An entry in which the names of each folder are distinct, and names. -/
inductive Entry.WellFormed : Entry → Prop where
  | file (content : Text.Octets) : WellFormed (.file content)
  | link (target : String) : WellFormed (.link target)
  | folder {entries : List (String × Entry)} (distinct : Table.Distinct entries)
      (names : ∀ e ∈ entries, IsName e.1) (inside : ∀ e ∈ entries, WellFormed e.2) :
      WellFormed (.folder entries)

attribute [simp] Entry.WellFormed.file Entry.WellFormed.link

@[simp] theorem Entry.wellFormed_folder_iff {entries : List (String × Entry)} :
    (Entry.folder entries).WellFormed ↔ Table.Distinct entries ∧
      (∀ e ∈ entries, IsName e.1) ∧ ∀ e ∈ entries, e.2.WellFormed := by
  constructor
  · intro h
    cases h with
    | folder distinct names inside => exact ⟨distinct, names, inside⟩
  · rintro ⟨distinct, names, inside⟩
    exact .folder distinct names inside

/-- The names that lead to something in a tree are names. -/
theorem Entry.WellFormed.at? {e c : Entry} {names : List String} (h : e.WellFormed)
    (hc : e.at? names = some c) : c.WellFormed ∧ ∀ n ∈ names, IsName n := by
  induction names generalizing e with
  | nil =>
    obtain rfl := Option.some.inj hc
    exact ⟨h, by simp⟩
  | cons n names ih =>
    obtain ⟨entries, inner, rfl, hinner, hrest⟩ := exists_folder_of_at?_cons hc
    obtain ⟨-, isName, inside⟩ := wellFormed_folder_iff.mp h
    have hmem := Table.mem_of_get? hinner
    have hbelow := ih (inside _ hmem) hrest
    exact ⟨hbelow.1, List.forall_mem_cons.mpr ⟨isName _ hmem, hbelow.2⟩⟩

namespace FileTree

/-- A tree of files, folders and links, from a root that is a folder. -/
structure WellFormed (t : FileTree) : Prop where
  root : ∃ entries, t.root = .folder entries
  entries : t.root.WellFormed

variable {t : FileTree} {place names more : List String} {found : Found} {e : Entry}

/-! ## 2. From link to link -/

/-- Where following names leads to: a place, the first link, or nowhere. A link
is the place that its target starts from, and what is to be followed then. -/
inductive Turn where
  | here (place : List String)
  | link (place components : List String)
  | fault (f : Fault)

/-- Where one name leads to from a place. -/
def turn (t : FileTree) (place : List String) (name : String) : Turn :=
  match t.root.at? place with
  | some (.folder entries) =>
    if name == "" || name == "." then .here place
    else if name == ".." then .here place.dropLast
    else match Table.get? entries name with
      | none => .fault .notFound
      | some (.link target) =>
        if target.isEmpty then .fault .notFound
        else .link (if Path.isAbsolute target then [] else place) (Path.components target)
      | some _ => .here (place ++ [name])
  | some _ => .fault .notFolder
  | none => .fault .notFound

/-- Where names lead to from a place. -/
def along (t : FileTree) : List String → List String → Turn
  | place, [] => .here place
  | place, name :: rest =>
    match t.turn place name with
    | .here p => t.along p rest
    | .link p components => .link p (components ++ rest)
    | .fault f => .fault f

/-- What is found when names end. -/
def stop (t : FileTree) (place : List String) : Except Fault Found :=
  match t.root.at? place with
  | some e => .ok ⟨place, e⟩
  | none => .error .notFound

theorem stop_eq_ok_iff : t.stop place = .ok found ↔
    found.place = place ∧ t.root.at? place = some found.entry := by
  obtain ⟨p, e⟩ := found
  rw [stop]
  cases t.root.at? place with
  | none => simp
  | some d => simp [eq_comm]

/-- What following a link comes to when a number of links may follow. -/
def beyond (t : FileTree) : Nat → List String → List String → Except Fault Found
  | 0, _, _ => .error .tooManyLinks
  | links + 1, place, components => t.follow links place components

theorem step_cons (onLink : List String → List String → Except Fault Found)
    (place : List String) (name : String) (rest : List String) :
    t.step onLink place (name :: rest) = match t.turn place name with
      | .here p => t.step onLink p rest
      | .link p components => onLink p (components ++ rest)
      | .fault f => .error f := by
  rw [step, turn]
  cases t.root.at? place with
  | none => rfl
  | some e =>
    cases e with
    | file => rfl
    | link => rfl
    | folder entries =>
      dsimp only
      split
      · rfl
      split
      · rfl
      cases Table.get? entries name with
      | none => rfl
      | some c =>
        cases c with
        | link target =>
          dsimp only
          split <;> rfl
        | _ => rfl

/-- Names are followed up to a place or a link, and what comes behind them from
there. -/
theorem follow_append (links : Nat) (place names more : List String) :
    t.follow links place (names ++ more) = match t.along place names with
      | .here p => t.follow links p more
      | .link p components => t.beyond links p (components ++ more)
      | .fault f => .error f := by
  have hstep : ∀ onLink, t.step onLink place (names ++ more) = match t.along place names with
      | .here p => t.step onLink p more
      | .link p components => onLink p (components ++ more)
      | .fault f => .error f := by
    intro onLink
    induction names generalizing place with
    | nil => rfl
    | cons n names ih =>
      rw [List.cons_append, step_cons, along]
      cases t.turn place n with
      | here p => exact ih p
      | link p components => simp
      | fault f => rfl
  cases links with
  | zero => exact hstep _
  | succ links => exact hstep _

theorem follow_nil (links : Nat) (place : List String) :
    t.follow links place [] = t.stop place := by
  cases links <;> rfl

theorem follow_eq (links : Nat) (place names : List String) :
    t.follow links place names = match t.along place names with
      | .here p => t.stop p
      | .link p components => t.beyond links p components
      | .fault f => .error f := by
  have h := follow_append (t := t) links place names []
  simpa only [List.append_nil, follow_nil] using h

/-! ## 3. The links of a path -/

/-- Names lead somewhere, with some of the links left, or they lead nowhere
whatever comes behind them. -/
theorem follow_append_cases (links : Nat) (place names : List String) :
    (∃ left ≤ links, ∃ p, ∀ more, t.follow links place (names ++ more) = t.follow left p more) ∨
      ∃ f, ∀ more, t.follow links place (names ++ more) = .error f := by
  induction links generalizing place names with
  | zero =>
    simp only [follow_append]
    cases t.along place names with
    | here p => exact Or.inl ⟨0, Nat.le_refl 0, p, fun _ => rfl⟩
    | link p components => exact Or.inr ⟨_, fun _ => rfl⟩
    | fault f => exact Or.inr ⟨f, fun _ => rfl⟩
  | succ links ih =>
    simp only [follow_append]
    cases t.along place names with
    | here p => exact Or.inl ⟨links + 1, Nat.le_refl _, p, fun _ => rfl⟩
    | link p components =>
      refine (ih p components).imp_left ?_
      rintro ⟨left, hleft, p, h⟩
      exact ⟨left, Nat.le_succ_of_le hleft, p, h⟩
    | fault f => exact Or.inr ⟨f, fun _ => rfl⟩

/-- **The rest of a path** is followed from where its beginning leads to, with
the links that are left. -/
theorem exists_follow_append {links : Nat} (h : t.follow links place names = .ok found) :
    ∃ left ≤ links, ∀ more,
      t.follow links place (names ++ more) = t.follow left found.place more := by
  rcases follow_append_cases (t := t) links place names with ⟨left, hleft, p, happend⟩ | ⟨f, hfault⟩
  · have hnil := happend []
    rw [List.append_nil, h, follow_nil] at hnil
    obtain ⟨rfl, -⟩ := stop_eq_ok_iff.mp hnil.symm
    exact ⟨left, hleft, happend⟩
  · have hnil := hfault []
    rw [List.append_nil, h] at hnil
    cases hnil

/-- What names lead to when the links suffice does not depend on their number. -/
theorem follow_of_le {few many : Nat} (hle : few ≤ many)
    (h : t.follow few place names ≠ .error .tooManyLinks) :
    t.follow many place names = t.follow few place names := by
  have hsucc : ∀ (links : Nat) (place names : List String),
      t.follow links place names ≠ .error .tooManyLinks →
        t.follow (links + 1) place names = t.follow links place names := by
    intro links
    induction links with
    | zero =>
      intro place names h
      rw [follow_eq] at h
      rw [follow_eq, follow_eq 0]
      cases halong : t.along place names with
      | link p components => exact absurd (by rw [halong]; rfl) h
      | _ => rfl
    | succ links ih =>
      intro place names h
      rw [follow_eq] at h
      rw [follow_eq, follow_eq (links + 1)]
      cases halong : t.along place names with
      | link p components =>
        rw [halong] at h
        exact ih p components h
      | _ => rfl
  induction many, hle using Nat.le_induction with
  | base => rfl
  | succ many _ ih => rw [hsucc many place names (ih ▸ h), ih]

/-- From a place, names lead to the same, however many links there are, unless
these do not suffice. -/
theorem follow_eq_or_tooManyLinks (links others : Nat) {place names : List String}
    (h : t.follow links place names ≠ .error .tooManyLinks) :
    t.follow others place names = t.follow links place names ∨
      t.follow others place names = .error .tooManyLinks := by
  rcases Nat.le_total links others with hle | hle
  · exact Or.inl (follow_of_le hle h)
  · by_cases hothers : t.follow others place names = .error .tooManyLinks
    · exact Or.inr hothers
    · exact Or.inl (follow_of_le hle hothers).symm

/-! ## 4. What is found -/

/-- No link stands at a place. -/
def NoLink (t : FileTree) (place : List String) : Prop :=
  ∀ target, t.root.at? place ≠ some (.link target)

theorem noLink_of_folder {entries : List (String × Entry)}
    (h : t.root.at? place = some (.folder entries)) : t.NoLink place := by
  intro target hlink
  rw [h] at hlink
  cases hlink

theorem WellFormed.noLink_root (ht : t.WellFormed) : t.NoLink [] := by
  obtain ⟨entries, hroot⟩ := ht.root
  exact noLink_of_folder (congrArg some hroot)

/-- Above a folder there are folders. -/
theorem noLink_dropLast {entries : List (String × Entry)}
    (h : t.root.at? place = some (.folder entries)) : t.NoLink place.dropLast := by
  rcases List.eq_nil_or_concat place with rfl | ⟨above, n, rfl⟩
  · exact noLink_of_folder h
  · rw [List.concat_eq_append, Entry.at?_append, Option.bind_eq_some_iff] at h
    obtain ⟨e, habove, hn⟩ := h
    obtain ⟨inside, -, rfl, -⟩ := Entry.exists_folder_of_at?_cons hn
    rw [List.concat_eq_append, List.dropLast_concat]
    exact noLink_of_folder habove

/-- Where no link stands, there a turn leads, or following a link starts. -/
def Turn.NoLink (t : FileTree) : Turn → Prop
  | .here p => t.NoLink p
  | .link p _ => t.NoLink p
  | .fault _ => True

theorem noLink_turn (ht : t.WellFormed) (place : List String) (name : String) :
    (t.turn place name).NoLink t := by
  rw [turn]
  cases hplace : t.root.at? place with
  | none => trivial
  | some e =>
    cases e with
    | file => trivial
    | link => trivial
    | folder entries =>
      have hfolder := noLink_of_folder hplace
      dsimp only
      split
      · exact hfolder
      split
      · exact noLink_dropLast hplace
      cases hchild : Table.get? entries name with
      | none => trivial
      | some c =>
        have hinside : t.root.at? (place ++ [name]) = some c := by
          simp [Entry.at?_append, hplace, Entry.at?, Entry.child?, hchild]
        cases c with
        | link target =>
          dsimp only
          split
          · trivial
          · change t.NoLink _
            split
            · exact ht.noLink_root
            · exact hfolder
        | _ =>
          intro target hlink
          rw [hinside] at hlink
          cases hlink

theorem noLink_along (ht : t.WellFormed) (hplace : t.NoLink place) (names : List String) :
    (t.along place names).NoLink t := by
  induction names generalizing place with
  | nil => exact hplace
  | cons n names ih =>
    have hturn := noLink_turn ht place n
    rw [along]
    cases hn : t.turn place n with
    | here p =>
      rw [hn] at hturn
      exact ih hturn
    | link p components =>
      rw [hn] at hturn
      exact hturn
    | fault f => trivial

/-- What is found is found at the end of the names or behind their first link. -/
theorem follow_eq_ok_cases {links : Nat} (h : t.follow links place names = .ok found) :
    (t.along place names = .here found.place ∧ t.root.at? found.place = some found.entry) ∨
      ∃ p components, t.along place names = .link p components ∧
        t.beyond links p components = .ok found := by
  rw [follow_eq] at h
  cases halong : t.along place names with
  | here p =>
    rw [halong] at h
    obtain ⟨rfl, hentry⟩ := stop_eq_ok_iff.mp h
    exact Or.inl ⟨rfl, hentry⟩
  | link p components =>
    rw [halong] at h
    exact Or.inr ⟨p, components, rfl, h⟩
  | fault f =>
    rw [halong] at h
    cases h

/-- What is found stands at the place found. -/
theorem at?_place_of_follow {links : Nat} (h : t.follow links place names = .ok found) :
    t.root.at? found.place = some found.entry := by
  induction links generalizing place names with
  | zero =>
    rcases follow_eq_ok_cases h with ⟨-, hentry⟩ | ⟨p, components, -, hbeyond⟩
    · exact hentry
    · cases hbeyond
  | succ links ih =>
    rcases follow_eq_ok_cases h with ⟨-, hentry⟩ | ⟨p, components, -, hbeyond⟩
    · exact hentry
    · exact ih hbeyond

/-- **What is found** stands at the place found, and is no link. -/
theorem at?_of_follow (ht : t.WellFormed) {links : Nat} (hplace : t.NoLink place)
    (h : t.follow links place names = .ok found) :
    t.root.at? found.place = some found.entry ∧ t.NoLink found.place := by
  induction links generalizing place names with
  | zero =>
    have hland := noLink_along ht hplace names
    rcases follow_eq_ok_cases h with ⟨halong, hentry⟩ | ⟨p, components, -, hbeyond⟩
    · rw [halong] at hland
      exact ⟨hentry, hland⟩
    · cases hbeyond
  | succ links ih =>
    have hland := noLink_along ht hplace names
    rcases follow_eq_ok_cases h with ⟨halong, hentry⟩ | ⟨p, components, halong, hbeyond⟩
    · rw [halong] at hland
      exact ⟨hentry, hland⟩
    · rw [halong] at hland
      exact ih hland hbeyond

/-- Names in folders lead to what they stand for. -/
theorem along_at? (place : List String) (hnames : ∀ n ∈ names, IsName n)
    (h : t.root.at? (place ++ names) = some e) (hlink : t.NoLink (place ++ names)) :
    t.along place names = .here (place ++ names) := by
  induction names generalizing place with
  | nil => rw [along, List.append_nil]
  | cons n names ih =>
    rw [List.forall_mem_cons] at hnames
    have hplace := h
    rw [Entry.at?_append, Option.bind_eq_some_iff] at hplace
    obtain ⟨d, hplace, hbelow⟩ := hplace
    obtain ⟨entries, c, rfl, hchild, -⟩ := Entry.exists_folder_of_at?_cons hbelow
    rw [List.append_cons] at h hlink ⊢
    have hinside : t.root.at? (place ++ [n]) = some c := by
      simp [Entry.at?_append, hplace, Entry.at?, Entry.child?, hchild]
    have hturn : t.turn place n = .here (place ++ [n]) := by
      have hskip : (n == "" || n == ".") = false := by
        simp [hnames.1.ne_empty, hnames.1.ne_dot]
      have hup : (n == "..") = false := by simp [hnames.1.ne_dots]
      -- A link has nothing inside, and what stands at the end is none.
      cases c with
      | link target =>
        cases names with
        | nil => exact absurd (by simpa using hinside) (hlink target)
        | cons m names =>
          rw [Entry.at?_append, hinside] at h
          cases h
      | _ => simp [turn, hplace, hskip, hup, hchild]
    rw [along, hturn]
    exact ih _ hnames.2 h hlink

/-- A name that is not in a folder leads nowhere. -/
theorem follow_missing {entries : List (String × Entry)} {n : String}
    (hplace : t.root.at? place = some (.folder entries)) (hn : IsName n)
    (hmissing : n ∉ Table.keys entries) (links : Nat) (more : List String) :
    t.follow links place (n :: more) = .error .notFound := by
  have hskip : (n == "" || n == ".") = false := by simp [hn.ne_empty, hn.ne_dot]
  have hup : (n == "..") = false := by simp [hn.ne_dots]
  rw [← Table.get?_eq_none_iff] at hmissing
  rw [follow_eq, along, turn]
  simp [hplace, hskip, hup, hmissing]

/-- A link in a folder leads on to its target. -/
theorem turn_eq_link {entries : List (String × Entry)} {n target : String}
    (hplace : t.root.at? place = some (.folder entries)) (hn : IsName n)
    (hlink : Table.get? entries n = some (.link target)) (htarget : target ≠ "") :
    t.turn place n =
      .link (if Path.isAbsolute target then [] else place) (Path.components target) := by
  have hskip : (n == "" || n == ".") = false := by simp [hn.ne_empty, hn.ne_dot]
  have hup : (n == "..") = false := by simp [hn.ne_dots]
  simp [turn, hplace, hskip, hup, hlink, htarget]

/-- Behind a link what comes behind its target is followed. -/
theorem follow_link (ht : t.WellFormed) (place : List String) (n target : String)
    {entries : List (String × Entry)} (hplace : t.root.at? place = some (.folder entries))
    (hn : IsName n) (hlink : Table.get? entries n = some (.link target)) (htarget : target ≠ "")
    (links : Nat) (more : List String) : t.follow links [] (place ++ n :: more) =
      t.beyond links (if Path.isAbsolute target then [] else place)
        (Path.components target ++ more) := by
  have halong := along_at? [] (ht.entries.at? hplace).2 hplace (noLink_of_folder hplace)
  rw [follow_append, halong]
  change t.follow links place ([n] ++ more) = _
  rw [follow_append, along, turn_eq_link hplace hn hlink htarget]
  simp

/-- **A link to itself** cannot be followed, however many links a path may lead through. -/
theorem follow_self_link {entries : List (String × Entry)} {n : String}
    (hplace : t.root.at? place = some (.folder entries)) (hn : IsName n)
    (hlink : Table.get? entries n = some (.link n)) (links : Nat) :
    t.follow links place [n] = .error .tooManyLinks := by
  have hparts : Path.components n = [n] := Path.components_ofComponents
    (List.cons_ne_nil n []) (List.forall_mem_singleton.mpr hn.noSlash)
  have halong : t.along place [n] = .link place [n] := by
    rw [along, turn_eq_link hplace hn hlink hn.ne_empty, hparts,
      Path.isAbsolute_of_noSlash hn.noSlash]
    rfl
  induction links with
  | zero =>
    rw [follow_eq, halong]
    rfl
  | succ links ih =>
    rw [follow_eq, halong]
    exact ih

/-! ## 5. Paths -/

/-- Slashes in front of a path lead nowhere else. -/
theorem along_replicate (ht : t.WellFormed) (k : Nat) (rest : List String) :
    t.along [] (List.replicate k "" ++ rest) = t.along [] rest := by
  obtain ⟨entries, hroot⟩ := ht.root
  induction k with
  | zero => rfl
  | succ k ih =>
    have hturn : t.turn [] "" = .here [] := by simp [turn, hroot, Entry.at?]
    rw [List.replicate_succ, List.cons_append, along, hturn]
    exact ih

/-- A normal path is followed by its names. -/
theorem find_place (ht : t.WellFormed) (q : Place) : t.find q.path = t.follow 40 [] q.names := by
  have hne : ¬ q.path.isEmpty = true := by simpa only [String.isEmpty_iff] using q.path_ne_empty
  rw [find, if_neg hne, q.components_path, follow_eq, follow_eq, along_replicate ht]
  by_cases hempty : q.names = []
  · have hslash : t.along [] [""] = t.along [] [] := along_replicate ht 1 []
    rw [if_pos hempty, hempty, hslash]
  · rw [if_neg hempty]

/-- Names behind a normal path are followed behind its own. -/
theorem find_foldl_join (ht : t.WellFormed) (q : Place) (hnames : ∀ n ∈ names, IsName n) :
    t.find (names.foldl Path.join q.path) = t.follow 40 [] (q.names ++ names) := by
  rw [← q.path_into hnames, find_place ht]
  rfl

/-- The path of a link to itself. -/
theorem find_self_link (ht : t.WellFormed) {path n : String} (hpath : Path.IsPlace path)
    {entries : List (String × Entry)} (h : t.find path = .ok ⟨place, .folder entries⟩)
    (hn : IsName n) (hlink : Table.get? entries n = some (.link n)) :
    t.find (Path.join path n) = .error .tooManyLinks := by
  obtain ⟨q, rfl⟩ := hpath
  have hnames : ∀ m ∈ [n], IsName m := List.forall_mem_singleton.mpr hn
  have hplace := (find_place ht q).symm.trans h
  obtain ⟨left, -, happend⟩ := exists_follow_append hplace
  have hjoin := find_foldl_join ht q hnames
  rw [happend] at hjoin
  exact hjoin.trans (follow_self_link (at?_of_follow ht ht.noLink_root hplace).1 hn hlink left)

theorem at?_of_find (ht : t.WellFormed) {path : String} (h : t.find path = .ok found) :
    t.root.at? found.place = some found.entry ∧ t.NoLink found.place := by
  rw [find] at h
  split at h
  · cases h
  · exact at?_of_follow ht ht.noLink_root h

theorem at?_place_of_find {path : String} (h : t.find path = .ok found) :
    t.root.at? found.place = some found.entry := by
  rw [find] at h
  split at h
  · cases h
  · exact at?_place_of_follow h

theorem realPath_of_find {path : String} (h : t.find path = .ok found) :
    t.realPath path = pathOf found.place := by
  rw [realPath, h]

/-- The place of what is found, as a place of a normal path. -/
theorem exists_place_of_find (ht : t.WellFormed) {path : String} (h : t.find path = .ok found) :
    ∃ q : Place, q.path = t.realPath path ∧ q.names = found.place := by
  have hnames := (ht.entries.at? (at?_of_find ht h).1).2
  exact ⟨⟨1, found.place, Or.inl rfl, hnames⟩, (realPath_of_find h).symm, rfl⟩

/-- **Real paths lead where they should.** -/
theorem find_realPath (ht : t.WellFormed) {path : String} (h : t.find path = .ok found) :
    t.find (t.realPath path) = .ok found := by
  obtain ⟨hentry, hlink⟩ := at?_of_find ht h
  obtain ⟨q, hq, hnames⟩ := exists_place_of_find ht h
  have hall : ∀ n ∈ found.place, IsName n := hnames ▸ q.isName
  have halong := along_at? [] hall hentry hlink
  rw [← hq, find_place ht, hnames, follow_eq, halong]
  exact stop_eq_ok_iff.mpr ⟨rfl, hentry⟩

/-- What has one real path is found to be one thing. -/
theorem found_eq_of_realPath (ht : t.WellFormed) {path other : String} {found' : Found}
    (h : t.find path = .ok found) (h' : t.find other = .ok found')
    (hreal : t.realPath path = t.realPath other) : found = found' := by
  have hboth := find_realPath ht h
  rw [hreal, find_realPath ht h'] at hboth
  exact (Except.ok.inj hboth).symm

/-- **Other ways to a place.** Where two ways lead to one place, the same names
lead from both to the same, unless one of them runs out of links. -/
theorem follow_append_eq_or {links : Nat} {others : List String}
    (h : t.follow links place names = .ok found) (h' : t.follow links place others = .ok found)
    (hmore : t.follow links place (names ++ more) ≠ .error .tooManyLinks) :
    t.follow links place (others ++ more) = t.follow links place (names ++ more) ∨
      t.follow links place (others ++ more) = .error .tooManyLinks := by
  obtain ⟨left, -, hleft⟩ := exists_follow_append h
  obtain ⟨left', -, hleft'⟩ := exists_follow_append h'
  rw [hleft, hleft'] at *
  exact follow_eq_or_tooManyLinks left left' hmore

/-- On the way to something there are folders. -/
theorem exists_folder_of_follow {links : Nat} {n : String}
    (h : t.follow links place (names ++ n :: more) = .ok found) :
    ∃ p entries, t.follow links place names = .ok ⟨p, .folder entries⟩ := by
  rcases follow_append_cases (t := t) links place names with ⟨left, -, p, happend⟩ | ⟨f, hfault⟩
  · have hstop := happend []
    rw [List.append_nil, follow_nil] at hstop
    rw [happend, follow_eq, along, turn] at h
    cases hp : t.root.at? p with
    | none =>
      rw [hp] at h
      cases h
    | some e =>
      cases e with
      | folder entries => exact ⟨p, entries, by rw [hstop, stop, hp]⟩
      | _ =>
        rw [hp] at h
        cases h
  · rw [hfault] at h
    cases h

/-- On the way to something each name stands in the folder before it. -/
theorem exists_folder_of_follow_append {links : Nat} {n : String} (hn : IsName n)
    (h : t.follow links place (names ++ n :: more) = .ok found) :
    ∃ p entries, t.follow links place names = .ok ⟨p, .folder entries⟩ ∧
      n ∈ Table.keys entries := by
  obtain ⟨p, entries, hfolder⟩ := exists_folder_of_follow h
  refine ⟨p, entries, hfolder, ?_⟩
  by_contra hmem
  obtain ⟨left, -, happend⟩ := exists_follow_append hfolder
  have hentry : t.root.at? p = some (.folder entries) := by
    have hnil := happend []
    rw [List.append_nil, hfolder, follow_nil] at hnil
    exact (stop_eq_ok_iff.mp hnil.symm).2
  rw [happend, follow_missing hentry hn hmem] at h
  cases h

/-- **Names behind a real path** lead to what they lead to behind a path to it, unless
that path runs out of links. -/
theorem find_foldl_join_realPath (ht : t.WellFormed) {path : String} (hpath : Path.IsPlace path)
    (h : t.find path = .ok found) (hnames : ∀ n ∈ names, IsName n)
    (hlinks : t.find (names.foldl Path.join path) ≠ .error .tooManyLinks) :
    t.find (names.foldl Path.join (t.realPath path)) = t.find (names.foldl Path.join path) := by
  obtain ⟨q, rfl⟩ := hpath
  obtain ⟨q', hq', hplace⟩ := exists_place_of_find ht h
  obtain ⟨hentry, hlink⟩ := at?_of_find ht h
  have hall : ∀ n ∈ found.place, IsName n := hplace ▸ q'.isName
  have halong := along_at? [] hall hentry hlink
  obtain ⟨left, hleft, happend⟩ := exists_follow_append ((find_place ht q).symm.trans h)
  rw [find_foldl_join ht q hnames, happend] at hlinks
  rw [← hq', find_foldl_join ht q' hnames, hplace, follow_append, halong,
    find_foldl_join ht q hnames, happend]
  exact follow_of_le hleft hlinks

/-! ## 6. Listing -/

theorem exists_find_of_isFolder {path : String} (h : t.isFolder path = true) :
    ∃ place entries, t.find path = .ok ⟨place, .folder entries⟩ := by
  rw [isFolder] at h
  cases hfind : t.find path with
  | error f => simp [hfind] at h
  | ok found =>
    obtain ⟨place, e⟩ := found
    cases e with
    | folder entries => exact ⟨place, entries, rfl⟩
    | _ => simp [hfind] at h

/-- The names in what a path leads to; none if that is no folder. -/
def listed (t : FileTree) (folder : String) : List String :=
  match t.list folder with
  | .ok names => names
  | .error _ => []

theorem listed_eq {folder : String} {entries : List (String × Entry)}
    (h : t.find folder = .ok ⟨place, .folder entries⟩) :
    t.listed folder = Text.sortTexts (Table.keys entries) := by
  rw [listed, list, h]

theorem mem_listed_iff {folder n : String} : n ∈ t.listed folder ↔
    ∃ place entries, t.find folder = .ok ⟨place, .folder entries⟩ ∧ n ∈ Table.keys entries := by
  rw [listed, list]
  cases hfind : t.find folder with
  | error f => simp
  | ok found =>
    obtain ⟨place, e⟩ := found
    cases e <;> simp [Text.sortTexts]

theorem listed_eq_nil {path : String} (h : t.isFolder path = false) : t.listed path = [] := by
  rw [List.eq_nil_iff_forall_not_mem]
  intro n hn
  obtain ⟨place, entries, hfind, -⟩ := mem_listed_iff.mp hn
  rw [isFolder, hfind] at h
  cases h

/-- What is listed are names. -/
theorem isName_of_mem_listed (ht : t.WellFormed) {folder n : String} (h : n ∈ t.listed folder) :
    IsName n := by
  obtain ⟨place, entries, hfind, hn⟩ := mem_listed_iff.mp h
  obtain ⟨-, isName, -⟩ :=
    Entry.wellFormed_folder_iff.mp (ht.entries.at? (at?_of_find ht hfind).1).1
  obtain ⟨e, he, rfl⟩ := List.mem_map.mp hn
  exact isName e he

end FileTree

end PackageAudit
