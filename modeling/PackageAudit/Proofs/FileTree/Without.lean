/-
PackageAudit.Proofs.FileTree.Without — trees from which entries are taken away.

Places are taken away that lead to no folder: files, and links that lead nowhere or
to a file. Then each path leads to what it led to, less what is missing inside, or
it led to where one of these places led (`find_without`). So what led to a folder
still does, and the folder has lost the names of these places and no others
(`isFolder_without`, `listed_without`).

The step is `turn_without`: from a place that is left, one name leads on as before,
or to a place that is taken away. In the second case what comes of the path is what
comes of that place, since behind a place that leads to no folder no path goes on.
-/
import PackageAudit.Proofs.FileTree.Links
import PackageAudit.Proofs.Collection

namespace PackageAudit

open PackageAudit.Path (IsName IsPlace Place)

/-! ## 1. What is left of an entry -/

namespace Entry

mutual

/-- What is left of the entry at a place when some places inside are taken away. -/
def without (gone : List String → Bool) (place : List String) : Entry → Entry
  | .folder entries => .folder (withoutIn gone place entries)
  | e => e

/-- What is left of some entries of a folder. -/
def withoutIn (gone : List String → Bool) (place : List String) :
    List (String × Entry) → List (String × Entry)
  | [] => []
  | (n, e) :: es =>
    if gone (place ++ [n]) then withoutIn gone place es
    else (n, e.without gone (place ++ [n])) :: withoutIn gone place es

end

variable {gone : List String → Bool} {place : List String} {entries : List (String × Entry)}

theorem get?_withoutIn (n : String) : Table.get? (withoutIn gone place entries) n =
    if gone (place ++ [n]) then none
    else (Table.get? entries n).map (without gone (place ++ [n])) := by
  induction entries with
  | nil => simp [withoutIn, Table.get?]
  | cons d entries ih =>
    obtain ⟨m, e⟩ := d
    rw [withoutIn, Table.get?_cons]
    by_cases hm : gone (place ++ [m]) = true
    · rw [if_pos hm, ih]
      by_cases hn : n = m
      · rw [hn, if_pos hm, if_pos hm]
      · rw [if_neg hn]
    · rw [if_neg hm, Table.get?_cons, ih]
      by_cases hn : n = m
      · rw [if_pos hn, if_pos hn, hn, if_neg hm]
        rfl
      · rw [if_neg hn, if_neg hn]

theorem keys_withoutIn : Table.keys (withoutIn gone place entries) =
    (Table.keys entries).filter fun n => !gone (place ++ [n]) := by
  induction entries with
  | nil => rfl
  | cons d entries ih =>
    obtain ⟨m, e⟩ := d
    simp only [Table.keys] at ih
    by_cases hm : gone (place ++ [m]) = true <;> simp [withoutIn, Table.keys, hm, ih]

end Entry

namespace FileTree

/-- A tree without some places. -/
def without (t : FileTree) (gone : List String → Bool) : FileTree := ⟨t.root.without gone []⟩

/-- Neither a place nor one above it is taken away. -/
def Left (gone : List String → Bool) (place : List String) : Prop :=
  ∀ above n, above ++ [n] <+: place → gone (above ++ [n]) = false

/-- What is left of what is found. -/
def Found.without (gone : List String → Bool) (found : Found) : Found :=
  ⟨found.place, found.entry.without gone found.place⟩

variable {t : FileTree} {gone : List String → Bool} {place names rest : List String} {n : String}
  {found : Found}

theorem left_nil : Left gone [] := by
  intro above n h
  simp at h

theorem Left.dropLast (h : Left gone place) : Left gone place.dropLast :=
  fun above n hbegins => h above n (hbegins.trans (List.dropLast_prefix place))

theorem Left.append (h : Left gone place) (hn : gone (place ++ [n]) = false) :
    Left gone (place ++ [n]) := by
  intro above m hbegins
  rcases List.prefix_concat_iff.mp hbegins with heq | hbegins
  · rw [heq, hn]
  · exact h above m hbegins

/-- At a place that is left stands what is left of what stood there. -/
theorem at?_without (h : Left gone place) :
    (t.without gone).root.at? place = (t.root.at? place).map (Entry.without gone place) := by
  have hbelow : ∀ (names start : List String) (e : Entry), Left gone (start ++ names) →
      (e.without gone start).at? names =
        (e.at? names).map (Entry.without gone (start ++ names)) := by
    intro names
    induction names with
    | nil =>
      intro start e _
      rw [List.append_nil]
      rfl
    | cons n names ih =>
      intro start e hleft
      rw [List.append_cons] at hleft ⊢
      cases e with
      | folder entries =>
        have hn : gone (start ++ [n]) = false := hleft start n (List.prefix_append _ _)
        simp only [Entry.without, Entry.at?, Entry.child?, Entry.get?_withoutIn, hn,
          Bool.false_eq_true, if_false]
        cases Table.get? entries n with
        | none => rfl
        | some c => exact ih (start ++ [n]) c hleft
      | _ => rfl
  exact hbelow place [] t.root h

theorem stop_without (h : Left gone place) :
    (t.without gone).stop place = (t.stop place).map (Found.without gone) := by
  rw [stop, stop, at?_without h]
  cases t.root.at? place <;> rfl

/-! ## 2. Following names -/

/-- What comes of a place that is taken away: no path goes on from it, and one that ends
there leads to what the place leads to. -/
theorem find_pathOf_of_follow (ht : t.WellFormed) {entries : List (String × Entry)}
    (hplace : t.root.at? place = some (.folder entries)) (hn : IsName n) {links : Nat}
    (hlinks : links ≤ 40) (h : t.follow links place (n :: rest) = .ok found) :
    t.find (pathOf (place ++ [n])) = .ok found ∨ t.isFolder (pathOf (place ++ [n])) = true := by
  have hnames := (ht.entries.at? hplace).2
  have hall : ∀ m ∈ place ++ [n], IsName m := by
    simpa [or_imp, forall_and] using ⟨hnames, hn⟩
  have halong := along_at? [] hnames hplace (noLink_of_folder hplace)
  let q : Place := ⟨1, place ++ [n], Or.inl rfl, hall⟩
  have hfind : t.find (pathOf (place ++ [n])) = t.follow 40 place [n] := by
    rw [show pathOf (place ++ [n]) = q.path from rfl, find_place ht, follow_append, halong]
    rfl
  have hmore {f : Found} (hf : t.follow links place [n] = .ok f) :
      t.find (pathOf (place ++ [n])) = .ok f := by
    rw [hfind, ← hf]
    exact follow_of_le hlinks (by simp [hf])
  cases rest with
  | nil => exact Or.inl (hmore h)
  | cons m rest =>
    rw [← List.singleton_append] at h
    obtain ⟨p, inside, hfolder⟩ := exists_folder_of_follow h
    refine Or.inr ?_
    rw [isFolder, hmore hfolder]

/-- Where a turn leads, or following a link starts, a place is left. -/
def Turn.Left (gone : List String → Bool) : Turn → Prop
  | .here p => FileTree.Left gone p
  | .link p _ => FileTree.Left gone p
  | .fault _ => True

/-- From a place that is left a name leads on as before, or to a place taken away. -/
theorem turn_without (ht : t.WellFormed) (h : Left gone place) (n : String) :
    ((t.without gone).turn place n = t.turn place n ∧ (t.turn place n).Left gone) ∨
      (t.without gone).turn place n = .fault .notFound ∧ gone (place ++ [n]) = true ∧
        IsName n ∧ ∃ entries, t.root.at? place = some (.folder entries) := by
  rw [turn, turn, at?_without h]
  cases hplace : t.root.at? place with
  | none => exact Or.inl ⟨rfl, trivial⟩
  | some e =>
    cases e with
    | file => exact Or.inl ⟨rfl, trivial⟩
    | link => exact Or.inl ⟨rfl, trivial⟩
    | folder entries =>
      simp only [Option.map_some, Entry.without]
      by_cases hskip : (n == "" || n == ".") = true
      · rw [if_pos hskip, if_pos hskip]
        exact Or.inl ⟨rfl, h⟩
      rw [if_neg hskip, if_neg hskip]
      by_cases hup : (n == "..") = true
      · rw [if_pos hup, if_pos hup]
        exact Or.inl ⟨rfl, h.dropLast⟩
      rw [if_neg hup, if_neg hup, Entry.get?_withoutIn]
      cases hchild : Table.get? entries n with
      | none =>
        rw [Option.map_none, ite_self]
        exact Or.inl ⟨rfl, trivial⟩
      | some c =>
        obtain ⟨-, isName, -⟩ := Entry.wellFormed_folder_iff.mp (ht.entries.at? hplace).1
        have hname : IsName n := isName _ (Table.mem_of_get? hchild)
        by_cases hgone : gone (place ++ [n]) = true
        · rw [if_pos hgone]
          exact Or.inr ⟨rfl, hgone, hname, entries, rfl⟩
        · rw [if_neg hgone]
          have hleft : Left gone (place ++ [n]) := h.append (Bool.eq_false_iff.mpr hgone)
          refine Or.inl ?_
          cases c with
          | file => exact ⟨rfl, hleft⟩
          | folder => exact ⟨rfl, hleft⟩
          | link target =>
            refine ⟨rfl, ?_⟩
            dsimp only
            split
            · trivial
            · change Left gone _
              split
              · exact left_nil
              · exact h

/-- From a place that is left names lead on as before, or they come to a place taken
away. -/
theorem along_without (ht : t.WellFormed) (h : Left gone place) (names : List String) :
    ((t.without gone).along place names = t.along place names ∧
        (t.along place names).Left gone) ∨
      (t.without gone).along place names = .fault .notFound ∧ ∃ p n rest,
        gone (p ++ [n]) = true ∧ IsName n ∧ (∃ entries, t.root.at? p = some (.folder entries)) ∧
          ∀ links, t.follow links place names = t.follow links p (n :: rest) := by
  induction names generalizing place with
  | nil => exact Or.inl ⟨rfl, h⟩
  | cons n names ih =>
    rw [along, along]
    rcases turn_without ht h n with ⟨hsame, hleft⟩ | ⟨hnone, hgone, hn, hplace⟩
    · rw [hsame]
      cases hturn : t.turn place n with
      | here p =>
        rw [hturn] at hleft
        have hfollow (links : Nat) :
            t.follow links place (n :: names) = t.follow links p names := by
          have happend := follow_append (t := t) links place [n] names
          rwa [along, hturn] at happend
        refine (ih hleft).imp_right ?_
        rintro ⟨hnone, q, m, rest, hgone, hm, hq, hrest⟩
        exact ⟨hnone, q, m, rest, hgone, hm, hq, fun links => (hfollow links).trans (hrest links)⟩
      | link p components =>
        rw [hturn] at hleft
        exact Or.inl ⟨rfl, hleft⟩
      | fault f => exact Or.inl ⟨rfl, trivial⟩
    · rw [hnone]
      exact Or.inr ⟨rfl, place, n, names, hgone, hn, hplace, fun _ => rfl⟩

/-- What is left of a result: the same less what is missing inside, or nothing, where the
result was that of a place taken away. -/
def Less (t : FileTree) (gone : List String → Bool) (less result : Except Fault Found) : Prop :=
  less = result.map (Found.without gone) ∨
    less = .error .notFound ∧ ∀ found, result = .ok found →
      ∃ p, gone p = true ∧ t.find (pathOf p) = .ok found

/-- No place that is taken away leads to a folder. -/
def TakesNoFolder (t : FileTree) (gone : List String → Bool) : Prop :=
  ∀ p, gone p = true → t.isFolder (pathOf p) = false

section

variable (ht : t.WellFormed) (hgone : t.TakesNoFolder gone)

include ht hgone

theorem less_follow_of_beyond {links : Nat} (hlinks : links ≤ 40)
    (hbeyond : ∀ p components, Left gone p →
      t.Less gone ((t.without gone).beyond links p components) (t.beyond links p components))
    (h : Left gone place) (names : List String) :
    t.Less gone ((t.without gone).follow links place names) (t.follow links place names) := by
  rcases along_without ht h names with
    ⟨hsame, hleft⟩ | ⟨hnone, p, n, rest, hp, hn, ⟨_, hfolder⟩, hrest⟩
  · rw [follow_eq, follow_eq, hsame]
    cases halong : t.along place names with
    | here p =>
      rw [halong] at hleft
      exact Or.inl (stop_without hleft)
    | link p components =>
      rw [halong] at hleft
      exact hbeyond p components hleft
    | fault f => exact Or.inl rfl
  · refine Or.inr ⟨by rw [follow_eq, hnone], fun found hfound => ?_⟩
    rw [hrest links] at hfound
    rcases find_pathOf_of_follow ht hfolder hn hlinks hfound with hfind | hisFolder
    · exact ⟨p ++ [n], hp, hfind⟩
    · rw [hgone _ hp] at hisFolder
      cases hisFolder

/-- **Following names** in what is left. -/
theorem less_follow {links : Nat} (hlinks : links ≤ 40) (h : Left gone place)
    (names : List String) :
    t.Less gone ((t.without gone).follow links place names) (t.follow links place names) := by
  induction links generalizing place names with
  | zero => exact less_follow_of_beyond ht hgone hlinks (fun _ _ _ => Or.inl rfl) h names
  | succ links ih =>
    exact less_follow_of_beyond ht hgone hlinks
      (fun p components hleft => ih (Nat.le_of_succ_le hlinks) hleft components) h names

/-! ## 3. Paths -/

/-- **A path** in what is left. -/
theorem less_find (path : String) :
    t.Less gone ((t.without gone).find path) (t.find path) := by
  rw [find, find]
  split
  · exact Or.inl rfl
  · exact less_follow ht hgone (Nat.le_refl _) left_nil _

/-- A path that led to a folder leads to what is left of it. -/
theorem find_without_of_isFolder {path : String} (h : t.isFolder path = true) :
    (t.without gone).find path = (t.find path).map (Found.without gone) := by
  obtain ⟨place, entries, hfind⟩ := exists_find_of_isFolder h
  refine (less_find ht hgone path).resolve_right ?_
  rintro ⟨-, hnone⟩
  obtain ⟨p, hp, hfound⟩ := hnone _ hfind
  have hfolder := hgone p hp
  rw [isFolder, hfound] at hfolder
  cases hfolder

/-- What led to a folder still does, and nothing else. -/
theorem isFolder_without : (t.without gone).isFolder = t.isFolder := by
  funext path
  by_cases h : t.isFolder path = true
  · obtain ⟨place, entries, hfind⟩ := exists_find_of_isFolder h
    rw [h, isFolder, find_without_of_isFolder ht hgone h, hfind]
    rfl
  · rw [Bool.not_eq_true] at h
    rw [h, isFolder]
    rw [isFolder] at h
    rcases less_find ht hgone path with hless | ⟨hless, -⟩
    · rw [hless]
      cases hfind : t.find path with
      | error f => rfl
      | ok found =>
        obtain ⟨p, e⟩ := found
        cases e with
        | folder => simp [hfind] at h
        | _ => rfl
    · rw [hless]

theorem realPath_without {path : String} (h : t.isFolder path = true) :
    (t.without gone).realPath path = t.realPath path := by
  rw [realPath, realPath, find_without_of_isFolder ht hgone h]
  cases t.find path <;> rfl

/-- A folder has lost the names that are taken away. -/
theorem listed_without {path : String} {entries : List (String × Entry)}
    (h : t.find path = .ok ⟨place, .folder entries⟩) :
    (t.without gone).listed path = (t.listed path).filter fun n => !gone (place ++ [n]) := by
  have hfolder : t.isFolder path = true := by rw [isFolder, h]
  have hfind := find_without_of_isFolder ht hgone hfolder
  rw [h] at hfind
  rw [listed_eq hfind, listed_eq h, Entry.keys_withoutIn, Text.sortTexts_filter]

/-- A name that is taken away led to no folder. -/
theorem isFolder_join_of_gone {path : String} (hpath : IsPlace path)
    {entries : List (String × Entry)} (h : t.find path = .ok ⟨place, .folder entries⟩)
    (hn : IsName n) (hp : gone (place ++ [n]) = true) : t.isFolder (Path.join path n) = false := by
  obtain ⟨q, rfl⟩ := hpath
  have hentry := (at?_of_find ht h).1
  obtain ⟨left, hleft, happend⟩ := exists_follow_append ((find_place ht q).symm.trans h)
  by_contra hfolder
  rw [Bool.not_eq_false] at hfolder
  obtain ⟨p, inside, hfind⟩ := exists_find_of_isFolder hfolder
  have hnames : ∀ m ∈ [n], IsName m := List.forall_mem_singleton.mpr hn
  have hjoin := find_foldl_join ht q hnames
  rw [happend] at hjoin
  have hnone := hgone _ hp
  rcases find_pathOf_of_follow ht hentry hn hleft (hjoin.symm.trans hfind) with hplace | hplace
  · rw [isFolder, hplace] at hnone
    cases hnone
  · rw [hnone] at hplace
    cases hplace

end

end FileTree

end PackageAudit
