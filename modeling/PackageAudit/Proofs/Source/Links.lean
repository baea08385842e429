/-
PackageAudit.Proofs.Source.Links — a scan of a tree with links.

Paths through links have no end, but folders do: each is listed at most once,
and what it puts on the stack are no more than its names. So the stack and the
names of folders that have not been listed are together what is left of a scan
(`unlisted`), and that becomes less with every folder taken from the stack.
`Ends` says what a scan does until the stack is empty, without a bound on its
steps; the bound of `scan` never comes into play (`ends_scanStack`).

Two statements come of it. A scan is safe whatever the links are
(`scan_safe`). And it is complete up to other ways into a folder
(`scan_complete`): a file within reach is found, unless a folder on the way to
it was listed under another path, behind which the way on is excluded, too deep
or cannot be followed. The last cannot be left out (`scan_misses_file`).
-/
import PackageAudit.Proofs.FileTree.Places
import PackageAudit.Proofs.Source.Tour

namespace PackageAudit

open PackageAudit.Path (IsName Place)

/-! ## 1. The folders of a tree -/

namespace Entry

mutual

/-- The folders in an entry, by the names that lead to them from a place, each with
the number of its names. -/
def folders (place : List String) : Entry → List (List String × Nat)
  | .folder entries => (place, entries.length) :: foldersIn place entries
  | _ => []

/-- The folders in some entries of a folder. -/
def foldersIn (place : List String) : List (String × Entry) → List (List String × Nat)
  | [] => []
  | (n, e) :: es => e.folders (place ++ [n]) ++ foldersIn place es

end

/-- The folder at a place, if one stands there, with the number of its names. -/
def folderAt? (p : List String × Entry) : Option (List String × Nat) :=
  match p.2 with
  | .folder entries => some (p.1, entries.length)
  | _ => none

mutual

theorem folders_eq (place : List String) :
    ∀ e : Entry, e.folders place = (e.places place).filterMap folderAt?
  | .file _ => rfl
  | .link _ => rfl
  | .folder entries => by
    rw [folders, places, foldersIn_eq place entries]
    rfl

theorem foldersIn_eq (place : List String) : ∀ entries : List (String × Entry),
    foldersIn place entries = (placesIn place entries).filterMap folderAt?
  | [] => rfl
  | (n, e) :: es => by
    rw [foldersIn, placesIn, List.filterMap_append, folders_eq (place ++ [n]) e,
      foldersIn_eq place es]

end

/-- Every folder inside of an entry is among its folders. -/
theorem mem_folders (place : List String) {e : Entry} {names : List String}
    {entries : List (String × Entry)} (h : e.at? names = some (.folder entries)) :
    (place ++ names, entries.length) ∈ e.folders place := by
  rw [folders_eq]
  exact List.mem_filterMap.mpr ⟨_, mem_places place h, rfl⟩

mutual

/-- The names in all folders are fewer than those in the tree. -/
theorem sum_folders_lt (place : List String) :
    ∀ e : Entry, ((e.folders place).map Prod.snd).sum < e.size
  | .file _ => by simp [folders, size]
  | .link _ => by simp [folders, size]
  | .folder entries => by
    have hinside := sum_foldersIn_le place entries
    rw [folders, size, List.map_cons, List.sum_cons]
    omega

theorem sum_foldersIn_le (place : List String) : ∀ entries : List (String × Entry),
    entries.length + ((foldersIn place entries).map Prod.snd).sum ≤ sizes entries
  | [] => by simp [foldersIn, sizes]
  | (n, e) :: es => by
    have hfirst := sum_folders_lt (place ++ [n]) e
    have hrest := sum_foldersIn_le place es
    rw [foldersIn, sizes, List.map_append, List.sum_append, List.length_cons]
    omega

end

end Entry

namespace Source

/-- A scan until its stack is empty: the paths of the folders that it lists on its
way from a state, and the state at the end. -/
inductive Ends (t : FileTree) (settings : ScanSettings) :
    ScanState → List (String × Nat) → List String → ScanState → Prop where
  | done (s : ScanState) : Ends t settings s [] [] s
  | again {s s' : ScanState} {folder : String} {depth : Nat} {stack : List (String × Nat)}
      {listed : List String} (hentered : t.realPath folder ∈ s.entered)
      (hrest : Ends t settings (scanFolder t settings s folder depth).1 stack listed s') :
      Ends t settings s ((folder, depth) :: stack) listed s'
  | list {s s' : ScanState} {folder : String} {depth : Nat} {stack : List (String × Nat)}
      {listed : List String} (hnew : t.realPath folder ∉ s.entered)
      (hrest : Ends t settings (scanFolder t settings s folder depth).1
        ((scanFolder t settings s folder depth).2.map (fun p => (p, depth + 1)) ++ stack)
        listed s') :
      Ends t settings s ((folder, depth) :: stack) (folder :: listed) s'

/-- Why the way on from a folder ends where the folder was listed under these names. -/
inductive Blocked (start : String) (x : Exclusion) (maxDepth : Int) (found : Scan)
    (folder : List String) (n : String) : Prop where
  | excluded (h : x.excludes (Path.ofComponents (folder ++ [n])) = true)
  | tooDeep (hdepth : maxDepth < folder.length + 1)
      (h : depthWarning start (folder ++ [n]) ∈ found.warnings)
  | fault (message : String)
      (h : ⟨.permissionDenied, message, some (pathIn start (folder ++ [n]))⟩ ∈ found.warnings)

namespace Tour

variable {v : Tour} {folder names : List String} {n : String}
  {done stack : List (List String)} {s s' : ScanState}

/-! ## 2. What is left of a scan -/

/-- The number of names in folders that have not been listed. -/
def unlisted (v : Tour) (s : ScanState) : Nat :=
  (((v.tree.root.folders []).filter fun f =>
    !s.entered.contains (FileTree.pathOf f.1)).map Prod.snd).sum

theorem sum_filter_le {α : Type} {l : List (α × Nat)} {p q : α × Nat → Bool}
    (himp : ∀ x, q x = true → p x = true) :
    ((l.filter q).map Prod.snd).sum ≤ ((l.filter p).map Prod.snd).sum :=
  ((List.monotone_filter_right l himp).map Prod.snd).sum_le_sum (by simp)

/-- What is left out is missing from the sum. -/
theorem add_sum_filter_le {α : Type} {l : List (α × Nat)} {p q : α × Nat → Bool}
    (himp : ∀ x, q x = true → p x = true) {x : α × Nat} (hx : x ∈ l) (hp : p x = true)
    (hq : ¬ q x = true) :
    x.2 + ((l.filter q).map Prod.snd).sum ≤ ((l.filter p).map Prod.snd).sum := by
  induction l with
  | nil => cases hx
  | cons y l ih =>
    rcases List.mem_cons.mp hx with rfl | hx
    · rw [List.filter_cons_of_pos hp, List.filter_cons_of_neg hq, List.map_cons, List.sum_cons]
      exact Nat.add_le_add_left (sum_filter_le himp) _
    · have hrest := ih hx
      by_cases hy : q y = true
      · rw [List.filter_cons_of_pos hy, List.filter_cons_of_pos (himp y hy), List.map_cons,
          List.map_cons, List.sum_cons, List.sum_cons]
        omega
      · rw [List.filter_cons_of_neg hy, List.filter_cons]
        split
        · rw [List.map_cons, List.sum_cons]
          omega
        · exact hrest

/-- Listing a folder takes its names from those that are left. -/
theorem unlisted_enter (hnew : v.realPath folder ∉ s.entered)
    (hentered : s'.entered = v.realPath folder :: s.entered) :
    (v.listed folder).length + v.unlisted s' ≤ v.unlisted s := by
  have himp : ∀ f : List String × Nat, (!s'.entered.contains (FileTree.pathOf f.1)) = true →
      (!s.entered.contains (FileTree.pathOf f.1)) = true := by
    intro f hf
    simp only [hentered, List.contains_cons, Bool.not_or, Bool.and_eq_true] at hf
    exact hf.2
  by_cases hfolder : v.IsFolder folder
  · obtain ⟨place, entries, hfind⟩ := hfolder
    have hreal : v.realPath folder = FileTree.pathOf place := FileTree.realPath_of_find hfind
    have hentry := (FileTree.at?_of_find v.wellFormed hfind).1
    have hmem : (place, entries.length) ∈ v.tree.root.folders [] := Entry.mem_folders [] hentry
    have hlength : (v.listed folder).length = entries.length := by
      rw [listed, FileTree.listed_eq hfind, Text.sortTexts, List.length_mergeSort, Table.keys,
        List.length_map]
    rw [hlength]
    refine add_sum_filter_le himp hmem ?_ ?_
    · simpa [← hreal] using hnew
    · simp [hentered, hreal]
  · have hnone : v.listed folder = [] := by
      rw [List.eq_nil_iff_forall_not_mem]
      intro n hn
      obtain ⟨place, entries, hfind, -⟩ := FileTree.mem_listed_iff.mp hn
      exact hfolder ⟨place, entries, hfind⟩
    rw [hnone, List.length_nil, Nat.zero_add]
    exact sum_filter_le himp

theorem unlisted_start_lt (v : Tour) : v.unlisted {} < v.tree.root.size := by
  refine lt_of_le_of_lt ?_ (Entry.sum_folders_lt [] v.tree.root)
  rw [unlisted, List.filter_eq_self.mpr (by simp)]

/-! ## 3. The run -/

/-- A stack as a scan has it. -/
def frames (v : Tour) (stack : List (List String)) : List (String × Nat) :=
  stack.map fun folder => (v.path folder, folder.length)

theorem frames_inside (folder inner : List String) (stack : List (List String)) :
    v.frames (inner.map (folder ++ [·]) ++ stack) =
      (inner.map fun n => v.path (folder ++ [n])).map (fun p => (p, folder.length + 1)) ++
        v.frames stack := by
  simp [frames, Function.comp_def]

/-- **The run of a scan.** With enough steps for the stack and the names that are
left the scan comes to its end, and what holds on its way holds there. -/
theorem ends_scanStack {fuel : Nat} (hfuel : stack.length + v.unlisted s ≤ fuel)
    (h : v.Progress done stack s) :
    ∃ more, Ends v.tree v.settings s (v.frames stack) (more.map v.path)
        (scanStack v.tree v.settings fuel s (v.frames stack)) ∧
      v.Progress (done ++ more) [] (scanStack v.tree v.settings fuel s (v.frames stack)) := by
  induction fuel generalizing done stack s with
  | zero =>
    obtain rfl := List.eq_nil_of_length_eq_zero (Nat.eq_zero_of_add_eq_zero_right
      (Nat.le_zero.mp hfuel))
    exact ⟨[], .done s, by simpa [frames, scanStack] using h⟩
  | succ fuel ih =>
    cases stack with
    | nil => exact ⟨[], .done s, by simpa [frames, scanStack] using h⟩
    | cons folder stack =>
      have hframes : v.frames (folder :: stack) =
          (v.path folder, folder.length) :: v.frames stack := rfl
      rw [List.length_cons] at hfuel
      rw [hframes, scanStack]
      by_cases hentered : v.realPath folder ∈ s.entered
      · obtain ⟨s', hscan, hsame, hprogress⟩ := progress_again h hentered
        have hleft : v.unlisted s' = v.unlisted s := by rw [unlisted, unlisted, hsame]
        obtain ⟨more, hends, hend⟩ := ih (by omega) hprogress
        refine ⟨more, .again hentered ?_, ?_⟩
        · rw [hscan]
          exact hends
        · rw [hscan]
          exact hend
      · obtain ⟨s', inner, hscan, hadded, hlength, hprogress⟩ := progress_enter h hentered
        have hleft := unlisted_enter hentered hadded
        have hstack : (inner.map (folder ++ [·]) ++ stack).length + v.unlisted s' ≤ fuel := by
          rw [List.length_append, List.length_map]
          omega
        obtain ⟨more, hends, hend⟩ := ih hstack hprogress
        rw [frames_inside] at hends hend
        refine ⟨folder :: more, .list hentered ?_, ?_⟩
        · rw [hscan]
          exact hends
        · rw [hscan]
          simpa using hend

/-! ## 4. Other ways into a folder -/

variable {above other : List String} {found : FileTree.Found}

/-- Names that lead on lead through a folder that has the next one. -/
theorem exists_folder_of_find {below : List String} (hnames : ∀ m ∈ above ++ n :: below, IsName m)
    (h : v.find (above ++ n :: below) = .ok found) :
    ∃ place entries, v.find above = .ok ⟨place, .folder entries⟩ ∧ n ∈ Table.keys entries := by
  rw [find_eq hnames, ← List.append_assoc] at h
  rw [find_eq fun m hm => hnames m (List.mem_append_left _ hm)]
  exact FileTree.exists_folder_of_follow_append (hnames n (by simp)) h

/-- What has been entered was listed under some names, and there its names have been
met. They lead on to the same, if links suffice. -/
theorem exists_met (h : v.Progress done [] s) (hnames : ∀ m ∈ above ++ [n], IsName m)
    (hentered : v.realPath above ∈ s.entered) (hfound : v.find (above ++ [n]) = .ok found) :
    ∃ other ∈ done, v.realPath other = v.realPath above ∧ v.Met s other n ∧
      (v.find (other ++ [n]) = .ok found ∨ v.find (other ++ [n]) = .error .tooManyLinks) := by
  have habove : ∀ m ∈ above, IsName m := fun m hm => hnames m (List.mem_append_left _ hm)
  rw [h.entered, List.mem_reverse] at hentered
  obtain ⟨other, hother, hreal⟩ := List.mem_map.mp hentered
  have hmay := h.mayEnter other (List.mem_append_left _ hother)
  have hall : ∀ m ∈ other ++ [n], IsName m := by
    simpa [or_imp, forall_and] using ⟨hmay.isName, hnames n (by simp)⟩
  obtain ⟨place, entries, hfolder, hmem⟩ := exists_folder_of_find hnames hfound
  -- The start is a folder too, as the names lead through it.
  have hsame : ∃ found', v.find other = .ok found' := by
    rcases hmay.reached with rfl | ⟨-, place', entries', hreached⟩
    · cases above with
      | nil => exact ⟨_, hfolder⟩
      | cons m above =>
        obtain ⟨p, inside, hstart, -⟩ : ∃ p inside, v.find [] = .ok ⟨p, .folder inside⟩ ∧
            m ∈ Table.keys inside := exists_folder_of_find habove hfolder
        exact ⟨_, hstart⟩
    · exact ⟨_, hreached⟩
  obtain ⟨found', hfound'⟩ := hsame
  obtain rfl := FileTree.found_eq_of_realPath v.wellFormed hfound' hfolder hreal
  have hlisted : n ∈ v.listed other := FileTree.mem_listed_iff.mpr ⟨place, entries, hfound', hmem⟩
  refine ⟨other, hother, hreal, (h.met other hother n hlisted).resolve_right (by simp), ?_⟩
  rw [find_eq hmay.isName] at hfound'
  rw [find_eq habove] at hfolder
  rw [find_eq hnames, ← List.append_assoc] at hfound
  rw [find_eq hall, ← List.append_assoc, ← hfound]
  exact FileTree.follow_append_eq_or hfolder hfound' (by
    rw [hfound]
    simp)

/-- Behind other names a step either leads on as well, or is blocked. -/
theorem step_or_blocked (hmet : v.Met s other n) (hfound : v.find (above ++ [n]) = .ok found)
    (hsame : v.find (other ++ [n]) = .ok found ∨ v.find (other ++ [n]) = .error .tooManyLinks)
    (hstep : v.Opens above n ∧ above.length + 1 ≤ v.maxDepth ∨ v.Takes above n) :
    (v.IsFolder (above ++ [n]) ∧ v.realPath (above ++ [n]) ∈ s.entered) ∨
      (v.IsFile (above ++ [n]) ∧ v.realPath (above ++ [n]) ∈ s.reported) ∨
      (other ≠ above ∧ Blocked v.start.path v.exclusion v.maxDepth s.found other n) := by
  have hvisible : Text.begins "." n = false :=
    hstep.elim (fun h => h.1.visible) (fun h => h.visible)
  -- Where the names lead to the same, so do their real paths.
  have hreach : v.find (other ++ [n]) = .ok found →
      v.realPath (other ++ [n]) = v.realPath (above ++ [n]) := by
    intro h
    rw [realPath, realPath, FileTree.realPath_of_find h, FileTree.realPath_of_find hfound]
  cases hmet with
  | passedOver hopens htakes hfault =>
    have heq := hsame.resolve_right (hfault hvisible)
    refine Or.inr (Or.inr ⟨?_, .excluded ?_⟩)
    · rintro rfl
      exact hstep.elim (fun h => hopens h.1) htakes
    · by_contra hincluded
      rw [Bool.not_eq_true] at hincluded
      rcases hstep with ⟨h, -⟩ | h
      · obtain ⟨place, entries, hfolder⟩ := h.isFolder
        rw [hfolder, ← heq] at hfound
        exact hopens ⟨⟨place, entries, hfound.symm⟩, hvisible, h.kept, hincluded⟩
      · obtain ⟨place, content, hfile⟩ := h.isFile
        rw [hfile, ← heq] at hfound
        exact htakes ⟨⟨place, content, hfound.symm⟩, hvisible, h.language, hincluded⟩
  | fault message hnone h =>
    refine Or.inr (Or.inr ⟨?_, .fault message h⟩)
    rintro rfl
    exact hnone found hfound
  | tooDeep hopens hdepth h =>
    refine Or.inr (Or.inr ⟨?_, .tooDeep hdepth h⟩)
    rintro rfl
    rcases hstep with ⟨-, hle⟩ | htakes
    · omega
    · exact not_isFile_of_isFolder hopens.isFolder htakes.isFile
  | entered hfolder h =>
    obtain ⟨place, entries, hfind⟩ := hfolder
    have heq := hsame.resolve_right (by simp [hfind])
    rw [hreach heq] at h
    rw [heq, ← hfound] at hfind
    exact Or.inl ⟨⟨place, entries, hfind⟩, h⟩
  | reported htakes h =>
    obtain ⟨place, content, hfind⟩ := htakes.isFile
    have heq := hsame.resolve_right (by simp [hfind])
    rw [hreach heq] at h
    rw [heq, ← hfound] at hfind
    exact Or.inr (Or.inl ⟨⟨place, content, hfind⟩, h⟩)

/-- On the way that the names tell a folder was listed under others, and blocked
there. -/
def Detoured (v : Tour) (done : List (List String)) (s : ScanState) (names : List String) : Prop :=
  ∃ above n below other, names = above ++ n :: below ∧ other ∈ done ∧ other ≠ above ∧
    v.realPath other = v.realPath above ∧
    Blocked v.start.path v.exclusion v.maxDepth s.found other n

theorem Detoured.append (h : v.Detoured done s names) (more : List String) :
    v.Detoured done s (names ++ more) := by
  obtain ⟨above, n, below, other, rfl, hrest⟩ := h
  exact ⟨above, n, below ++ more, other, by simp, hrest⟩

/-- **Folders on the way** are entered, up to other ways into them. -/
theorem entered_or_detoured (h : v.Progress done [] s) (hnames : ∀ m ∈ folder, IsName m)
    (hfolder : v.IsFolder folder) (hadmits : Admits v.exclusion folder)
    (hdepth : folder.length ≤ v.maxDepth) :
    v.realPath folder ∈ s.entered ∨ v.Detoured done s folder := by
  induction folder using List.reverseRecOn with
  | nil => exact Or.inl (h.root.resolve_right (by simp))
  | append_singleton above n ih =>
    obtain ⟨place, entries, hfind⟩ := hfolder
    obtain ⟨hbefore, hvisible, hkept, hincluded⟩ := admits_append_singleton_iff.mp hadmits
    have habove : ∀ m ∈ above, IsName m := fun m hm => hnames m (List.mem_append_left _ hm)
    rw [List.length_append, List.length_singleton, Int.natCast_add, Int.natCast_one] at hdepth
    obtain ⟨p, inside, hinside, -⟩ := exists_folder_of_find hnames hfind
    have hway : v.IsFolder above := ⟨p, inside, hinside⟩
    rcases ih habove hway hbefore (by omega) with hentered | hdetoured
    · obtain ⟨other, hother, hreal, hmet, hsame⟩ := exists_met h hnames hentered hfind
      have hopens : v.Opens above n := ⟨⟨place, entries, hfind⟩, hvisible, hkept, hincluded⟩
      rcases step_or_blocked hmet hfind hsame (Or.inl ⟨hopens, hdepth⟩) with
        ⟨-, hmem⟩ | ⟨hfile, -⟩ | ⟨hne, hblocked⟩
      · exact Or.inl hmem
      · exact absurd hfile (not_isFile_of_isFolder hopens.isFolder)
      · exact Or.inr ⟨above, n, [], other, rfl, hother, hne, hreal, hblocked⟩
    · exact Or.inr (hdetoured.append [n])

/-- **Files on the way** are reported, up to other ways into folders. -/
theorem reported_or_detoured (h : v.Progress done [] s) (hnames : ∀ m ∈ folder ++ [n], IsName m)
    (htakes : v.Takes folder n) (hadmits : Admits v.exclusion folder)
    (hdepth : folder.length ≤ v.maxDepth) :
    v.realPath (folder ++ [n]) ∈ s.reported ∨ v.Detoured done s (folder ++ [n]) := by
  obtain ⟨place, content, hfind⟩ := htakes.isFile
  have habove : ∀ m ∈ folder, IsName m := fun m hm => hnames m (List.mem_append_left _ hm)
  obtain ⟨p, inside, hinside, -⟩ := exists_folder_of_find hnames hfind
  have hway : v.IsFolder folder := ⟨p, inside, hinside⟩
  rcases entered_or_detoured h habove hway hadmits hdepth with hentered | hdetoured
  · obtain ⟨other, hother, hreal, hmet, hsame⟩ := exists_met h hnames hentered hfind
    rcases step_or_blocked hmet hfind hsame (Or.inr htakes) with
      ⟨hfolder, -⟩ | ⟨-, hmem⟩ | ⟨hne, hblocked⟩
    · exact absurd htakes.isFile (not_isFile_of_isFolder hfolder)
    · exact Or.inl hmem
    · exact Or.inr ⟨folder, n, [], other, rfl, hother, hne, hreal, hblocked⟩
  · exact Or.inr (hdetoured.append [n])

end Tour

/-! ## 5. What a scan finds -/

/-- A source file within reach of a scan, by the names of the folders on the way and
its own: all of them names, and none hidden, left out or excluded. -/
structure InReach (t : FileTree) (start : String) (x : Exclusion) (maxDepth : Int)
    (folder : List String) (name : String) : Prop where
  isName : ∀ n ∈ folder ++ [name], IsName n
  isFile : t.isFile (pathIn start (folder ++ [name])) = true
  admits : Admits x folder
  depth : folder.length ≤ maxDepth
  visible : Text.begins "." name = false
  language : (Language.ofPath? name).isSome = true
  included : x.excludes (Path.ofComponents (folder ++ [name])) = false

section

variable {t : FileTree}

/-- What a scan from a root looks at. -/
def tourOf (ht : t.WellFormed) (root : String) (patterns : List String) (maxDepth : Int) :
    Tour where
  tree := t
  wellFormed := ht
  start := rootPlace root
  exclusion := .ofPatterns patterns
  maxDepth := maxDepth

theorem exists_ends_scan (ht : t.WellFormed) (root : String) (patterns : List String)
    (maxDepth : Int) :
    ∃ (done : List (List String)) (s : ScanState),
      Ends t (tourOf ht root patterns maxDepth).settings {}
        [((tourOf ht root patterns maxDepth).start.path, 0)]
        (done.map (tourOf ht root patterns maxDepth).path) s ∧
      Source.scan t root patterns maxDepth = s.found ∧
      (tourOf ht root patterns maxDepth).Progress done [] s := by
  let v := tourOf ht root patterns maxDepth
  have hfuel : [([] : List String)].length + v.unlisted {} ≤ t.root.size + 2 := by
    have hlt : v.unlisted {} < t.root.size := v.unlisted_start_lt
    rw [List.length_singleton]
    omega
  obtain ⟨done, hends, hprogress⟩ := Tour.ends_scanStack hfuel v.progress_start
  refine ⟨done, _, hends, ?_, hprogress⟩
  rw [Source.scan, ← path_rootPlace]
  rfl

theorem isFile_iff (v : Tour) (names : List String) :
    v.IsFile names ↔ v.tree.isFile (v.path names) = true := by
  rw [Tour.IsFile, FileTree.isFile, Tour.find]
  cases v.tree.find (v.path names) with
  | error f => simp
  | ok found =>
    obtain ⟨place, e⟩ := found
    cases e <;> simp

/-- **A scan is safe.** Whatever the links are, a scan comes to its end, and lists
each folder at most once on the way. It finds each file at most once, and only
files within reach. -/
theorem scan_safe (ht : t.WellFormed) (root : String) (patterns : List String) (maxDepth : Int) :
    ∃ (listed : List String) (s : ScanState),
      Ends t ⟨Path.absolute "/" root, .ofPatterns patterns, maxDepth⟩ {}
        [(Path.absolute "/" root, 0)] listed s ∧
      Source.scan t root patterns maxDepth = s.found ∧
      (listed.map t.realPath).Nodup ∧
      (s.found.files.map t.realPath).Nodup ∧
      ∀ file ∈ s.found.files, ∃ folder name,
        file = pathIn (Path.absolute "/" root) (folder ++ [name]) ∧
        InReach t (Path.absolute "/" root) (.ofPatterns patterns) (max maxDepth 0) folder name := by
  rw [← path_rootPlace]
  obtain ⟨done, s, hends, hscan, hprogress⟩ := exists_ends_scan ht root patterns maxDepth
  let v := tourOf ht root patterns maxDepth
  have hlisted : ((done.map v.path).map t.realPath).Nodup := by
    have hnodup := hprogress.nodup
    rw [hprogress.entered, List.nodup_reverse] at hnodup
    rw [List.map_map]
    exact hnodup
  have hfiles : (s.found.files.map t.realPath).Nodup := by
    have hnodup := hprogress.sound.nodup
    rwa [hprogress.sound.reported, List.nodup_reverse] at hnodup
  refine ⟨_, s, hends, hscan, hlisted, hfiles, fun file hfile => ?_⟩
  obtain ⟨folder, n, rfl, hmay, hn, htakes⟩ := hprogress.sound.admissible file hfile
  have hdepth : (folder.length : Int) ≤ max maxDepth 0 := by
    rcases hmay.reached with rfl | ⟨hdepth, -⟩
    · simp
    · exact le_max_of_le_left hdepth
  refine ⟨folder, n, rfl, ?_, (isFile_iff v _).mp htakes.isFile, hmay.admits, hdepth,
    htakes.visible, htakes.language, htakes.included⟩
  simpa [or_imp, forall_and] using ⟨hmay.isName, hn⟩

/-- A project with a link to the folder that it stands in, and one to itself. -/
def loopedProject : FileTree := ⟨.folder [("p", .folder [
  ("pkg", .folder [("index.js", .file []), ("loop", .link "/p/pkg"), ("self", .link "self")])])]⟩

theorem scan_safe_looped : loopedProject.WellFormed ∧
    ∃ (listed : List String) (s : ScanState),
      Ends loopedProject ⟨"/p", .ofPatterns ["legacy"], 64⟩ {} [("/p", 0)] listed s ∧
      Source.scan loopedProject "/p" ["legacy"] 64 = s.found ∧
      (listed.map loopedProject.realPath).Nodup ∧
      (s.found.files.map loopedProject.realPath).Nodup ∧
      ∀ file ∈ s.found.files, ∃ folder name, file = pathIn "/p" (folder ++ [name]) ∧
        InReach loopedProject "/p" (.ofPatterns ["legacy"]) 64 folder name := by
  have hwell : loopedProject.WellFormed := by
    refine ⟨⟨_, rfl⟩, ?_⟩
    simp [loopedProject, Table.Distinct, Table.keys]
    decide
  exact ⟨hwell, scan_safe hwell "/p" ["legacy"] 64⟩

/-- **A scan is complete up to other ways into a folder.** Each file within reach is
found under some path, unless on the way to it a folder was listed under other
names, where the next step of the way is excluded, or too deep, or cannot be
followed, and of the last two the scan warns. -/
theorem scan_complete (ht : t.WellFormed) (root : String) (patterns : List String)
    (maxDepth : Int) :
    ∃ (listed : List String) (s : ScanState),
      Ends t ⟨Path.absolute "/" root, .ofPatterns patterns, maxDepth⟩ {}
        [(Path.absolute "/" root, 0)] listed s ∧
      Source.scan t root patterns maxDepth = s.found ∧
      ∀ folder name,
        InReach t (Path.absolute "/" root) (.ofPatterns patterns) maxDepth folder name →
        (∃ file ∈ s.found.files,
          t.realPath file = t.realPath (pathIn (Path.absolute "/" root) (folder ++ [name]))) ∨
        ∃ above n below other, folder ++ [name] = above ++ n :: below ∧ other ≠ above ∧
          pathIn (Path.absolute "/" root) other ∈ listed ∧
          t.realPath (pathIn (Path.absolute "/" root) other) =
            t.realPath (pathIn (Path.absolute "/" root) above) ∧
          Blocked (Path.absolute "/" root) (.ofPatterns patterns) maxDepth s.found other n := by
  rw [← path_rootPlace]
  obtain ⟨done, s, hends, hscan, hprogress⟩ := exists_ends_scan ht root patterns maxDepth
  let v := tourOf ht root patterns maxDepth
  refine ⟨_, s, hends, hscan, fun folder name hreach => ?_⟩
  have htakes : v.Takes folder name :=
    ⟨(isFile_iff v _).mpr hreach.isFile, hreach.visible, hreach.language, hreach.included⟩
  rcases Tour.reported_or_detoured hprogress hreach.isName htakes hreach.admits hreach.depth with
    hmem | ⟨above, n, below, other, hnames, hother, hne, hreal, hblocked⟩
  · rw [hprogress.sound.reported, List.mem_reverse] at hmem
    exact Or.inl (List.mem_map.mp hmem)
  · exact Or.inr ⟨above, n, below, other, hnames, hne, List.mem_map_of_mem hother, hreal,
      hblocked⟩

/-- A project with a second way into a folder: `a/b` leads into `z`. -/
def bypassedProject : FileTree := ⟨.folder [("p", .folder [
  ("a", .folder [("b", .link "/p/z")]),
  ("z", .folder [("sub", .folder [("far.js", .file [])])])])]⟩

theorem wellFormed_bypassedProject : bypassedProject.WellFormed := by
  refine ⟨⟨_, rfl⟩, ?_⟩
  simp [bypassedProject, Table.Distinct, Table.keys]
  decide

theorem inReach_bypassedProject :
    InReach bypassedProject "/p" (.ofPatterns []) 2 ["z", "sub"] "far.js" where
  isName := by decide
  isFile := rfl
  admits := by
    have hz : Admits (.ofPatterns []) ["z"] :=
      admits_append_singleton_iff.mpr ⟨admits_nil _, by decide, by decide, rfl⟩
    exact admits_append_singleton_iff.mpr ⟨hz, by decide, by decide, rfl⟩
  depth := by decide
  visible := rfl
  language := rfl
  included := rfl

/-- Behind `a/b` the folder `sub` is too deep, and `z` has been listed when its turn
comes. -/
theorem files_bypassedProject : (Source.scan bypassedProject "/p" [] 2).files = [] := by
  let settings : ScanSettings := ⟨"/p", .ofPatterns [], 2⟩
  have hp : bypassedProject.list "/p" = .ok ["a", "z"] :=
    congrArg Except.ok (List.mergeSort_of_pairwise (by decide))
  have ha : bypassedProject.list "/p/a" = .ok ["b"] :=
    congrArg Except.ok (List.mergeSort_singleton _)
  have hb : bypassedProject.list "/p/a/b" = .ok ["sub"] :=
    congrArg Except.ok (List.mergeSort_singleton _)
  have hfirst : scanFolder bypassedProject settings {} "/p" 0 =
      ({ entered := ["/p"] }, ["/p/a", "/p/z"]) := by
    simp only [scanFolder, hp]
    rfl
  have hsecond : scanFolder bypassedProject settings { entered := ["/p"] } "/p/a" 1 =
      ({ entered := ["/p/a", "/p"] }, ["/p/a/b"]) := by
    simp only [scanFolder, ha]
    rfl
  have hsub : bypassedProject.kind? "/p/a/b/sub" =
      .ok (some (.folder [("far.js", .file [])])) := by
    let q : Place := ⟨1, ["p", "a", "b", "sub"], Or.inl rfl, by decide⟩
    have hparts : Path.components "/p/z" = ["", "p", "z"] := by decide
    have habsolute : Path.isAbsolute "/p/z" = true := by decide
    have hpath : "/p/a/b/sub" = q.path := by decide
    have hfind := FileTree.follow_link wellFormed_bypassedProject ["p", "a"] "b" "/p/z" rfl
      (by decide) rfl (by decide) 40 ["sub"]
    rw [habsolute, hparts] at hfind
    have hplace := (FileTree.find_place wellFormed_bypassedProject q).trans hfind
    rw [hpath, FileTree.kind?, hplace]
    rfl
  have hname (s : ScanState) : scanName bypassedProject settings "/p/a/b" 2 s "sub" =
      (s.warn .depthLimit ("Maximum depth reached at " ++ "/p/a/b/sub") "/p/a/b/sub", none) := by
    have hjoin : Path.join "/p/a/b" "sub" = "/p/a/b/sub" := rfl
    have hskip : ¬ (defaultExcluded.contains "sub" ||
        settings.exclusion.excludes (Path.relative "/p/a/b/sub" settings.root)) = true := by decide
    have hdeep : ((2 : Nat) : Int) + 1 > settings.maxDepth := by decide
    simp only [scanName, hjoin, hsub]
    rw [if_neg (by decide), if_neg hskip, if_pos hdeep]
  have hthird (s : ScanState) (hnew : ¬ s.entered.contains "/p/z" = true) :
      scanFolder bypassedProject settings s "/p/a/b" 2 =
        (({ s with entered := "/p/z" :: s.entered }).warn .depthLimit
          ("Maximum depth reached at " ++ "/p/a/b/sub") "/p/a/b/sub", []) := by
    have hreal : bypassedProject.realPath "/p/a/b" = "/p/z" := rfl
    simp only [scanFolder, hreal, if_neg hnew, hb, scanNames, hname]
    rfl
  have hfourth (s : ScanState) (hentered : s.entered.contains "/p/z" = true) :
      scanFolder bypassedProject settings s "/p/z" 1 =
        (s.warn .symlinkCycle ("Directory already visited: " ++ "/p/z") "/p/z", []) := by
    have hreal : bypassedProject.realPath "/p/z" = "/p/z" := rfl
    rw [scanFolder, hreal, if_pos hentered]
  have hrun : Source.scan bypassedProject "/p" [] 2 =
      (scanStack bypassedProject settings 9 {} [("/p", 0)]).found := rfl
  rw [hrun, scanStack, hfirst]
  simp only [List.map_cons, List.map_nil, List.cons_append, List.nil_append]
  rw [scanStack, hsecond]
  simp only [List.map_cons, List.map_nil, List.cons_append, List.nil_append]
  rw [scanStack, hthird _ (by decide)]
  simp only [List.map_nil, List.nil_append]
  rw [scanStack, hfourth _ (by decide)]
  rfl

theorem scan_complete_bypassed : bypassedProject.WellFormed ∧
    InReach bypassedProject "/p" (.ofPatterns []) 2 ["z", "sub"] "far.js" ∧
    ∃ above n below other, ["z", "sub", "far.js"] = above ++ n :: below ∧ other ≠ above ∧
      bypassedProject.realPath (pathIn "/p" other) =
        bypassedProject.realPath (pathIn "/p" above) ∧
      Blocked "/p" (.ofPatterns []) 2 (Source.scan bypassedProject "/p" [] 2) other n := by
  refine ⟨wellFormed_bypassedProject, inReach_bypassedProject, ?_⟩
  obtain ⟨listed, s, -, hscan, hcomplete⟩ :=
    scan_complete wellFormed_bypassedProject "/p" [] 2
  rcases hcomplete ["z", "sub"] "far.js" inReach_bypassedProject with
    ⟨file, hfile, -⟩ | ⟨above, n, below, other, hnames, hne, -, hreal, hblocked⟩
  · rw [← hscan, files_bypassedProject] at hfile
    cases hfile
  · exact ⟨above, n, below, other, hnames, hne, hreal, hscan ▸ hblocked⟩

/-- Completeness needs the exception: a file within reach is not found. -/
theorem scan_misses_file : bypassedProject.WellFormed ∧
    InReach bypassedProject "/p" (.ofPatterns []) 2 ["z", "sub"] "far.js" ∧
    ¬ ∃ file ∈ (Source.scan bypassedProject "/p" [] 2).files,
      bypassedProject.realPath file =
        bypassedProject.realPath (pathIn "/p" ["z", "sub", "far.js"]) := by
  refine ⟨wellFormed_bypassedProject, inReach_bypassedProject, ?_⟩
  rw [files_bypassedProject]
  rintro ⟨file, hfile, -⟩
  cases hfile

end

end Source

end PackageAudit
