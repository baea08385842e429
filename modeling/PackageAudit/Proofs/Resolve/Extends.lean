/-
PackageAudit.Proofs.Resolve.Extends — which configurations are read when they
extend each other.

A configuration names the files that it extends, and of the files named the
last one is read next (`Follows`). Each file is read under one real path only,
and the real paths of a tree are finitely many (`unseen`); so the run comes to
its end, and the depth of the recursion stays below the number of names in the
tree (`ends_readChain`). What can go wrong on the way is one thing: among the
values that say what is extended there may be one that is no text.
-/
import PackageAudit.Proofs.Collection
import PackageAudit.Proofs.FileTree.Links
import PackageAudit.Proofs.FileTree.Places
import PackageAudit.Resolve.CompilerOptions
import Mathlib.Data.Finset.Card

namespace PackageAudit

namespace CompilerOptions

variable {t : FileTree} {root path : String} {c c' c'' : Chain} {pending more : List String}

/-! ## 1. The run -/

/-- The files that the texts among some values lead to. -/
def filesOf (t : FileTree) (root path : String) (bases : List Json) : List String :=
  bases.filterMap fun base => base.string?.bind (extendedFile? t root (Path.parent path))

/-- The warnings about texts that lead to no file. -/
def warningsOf (t : FileTree) (root path : String) (bases : List Json) : List Warning :=
  (bases.filterMap Json.string?).filterMap fun base =>
    if (extendedFile? t root (Path.parent path) base).isNone then
      some (invalid ("Cannot follow extends " ++ Text.quoted base) path)
    else none

/-- A file has been seen. -/
def Chain.see (c : Chain) (t : FileTree) (path : String) : Chain :=
  { c with seen := t.realPath path :: c.seen }

/-- A configuration has been read, and what it extends is warned about. -/
def Chain.take (c : Chain) (t : FileTree) (root path : String) (data : Table Json) : Chain :=
  { c with
    configs := c.configs ++ [(path, data)]
    warnings := c.warnings ++ warningsOf t root path (basesOf data) }

/-- Reading files until none is pending, from one state to another. A file that
cannot be read, or holds no object, is warned about. A configuration puts the
files that it extends before those pending, the last one first; values that
are no texts are passed over. -/
inductive Follows (t : FileTree) (root : String) : Chain → List String → Chain → Prop where
  | done (c : Chain) : Follows t root c [] c
  | again {c c' : Chain} {path : String} {pending : List String}
      (hseen : t.realPath path ∈ c.seen) (hrest : Follows t root c pending c') :
      Follows t root c (path :: pending) c'
  | unparsed {c c' : Chain} {path : String} {pending : List String} {e : FileTree.DocumentError}
      (hnew : t.realPath path ∉ c.seen) (hread : t.readRelaxed path = .error e)
      (hrest : Follows t root ((c.see t path).warn
        ("Could not parse " ++ Path.base path ++ ": " ++ e.message) path) pending c') :
      Follows t root c (path :: pending) c'
  | noObject {c c' : Chain} {path : String} {pending : List String} {v : Json}
      (hnew : t.realPath path ∉ c.seen) (hread : t.readRelaxed path = .ok v)
      (hother : ∀ data, v ≠ .obj data)
      (hrest : Follows t root ((c.see t path).warn (Path.base path ++ " is not an object") path)
        pending c') :
      Follows t root c (path :: pending) c'
  | taken {c c' : Chain} {path : String} {pending : List String} {data : Table Json}
      (hnew : t.realPath path ∉ c.seen) (hread : t.readRelaxed path = .ok (.obj data))
      (hrest : Follows t root ((c.see t path).take t root path data)
        ((filesOf t root path (basesOf data)).reverse ++ pending) c') :
      Follows t root c (path :: pending) c'

namespace Follows

/-- What is pending behind is read afterwards. -/
theorem append (h : Follows t root c pending c') (hmore : Follows t root c' more c'') :
    Follows t root c (pending ++ more) c'' := by
  induction h with
  | done c => exact hmore
  | again hseen hrest ih => exact .again hseen (ih hmore)
  | unparsed hnew hread hrest ih => exact .unparsed hnew hread (ih hmore)
  | noObject hnew hread hother hrest ih => exact .noObject hnew hread hother (ih hmore)
  | taken hnew hread hrest ih =>
    refine .taken hnew hread ?_
    have hboth := ih hmore
    rwa [List.append_assoc] at hboth

/-- The run has one end. -/
theorem unique (h : Follows t root c pending c') (h' : Follows t root c pending c'') :
    c' = c'' := by
  induction h with
  | done c =>
    cases h'
    rfl
  | again hseen hrest ih =>
    cases h' with
    | again _ hrest' => exact ih hrest'
    | unparsed hnew' => exact absurd hseen hnew'
    | noObject hnew' => exact absurd hseen hnew'
    | taken hnew' => exact absurd hseen hnew'
  | unparsed hnew hread hrest ih =>
    cases h' with
    | again hseen' => exact absurd hseen' hnew
    | unparsed _ hread' hrest' =>
      cases hread.symm.trans hread'
      exact ih hrest'
    | noObject _ hread' => cases hread.symm.trans hread'
    | taken _ hread' => cases hread.symm.trans hread'
  | noObject hnew hread hother hrest ih =>
    cases h' with
    | again hseen' => exact absurd hseen' hnew
    | unparsed _ hread' => cases hread.symm.trans hread'
    | noObject _ _ _ hrest' => exact ih hrest'
    | taken _ hread' => exact absurd (Except.ok.inj (hread.symm.trans hread')) (hother _)
  | taken hnew hread hrest ih =>
    cases h' with
    | again hseen' => exact absurd hseen' hnew
    | unparsed _ hread' => cases hread.symm.trans hread'
    | noObject _ hread' hother' =>
      exact absurd (Except.ok.inj (hread'.symm.trans hread)) (hother' _)
    | taken _ hread' hrest' =>
      cases hread.symm.trans hread'
      exact ih hrest'

/-- What has been seen stays seen. -/
theorem seen_subset (h : Follows t root c pending c') : c.seen ⊆ c'.seen := by
  induction h with
  | done c => exact List.Subset.refl _
  | again _ _ ih => exact ih
  | unparsed _ _ _ ih | noObject _ _ _ _ ih | taken _ _ _ ih =>
    exact List.Subset.trans (List.subset_cons_self _ _) ih

/-- What has been read stays read. -/
theorem configs_subset (h : Follows t root c pending c') : c.configs ⊆ c'.configs := by
  induction h with
  | done c => exact List.Subset.refl _
  | again _ _ ih | unparsed _ _ _ ih | noObject _ _ _ _ ih => exact ih
  | taken _ _ _ ih => exact List.Subset.trans (List.subset_append_left _ _) ih

end Follows

/-! ## 2. How it ends -/

/-- What is extended is told by texts alone, in each configuration read. -/
def Chain.ExtendsTexts (c : Chain) : Prop :=
  ∀ file ∈ c.configs, ∀ base ∈ basesOf file.2, ∃ text, base = .str text

/-- A result fits a run. An error is one about a value that the run passes over. -/
def Fits (c c' : Chain) : Except ConfigError Chain → Prop
  | .ok result => result = c' ∧ (c.ExtendsTexts → c'.ExtendsTexts)
  | .error _ => ¬ c'.ExtendsTexts

/-- The real paths of a tree that have not been seen. -/
def unseen (t : FileTree) (c : Chain) : Finset String :=
  ((t.root.places []).map fun p => FileTree.pathOf p.1).toFinset \ c.seen.toFinset

theorem card_unseen_le (h : c.seen ⊆ c'.seen) : (unseen t c').card ≤ (unseen t c).card := by
  refine Finset.card_le_card (Finset.sdiff_subset_sdiff (Finset.Subset.refl _) ?_)
  intro p hp
  rw [List.mem_toFinset] at hp ⊢
  exact h hp

theorem card_unseen_see (hfound : ∃ found, t.find path = .ok found)
    (hnew : t.realPath path ∉ c.seen) :
    (unseen t (c.see t path)).card < (unseen t c).card := by
  obtain ⟨found, hfind⟩ := hfound
  refine Finset.card_lt_card ?_
  rw [Finset.ssubset_iff_of_subset]
  · refine ⟨t.realPath path, ?_, by simp [unseen, Chain.see]⟩
    have hplace := Entry.mem_places [] (FileTree.at?_place_of_find hfind)
    rw [FileTree.realPath_of_find hfind] at hnew ⊢
    simpa [unseen, hnew] using ⟨found.place, ⟨_, hplace⟩, rfl⟩
  · intro p hp
    simp only [unseen, Chain.see, Finset.mem_sdiff, List.mem_toFinset, List.mem_cons,
      not_or] at hp ⊢
    exact ⟨hp.1, hp.2.2⟩

/-- What holds a document is found. -/
theorem exists_find_of_readRelaxed {v : Json} (h : t.readRelaxed path = .ok v) :
    ∃ found, t.find path = .ok found := by
  cases hfind : t.find path with
  | ok found => exact ⟨found, rfl⟩
  | error f =>
    rw [FileTree.readRelaxed, FileTree.readWith, FileTree.readText, FileTree.read, hfind] at h
    cases h

theorem card_unseen_le_size (c : Chain) : (unseen t c).card ≤ t.root.size := by
  calc (unseen t c).card ≤ ((t.root.places []).map fun p => FileTree.pathOf p.1).toFinset.card :=
        Finset.card_le_card Finset.sdiff_subset
    _ ≤ ((t.root.places []).map fun p => FileTree.pathOf p.1).length := List.toFinset_card_le _
    _ = t.root.size := by rw [List.length_map, Entry.length_places]

theorem extendedFiles_eq {bases : List Json} (h : ∀ base ∈ bases, ∃ text, base = .str text) :
    extendedFiles t root path bases =
      .ok (filesOf t root path bases, warningsOf t root path bases) := by
  induction bases with
  | nil => rfl
  | cons base bases ih =>
    obtain ⟨⟨text, rfl⟩, hbases⟩ := List.forall_mem_cons.mp h
    rw [extendedFiles, ih hbases]
    cases hfile : extendedFile? t root (Path.parent path) text <;>
      simp [filesOf, warningsOf, Json.string?, hfile, bind, Except.bind, pure, Except.pure]

theorem extendedFiles_eq_error {bases : List Json}
    (h : ¬ ∀ base ∈ bases, ∃ text, base = .str text) :
    ∃ e, extendedFiles t root path bases = .error e := by
  induction bases with
  | nil => exact absurd (by simp) h
  | cons base bases ih =>
    rw [List.forall_mem_cons, not_and_or] at h
    cases base with
    | str text =>
      obtain ⟨e, he⟩ := ih (h.resolve_left (by simp))
      exact ⟨e, by simp [extendedFiles, he, bind, Except.bind]⟩
    | _ => exact ⟨_, rfl⟩

theorem Fits.trans {result : Except ConfigError Chain}
    (hkeep : c.ExtendsTexts → c'.ExtendsTexts) (h : Fits c' c'' result) : Fits c c'' result := by
  cases result with
  | ok result => exact ⟨h.1, fun hc => h.2 (hkeep hc)⟩
  | error e => exact h

theorem Follows.extendsTexts (h : Follows t root c pending c') (htexts : c'.ExtendsTexts) :
    c.ExtendsTexts :=
  fun file hfile => htexts file (h.configs_subset hfile)

/-- Files read one after the other, when each by itself is read as it should. -/
theorem fits_foldlM {f : Chain → String → Except ConfigError Chain} {bound : Nat}
    (hf : ∀ c path, (unseen t c).card < bound →
      ∃ c', Follows t root c [path] c' ∧ Fits c c' (f c path))
    (files : List String) (hbound : (unseen t c).card < bound) :
    ∃ c', Follows t root c files c' ∧ Fits c c' (files.foldlM f c) := by
  induction files generalizing c with
  | nil => exact ⟨c, .done c, rfl, id⟩
  | cons path files ih =>
    obtain ⟨c₁, hfirst, hfits⟩ := hf c path hbound
    have hless := card_unseen_le (t := t) hfirst.seen_subset
    obtain ⟨c₂, hrest, hrestFits⟩ := ih (lt_of_le_of_lt hless hbound)
    refine ⟨c₂, hfirst.append hrest, ?_⟩
    rw [List.foldlM_cons]
    cases hresult : f c path with
    | error e =>
      rw [hresult] at hfits
      exact fun htexts => hfits (hrest.extendsTexts htexts)
    | ok result =>
      rw [hresult] at hfits
      obtain ⟨rfl, hkeep⟩ := hfits
      exact hrestFits.trans hkeep

/-- What a file that has not been seen adds. -/
theorem readChain_new (root : String) (fuel : Nat) (hnew : t.realPath path ∉ c.seen) :
    readChain t root (fuel + 1) c path = match t.readRelaxed path with
      | .ok (.obj data) => do
        let (files, warnings) ← extendedFiles t root path (basesOf data)
        files.reverse.foldlM (readChain t root fuel) { c.see t path with
          configs := c.configs ++ [(path, data)], warnings := c.warnings ++ warnings }
      | .ok _ => .ok ((c.see t path).warn (Path.base path ++ " is not an object") path)
      | .error e => .ok ((c.see t path).warn
          ("Could not parse " ++ Path.base path ++ ": " ++ e.message) path) := by
  rw [readChain]
  simp only [List.contains_eq_mem, hnew, decide_false, Bool.false_eq_true, if_false, readConfig]
  cases t.readRelaxed path with
  | error e => rfl
  | ok v => cases v <;> rfl

/-- A configuration whose files are read as they should is itself read so: what
is no text in it stops it before the files are read. -/
theorem fits_taken {fuel : Nat} {data : Table Json} (hnew : t.realPath path ∉ c.seen)
    (hread : t.readRelaxed path = .ok (.obj data))
    (hfollows : Follows t root ((c.see t path).take t root path data)
      (filesOf t root path (basesOf data)).reverse c')
    (hfits : Fits ((c.see t path).take t root path data) c'
      ((filesOf t root path (basesOf data)).reverse.foldlM (readChain t root fuel)
        ((c.see t path).take t root path data))) :
    Fits c c' (readChain t root (fuel + 1) c path) := by
  rw [readChain_new root fuel hnew, hread]
  dsimp only
  by_cases htexts : ∀ base ∈ basesOf data, ∃ text, base = .str text
  · rw [extendedFiles_eq htexts]
    refine hfits.trans fun hc file hfile => ?_
    rcases List.mem_append.mp hfile with hfile | hfile
    · exact hc file hfile
    · rwa [List.mem_singleton.mp hfile]
  · obtain ⟨e, he⟩ := extendedFiles_eq_error htexts
    rw [he]
    have hmem : (path, data) ∈ c'.configs := hfollows.configs_subset (by simp [Chain.take])
    exact fun hall => htexts (hall (path, data) hmem)

/-- **The run of the extended configurations.** With more fuel than there are
real paths left, reading a configuration comes to the end of the run, or to an
error about a value in it that is no text. -/
theorem fits_readChain {fuel : Nat} (hfuel : (unseen t c).card < fuel) :
    ∃ c', Follows t root c [path] c' ∧ Fits c c' (readChain t root fuel c path) := by
  induction fuel generalizing c path with
  | zero => exact absurd hfuel (Nat.not_lt_zero _)
  | succ fuel ih =>
    by_cases hseen : t.realPath path ∈ c.seen
    · refine ⟨c, .again hseen (.done c), ?_⟩
      rw [readChain]
      simp [hseen, Fits, pure, Except.pure]
    cases hread : t.readRelaxed path with
    | error e =>
      refine ⟨_, .unparsed hseen hread (.done _), ?_⟩
      rw [readChain_new root fuel hseen, hread]
      exact ⟨rfl, id⟩
    | ok v =>
      by_cases hdata : ∃ data, v = .obj data
      · obtain ⟨data, rfl⟩ := hdata
        have hless := card_unseen_see (exists_find_of_readRelaxed hread) hseen
        have hbound : (unseen t ((c.see t path).take t root path data)).card < fuel :=
          lt_of_lt_of_le hless (Nat.lt_succ_iff.mp hfuel)
        obtain ⟨c', hfollows, hfits⟩ :=
          fits_foldlM (fun c path => ih) (filesOf t root path (basesOf data)).reverse hbound
        exact ⟨c', .taken hseen hread (by rwa [List.append_nil]),
          fits_taken hseen hread hfollows hfits⟩
      · have hother : ∀ data, v ≠ .obj data := fun data h => hdata ⟨data, h⟩
        refine ⟨_, .noObject hseen hread hother (.done _), ?_⟩
        rw [readChain_new root fuel hseen, hread]
        cases v with
        | obj data => exact absurd rfl (hother data)
        | _ => exact ⟨rfl, id⟩

/-! ## 3. Loading -/

/-- A configuration is always read to the end of its run. -/
theorem exists_follows (t : FileTree) (root path : String) :
    ∃ chain, Follows t root {} [path] chain ∧
      Fits {} chain (readChain t root (t.root.size + 2) {} path) := by
  have hsize := card_unseen_le_size (t := t) {}
  exact fits_readChain (by omega)

/-- Reading a configuration fits its run. -/
theorem Follows.fits {chain : Chain} (h : Follows t root {} [path] chain) :
    Fits {} chain (readChain t root (t.root.size + 2) {} path) := by
  obtain ⟨chain', h', hfits⟩ := exists_follows t root path
  obtain rfl := h.unique h'
  exact hfits

/-- **Loading a configuration** succeeds if what is extended is told by texts in
each configuration that is read; the settings are those of the run. -/
theorem load_eq {chain : Chain} (h : Follows t root {} [path] chain) (htexts : chain.ExtendsTexts) :
    load t root path = .ok ((settingsOf chain.configs).baseUrl,
      mappingsOf (settingsOf chain.configs), chain.warnings) := by
  have hfits := h.fits
  cases hresult : readChain t root (t.root.size + 2) {} path with
  | ok result =>
    rw [hresult] at hfits
    obtain ⟨rfl, -⟩ := hfits
    simp [load, hresult, bind, Except.bind, pure, Except.pure]
  | error e =>
    rw [hresult] at hfits
    exact absurd htexts hfits

theorem load_eq_error {chain : Chain} (h : Follows t root {} [path] chain)
    (hother : ¬ chain.ExtendsTexts) : ∃ e, load t root path = .error e := by
  have hfits := h.fits
  cases hresult : readChain t root (t.root.size + 2) {} path with
  | ok result =>
    rw [hresult] at hfits
    exact absurd (hfits.2 (by simp [Chain.ExtendsTexts])) hother
  | error e => exact ⟨e, by simp [load, hresult, bind, Except.bind]⟩

end CompilerOptions

end PackageAudit
