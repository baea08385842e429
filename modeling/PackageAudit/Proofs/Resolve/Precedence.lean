/-
PackageAudit.Proofs.Resolve.Precedence — which configuration has the last word.

What a configuration sets goes over what it extends, and of the configurations
that it extends the later goes over the earlier; said by recursion, this is
`effective?`. The run reads each file once, and a file that several
configurations extend is left out where it comes again. Nothing is lost by
that (`Settled`): unless the file is still being read, which would be a circle,
all that it gives has been given before, and what is given first in the run has
the last word. The file may come again under another path; it then extends the
same files, and sets the same fields (`within_of_sameFile`).
-/
import PackageAudit.Proofs.FileTree.Spelling
import PackageAudit.Proofs.FileTree.Texts
import PackageAudit.Proofs.Resolve.Extends
import PackageAudit.Proofs.Resolve.Rooted
import Mathlib.Logic.Relation

open Relation (ReflTransGen TransGen)

namespace PackageAudit

namespace CompilerOptions

open PackageAudit.Path (isAbsolute)

/-! ## 1. Settings over settings -/

namespace Settings

variable {s u v : Settings}

/-- What is set above, and else what is set below. -/
def above (upper below : Settings) : Settings :=
  { baseUrl := upper.baseUrl <|> below.baseUrl, paths := upper.paths <|> below.paths }

@[simp] theorem above_empty (s : Settings) : s.above {} = s := by
  simp [above]

@[simp] theorem empty_above (s : Settings) : ({} : Settings).above s = s := by
  simp [above]

theorem above_assoc (s u v : Settings) : (s.above u).above v = s.above (u.above v) := by
  simp [above, Option.or_assoc]

/-- All that is set here is set there. -/
structure Within (s u : Settings) : Prop where
  baseUrl : s.baseUrl.isSome → u.baseUrl.isSome
  paths : s.paths.isSome → u.paths.isSome

theorem Within.empty (u : Settings) : ({} : Settings).Within u :=
  ⟨nofun, nofun⟩

theorem Within.above_left (h : s.Within u) (v : Settings) : s.Within (u.above v) := by
  constructor
  · intro hs
    simp [above, h.baseUrl hs]
  · intro hs
    simp [above, h.paths hs]

theorem Within.above_right (h : s.Within v) (u : Settings) : s.Within (u.above v) := by
  constructor
  · intro hs
    simp [above, h.baseUrl hs]
  · intro hs
    simp [above, h.paths hs]

theorem Within.above (hs : s.Within v) (hu : u.Within v) : (s.above u).Within v := by
  constructor
  · intro h
    have hor : s.baseUrl.isSome ∨ u.baseUrl.isSome := by simpa [Settings.above] using h
    exact hor.elim hs.baseUrl hu.baseUrl
  · intro h
    have hor : s.paths.isSome ∨ u.paths.isSome := by simpa [Settings.above] using h
    exact hor.elim hs.paths hu.paths

/-- What sets nothing more makes no difference below. -/
theorem Within.above_eq (h : s.Within u) : u.above s = u := by
  obtain ⟨baseUrl, paths⟩ := u
  obtain ⟨base, mappings⟩ := s
  have hbase := h.baseUrl
  have hpaths := h.paths
  cases base <;> cases baseUrl <;> cases mappings <;> cases paths <;> simp_all [Settings.above]

end Settings

/-- The settings that a configuration has itself. Its base is seen from its
folder, and its path mappings are kept with its folder. -/
def ownSettings (path : String) (data : Table Json) : Settings :=
  match data.get? "compilerOptions" with
  | some (.obj options) =>
    let folder := Path.parent path
    { baseUrl := match Table.get? options "baseUrl" with
        | some (.str base) => some (Path.normalize (Path.join folder base))
        | _ => none
      paths := match Table.get? options "paths" with
        | some (.obj m) => some (m, folder)
        | _ => none }
  | _ => {}

theorem override_eq (s : Settings) (path : String) (data : Table Json) :
    s.override path data = (ownSettings path data).above s := by
  unfold Settings.override ownSettings Settings.above
  split
  · simp only
    congr 1
    · split <;> simp [*]
    · split <;> simp [*]
  · simp

/-- The fields that a configuration sets do not depend on where it is. -/
theorem within_ownSettings (path other : String) (data : Table Json) :
    (ownSettings path data).Within (ownSettings other data) := by
  unfold ownSettings
  split
  · constructor
    · dsimp only
      split <;> simp
    · dsimp only
      split <;> simp
  · exact .empty _

theorem settingsOf_append (configs more : List (String × Table Json)) :
    settingsOf (configs ++ more) = (settingsOf configs).above (settingsOf more) := by
  induction configs with
  | nil => exact (Settings.empty_above _).symm
  | cons config configs ih =>
    have hcons : ∀ rest, settingsOf (config :: rest) =
        (ownSettings config.1 config.2).above (settingsOf rest) :=
      fun rest => override_eq (settingsOf rest) config.1 config.2
    rw [List.cons_append, hcons, hcons, ih, Settings.above_assoc]

/-! ## 2. Settings by recursion -/

/-- The settings of the bases of a configuration, each over those before it. -/
def stack (bases : List Settings) : Settings :=
  bases.foldl (fun below s => s.above below) {}

/-- The settings of a configuration file, extended ones included, as long as
these are at most so deep: those of the configurations that it extends from
left to right, each over the one before, and over all of them its own. A file
that cannot be read has no settings, nor has a text that leads to no file. -/
def effective? (t : FileTree) (root : String) : Nat → String → Option Settings
  | 0, _ => none
  | depth + 1, path =>
    match t.readRelaxed path with
    | .ok (.obj data) =>
      ((filesOf t root path (basesOf data)).mapM (effective? t root depth)).map fun bases =>
        (ownSettings path data).above (stack bases)
    | _ => some {}

/-- A configuration extends a file. -/
def Extends (t : FileTree) (root path file : String) : Prop :=
  ∃ data, t.readRelaxed path = .ok (.obj data) ∧ file ∈ filesOf t root path (basesOf data)

/-- No file extends itself, directly or through others, of those that a
configuration extends. -/
def Acyclic (t : FileTree) (root path : String) : Prop :=
  ∀ p q, ReflTransGen (Extends t root) path p → TransGen (Extends t root) p q →
    t.realPath p ≠ t.realPath q

variable {t : FileTree} {root path other : String} {depth : Nat} {s u : Settings}
  {data : Table Json} {c c' : Chain}

theorem Acyclic.of_extends (h : Acyclic t root path) {file : String}
    (hfile : Extends t root path file) : Acyclic t root file :=
  fun p q hp hq => h p q (.head hfile hp) hq

theorem isFile_of_mem_filesOf {bases : List Json} {file : String}
    (h : file ∈ filesOf t root path bases) : t.isFile file = true := by
  obtain ⟨base, -, hbase⟩ := List.mem_filterMap.mp h
  obtain ⟨text, -, htext⟩ := Option.bind_eq_some_iff.mp hbase
  exact List.find?_some htext

theorem isAbsolute_of_mem_filesOf (hroot : isAbsolute root = true)
    (hpath : isAbsolute path = true) {bases : List Json} {file : String}
    (h : file ∈ filesOf t root path bases) : isAbsolute file = true := by
  obtain ⟨base, -, hbase⟩ := List.mem_filterMap.mp h
  obtain ⟨text, -, htext⟩ := Option.bind_eq_some_iff.mp hbase
  exact isAbsolute_extendedFile? hroot (Path.isAbsolute_parent hpath) htext

theorem mapM_eq_some_iff_forall₂ {α β : Type} {f : α → Option β} {xs : List α} {ys : List β} :
    xs.mapM f = some ys ↔ List.Forall₂ (fun x y => f x = some y) xs ys := by
  rw [mapM_eq_some_iff]
  induction xs generalizing ys with
  | nil => cases ys <;> simp
  | cons x xs ih => cases ys <;> simp [ih]

/-- What a configuration has comes from itself and the files that it extends. -/
theorem effective?_config (hread : t.readRelaxed path = .ok (.obj data)) :
    effective? t root (depth + 1) path = some s ↔
      ∃ bases, List.Forall₂ (fun file b => effective? t root depth file = some b)
          (filesOf t root path (basesOf data)) bases ∧
        s = (ownSettings path data).above (stack bases) := by
  rw [effective?, hread]
  simp only [Option.map_eq_some_iff, mapM_eq_some_iff_forall₂, eq_comm (a := s)]

theorem effective?_other (hread : ∀ data, t.readRelaxed path ≠ .ok (.obj data)) :
    effective? t root (depth + 1) path = some {} := by
  rw [effective?]
  split
  · rename_i data h
    exact absurd h (hread data)
  · rfl

/-- More depth changes nothing. -/
theorem effective?_mono {deeper : Nat} (hdeeper : depth ≤ deeper)
    (h : effective? t root depth path = some s) : effective? t root deeper path = some s := by
  induction depth generalizing path s deeper with
  | zero => cases h
  | succ depth ih =>
    obtain ⟨deeper, rfl⟩ := Nat.exists_eq_add_of_lt (Nat.lt_of_succ_le hdeeper)
    by_cases hconfig : ∃ data, t.readRelaxed path = .ok (.obj data)
    · obtain ⟨data, hread⟩ := hconfig
      obtain ⟨bases, hbases, rfl⟩ := (effective?_config hread).mp h
      exact (effective?_config hread).mpr
        ⟨bases, hbases.imp fun file b => ih (by omega), rfl⟩
    · have hother := not_exists.mp hconfig
      rw [effective?_other hother] at h ⊢
      exact h

/-- A circle would be needed to go deeper than the files go. -/
theorem exists_effective? {active : List String} (hacyclic : Acyclic t root path)
    (hactive : ∀ p, ReflTransGen (Extends t root) path p → t.realPath p ∉ active)
    (hdepth : (unseen t { seen := active }).card < depth) :
    ∃ s, effective? t root depth path = some s := by
  induction depth generalizing path active with
  | zero => exact absurd hdepth (Nat.not_lt_zero _)
  | succ depth ih =>
    by_cases hconfig : ∃ data, t.readRelaxed path = .ok (.obj data)
    · obtain ⟨data, hread⟩ := hconfig
      have hless := card_unseen_see (c := { seen := active }) (exists_find_of_readRelaxed hread)
        (hactive path .refl)
      have hfiles : ∀ file ∈ filesOf t root path (basesOf data),
          ∃ b, effective? t root depth file = some b := by
        intro file hfile
        have hextends : Extends t root path file := ⟨data, hread, hfile⟩
        have hnext : ∀ p, ReflTransGen (Extends t root) file p →
            t.realPath p ∉ t.realPath path :: active := by
          intro p hp
          rw [List.mem_cons, not_or]
          exact ⟨(hacyclic path p .refl (.head' hextends hp)).symm, hactive p (.head hextends hp)⟩
        exact ih (hacyclic.of_extends hextends) hnext
          (lt_of_lt_of_le hless (Nat.lt_succ_iff.mp hdepth))
      obtain ⟨bases, hbases⟩ := exists_mapM_eq_some hfiles
      exact ⟨_, (effective?_config hread).mpr ⟨bases, mapM_eq_some_iff_forall₂.mp hbases, rfl⟩⟩
    · exact ⟨{}, effective?_other (not_exists.mp hconfig)⟩

/-! ## 3. One file under several paths -/

/-- Of candidates that lead to the same, the same are files. -/
theorem find?_isFile_rel {paths others : List String}
    (h : List.Forall₂ (fun p q => t.find p = t.find q) paths others) :
    Option.Rel t.SameFile (paths.find? t.isFile) (others.find? t.isFile) := by
  induction h with
  | nil => exact .none
  | @cons p q paths others hfind hrest ih =>
    have hsame : t.isFile p = t.isFile q := by rw [FileTree.isFile, FileTree.isFile, hfind]
    by_cases hp : t.isFile p = true
    · rw [List.find?_cons_of_pos hp, List.find?_cons_of_pos (hsame ▸ hp)]
      exact .some (.of_find_eq hp hfind)
    · rw [List.find?_cons_of_neg hp, List.find?_cons_of_neg (hsame ▸ hp)]
      exact ih

/-- A text leads from a file to one file, however the path to it is spelled. -/
theorem extendedFile?_rel (ht : t.Plain) (h : t.SameFile path other)
    (hpath : isAbsolute path = true) (hother : isAbsolute other = true) (root base : String) :
    Option.Rel t.SameFile (extendedFile? t root (Path.parent path) base)
      (extendedFile? t root (Path.parent other) base) := by
  unfold extendedFile?
  refine find?_isFile_rel ?_
  by_cases hbegins : Text.begins "." base = true
  · have hbase : isAbsolute base = false := by
      obtain ⟨rest, hrest⟩ := List.isPrefixOf_iff_prefix.mp hbegins
      rw [Bool.eq_false_iff]
      intro habsolute
      obtain ⟨cs, hcs⟩ := Path.isAbsolute_iff.mp habsolute
      rw [hcs] at hrest
      simp at hrest
    have halike := h.alike_join_parent ht hpath hother hbase
    simp only [hbegins, if_true]
    exact .cons (halike.find_eq ht) (.cons ((halike.append ".json").find_eq ht)
      (.cons ((halike.join (by decide)).find_eq ht) .nil))
  · simp only [if_neg hbegins]
    exact List.forall₂_same.mpr fun _ _ => rfl

theorem forall₂_filesOf (ht : t.Plain) (h : t.SameFile path other)
    (hpath : isAbsolute path = true) (hother : isAbsolute other = true) (root : String)
    (bases : List Json) :
    List.Forall₂ t.SameFile (filesOf t root path bases) (filesOf t root other bases) := by
  induction bases with
  | nil => exact .nil
  | cons base bases ih =>
    cases hbase : base.string? with
    | none => simpa [filesOf, hbase] using ih
    | some text =>
      have hrel := extendedFile?_rel ht h hpath hother root text
      cases hp : extendedFile? t root (Path.parent path) text with
      | none =>
        cases hq : extendedFile? t root (Path.parent other) text with
        | none => simpa [filesOf, hbase, hp, hq] using ih
        | some q =>
          rw [hp, hq] at hrel
          cases hrel
      | some p =>
        cases hq : extendedFile? t root (Path.parent other) text with
        | none =>
          rw [hp, hq] at hrel
          cases hrel
        | some q =>
          rw [hp, hq] at hrel
          cases hrel with
          | some hsame =>
            simpa [filesOf, hbase, hp, hq] using And.intro hsame ih

theorem within_foldl {bases others : List Settings} (h : List.Forall₂ Settings.Within bases others)
    (hs : s.Within u) : (bases.foldl (fun below s => s.above below) s).Within
      (others.foldl (fun below s => s.above below) u) := by
  induction h generalizing s u with
  | nil => exact hs
  | cons hfirst hrest ih => exact ih ((hfirst.above_left u).above (hs.above_right _))

/-- What two lists are made of is related as the lists are. -/
theorem forall₂_of_forall₂ {α β γ δ : Type} {R : α → β → Prop} {P : α → γ → Prop}
    {Q : β → δ → Prop} {S : γ → δ → Prop} (hstep : ∀ a b c d, R a b → P a c → Q b d → S c d)
    {as : List α} {bs : List β} {cs : List γ} {ds : List δ} (h : List.Forall₂ R as bs)
    (hcs : List.Forall₂ P as cs) (hds : List.Forall₂ Q bs ds) : List.Forall₂ S cs ds := by
  induction h generalizing cs ds with
  | nil =>
    cases hcs
    cases hds
    exact .nil
  | cons hfirst _ ih =>
    cases hcs with
    | cons hc hcs =>
      cases hds with
      | cons hd hds => exact .cons (hstep _ _ _ _ hfirst hc hd) (ih hcs hds)

/-- **One file** sets the same fields under each of its paths. -/
theorem within_of_sameFile (ht : t.Plain) (hroot : isAbsolute root = true)
    (h : t.SameFile path other) (hpath : isAbsolute path = true)
    (hother : isAbsolute other = true) {deep : Nat} (hs : effective? t root depth path = some s)
    (hu : effective? t root deep other = some u) : s.Within u := by
  induction depth generalizing path other s u deep with
  | zero => cases hs
  | succ depth ih =>
    cases deep with
    | zero => cases hu
    | succ deep =>
      by_cases hconfig : ∃ data, t.readRelaxed path = .ok (.obj data)
      · obtain ⟨data, hread⟩ := hconfig
        obtain ⟨bases, hbases, rfl⟩ := (effective?_config hread).mp hs
        obtain ⟨others, hothers, rfl⟩ := (effective?_config (h.readRelaxed_eq ▸ hread)).mp hu
        refine ((within_ownSettings path other data).above_left _).above
          (Settings.Within.above_right ?_ _)
        -- The files extended are the same, and what they set is so by induction.
        refine within_foldl (forall₂_of_forall₂ ?_
          (forall₂_filesOf ht h hpath hother root (basesOf data))
          ((List.forall₂_and_left _ _).mpr
            ⟨fun _ => isAbsolute_of_mem_filesOf hroot hpath, hbases⟩)
          ((List.forall₂_and_left _ _).mpr
            ⟨fun _ => isAbsolute_of_mem_filesOf hroot hother, hothers⟩)) (.empty _)
        rintro p q b o hsame ⟨hp, hb⟩ ⟨hq, ho⟩
        exact ih hsame hp hq hb ho
      · rw [effective?_other (not_exists.mp hconfig), Option.some.injEq] at hs
        rw [← hs]
        exact .empty u

/-! ## 4. The run -/

/-- Of the files that have been seen, those that are not still being read have
nothing to add to the settings. -/
def Settled (t : FileTree) (root : String) (c : Chain) (active : List String) : Prop :=
  ∀ p, isAbsolute p = true → t.isFile p = true → t.realPath p ∈ c.seen →
    t.realPath p ∈ active ∨
      ∀ depth s, effective? t root depth p = some s → s.Within (settingsOf c.configs)

/-- Reading a file puts its settings under those that there are. -/
def Adds (t : FileTree) (root : String) (active : List String) (file : String) (b : Settings) :
    Prop :=
  ∀ c, Settled t root c active → ∃ c', Follows t root c [file] c' ∧ Settled t root c' active ∧
    settingsOf c'.configs = (settingsOf c.configs).above b

variable {active : List String}

/-- What is settled stays so when a file is read next, but for that file. -/
theorem Settled.see (h : Settled t root c active) (hseen : c'.seen = t.realPath path :: c.seen)
    (hgiven : settingsOf c'.configs = (settingsOf c.configs).above u) :
    Settled t root c' (t.realPath path :: active) := by
  intro p hp hfile hmem
  rw [hseen, List.mem_cons] at hmem
  rcases hmem with hsame | hmem
  · exact Or.inl (List.mem_cons.mpr (Or.inl hsame))
  rcases h p hp hfile hmem with hactive | hwithin
  · exact Or.inl (List.mem_cons_of_mem _ hactive)
  · refine Or.inr fun depth s hs => ?_
    rw [hgiven]
    exact (hwithin depth s hs).above_left u

/-- A file has been read through: all that it gives is in the settings. -/
theorem Settled.leave (ht : t.Plain) (hroot : isAbsolute root = true)
    (hpath : isAbsolute path = true) (hfile : t.isFile path = true)
    (hs : effective? t root depth path = some s)
    (h : Settled t root c (t.realPath path :: active))
    (hgiven : settingsOf c.configs = u.above s) : Settled t root c active := by
  intro p hp hpfile hseen
  rcases h p hp hpfile hseen with hmem | hwithin
  · rcases List.mem_cons.mp hmem with hsame | hactive
    · have hone : t.SameFile p path := .of_realPath ht hpfile hfile hsame
      refine Or.inr fun deep v hv => ?_
      rw [hgiven]
      exact (within_of_sameFile ht hroot hone hp hpath hv hs).above_right u
    · exact Or.inl hactive
  · exact Or.inr hwithin

/-- Files that are read one after the other add their settings one below the
other. -/
theorem exists_follows_files {files : List String} {bases : List Settings}
    (hfiles : List.Forall₂ (Adds t root active) files bases) (hc : Settled t root c active) :
    ∃ c', Follows t root c files c' ∧ Settled t root c' active ∧
      settingsOf c'.configs = (settingsOf c.configs).above (bases.foldr Settings.above {}) := by
  induction hfiles generalizing c with
  | nil => exact ⟨c, .done c, hc, (Settings.above_empty _).symm⟩
  | @cons file b files bases hfile hrest ih =>
    obtain ⟨c₁, hfirst, hsettled, hsettings⟩ := hfile c hc
    obtain ⟨c₂, hfollows, hsettled₂, hsettings₂⟩ := ih hsettled
    refine ⟨c₂, hfirst.append hfollows, hsettled₂, ?_⟩
    rw [hsettings₂, hsettings, Settings.above_assoc, List.foldr_cons]

/-- A configuration that is read for the first time adds its own settings, and
under them those of its bases, the last one first. -/
theorem exists_follows_config (hnew : t.realPath path ∉ c.seen)
    (hread : t.readRelaxed path = .ok (.obj data)) {bases : List Settings}
    (hfiles : List.Forall₂ (Adds t root (t.realPath path :: active))
      (filesOf t root path (basesOf data)) bases) (hc : Settled t root c active) :
    ∃ c', Follows t root c [path] c' ∧ Settled t root c' (t.realPath path :: active) ∧
      settingsOf c'.configs =
        (settingsOf c.configs).above ((ownSettings path data).above (stack bases)) := by
  have hown : settingsOf ((c.see t path).take t root path data).configs =
      (settingsOf c.configs).above (ownSettings path data) := by
    show settingsOf (c.configs ++ [(path, data)]) = _
    rw [settingsOf_append]
    exact congrArg _ ((override_eq {} path data).trans (Settings.above_empty _))
  have hstart : Settled t root ((c.see t path).take t root path data) (t.realPath path :: active) :=
    hc.see rfl hown
  obtain ⟨c', hfollows, hsettled, hsettings⟩ :=
    exists_follows_files (List.rel_reverse hfiles) hstart
  refine ⟨c', .taken hnew hread (by rwa [List.append_nil]), hsettled, ?_⟩
  rw [hsettings, hown, Settings.above_assoc, List.foldr_reverse]
  rfl

/-- What is no configuration adds nothing. -/
theorem exists_follows_other (root : String) (hnew : t.realPath path ∉ c.seen)
    (hread : ∀ data, t.readRelaxed path ≠ .ok (.obj data)) :
    ∃ c', Follows t root c [path] c' ∧ c'.seen = t.realPath path :: c.seen ∧
      c'.configs = c.configs := by
  cases hresult : t.readRelaxed path with
  | error e => exact ⟨_, .unparsed hnew hresult (.done _), rfl, rfl⟩
  | ok v =>
    have hother : ∀ data, v ≠ .obj data := by
      rintro data rfl
      exact hread data hresult
    exact ⟨_, .noObject hnew hresult hother (.done _), rfl, rfl⟩

/-- **The run of one file.** A file that leads back neither to itself nor to one
that is still being read adds the settings that it has by recursion. If it has
been seen, these are there already. -/
theorem adds_effective (ht : t.Plain) (hroot : isAbsolute root = true)
    (hpath : isAbsolute path = true) (hfile : t.isFile path = true)
    (hacyclic : Acyclic t root path)
    (hactive : ∀ p, ReflTransGen (Extends t root) path p → t.realPath p ∉ active)
    (hs : effective? t root depth path = some s) : Adds t root active path s := by
  induction depth generalizing path s active with
  | zero => cases hs
  | succ depth ih =>
    intro c hc
    by_cases hseen : t.realPath path ∈ c.seen
    · have hwithin := (hc path hpath hfile hseen).resolve_left (hactive path .refl)
      exact ⟨c, .again hseen (.done c), hc, (hwithin _ _ hs).above_eq.symm⟩
    by_cases hconfig : ∃ data, t.readRelaxed path = .ok (.obj data)
    · obtain ⟨data, hread⟩ := hconfig
      obtain ⟨bases, hbases, rfl⟩ := (effective?_config hread).mp hs
      have hfiles : List.Forall₂ (Adds t root (t.realPath path :: active))
          (filesOf t root path (basesOf data)) bases := by
        refine ((List.forall₂_and_left _ _).mpr ⟨fun _ => id, hbases⟩).imp ?_
        rintro file b ⟨hmem, hb⟩
        have hextends : Extends t root path file := ⟨data, hread, hmem⟩
        refine ih (isAbsolute_of_mem_filesOf hroot hpath hmem) (isFile_of_mem_filesOf hmem)
          (hacyclic.of_extends hextends) ?_ hb
        intro p hp
        rw [List.mem_cons, not_or]
        exact ⟨(hacyclic path p .refl (.head' hextends hp)).symm, hactive p (.head hextends hp)⟩
      obtain ⟨c', hfollows, hsettled, hgiven⟩ := exists_follows_config hseen hread hfiles hc
      exact ⟨c', hfollows, hsettled.leave ht hroot hpath hfile hs hgiven, hgiven⟩
    · have hother := not_exists.mp hconfig
      obtain ⟨c', hfollows, hseen', hconfigs⟩ := exists_follows_other root hseen hother
      rw [effective?_other hother, Option.some.injEq] at hs
      subst hs
      have hgiven : settingsOf c'.configs = (settingsOf c.configs).above {} := by
        rw [hconfigs, Settings.above_empty]
      have hblank : effective? t root 1 path = some {} := effective?_other hother
      exact ⟨c', hfollows, (hc.see hseen' hgiven).leave ht hroot hpath hfile hblank hgiven, hgiven⟩

/-! ## 5. Loading -/

/-- What is read on the way is what is extended. -/
theorem Follows.reachable {pending : List String} (h : Follows t root c pending c') :
    ∀ config ∈ c'.configs, config ∈ c.configs ∨
      ∃ p ∈ pending, ReflTransGen (Extends t root) p config.1 ∧
        t.readRelaxed config.1 = .ok (.obj config.2) := by
  induction h with
  | done c => exact fun config => Or.inl
  | again _ _ ih | unparsed _ _ _ ih | noObject _ _ _ _ ih =>
    intro config hconfig
    refine (ih config hconfig).imp_right ?_
    rintro ⟨p, hp, hreach⟩
    exact ⟨p, List.mem_cons_of_mem _ hp, hreach⟩
  | @taken c c' path pending data _ hread _ ih =>
    intro config hconfig
    rcases ih config hconfig with hbefore | ⟨p, hp, hreach, hdata⟩
    · rcases List.mem_append.mp hbefore with hbefore | hmem
      · exact Or.inl hbefore
      · rw [List.mem_singleton.mp hmem]
        exact Or.inr ⟨path, List.mem_cons_self, .refl, hread⟩
    · rcases List.mem_append.mp hp with hp | hp
      · have hextends : Extends t root path p := ⟨data, hread, List.mem_reverse.mp hp⟩
        exact Or.inr ⟨path, List.mem_cons_self, .head hextends hreach, hdata⟩
      · exact Or.inr ⟨p, List.mem_cons_of_mem _ hp, hreach, hdata⟩

/-- The settings of a run that starts with one file. -/
theorem exists_follows_effective (ht : t.Plain) (hroot : isAbsolute root = true)
    (hpath : isAbsolute path = true) (hacyclic : Acyclic t root path)
    (hs : effective? t root depth path = some s) :
    ∃ chain, Follows t root {} [path] chain ∧ settingsOf chain.configs = s := by
  by_cases hfile : t.isFile path = true
  · have hadds : Adds t root [] path s :=
      adds_effective ht hroot hpath hfile hacyclic (by simp) hs
    obtain ⟨chain, hfollows, -, hsettings⟩ := hadds {} fun p _ _ hseen => by cases hseen
    exact ⟨chain, hfollows, hsettings.trans (Settings.empty_above s)⟩
  · have hother : ∀ data, t.readRelaxed path ≠ .ok (.obj data) := by
      intro data hread
      exact hfile (FileTree.isFile_of_readWith hread)
    obtain ⟨chain, hfollows, -, hconfigs⟩ :=
      exists_follows_other (c := {}) root (by simp) hother
    refine ⟨chain, hfollows, ?_⟩
    cases depth with
    | zero => cases hs
    | succ depth =>
      rw [hconfigs]
      exact Option.some.inj ((effective?_other hother).symm.trans hs)

/-- **Precedence.** In a tree without links, a configuration can be loaded, even
if configurations extend each other in a circle, as long as texts tell what is
extended; the files are then followed to an end. If there is no circle, the
settings are those that recursion gives: those of the extended files from left
to right, each over the one before, and over them the own ones. -/
theorem load_precedence (ht : t.Plain) (hroot : isAbsolute root = true)
    (hpath : isAbsolute path = true)
    (htexts : ∀ p data, ReflTransGen (Extends t root) path p →
      t.readRelaxed p = .ok (.obj data) → ∀ base ∈ basesOf data, ∃ text, base = .str text) :
    (∃ chain, Follows t root {} [path] chain ∧
      load t root path = .ok ((settingsOf chain.configs).baseUrl,
        mappingsOf (settingsOf chain.configs), chain.warnings)) ∧
    (Acyclic t root path → ∃ s,
      (∀ depth, t.root.size < depth → effective? t root depth path = some s) ∧
      ∃ warnings, load t root path = .ok (s.baseUrl, mappingsOf s, warnings)) := by
  obtain ⟨chain, hfollows, -⟩ := exists_follows t root path
  have hload := load_eq hfollows fun config hconfig => by
    rcases hfollows.reachable config hconfig with hnone | ⟨p, hp, hreach, hread⟩
    · cases hnone
    · rw [List.mem_singleton.mp hp] at hreach
      exact htexts config.1 config.2 hreach hread
  refine ⟨⟨chain, hfollows, hload⟩, fun hacyclic => ?_⟩
  have hsize := card_unseen_le_size (t := t) { seen := [] }
  obtain ⟨s, hs⟩ := exists_effective? hacyclic (fun _ _ => List.not_mem_nil)
    (Nat.lt_succ_of_le hsize)
  obtain ⟨chain', hfollows', rfl⟩ := exists_follows_effective ht hroot hpath hacyclic hs
  obtain rfl := hfollows.unique hfollows'
  exact ⟨_, fun depth hdepth => effective?_mono hdepth hs, _, hload⟩

/-- What comes further down has a lower rank. -/
theorem Acyclic.of_rank (rank : String → Nat)
    (h : ∀ p q, ReflTransGen (Extends t root) path p → Extends t root p q →
      rank (t.realPath q) < rank (t.realPath p)) : Acyclic t root path := by
  intro p q hp hq hsame
  have hless : rank (t.realPath q) < rank (t.realPath p) := by
    clear hsame
    induction hq with
    | single hextends => exact h _ _ hp hextends
    | @tail m q hm hextends ih => exact (h m q (hp.trans hm.to_reflTransGen) hextends).trans ih
  rw [hsame] at hless
  exact lt_irrefl _ hless

/-- A project whose configuration extends two others, which both extend a third
one. -/
def sharedBaseFiles : List (String × Entry) := [
  ("a.json", .file (Text.Utf8.encode (
    "\x7b\"extends\": \"./base\", \"compilerOptions\": " ++
    "\x7b\"baseUrl\": \"a\", \"paths\": \x7b\"@/*\": \"lib/*\"\x7d\x7d\x7d"))),
  ("b.json", .file (Text.Utf8.encode "\x7b\"extends\": \"./base\"\x7d")),
  ("base.json", .file (Text.Utf8.encode
    "\x7b\"compilerOptions\": \x7b\"baseUrl\": \"src\"\x7d\x7d")),
  ("tsconfig.json", .file (Text.Utf8.encode "\x7b\"extends\": [\"./a\", \"./b\"]\x7d"))]

def sharedBase : FileTree := ⟨.folder [("p", .folder sharedBaseFiles)]⟩

theorem plain_sharedBase : sharedBase.Plain where
  root := ⟨_, rfl⟩
  entries := by
    have hproject : (Entry.folder sharedBaseFiles).Plain :=
      .folder (by decide) (by decide) (by simp [sharedBaseFiles, Entry.Plain.file])
    exact Entry.Plain.empty.put (by decide) hproject

/-- What its configurations hold, the texts that tell what they extend, and the
files that these lead to. -/
def sharedBaseConfigs : List (String × Table Json × List String × List String) := [
  ("/p/tsconfig.json", [("extends", .arr [.str "./a", .str "./b"])], ["./a", "./b"],
    ["/p/a.json", "/p/b.json"]),
  ("/p/a.json", [("extends", .str "./base"), ("compilerOptions", .obj [("baseUrl", .str "a"),
    ("paths", .obj [("@/*", .str "lib/*")])])], ["./base"], ["/p/base.json"]),
  ("/p/b.json", [("extends", .str "./base")], ["./base"], ["/p/base.json"]),
  ("/p/base.json", [("compilerOptions", .obj [("baseUrl", .str "src")])], [], [])]

theorem read_sharedBase : ∀ c ∈ sharedBaseConfigs,
    sharedBase.readRelaxed c.1 = .ok (.obj c.2.1) ∧ basesOf c.2.1 = c.2.2.1.map .str ∧
      filesOf sharedBase "/p" c.1 (basesOf c.2.1) = c.2.2.2 := by
  simp only [sharedBaseConfigs, List.forall_mem_cons, List.not_mem_nil, false_implies,
    forall_true_iff, and_true]
  refine ⟨⟨?_, rfl, ?_⟩, ⟨?_, rfl, ?_⟩, ⟨?_, rfl, ?_⟩, ?_, rfl, ?_⟩
  · exact FileTree.readRelaxed_of_write rfl rfl ⟨by decide, by decide, by with_unfolding_all rfl⟩
  · with_unfolding_all rfl
  · exact FileTree.readRelaxed_of_write rfl String.ofList_append.symm
      ⟨by decide, by decide, by with_unfolding_all rfl⟩
  · with_unfolding_all rfl
  · exact FileTree.readRelaxed_of_write rfl rfl ⟨by decide, by decide, by with_unfolding_all rfl⟩
  · with_unfolding_all rfl
  · exact FileTree.readRelaxed_of_write rfl rfl ⟨by decide, by decide, by with_unfolding_all rfl⟩
  · with_unfolding_all rfl

/-- The files that are read are those four, and none leads back. -/
theorem reachable_sharedBase {p : String}
    (h : ReflTransGen (Extends sharedBase "/p") "/p/tsconfig.json" p) :
    ∃ c ∈ sharedBaseConfigs, c.1 = p := by
  induction h with
  | refl => exact ⟨_, List.mem_cons_self, rfl⟩
  | tail _ hextends ih =>
    obtain ⟨c, hc, rfl⟩ := ih
    obtain ⟨data, hread, hmem⟩ := hextends
    obtain ⟨hread', -, hfiles⟩ := read_sharedBase c hc
    cases hread.symm.trans hread'
    rw [hfiles] at hmem
    have hclosed : ∀ c ∈ sharedBaseConfigs, ∀ q ∈ c.2.2.2, ∃ d ∈ sharedBaseConfigs, d.1 = q := by
      decide
    exact hclosed c hc _ hmem

theorem acyclic_sharedBase : Acyclic sharedBase "/p" "/p/tsconfig.json" := by
  let rank := fun p => if p = "/p/tsconfig.json" then 2 else if p = "/p/base.json" then 0 else 1
  have hrank : ∀ c ∈ sharedBaseConfigs, ∀ q ∈ c.2.2.2,
      rank (sharedBase.realPath q) < rank (sharedBase.realPath c.1) := by
    with_unfolding_all decide
  refine .of_rank rank ?_
  rintro p q hp ⟨data, hread, hmem⟩
  obtain ⟨c, hc, rfl⟩ := reachable_sharedBase hp
  obtain ⟨hread', -, hfiles⟩ := read_sharedBase c hc
  cases hread.symm.trans hread'
  rw [hfiles] at hmem
  exact hrank c hc q hmem

/-- The base that both extend goes over what the first of them sets, and the
targets are seen from there. -/
theorem load_precedence_sharedBase :
    ∃ warnings, load sharedBase "/p" "/p/tsconfig.json" =
      .ok (some "/p/src", [⟨"@/*", ["/p/src/lib/*"]⟩], warnings) := by
  have htexts : ∀ p data, ReflTransGen (Extends sharedBase "/p") "/p/tsconfig.json" p →
      sharedBase.readRelaxed p = .ok (.obj data) → ∀ base ∈ basesOf data,
        ∃ text, base = .str text := by
    intro p data hp hread
    obtain ⟨c, hc, rfl⟩ := reachable_sharedBase hp
    obtain ⟨hread', hbases, -⟩ := read_sharedBase c hc
    cases hread.symm.trans hread'
    rw [hbases]
    simp
  obtain ⟨-, hrecursion⟩ := load_precedence plain_sharedBase (by decide) (by decide) htexts
  obtain ⟨s, hs, warnings, hload⟩ := hrecursion acyclic_sharedBase
  have hsize : sharedBase.root.size = 6 := by rfl
  have hread := read_sharedBase
  simp only [sharedBaseConfigs, List.forall_mem_cons, List.not_mem_nil, false_implies,
    forall_true_iff, and_true] at hread
  obtain ⟨⟨hread₁, -, hfiles₁⟩, ⟨hread₂, -, hfiles₂⟩, ⟨hread₃, -, hfiles₃⟩, hread₄, -, hfiles₄⟩ :=
    hread
  have hbase : effective? sharedBase "/p" 5 "/p/base.json" = some { baseUrl := some "/p/src" } :=
    (effective?_config hread₄).mpr ⟨[], by rw [hfiles₄]; exact .nil, by with_unfolding_all rfl⟩
  have hfirst : effective? sharedBase "/p" 6 "/p/a.json" = some
      { baseUrl := some "/p/a", paths := some ([("@/*", .str "lib/*")], "/p") } :=
    (effective?_config hread₂).mpr ⟨[_], by rw [hfiles₂]; exact .cons hbase .nil,
      by with_unfolding_all rfl⟩
  have hsecond : effective? sharedBase "/p" 6 "/p/b.json" = some { baseUrl := some "/p/src" } :=
    (effective?_config hread₃).mpr ⟨[_], by rw [hfiles₃]; exact .cons hbase .nil,
      by with_unfolding_all rfl⟩
  have hall : effective? sharedBase "/p" 7 "/p/tsconfig.json" = some
      { baseUrl := some "/p/src", paths := some ([("@/*", .str "lib/*")], "/p") } :=
    (effective?_config hread₁).mpr ⟨[_, _], by
      rw [hfiles₁]
      exact .cons hfirst (.cons hsecond .nil), by with_unfolding_all rfl⟩
  obtain rfl := Option.some.inj ((hs 7 (by rw [hsize]; decide)).symm.trans hall)
  exact ⟨warnings, hload⟩

end CompilerOptions

end PackageAudit
