/-
PackageAudit.Proofs.Installed.Lookup — what the indexes of installed packages
answer, told from the plain list of packages.

Both indexes are functions of the list (`named_eq`, `atLocation?_eq_some_iff`),
whatever has been added in between. The primary package is what one pass over
the packages of a name keeps, always the first of the least ones seen so far
(`firstLeast_append`). The walk from a location upwards meets its folders from
the deepest one to the outermost (`foldersAbove_eq`) and ends there, since a
path without parts is its own directory part.
-/
import PackageAudit.Installed.Basic
import PackageAudit.Proofs.Collection
import PackageAudit.Proofs.Path.Trail
import PackageAudit.Proofs.Table
import Mathlib.Data.Prod.Lex

namespace PackageAudit

/-! ## 1. The indexes -/

namespace Installed

variable (r : Installed)

theorem packages_foldl_add (ps : List InstalledPackage) :
    (ps.foldl add r).packages = r.packages ++ ps := by
  induction ps generalizing r with
  | nil => exact (List.append_nil _).symm
  | cons p ps ih =>
    rw [List.foldl_cons, ih]
    exact List.append_assoc r.packages [p] ps

theorem has_iff {name : String} : r.has name = true ↔ ∃ p ∈ r.packages, p.name = name := by
  rw [has, r.nameIndex_eq, Table.has_iff, InstalledPackage.indexByName, Table.groupBy,
    Table.mem_keys_foldl_update]
  simp [Table.keys]

theorem named_eq (name : String) : r.named name = r.packages.filter (·.name == name) := by
  rw [named, r.nameIndex_eq, InstalledPackage.indexByName, Table.groupBy_eq, Table.get?_map]
  split
  · rfl
  · rename_i hnone
    have hempty : r.packages.filter (·.name == name) = [] := by
      simpa [List.filter_eq_nil_iff] using hnone
    rw [hempty]
    rfl

end Installed

namespace InstalledPackage

/-- The last package of a list that is at a normal path. -/
def LastAt (ps : List InstalledPackage) (path : String) (p : InstalledPackage) : Prop :=
  ∃ before after, ps = before ++ p :: after ∧ Path.normalize p.location = path ∧
    ∀ q ∈ after, Path.normalize q.location ≠ path

/-- What packages of one name are compared by. -/
def rank (p : InstalledPackage) : ℕ ×ₗ String := toLex (p.depth, p.location)

/-- The first of the least packages of a list. -/
def FirstLeast (ps : List InstalledPackage) (p : InstalledPackage) : Prop :=
  ∃ before after, ps = before ++ p :: after ∧ (∀ q ∈ before, p.rank < q.rank) ∧
    ∀ q ∈ after, p.rank ≤ q.rank

end InstalledPackage

namespace Installed

open InstalledPackage

variable (r : Installed)

theorem atLocation?_eq_some_iff {path : String} {p : InstalledPackage} :
    r.atLocation? path = some p ↔ LastAt r.packages path p := by
  rw [atLocation?, r.locationIndex_eq, indexByLocation, Table.get?_ofPairs,
    List.lookup_eq_some_iff]
  constructor
  · rintro ⟨after, before, hpairs, hafter⟩
    rw [List.reverse_eq_iff, List.reverse_append, List.reverse_cons, List.append_assoc,
      List.singleton_append, List.map_eq_append_iff] at hpairs
    obtain ⟨front, rest, hps, -, hrest⟩ := hpairs
    obtain ⟨q, back, rfl, hq, hback⟩ := List.map_eq_cons_iff.mp hrest
    obtain ⟨hpath, rfl⟩ := Prod.mk.inj hq
    refine ⟨front, back, hps, hpath, fun x hx heq => ?_⟩
    have hmem : (Path.normalize x.location, x) ∈ after := by
      rw [← List.mem_reverse, ← hback]
      exact List.mem_map_of_mem hx
    simpa [heq] using hafter _ hmem
  · rintro ⟨before, after, hps, hpath, hafter⟩
    refine ⟨(after.map fun q => (Path.normalize q.location, q)).reverse,
      (before.map fun q => (Path.normalize q.location, q)).reverse, by simp [hps, hpath], ?_⟩
    simpa using fun q hq => Ne.symm (hafter q hq)

theorem atLocation?_eq_none_iff {path : String} :
    r.atLocation? path = none ↔ ∀ p ∈ r.packages, Path.normalize p.location ≠ path := by
  rw [atLocation?, r.locationIndex_eq, indexByLocation, Table.get?_ofPairs,
    List.lookup_eq_none_iff]
  simp only [List.mem_reverse, List.forall_mem_map, bne_iff_ne]
  exact forall₂_congr fun _ _ => ne_comm

/-! ## 2. The primary package -/

theorem shallower_iff {p q : InstalledPackage} : shallower p q = true ↔ p.rank < q.rank := by
  rw [rank, rank, Prod.Lex.toLex_lt_toLex]
  simp [shallower]

/-- The better of the best package so far and one more. -/
theorem firstLeast_append {ps : List InstalledPackage} {best p : InstalledPackage}
    (h : FirstLeast ps best) :
    FirstLeast (ps ++ [p]) (if shallower p best then p else best) := by
  obtain ⟨before, after, rfl, hbefore, hafter⟩ := h
  split
  · rename_i hlt
    rw [shallower_iff] at hlt
    refine ⟨before ++ best :: after, [], rfl, fun q hq => ?_, by simp⟩
    rcases List.mem_append.mp hq with hq | hq
    · exact hlt.trans (hbefore q hq)
    · rcases List.mem_cons.mp hq with rfl | hq
      · exact hlt
      · exact hlt.trans_le (hafter q hq)
  · rename_i hle
    rw [shallower_iff, not_lt] at hle
    refine ⟨before, after ++ [p], by simp, hbefore, fun q hq => ?_⟩
    rcases List.mem_append.mp hq with hq | hq
    · exact hafter q hq
    · exact List.mem_singleton.mp hq ▸ hle

theorem firstLeast_foldl (rest : List InstalledPackage) {ps : List InstalledPackage}
    {best : InstalledPackage} (h : FirstLeast ps best) :
    FirstLeast (ps ++ rest)
      (rest.foldl (fun best q => if shallower q best then q else best) best) := by
  induction rest generalizing ps best with
  | nil => simpa using h
  | cons p rest ih => simpa using ih (firstLeast_append (p := p) h)

/-- Of two packages the one behind is not less than all up to the other, when
that one is least from there on. -/
theorem firstLeast_not_behind {before mid after : List InstalledPackage} {p q : InstalledPackage}
    (hp : ∀ x ∈ mid ++ q :: after, p.rank ≤ x.rank)
    (hq : ∀ x ∈ before ++ p :: mid, q.rank < x.rank) : False := by
  have hle : p.rank ≤ q.rank := hp q (by simp)
  have hlt : q.rank < p.rank := hq p (by simp)
  exact absurd hlt (not_lt.mpr hle)

/-- A list has one first least package. -/
theorem firstLeast_unique {ps : List InstalledPackage} {p q : InstalledPackage}
    (hp : FirstLeast ps p) (hq : FirstLeast ps q) : p = q := by
  obtain ⟨before, after, rfl, hbefore, hafter⟩ := hp
  obtain ⟨before', after', heq, hbefore', hafter'⟩ := hq
  rcases List.append_eq_append_iff.mp heq with ⟨mid, rfl, h⟩ | ⟨mid, rfl, h⟩
  · cases mid with
    | nil => exact (List.cons.inj h).1
    | cons x mid =>
      obtain ⟨rfl, rfl⟩ := List.cons.inj h
      exact (firstLeast_not_behind hafter hbefore').elim
  · cases mid with
    | nil => exact (List.cons.inj h).1.symm
    | cons x mid =>
      obtain ⟨rfl, rfl⟩ := List.cons.inj h
      exact (firstLeast_not_behind hafter' hbefore).elim

/-- **The primary package** is the first of the least ones of its name. -/
theorem primary?_eq_some_iff {name : String} {p : InstalledPackage} :
    r.primary? name = some p ↔ FirstLeast (r.packages.filter (·.name == name)) p := by
  rw [primary?, named_eq]
  cases r.packages.filter (·.name == name) with
  | nil => simp [FirstLeast]
  | cons first rest =>
    have hfirst : FirstLeast [first] first := ⟨[], [], rfl, by simp, by simp⟩
    have hbest := firstLeast_foldl rest hfirst
    rw [Option.some.injEq]
    exact ⟨fun h => h ▸ hbest, firstLeast_unique hbest⟩

theorem primary?_isSome (name : String) : (r.primary? name).isSome = r.has name := by
  rw [Bool.eq_iff_iff, has_iff, primary?, named_eq]
  cases hps : r.packages.filter (·.name == name) with
  | nil => simpa using hps
  | cons first rest =>
    have hfirst : first ∈ r.packages.filter (·.name == name) := by simp [hps]
    simpa using ⟨first, by simpa using List.mem_filter.mp hfirst⟩

/-! ## 3. The walk upwards -/

/-- The walk from a folder ends at the one without parts. -/
theorem upward_upto (t : Path.Trail) {depth fuel : Nat} (hfuel : depth < fuel)
    (h : depth ≤ t.parts.length) :
    upward fuel (t.upto depth).path =
      (List.range (depth + 1)).reverse.map fun d => (t.upto d).path := by
  obtain ⟨fuel, rfl⟩ := Nat.exists_eq_succ_of_ne_zero (Nat.ne_zero_of_lt hfuel)
  induction depth generalizing fuel with
  | zero =>
    have htop : Path.parent (t.upto 0).path = (t.upto 0).path := (t.upto 0).parent_of_nil rfl
    simp [upward, htop]
  | succ depth ih =>
    have habove := t.parent_upto_succ h
    have hne : (t.upto depth).path ≠ (t.upto (depth + 1)).path :=
      fun heq => (t.length_upto_lt h).ne (congrArg String.length heq)
    obtain ⟨fuel, rfl⟩ :=
      Nat.exists_eq_succ_of_ne_zero (Nat.ne_zero_of_lt (Nat.lt_of_succ_lt_succ hfuel))
    rw [upward, habove]
    simp only [beq_iff_eq, if_neg hne]
    rw [ih (by omega) fuel (by omega)]
    simp [List.range_succ]

/-- **The walk** from a location meets the folders from the deepest one to the
outermost. Where nothing is left of the location it starts at the dot instead. -/
theorem foldersAbove_eq (location : String) :
    foldersAbove (Path.normalize location) =
      (if (Path.trailOf location).path = "" then ["."] else []) ++
        (List.range ((Path.trailOf location).parts.length + 1)).reverse.map fun d =>
          ((Path.trailOf location).upto d).path := by
  set t := Path.trailOf location with ht
  rw [Path.normalize_eq, ← ht]
  split
  · rename_i hempty
    have hparts : t.parts = [] := by
      by_contra h
      obtain ⟨c, hc, -⟩ := t.getLast?_path h
      simp [hempty] at hc
    have htop : (t.upto 0).path = "" := by
      rw [← hempty, ← t.upto_length, hparts]
      rfl
    rw [hparts]
    simp [htop]
    decide
  · have hfuel : t.parts.length < t.path.length + 1 := by
      have hdepth := t.depth_le_length (le_refl _)
      rw [t.upto_length] at hdepth
      omega
    rw [List.nil_append, ← upward_upto t hfuel (le_refl _), t.upto_length, foldersAbove]

/-- The path at which a package would lie in the modules of a folder. -/
def modulePath (location : String) (depth : Nat) (name : String) : String :=
  Path.frontSlashes location ++
    Path.ofComponents ((Path.normalComponents location).take depth ++ ["node_modules", name])

theorem joinAll_upto (location : String) (depth : Nat) {name : String}
    (hname : Path.isAbsolute name = false) :
    Path.joinAll [((Path.trailOf location).upto depth).path, "node_modules", name] =
      modulePath location depth name := by
  set t := (Path.trailOf location).upto depth with ht
  have hmodules : Path.IsPart "node_modules" := ⟨by decide, by decide, by decide⟩
  have hfirst : Path.join t.path "node_modules" = (t.inside "node_modules" hmodules).path := by
    rw [t.path_inside, t.join_path (by decide)]
  have hsecond : Path.joinAll [t.path, "node_modules", name] =
      Path.join (Path.join t.path "node_modules") name := rfl
  rw [hsecond, hfirst, Path.Trail.join_path _ hname, Path.Trail.front_append, modulePath]
  simp [Path.Trail.inside, ht, Path.Trail.upto, Path.trailOf, Path.frontSlashes]

/-- What is found at the deepest of some depths. -/
theorem findSome?_deepest {α : Type} {f : Nat → Option α} {depth top : Nat} {a : α}
    (hdepth : depth ≤ top) (hf : f depth = some a)
    (hdeeper : ∀ d, depth < d → d ≤ top → f d = none) :
    (List.range (top + 1)).reverse.findSome? f = some a := by
  induction top with
  | zero =>
    obtain rfl : depth = 0 := by omega
    simp [hf]
  | succ top ih =>
    rw [List.range_succ, List.reverse_append, List.reverse_singleton, List.singleton_append,
      List.findSome?_cons]
    by_cases h : depth = top + 1
    · rw [← h, hf]
    · rw [hdeeper (top + 1) (by omega) (le_refl _)]
      exact ih (by omega) fun d hlt hle => hdeeper d hlt (by omega)

/-- No package is found from the dot, which no normal path begins with. -/
theorem atLocation?_dot {name : String} (hname : Path.isAbsolute name = false) :
    r.atLocation? (Path.joinAll [".", "node_modules", name]) = none := by
  have hfirst : Path.join "." "node_modules" = "./node_modules" := by decide
  have hpath : Path.joinAll [".", "node_modules", name] = "./" ++ ("node_modules/" ++ name) := by
    have hends : ("./node_modules".isEmpty || Text.ends "/" "./node_modules") = false := by decide
    have hjoin : Path.join "./node_modules" name = "./node_modules" ++ "/" ++ name := by
      rw [Path.join, hname, hends]
      rfl
    rw [Path.joinAll, List.foldl_cons, List.foldl_cons, List.foldl_nil, hfirst, hjoin,
      ← String.toList_inj]
    simp
  rw [atLocation?_eq_none_iff, hpath]
  exact fun p _ => Path.normalize_ne_dot_append p.location _

/-- The nearest package is the one at the deepest depth that has one. -/
theorem nearest_eq (location : String) {name : String} (hname : Path.isAbsolute name = false) :
    (foldersAbove (Path.normalize location)).findSome? (fun folder =>
        r.atLocation? (Path.joinAll [folder, "node_modules", name])) =
      (List.range ((Path.normalComponents location).length + 1)).reverse.findSome? fun depth =>
        r.atLocation? (modulePath location depth name) := by
  have hdot : (if (Path.trailOf location).path = "" then ["."] else []).findSome? (fun folder =>
      r.atLocation? (Path.joinAll [folder, "node_modules", name])) = none := by
    split
    · rw [List.findSome?_singleton, atLocation?_dot r hname]
    · rfl
  have hfolder : ∀ depth, r.atLocation? (Path.joinAll
      [((Path.trailOf location).upto depth).path, "node_modules", name]) =
        r.atLocation? (modulePath location depth name) := fun depth => by
    rw [joinAll_upto location depth hname]
  rw [foldersAbove_eq, List.findSome?_append, hdot, Option.none_or, List.findSome?_map]
  exact congrArg (List.findSome? · _) (funext hfolder)

theorem resolveFrom?_eq_some {location name : String} (hname : Path.isAbsolute name = false)
    {depth : Nat} {p : InstalledPackage} (hdepth : depth ≤ (Path.normalComponents location).length)
    (hp : LastAt r.packages (modulePath location depth name) p)
    (hdeeper : ∀ d, depth < d → d ≤ (Path.normalComponents location).length →
      ∀ q ∈ r.packages, Path.normalize q.location ≠ modulePath location d name) :
    r.resolveFrom? name location = some p := by
  rw [resolveFrom?, nearest_eq r location hname,
    findSome?_deepest hdepth ((atLocation?_eq_some_iff r).mpr hp)
      fun d hlt hle => (atLocation?_eq_none_iff r).mpr (hdeeper d hlt hle)]
  rfl

theorem resolveFrom?_eq_primary? {location name : String} (hname : Path.isAbsolute name = false)
    (hnone : ∀ d ≤ (Path.normalComponents location).length,
      ∀ q ∈ r.packages, Path.normalize q.location ≠ modulePath location d name) :
    r.resolveFrom? name location = r.primary? name := by
  have hall : ∀ d ∈ (List.range ((Path.normalComponents location).length + 1)).reverse,
      r.atLocation? (modulePath location d name) = none := by
    intro d hd
    rw [List.mem_reverse, List.mem_range] at hd
    exact (atLocation?_eq_none_iff r).mpr (hnone d (by omega))
  rw [resolveFrom?, nearest_eq r location hname, List.findSome?_eq_none_iff.mpr hall]
  rfl

/-- **Lookup.** The registry made by adding packages one after the other
answers like their list. -/
theorem lookup_added (root : String) (ps : List InstalledPackage) (location : String)
    {name : String} (hname : Path.isAbsolute name = false) :
    let r := ps.foldl add { root }
    (r.has name = true ↔ ∃ p ∈ ps, p.name = name) ∧
    (r.primary? name).isSome = r.has name ∧
    (∀ p, r.primary? name = some p ↔ FirstLeast (ps.filter (·.name == name)) p) ∧
    (∀ depth ≤ (Path.normalComponents location).length, ∀ p,
      LastAt ps (modulePath location depth name) p →
      (∀ deeper, depth < deeper → deeper ≤ (Path.normalComponents location).length →
        ∀ q ∈ ps, Path.normalize q.location ≠ modulePath location deeper name) →
      r.resolveFrom? name location = some p) ∧
    ((∀ depth ≤ (Path.normalComponents location).length,
        ∀ q ∈ ps, Path.normalize q.location ≠ modulePath location depth name) →
      r.resolveFrom? name location = r.primary? name) := by
  intro r
  have hpackages : r.packages = ps := packages_foldl_add { root } ps
  rw [← hpackages]
  exact ⟨r.has_iff, r.primary?_isSome name, fun _ => r.primary?_eq_some_iff,
    fun depth hdepth p => resolveFrom?_eq_some r hname hdepth,
    resolveFrom?_eq_primary? r hname⟩

/-- A package that lies twice under another one, at one place in the end: from
there its second copy is loaded, and the primary one lies above. -/
theorem lookup_added_twiceNested :
    let above : InstalledPackage :=
      { name := "a", version := "1", location := "/p/node_modules/a" }
    let first : InstalledPackage :=
      { name := "a", version := "2", location := "/p/node_modules/b/node_modules/a", depth := 1 }
    let second : InstalledPackage :=
      { name := "a", version := "3", location := "/p/node_modules/b/./node_modules/a", depth := 1 }
    Path.isAbsolute "a" = false ∧
      ([first, above, second].foldl add { root := "/p" }).resolveFrom? "a" "/p/node_modules/b/lib" =
        some second ∧
      ([first, above, second].foldl add { root := "/p" }).primary? "a" = some above := by
  intro above first second
  have hname : Path.isAbsolute "a" = false := by decide
  obtain ⟨-, -, hprimary, hnearest, -⟩ :=
    lookup_added "/p" [first, above, second] "/p/node_modules/b/lib" hname
  refine ⟨hname, ?_, ?_⟩
  · refine hnearest 3 (by decide) second ⟨[first, above], [], rfl, by decide, by simp⟩ ?_
    intro deeper hlt hle
    obtain rfl : deeper = 4 := by
      have hlength : (Path.normalComponents "/p/node_modules/b/lib").length = 4 := by decide
      omega
    simp only [List.mem_cons, List.not_mem_nil, or_false, forall_eq_or_imp, forall_eq]
    decide
  · refine (hprimary above).mpr ⟨[first], [second], rfl, ?_, ?_⟩
    · simp [rank, Prod.Lex.toLex_lt_toLex, above, first]
    · simp [rank, Prod.Lex.toLex_le_toLex, above, second]

end Installed

end PackageAudit
