/-
PackageAudit.Proofs.Path.Trail — paths as slashes and parts.

What is left of any path when it is normalized, a relative one included, is a
number of slashes and then parts between single slashes (`Trail`). The folders
above it are its beginnings: the directory part of a trail leaves its last part
out, and stands still once no part is left.

The paths of things in a folder are texts behind one and the same beginning,
its `front`. Joining, the directory part and the last component of a path are
said by it, so that a change of the last component needs no second look at the
rest of the path.
-/
import PackageAudit.Path
import PackageAudit.Proofs.Text.Cut
import Mathlib.Data.List.TakeWhile
import Mathlib.Data.String.Basic

namespace PackageAudit.Path

/-- A component that a normal path may have. -/
structure IsPart (s : String) : Prop where
  noSlash : '/' ∉ s.toList
  ne_empty : s ≠ ""
  ne_dot : s ≠ "."

/-- Slashes, then parts with a slash between two of them. -/
structure Trail where
  slashes : Nat
  parts : List String
  isPart : ∀ c ∈ parts, IsPart c

namespace Trail

variable (t : Trail)

/-! ## 1. The text of a trail -/

/-- The path of a trail. -/
def path : String := String.ofList (List.replicate t.slashes '/') ++ ofComponents t.parts

/-- The text in front of what lies inside. -/
def front : String := if t.parts = [] then t.path else t.path ++ "/"

/-- The first parts of a trail: a folder above it. -/
def upto (depth : Nat) : Trail where
  slashes := t.slashes
  parts := t.parts.take depth
  isPart := fun c hc => t.isPart c (List.mem_of_mem_take hc)

theorem upto_length : t.upto t.parts.length = t := by simp [upto]

/-- A trail without parts is nothing but slashes. -/
theorem path_of_nil (h : t.parts = []) : t.path = String.ofList (List.replicate t.slashes '/') := by
  simp [path, h, ofComponents]

/-- What stands behind the front is one part more. -/
theorem front_append (s : String) : t.front ++ s =
    String.ofList (List.replicate t.slashes '/') ++ ofComponents (t.parts ++ [s]) := by
  by_cases h : t.parts = []
  · simp [path, front, h, ofComponents]
  · simp [path, front, h, ofComponents, String.intercalate_append_of_ne_nil h, String.append_assoc]

/-- What lies inside. -/
def inside (c : String) (h : IsPart c) : Trail where
  slashes := t.slashes
  parts := t.parts ++ [c]
  isPart := by
    intro d hd
    rcases List.mem_append.mp hd with hd | hd
    · exact t.isPart d hd
    · exact List.mem_singleton.mp hd ▸ h

theorem path_inside {c : String} (h : IsPart c) : (t.inside c h).path = t.front ++ c :=
  (t.front_append c).symm

/-- A folder is the one above it and one part more. -/
theorem path_upto_succ {depth : Nat} (h : depth < t.parts.length) :
    (t.upto (depth + 1)).path = (t.upto depth).front ++ t.parts[depth] := by
  have hparts : (t.upto (depth + 1)).parts = (t.upto depth).parts ++ [t.parts[depth]] :=
    List.take_succ_eq_append_getElem h
  rw [front_append, path, hparts]
  rfl

/-- Behind the slashes a path ends with a part. -/
theorem getLast?_path (h : t.parts ≠ []) : ∃ c, t.path.toList.getLast? = some c ∧ c ≠ '/' := by
  obtain ⟨parts, last, hparts⟩ := (List.eq_nil_or_concat t.parts).resolve_left h
  have hlast : IsPart last := t.isPart last (by simp [hparts])
  have hinit : parts = (t.upto parts.length).parts := by simp [upto, hparts]
  have hpath : t.path = (t.upto parts.length).front ++ last := by
    rw [front_append, ← hinit, path, hparts, List.concat_eq_append]
    rfl
  have hnil : last.toList ≠ [] := fun h => hlast.ne_empty (String.toList_eq_nil_iff.mp h)
  refine ⟨last.toList.getLast hnil, ?_, fun heq => hlast.noSlash (heq ▸ List.getLast_mem hnil)⟩
  simp [hpath, List.getLast?_eq_getLast_of_ne_nil hnil]

/-- A front is nothing, or it ends with a slash. -/
theorem getLast?_front : ∀ c ∈ t.front.toList.getLast?, c = '/' := by
  by_cases h : t.parts = []
  · simp [front, h, path_of_nil, List.getLast?_replicate]
  · simp [front, h]

/-- Nothing has to be put between slashes and what follows them. -/
theorem isEmpty_or_ends_path :
    (t.path.isEmpty || Text.ends "/" t.path) = decide (t.parts = []) := by
  by_cases h : t.parts = []
  · rw [path_of_nil t h, decide_eq_true h]
    cases t.slashes with
    | zero => rfl
    | succ k =>
      rw [Bool.or_eq_true, Text.ends, List.isSuffixOf_iff_suffix]
      exact Or.inr ⟨List.replicate k '/', by simp [List.replicate_succ']⟩
  · obtain ⟨c, hc, hslash⟩ := t.getLast?_path h
    have hempty : t.path ≠ "" := by
      rintro heq
      simp [heq] at hc
    have hends : Text.ends "/" t.path = false := by
      rw [Bool.eq_false_iff, ne_eq, Text.ends, List.isSuffixOf_iff_suffix]
      rintro ⟨before, hbefore⟩
      rw [← hbefore] at hc
      simp at hc
      exact hslash hc.symm
    simp [h, hempty, hends]

/-! ## 2. Joining and cutting -/

/-- A relative path seen from a trail stands behind its front. -/
theorem join_path {s : String} (hs : isAbsolute s = false) : join t.path s = t.front ++ s := by
  have hjoin := t.isEmpty_or_ends_path
  by_cases h : t.parts = [] <;> simp_all [join, front]

theorem cutLast_front_append {s : String} (hs : '/' ∉ s.toList) :
    cutLast (t.front ++ s) = (t.front.toList, s.toList) := by
  have htail : ((t.front ++ s).toList.reverse.takeWhile (· != '/')).reverse = s.toList := by
    have hnone : ∀ c ∈ s.toList.reverse, (c != '/') = true := by
      intro c hc
      have : c ≠ '/' := by rintro rfl; exact hs (List.mem_reverse.mp hc)
      simpa using this
    rw [String.toList_append, List.reverse_append, List.takeWhile_append_of_pos hnone]
    cases hfront : t.front.toList.reverse with
    | nil => simp
    | cons c cs =>
      have hc : c = '/' := t.getLast?_front c (by
        rw [List.getLast?_eq_head?_reverse, hfront]
        rfl)
      simp [hc]
  rw [cutLast, htail]
  simp

theorem parent_front_append {s : String} (hs : '/' ∉ s.toList) :
    parent (t.front ++ s) = t.path := by
  rw [parent, cutLast_front_append t hs]
  by_cases h : t.parts = []
  · simp [front, path_of_nil, h]
  · obtain ⟨c, hc, hslash⟩ := t.getLast?_path h
    have hall : t.front.toList.all (· == '/') = false := by
      rw [List.all_eq_false]
      exact ⟨c, by simp [front, h, List.mem_of_getLast? hc], by simpa using hslash⟩
    have htrim : Text.trimBack (· == '/') t.front.toList = t.path.toList := by
      rw [List.getLast?_eq_some_iff] at hc
      obtain ⟨before, hbefore⟩ := hc
      simp [Text.trimBack, front, h, hbefore, hslash]
    simp [hall, htrim]

/-! ## 3. The folders above -/

/-- The directory part leaves the last part out. -/
theorem parent_upto_succ {depth : Nat} (h : depth < t.parts.length) :
    parent (t.upto (depth + 1)).path = (t.upto depth).path := by
  rw [path_upto_succ t h]
  exact parent_front_append _ (t.isPart _ (List.getElem_mem h)).noSlash

/-- Without parts there is nothing above. -/
theorem parent_of_nil (h : t.parts = []) : parent t.path = t.path := by
  have hfront : t.front ++ "" = t.path := by simp [front, h]
  rw [← hfront, parent_front_append t (by simp), hfront]

/-- A folder has a shorter path than what lies in it. -/
theorem length_upto_lt {depth : Nat} (h : depth < t.parts.length) :
    (t.upto depth).path.length < (t.upto (depth + 1)).path.length := by
  have hpart : 0 < t.parts[depth].length := by
    rw [Nat.pos_iff_ne_zero, ne_eq, String.length_eq_zero_iff]
    exact (t.isPart _ (List.getElem_mem h)).ne_empty
  have hfront : (t.upto depth).path.length ≤ (t.upto depth).front.length := by
    rw [front]
    split <;> simp
  rw [path_upto_succ t h, String.length_append]
  omega

theorem depth_le_length {depth : Nat} (h : depth ≤ t.parts.length) :
    depth ≤ (t.upto depth).path.length := by
  induction depth with
  | zero => exact Nat.zero_le _
  | succ depth ih =>
    have hle := ih (by omega)
    have hlt := t.length_upto_lt h
    omega

end Trail

/-! ## 4. Normal forms -/

/-- Pushing a component keeps parts only. -/
theorem isPart_of_mem_pushComponent {rooted : Bool} {kept : List String} {part : String}
    (hkept : ∀ c ∈ kept, IsPart c) (hpart : '/' ∉ part.toList) :
    ∀ c ∈ pushComponent rooted kept part, IsPart c := by
  unfold pushComponent
  split
  · exact hkept
  rename_i hskip
  have hnew : IsPart part := by
    simp only [Bool.or_eq_true, beq_iff_eq, not_or] at hskip
    exact ⟨hpart, hskip.1, hskip.2⟩
  split
  · exact List.forall_mem_cons.mpr ⟨hnew, hkept⟩
  · split
    · split <;> simp [hnew]
    · split
      · exact List.forall_mem_cons.mpr ⟨hnew, hkept⟩
      · exact (List.forall_mem_cons.mp hkept).2

theorem noSlash_of_mem_components {path c : String} (h : c ∈ components path) :
    '/' ∉ c.toList := by
  obtain ⟨cs, hcs, rfl⟩ := List.mem_map.mp h
  rw [String.toList_ofList]
  exact fun hmem => (Text.mem_of_mem_splitAt hcs hmem).2 rfl

/-- The components between slashes are what stands between them. -/
theorem components_ofComponents {names : List String} (hne : names ≠ [])
    (h : ∀ n ∈ names, '/' ∉ n.toList) : components (ofComponents names) = names := by
  have hsplit : Text.splitAt '/' (ofComponents names).toList = names.map String.toList := by
    rw [ofComponents, String.toList_intercalate]
    exact Text.splitAt_intercalate '/' (by simpa using hne) (by simpa using h)
  simp [components, Text.pieces, hsplit]

/-- A slash in front is one more component without text. -/
theorem components_replicate_append (k : Nat) (s : String) :
    components (String.ofList (List.replicate k '/') ++ s) =
      List.replicate k "" ++ components s := by
  induction k with
  | zero => simp
  | succ k ih =>
    simp only [components, Text.pieces, String.toList_append, String.toList_ofList] at ih ⊢
    simp [List.replicate_succ, Text.splitAt, ih]

/-- In front of the parts there are as many empty components as slashes. -/
theorem Trail.components_path (t : Trail) : components t.path =
    List.replicate t.slashes "" ++ if t.parts = [] then [""] else t.parts := by
  rw [path, components_replicate_append]
  by_cases h : t.parts = []
  · rw [if_pos h, h]
    rfl
  · rw [if_neg h, components_ofComponents h fun c hc => (t.isPart c hc).noSlash]

/-- What is left of a path when it is normalized. -/
def trailOf (path : String) : Trail where
  slashes := leadingSlashes path
  parts := normalComponents path
  isPart := by
    intro c hc
    rw [normalComponents, List.mem_reverse] at hc
    refine List.foldlRecOn (motive := fun kept => ∀ c ∈ kept, IsPart c) (components path)
      (pushComponent (isAbsolute path)) ?_ ?_ c hc
    · simp
    · exact fun kept hkept part hpart =>
        isPart_of_mem_pushComponent hkept (noSlash_of_mem_components hpart)

/-- **Normalizing.** A normal path is the path of its trail; where nothing is
left, the current directory is written as a dot. -/
theorem normalize_eq (path : String) :
    normalize path = if (trailOf path).path = "" then "." else (trailOf path).path := by
  rw [normalize]
  simp only [String.isEmpty_iff]
  rfl

/-- A normal path does not begin with the current directory. -/
theorem normalize_ne_dot_append (path rest : String) : normalize path ≠ "./" ++ rest := by
  intro h
  rw [normalize_eq] at h
  split at h
  · have hchars := congrArg String.toList h
    simp at hchars
  · have hfirst : "." ∈ components (trailOf path).path := by
      rw [h]
      simp [components, Text.pieces, Text.splitAt]
    rw [Trail.components_path] at hfirst
    rcases List.mem_append.mp hfirst with hslash | hpart
    · exact absurd (List.eq_of_mem_replicate hslash) (by decide)
    · split at hpart
      · simp at hpart
      · exact ((trailOf path).isPart "." hpart).ne_dot rfl

end PackageAudit.Path
