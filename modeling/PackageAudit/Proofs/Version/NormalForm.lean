/-
PackageAudit.Proofs.Version.NormalForm — comparator sets are a normal form of
ranges.

Whatever a range was written with (carets, tildes, open parts, hyphens, marks,
a source), its sets have only relations and complete versions. Printed with
blanks between comparators and bars between sets, they are read back as the
same sets: a printed comparator is the word of an operator that stands for the
comparator alone (`apply_operator`), and the text comes apart into the printed
sets (`alternatives_barred`). An empty set is printed as nothing and keeps its
place between the bars.

A version by itself is printed as the comparator of equality. The reader of
versions and that of ranges both invert the printer (`names_only_of_parse?`).
-/
import PackageAudit.Proofs.Version.Alternatives

namespace PackageAudit

/-! ## 1. Printed comparators -/

/-- The operator that is written for a relation. -/
def Relation.operator : Relation → Range.Operator
  | .less => .under
  | .atMost => .upTo
  | .greater => .above
  | .atLeast => .onward
  | .equal => .bare

/-- The comparators of a set with blanks between them. -/
def ComparatorSet.toText (s : ComparatorSet) : String := " ".intercalate (s.map Comparator.toText)

namespace Range

/-- Comparator sets with bars between them. -/
def setsText (sets : List ComparatorSet) : String :=
  " || ".intercalate (sets.map ComparatorSet.toText)

theorem wordText_operator (c : Comparator) :
    wordText (c.relation.operator, c.version) = c.toText := by
  obtain ⟨relation, v⟩ := c
  cases relation <;> rfl

/-- The operator of a relation stands for that relation with a complete
version. -/
theorem apply_operator (c : Comparator) :
    c.relation.operator.apply (.ofVersion c.version) = [c] := by
  obtain ⟨relation, v⟩ := c
  cases relation <;> rfl

/-- The words of a printed set. -/
def setWords (s : ComparatorSet) : List (List Char) := s.map fun c => c.toText.toList

section

variable {s : ComparatorSet} (hs : ∀ c ∈ s, c.version.Written)

include hs

theorem isWord_of_mem_setWords : ∀ w ∈ setWords s, IsWord w := by
  intro w hw
  obtain ⟨c, hc, rfl⟩ := List.mem_map.mp hw
  rw [← wordText_operator]
  exact isWord_wordText _ (hs c hc)

theorem ofWords?_setWords : ofWords? (setWords s) = some s := by
  have hwords : setWords s =
      (s.map fun c => (c.relation.operator, c.version)).map fun w => (wordText w).toList := by
    simp [setWords, wordText_operator]
  rw [ofWords?_of_isWord (isWord_of_mem_setWords hs), hwords,
    wordsComparators?_wordText (by simpa using hs), List.flatMap_map]
  simp [apply_operator]

end

/-! ## 2. Printed sets -/

/-- Lists of pieces with bars between them. -/
def barred (wss : List (List (List Char))) : List Char :=
  " || ".toList.intercalate (wss.map joined)

theorem barred_cons_cons (ws xs : List (List Char)) (wss : List (List (List Char))) :
    barred (ws :: xs :: wss) = (joined ws ++ [' ']) ++ '|' :: '|' :: ' ' :: barred (xs :: wss) := by
  simp [barred, List.intercalate_cons_cons]

/-- Lists of pieces with bars between them come apart into these lists. -/
theorem alternatives_barred {wss : List (List (List Char))} (hne : wss ≠ [])
    (hws : ∀ ws ∈ wss, ∀ w ∈ ws, IsPiece w) : alternatives (barred wss) = wss := by
  induction wss with
  | nil => exact absurd rfl hne
  | cons ws wss ih =>
    have hpieces : ∀ w ∈ ws, IsPiece w := hws ws (by simp)
    have hfirst : alternatives (joined ws) = [ws] := alternatives_joined hpieces
    cases wss with
    | nil => simpa [barred] using hfirst
    | cons xs wss =>
      have hblank : alternatives (joined ws ++ [' ']) = [ws] := by
        rw [alternatives_append_spaces (by simp [Text.isSpace]), hfirst]
      have hbar : ∀ us ∈ alternatives (joined ws ++ [' ']), '|' ∉ us.flatten := by
        rw [hblank, List.forall_mem_singleton, List.mem_flatten]
        rintro ⟨w, hw, hmem⟩
        exact (hpieces w hw).noBar hmem
      rw [barred_cons_cons, alternatives_append_bars hbar, hblank,
        alternatives_cons_space (by decide),
        ih (List.cons_ne_nil xs wss) fun us hus => hws us (by simp [hus]), List.singleton_append]

theorem toList_setsText (sets : List ComparatorSet) :
    (setsText sets).toList = barred (sets.map setWords) := by
  have hset : ∀ s : ComparatorSet, s.toText.toList = joined (setWords s) := fun s => by
    simp [ComparatorSet.toText, joined, setWords]
    rfl
  rw [setsText, barred, String.toList_intercalate, List.map_map, List.map_map]
  exact congrArg _ (List.map_congr_left fun s _ => hset s)

theorem sets_ne_nil_of_parse? {text : String} {r : Range} (h : parse? text = some r) :
    r.sets ≠ [] := by
  obtain ⟨sets, hsets, rfl⟩ := Option.map_eq_some_iff.mp h
  rintro rfl
  rw [sets?, mapM_eq_some_iff, List.map_nil, List.map_eq_nil_iff] at hsets
  exact Text.splitAtPair_ne_nil _ _ _ hsets

/-- **Normal form.** The printed sets of a range are read back as these sets. -/
theorem parse?_setsText {text : String} {r : Range} (h : parse? text = some r) :
    parse? (setsText r.sets) = some ⟨setsText r.sets, r.sets⟩ := by
  have hwritten := boundsIn_written_of_parse? h
  have halternatives : alternatives (barred (r.sets.map setWords)) = r.sets.map setWords := by
    refine alternatives_barred (by simpa using sets_ne_nil_of_parse? h) fun ws hws w hw => ?_
    obtain ⟨s, hs, rfl⟩ := List.mem_map.mp hws
    exact (isWord_of_mem_setWords (hwritten s hs) w hw).toIsPiece
  have hread : (alternatives (barred (r.sets.map setWords))).mapM ofWords? = some r.sets := by
    rw [halternatives, mapM_eq_some_iff, List.map_map]
    exact List.map_congr_left fun s hs => ofWords?_setWords (hwritten s hs)
  rw [parse?, toList_setsText, sets?_of_alternatives hread]
  rfl

/-- A source, an empty alternative, marks, build metadata and a hyphen. -/
theorem parse?_setsText_empty_set :
    ∃ r, parse? "npm:x@~ v=1.2 || || 1.0.0-a+b - 2" = some r ∧
      setsText r.sets = ">=1.2.0 <1.3.0-0 ||  || >=1.0.0-a <3.0.0-0" ∧
      parse? ">=1.2.0 <1.3.0-0 ||  || >=1.0.0-a <3.0.0-0" =
        some ⟨">=1.2.0 <1.3.0-0 ||  || >=1.0.0-a <3.0.0-0", r.sets⟩ := by
  have h : parse? "npm:x@~ v=1.2 || || 1.0.0-a+b - 2" =
      some ⟨"npm:x@~ v=1.2 || || 1.0.0-a+b - 2",
        [[⟨.atLeast, ⟨1, 2, 0, []⟩⟩, ⟨.less, ⟨1, 3, 0, ["0"]⟩⟩], [],
          [⟨.atLeast, ⟨1, 0, 0, ["a"]⟩⟩, ⟨.less, ⟨3, 0, 0, ["0"]⟩⟩]]⟩ := by decide
  exact ⟨_, h, by decide, parse?_setsText h⟩

/-! ## 3. Printed versions -/

/-- Equality names the version, so it admits a prerelease as well. -/
theorem admits_equal_iff (v w : Version) :
    ComparatorSet.admits [⟨.equal, v⟩] w = true ↔ w = v := by
  rw [ComparatorSet.admits, ComparatorSet.allAdmit, List.all_cons, List.all_nil, Bool.and_true,
    Comparator.admits, Bool.and_eq_true, beq_iff_eq, and_iff_left_iff_imp]
  rintro rfl
  cases h : w.prerelease.isEmpty <;> simp [Comparator.namesPrereleaseOf, h]

/-- **A printed version names itself only.** What was read as a version is read
back from its printed text, and as a range that text admits this version and
no other. -/
theorem names_only_of_parse? {text : String} {v : Version} (h : Version.parse? text = some v) :
    Version.parse? v.toText = some v ∧
      ∃ r, parse? v.toText = some r ∧ ∀ w, r.admits w = true ↔ w = v := by
  have hv : v.Written := Version.written_of_parse? h
  have hword : wordText (.bare, v) = v.toText := wordText_operator ⟨.equal, v⟩
  have hset : Operator.bare.apply (.ofVersion v) = [⟨.equal, v⟩] := apply_operator ⟨.equal, v⟩
  have hread := Interval.parse?_wordText .bare hv
  rw [hword, hset] at hread
  refine ⟨Version.parse?_toText hv, _, hread, fun w => ?_⟩
  rw [← admits_equal_iff v w]
  simp [admits]

/-- Marks, digits of two scripts, a numeric identifier with a leading zero, a
hyphen as an identifier and build metadata. -/
theorem names_only_of_parse?_prerelease :
    Version.parse? " v= 1.٢.03-rc.01.-+b " = some ⟨1, 2, 3, ["rc", "01", "-"]⟩ ∧
    ∃ r, parse? "1.2.3-rc.01.-" = some r ∧ r.admits ⟨1, 2, 3, ["rc", "01", "-"]⟩ = true ∧
      r.admits ⟨1, 2, 3, ["rc", "1", "-"]⟩ = false := by
  have h : Version.parse? " v= 1.٢.03-rc.01.-+b " = some ⟨1, 2, 3, ["rc", "01", "-"]⟩ := by decide
  obtain ⟨_, r, hr, hadmits⟩ := names_only_of_parse? h
  refine ⟨h, r, hr, (hadmits _).mpr rfl, ?_⟩
  rw [← Bool.not_eq_true, hadmits]
  decide

end Range

end PackageAudit
