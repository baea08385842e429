/-
PackageAudit.Proofs.Version.Token — the words that are read as partial
versions.

A word is read from left to right, and every reading step passes over
characters of a few kinds only (`Passes`); what all steps together have read
is the whole word. So a word that was read has marks, `v` and `=`, behind them
a digit or the sign of an open part, and then no blank, no bar and no operator
(`exists_marks_of_parse?`).
-/
import PackageAudit.Proofs.Version.Text

namespace PackageAudit.PartialVersion

/-! ## 1. Characters -/

/-- A character that may stand behind the marks of a word. -/
def isTokenChar (c : Char) : Bool :=
  Text.isDecimal c || Version.isVersionChar c || c == '+' || c == '*'

theorem isSpace_of_isTokenChar {c : Char} (h : isTokenChar c = true) : Text.isSpace c = false := by
  simp only [isTokenChar, Bool.or_eq_true, beq_iff_eq] at h
  rcases h with ((h | h) | rfl) | rfl
  · exact Text.isSpace_of_isDecimal h
  · exact Version.isSpace_of_isVersionChar h
  · decide
  · decide

/-- What was read on the way to a rest are characters of words. -/
def Passes (cs rest : List Char) : Prop := ∀ c ∈ cs, isTokenChar c = true ∨ c ∈ rest

section

variable {cs rest : List Char}

theorem Passes.refl (cs : List Char) : Passes cs cs := fun _ hc => Or.inr hc

theorem Passes.trans {ds : List Char} (h : Passes cs ds) (h' : Passes ds rest) :
    Passes cs rest := by
  intro c hc
  rcases h c hc with hc | hc
  · exact Or.inl hc
  · exact h' c hc

theorem Passes.cons {c : Char} (hc : isTokenChar c = true) (h : Passes cs rest) :
    Passes (c :: cs) rest := by
  intro d hd
  rcases List.mem_cons.mp hd with rfl | hd
  · exact Or.inl hc
  · exact h d hd

/-- A run of characters of words is passed over. -/
theorem passes_drop_takeWhile {p : Char → Bool} (hp : ∀ c, p c = true → isTokenChar c = true)
    (cs : List Char) : Passes cs (cs.drop (cs.takeWhile p).length) := by
  intro c hc
  have hrun := List.prefix_iff_eq_take.mp (List.takeWhile_prefix p (l := cs))
  rw [← List.take_append_drop (cs.takeWhile p).length cs, List.mem_append, ← hrun] at hc
  exact hc.imp_left fun hc => hp c (List.mem_takeWhile_imp hc)

theorem passes_part? {n : Option Nat} (h : part? cs = some (n, rest)) : Passes cs rest := by
  rw [part?.eq_def] at h
  split at h
  · split at h
    · rename_i hopen
      cases h
      refine Passes.cons ?_ (Passes.refl _)
      simp only [Bool.or_eq_true, beq_iff_eq] at hopen
      rcases hopen with (rfl | rfl) | rfl <;> decide
    · simp only [Version.number?, Option.map_eq_some_iff, Option.ite_none_left_eq_some,
        Option.some.injEq] at h
      obtain ⟨_, ⟨_, rfl⟩, hrest⟩ := h
      cases hrest
      exact passes_drop_takeWhile (fun d hd => by simp [isTokenChar, hd]) _
  · cases h

theorem passes_afterDot? (h : Version.afterDot? cs = some rest) : Passes cs rest := by
  rw [Version.afterDot?.eq_def] at h
  split at h
  · cases h
    exact Passes.cons (by decide) (Passes.refl _)
  · cases h

theorem passes_identifiers? {identifiers : List String}
    (h : Version.identifiers? cs = some (identifiers, rest)) : Passes cs rest := by
  simp only [Version.identifiers?, Option.ite_none_left_eq_some, Option.some.injEq,
    Prod.mk.injEq] at h
  obtain ⟨_, _, rfl⟩ := h
  exact passes_drop_takeWhile (fun c hc => by simp [isTokenChar, Version.isVersionChar, hc]) cs

theorem passes_prerelease? {identifiers : List String}
    (h : Version.prerelease? cs = some (identifiers, rest)) : Passes cs rest := by
  rw [Version.prerelease?.eq_def] at h
  split at h
  · exact Passes.cons (by decide) (passes_identifiers? h)
  · cases h
    exact Passes.refl _

theorem passes_afterBuild? (h : Version.afterBuild? cs = some rest) : Passes cs rest := by
  rw [Version.afterBuild?.eq_def] at h
  split at h
  · obtain ⟨⟨identifiers, ds⟩, hread, rfl⟩ := Option.map_eq_some_iff.mp h
    exact Passes.cons (by decide) (passes_identifiers? hread)
  · cases h
    exact Passes.refl _

end

/-! ## 2. Words -/

section

variable {word : List Char} {p : PartialVersion}

/-- A word that was read begins with a part, goes on with characters of words,
and its parts are those of the partial version. -/
theorem exists_part_of_parse? (h : parse? word = some p) :
    ∃ major rest, part? (Version.dropMarks word) = some (major, rest) ∧ Passes rest [] ∧
      ∃ minor patch prerelease, p = ofParts major minor patch prerelease := by
  simp only [parse?, Option.bind_eq_bind, Option.bind_eq_some_iff] at h
  obtain ⟨⟨major, afterMajor⟩, hmajor, h⟩ := h
  refine ⟨major, afterMajor, hmajor, ?_⟩
  dsimp only at h
  split at h
  · cases h
    exact ⟨Passes.refl [], none, none, [], rfl⟩
  · simp only [Option.bind_eq_some_iff] at h
    obtain ⟨_, hdot, ⟨minor, afterMinor⟩, hminor, h⟩ := h
    have hpasses := (passes_afterDot? hdot).trans (passes_part? hminor)
    dsimp only at h hpasses
    split at h
    · cases h
      exact ⟨hpasses, minor, none, [], rfl⟩
    · simp only [Option.bind_eq_some_iff] at h
      obtain ⟨_, hdot, ⟨patch, afterPatch⟩, hpatch, ⟨prerelease, afterPrerelease⟩, hprerelease,
        rest, hbuild, _, hguard, h⟩ := h
      cases h
      have hrest : rest = [] := by simpa [guard] using hguard
      subst hrest
      exact ⟨hpasses.trans ((passes_afterDot? hdot).trans ((passes_part? hpatch).trans
        ((passes_prerelease? hprerelease).trans (passes_afterBuild? hbuild)))),
        minor, patch, prerelease, rfl⟩

/-- A digit or the sign of an open part. -/
def startsPart (c : Char) : Bool := Text.isDecimal c || c == 'x' || c == 'X' || c == '*'

theorem startsPart_of_part? {c : Char} {cs rest : List Char} {n : Option Nat}
    (h : part? (c :: cs) = some (n, rest)) : startsPart c = true := by
  rw [part?] at h
  split at h
  · rename_i hopen
    simp only [Bool.or_eq_true, beq_iff_eq] at hopen
    rcases hopen with (rfl | rfl) | rfl <;> rfl
  · cases hc : Text.isDecimal c with
    | true => simp [startsPart, hc]
    | false => simp [Version.number?, hc] at h

/-- A word that was read has marks, the first character of a part and further
characters of words. -/
theorem exists_marks_of_parse? (h : parse? word = some p) :
    ∃ marks first rest, word = marks ++ first :: rest ∧ (∀ c ∈ marks, c = 'v' ∨ c = '=') ∧
      startsPart first = true ∧ ∀ c ∈ first :: rest, isTokenChar c = true := by
  obtain ⟨major, afterMajor, hmajor, hpasses, _⟩ := exists_part_of_parse? h
  have hchars := (passes_part? hmajor).trans hpasses
  cases hread : Version.dropMarks word with
  | nil =>
    rw [hread] at hmajor
    cases hmajor
  | cons first rest =>
    rw [hread] at hmajor hchars
    refine ⟨word.takeWhile fun c => c == 'v' || c == '=', first, rest, ?_, ?_,
      startsPart_of_part? hmajor, fun c hc => (hchars c hc).resolve_right List.not_mem_nil⟩
    · rw [← hread, Version.dropMarks, List.takeWhile_append_dropWhile]
    · intro c hc
      simpa using List.mem_takeWhile_imp hc

end

end PackageAudit.PartialVersion
