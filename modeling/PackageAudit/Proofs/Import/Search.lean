/-
PackageAudit.Proofs.Import.Search — what a search for a phrase finds.

Each find of a search is a beginning of what is left of the text at some place,
behind a character that may stand there (`exists_of_mem_findAll`). The other way
around, a search can be followed along a text that is given in parts: it passes
over a part in which the phrase fails everywhere (`findFrom_quiet`), and over a
part that the phrase takes, which it reports (`findFrom_hit`). What follows a
part belongs to both statements, because a phrase may look beyond it.
-/
import PackageAudit.Import.Search
import PackageAudit.Proofs.Text.Cut

namespace PackageAudit.Import

variable {α : Type} {allowed : Option Char → Bool} {p : Phrase α} {a : α}
  {position i skip : Nat} {before : Option Char} {cs rest : List Char}

/-! ## 1. Where finds are -/

/-- The last character of a list, and `before` if it is empty. -/
theorem getLast?_cons_or (c : Char) (cs : List Char) (before : Option Char) :
    (c :: cs).getLast?.or before = cs.getLast?.or (some c) := by
  cases h : cs.getLast? with
  | none => simp [List.getLast?_cons, h]
  | some d => simp [List.getLast?_cons, h]

theorem exists_of_mem_findFrom (h : (i, a) ∈ findFrom allowed p position before skip cs) :
    ∃ front found taken, cs = front ++ found ∧ i = position + front.length ∧ found ≠ [] ∧
      allowed (front.getLast?.or before) = true ∧ p found = some (a, taken) := by
  induction cs generalizing position before skip with
  | nil => simp [findFrom] at h
  | cons c cs ih =>
    have hlater : ∀ {skip'}, (i, a) ∈ findFrom allowed p (position + 1) (some c) skip' cs →
        ∃ front found taken, c :: cs = front ++ found ∧ i = position + front.length ∧ found ≠ [] ∧
          allowed (front.getLast?.or before) = true ∧ p found = some (a, taken) := by
      intro skip' hmem
      obtain ⟨front, found, taken, rfl, rfl, hne, hallowed, hfound⟩ := ih hmem
      rw [← getLast?_cons_or c front before] at hallowed
      exact ⟨c :: front, found, taken, rfl, by simp [Nat.add_comm, Nat.add_left_comm], hne,
        hallowed, hfound⟩
    cases skip with
    | succ skip => exact hlater h
    | zero =>
      rw [findFrom] at h
      split at h
      · rename_i b taken hfound
        split at hfound
        · rename_i hallowed
          rcases List.mem_cons.mp h with heq | hmem
          · obtain ⟨rfl, rfl⟩ := Prod.mk.inj heq
            exact ⟨[], c :: cs, taken, rfl, rfl, by simp, hallowed, hfound⟩
          · exact hlater hmem
        · cases hfound
      · exact hlater h

/-- A find is at the front of what is left of the text at its position. -/
theorem exists_of_mem_findAll (h : (i, a) ∈ findAll allowed p cs) :
    ∃ front found taken, cs = front ++ found ∧ i = front.length ∧ found ≠ [] ∧
      allowed front.getLast? = true ∧ p found = some (a, taken) := by
  obtain ⟨front, found, taken, hcs, hi, hne, hallowed, hfound⟩ := exists_of_mem_findFrom h
  rw [Option.or_none] at hallowed
  exact ⟨front, found, taken, hcs, hi.trans (Nat.zero_add _), hne, hallowed, hfound⟩

/-! ## 2. Following a search -/

/-- A phrase fails at each character of a part of a text that `rest` follows. -/
inductive Quiet (p : Phrase α) (rest : List Char) : List Char → Prop where
  | nil : Quiet p rest []
  | cons {c : Char} {cs : List Char} (hc : p (c :: (cs ++ rest)) = none) (h : Quiet p rest cs) :
      Quiet p rest (c :: cs)

theorem Quiet.append {back : List Char} (hcs : Quiet p (back ++ rest) cs)
    (hback : Quiet p rest back) : Quiet p rest (cs ++ back) := by
  induction hcs with
  | nil => exact hback
  | cons hc _ ih =>
    rw [List.cons_append]
    exact .cons (by rwa [List.append_assoc]) ih

theorem findFrom_quiet (h : Quiet p rest cs) :
    findFrom allowed p position before 0 (cs ++ rest) =
      findFrom allowed p (position + cs.length) (cs.getLast?.or before) 0 rest := by
  induction h generalizing position before with
  | nil => rfl
  | @cons c cs hc _ ih =>
    rw [List.cons_append, findFrom, hc, ite_self, ih, getLast?_cons_or, List.length_cons,
      Nat.add_right_comm, Nat.add_assoc]

theorem findFrom_skip (rest : List Char) :
    findFrom allowed p position before cs.length (cs ++ rest) =
      findFrom allowed p (position + cs.length) (cs.getLast?.or before) 0 rest := by
  induction cs generalizing position before with
  | nil => rfl
  | cons c cs ih =>
    rw [List.length_cons, List.cons_append, findFrom, ih, getLast?_cons_or, Nat.add_right_comm,
      Nat.add_assoc]

/-- A part that the phrase takes is reported, and the search goes on behind it. -/
theorem findFrom_hit (hne : cs ≠ []) (hallowed : allowed before = true)
    (hp : p (cs ++ rest) = some (a, cs.length)) :
    findFrom allowed p position before 0 (cs ++ rest) =
      (position, a) :: findFrom allowed p (position + cs.length) cs.getLast? 0 rest := by
  obtain ⟨c, cs, rfl⟩ := List.exists_cons_of_ne_nil hne
  rw [List.cons_append] at hp ⊢
  rw [findFrom, if_pos hallowed, hp]
  dsimp only
  rw [List.length_cons, Nat.add_sub_cancel, findFrom_skip, ← getLast?_cons_or c cs none,
    Option.or_none, Nat.add_right_comm, Nat.add_assoc]

/-! ## 3. Parts of phrases -/

theorem exists_skipSpace (cs : List Char) :
    ∃ gap, cs = gap ++ skipSpace cs ∧ ∀ c ∈ gap, Text.isSpace c = true :=
  ⟨cs.takeWhile Text.isSpace, List.takeWhile_append_dropWhile.symm,
    List.all_eq_true.mp List.all_takeWhile⟩

theorem exists_of_skipSpace1? (h : skipSpace1? cs = some rest) :
    ∃ c gap, cs = c :: (gap ++ rest) ∧ Text.isSpace c = true ∧
      ∀ d ∈ gap, Text.isSpace d = true := by
  cases cs with
  | nil => cases h
  | cons c cs =>
    rw [skipSpace1?] at h
    split at h
    · rename_i hc
      obtain rfl := Option.some.inj h
      obtain ⟨gap, hcs, hgap⟩ := exists_skipSpace cs
      exact ⟨c, gap, by rw [← hcs], hc, hgap⟩
    · cases h

theorem quotedText?_quoted {quotes excluded name : List Char} {q : Char} (hq : q ∈ quotes)
    (hexcluded : q ∈ excluded) (hne : name ≠ []) (hname : ∀ c ∈ name, c ∉ excluded) :
    quotedText? quotes excluded (q :: (name ++ q :: rest)) =
      some (String.ofList name, name.length + 2) := by
  have hbody : (name ++ q :: rest).takeWhile (fun c => !excluded.contains c) = name :=
    Text.takeWhile_append_stop (by simpa using hname) (by simpa using hexcluded)
  rw [quotedText?, if_pos (List.contains_iff_mem.mpr hq)]
  dsimp only
  rw [hbody, List.drop_left]
  simp [hne]

theorem taken_append (front rest : List Char) : taken (front ++ rest) rest = front.length := by
  rw [taken, List.length_append, Nat.add_sub_cancel]

theorem drop_taken (h : rest <:+ cs) : cs.drop (taken cs rest) = rest :=
  (List.suffix_iff_eq_drop.mp h).symm

end PackageAudit.Import
