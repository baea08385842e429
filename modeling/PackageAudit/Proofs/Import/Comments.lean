/-
PackageAudit.Proofs.Import.Comments — what taking comments out leaves.

Whatever comments look like, unterminated, in a string or inside of each other,
what is left of a text is the text with characters other than line ends taken
out (`Thinned`): this is said of each character on its own, so it needs no case
for any of them. The other law is for texts in which nothing looks like a
comment; two neighbours tell that (`Apart`), and such a text is left as it is.
-/
import PackageAudit.Import.Comments
import Mathlib.Data.List.Basic
import Mathlib.Data.List.Chain

namespace PackageAudit.Import

variable {cs ds es front : List Char}

/-! ## 1. Taking characters out -/

/-- A text, and what is left of it when characters other than line ends are
taken out. -/
inductive Thinned : List Char → List Char → Prop where
  | nil : Thinned [] []
  | keep (c : Char) {cs ds : List Char} (h : Thinned cs ds) : Thinned (c :: cs) (c :: ds)
  | drop {c : Char} (hc : c ≠ '\n') {cs ds : List Char} (h : Thinned cs ds) : Thinned (c :: cs) ds

namespace Thinned

theorem trans (h : Thinned cs ds) (h' : Thinned ds es) : Thinned cs es := by
  induction h generalizing es with
  | nil => exact h'
  | keep c _ ih =>
    cases h' with
    | keep _ h' => exact .keep c (ih h')
    | drop hc h' => exact .drop hc (ih h')
  | drop hc _ ih => exact .drop hc (ih h')

/-- Line ends are counted alike before and after. -/
theorem newlines_eq (h : Thinned cs ds) : Text.newlines cs = Text.newlines ds := by
  unfold Text.newlines
  induction h with
  | nil => rfl
  | keep c _ ih => rw [List.count_cons, List.count_cons, ih]
  | drop hc _ ih => rw [List.count_cons_of_ne hc, ih]

/-- Where what is left is cut at a character, the text is cut at the same
character. -/
theorem exists_split {c : Char} {back : List Char} (h : Thinned cs (front ++ c :: back)) :
    ∃ before behind, cs = before ++ c :: behind ∧ Thinned before front ∧ Thinned behind back := by
  generalize hds : front ++ c :: back = ds at h
  induction h generalizing front with
  | nil => simp at hds
  | keep d hrest ih =>
    cases front with
    | nil =>
      obtain ⟨rfl, rfl⟩ := List.cons.inj hds
      exact ⟨[], _, rfl, .nil, hrest⟩
    | cons f front =>
      obtain ⟨rfl, hback⟩ := List.cons.inj hds
      obtain ⟨before, behind, rfl, hbefore, hbehind⟩ := ih hback
      exact ⟨f :: before, behind, rfl, .keep f hbefore, hbehind⟩
  | drop hd _ ih =>
    obtain ⟨before, behind, rfl, hbefore, hbehind⟩ := ih hds
    exact ⟨_ :: before, behind, rfl, .drop hd hbefore, hbehind⟩

end Thinned

/-! ## 2. Comments -/

theorem thinned_dropBlocksFrom (skip : Nat) (cs : List Char) :
    Thinned cs (dropBlocksFrom skip cs) := by
  induction cs generalizing skip with
  | nil =>
    cases skip <;> exact .nil
  | cons c cs ih =>
    cases skip with
    | succ skip =>
      rw [dropBlocksFrom]
      split
      · exact .keep c (ih skip)
      · rename_i hc
        exact .drop (fun h => hc (beq_iff_eq.mpr h)) (ih skip)
    | zero =>
      unfold dropBlocksFrom
      split
      · rename_i rest hc hcs
        split
        · exact .drop (by decide) (ih _)
        · exact .keep _ (ih 0)
      · exact .keep c (ih 0)

theorem thinned_dropLinesFrom (free : Option Char → Bool) (inside : Bool) (before : Option Char)
    (cs : List Char) : Thinned cs (dropLinesFrom free inside before cs) := by
  induction cs generalizing inside before with
  | nil => cases inside <;> exact .nil
  | cons c cs ih =>
    cases inside with
    | true =>
      rw [dropLinesFrom]
      split
      · exact .keep c (ih _ _)
      · rename_i hc
        exact .drop (fun h => hc (beq_iff_eq.mpr h)) (ih _ _)
    | false =>
      rw [dropLinesFrom]
      split
      · rename_i hc
        have hslash : c = '/' := by simp only [Bool.and_eq_true, beq_iff_eq] at hc; exact hc.1.1
        exact .drop (by rw [hslash]; decide) (ih _ _)
      · exact .keep c (ih _ _)

/-- A script without its comments keeps its line ends. -/
theorem thinned_dropScriptComments (content : List Char) :
    Thinned content (dropScriptComments content) :=
  (thinned_dropBlocksFrom 0 content).trans (thinned_dropLinesFrom scriptFree false none _)

/-- A stylesheet without its comments keeps its line ends. -/
theorem thinned_dropStyleComments (content : List Char) :
    Thinned content (dropStyleComments content) :=
  (thinned_dropBlocksFrom 0 content).trans (thinned_dropLinesFrom styleFree false none _)

/-! ## 3. Texts without comments -/

/-- Two characters in which no comment begins: a slash stands where no line
comment may begin, and a star behind no slash. -/
def Apart (b c : Char) : Prop := (c = '/' → scriptFree (some b) = false) ∧ (c = '*' → b ≠ '/')

theorem dropBlocks_eq_self (h : cs.IsChain Apart) : dropBlocks cs = cs := by
  rw [dropBlocks]
  induction cs with
  | nil => rfl
  | cons c cs ih =>
    have hrest := ih (List.isChain_cons.mp h).2
    unfold dropBlocksFrom
    split
    · exact absurd rfl (((List.isChain_cons.mp h).1 '*' rfl).2 rfl)
    · rw [hrest]

theorem dropLinesFrom_eq_self {b : Char} (h : (b :: cs).IsChain Apart) :
    dropLinesFrom scriptFree false (some b) cs = cs := by
  induction cs generalizing b with
  | nil => rfl
  | cons c cs ih =>
    obtain ⟨hb, hcs⟩ := List.isChain_cons.mp h
    have hopen : ¬ (c == '/' && cs.head? == some '/' && scriptFree (some b)) = true := by
      intro hopen
      simp only [Bool.and_eq_true, beq_iff_eq] at hopen
      rw [(hb c rfl).1 hopen.1.1] at hopen
      cases hopen.2
    rw [dropLinesFrom, if_neg hopen, ih hcs]

/-- A script without comments is left as it is. -/
theorem dropScriptComments_eq_self (h : cs.IsChain Apart) (hhead : ∀ c ∈ cs.head?, c ≠ '/') :
    dropScriptComments cs = cs := by
  rw [dropScriptComments, dropBlocks_eq_self h]
  cases cs with
  | nil => rfl
  | cons c cs =>
    have hc : (c == '/') = false := beq_false_of_ne (hhead c rfl)
    rw [dropLinesFrom, hc, Bool.false_and, Bool.false_and, if_neg Bool.false_ne_true,
      dropLinesFrom_eq_self h]

theorem apart_of_ne {b c : Char} (hslash : c ≠ '/') (hstar : c ≠ '*') : Apart b c :=
  ⟨fun h => absurd h hslash, fun h => absurd h hstar⟩

theorem isChain_of_slash_not_mem (h : '/' ∉ cs) : cs.IsChain Apart :=
  (List.pairwise_of_forall_mem_list fun _ hb _ hc =>
    ⟨fun hslash => absurd (hslash ▸ hc) h, fun _ hslash => absurd (hslash ▸ hb) h⟩).isChain

end PackageAudit.Import
