/-
PackageAudit.Proofs.Version.Precedence — precedence is the order of keys.

A version is sorted by its key: the three numbers, then the prerelease part,
each entry a number or a word. The keys are compared as tuples are, from the
left, with numbers before words and a release after all its prereleases. The
library supplies that order ready made: a lexicographic product, a disjoint
sum and a top element. `compareKey_compares` says that the comparison of two
versions is the comparison of their keys in it, and section 2 reads the four
relations off that.

Only the key is linearly ordered. Two different versions can have one key
(`1.0.0-01` and `1.0.0-1`), and neither of them precedes the other.
-/
import PackageAudit.Version.Parser
import Mathlib.Data.List.Lex
import Mathlib.Data.Prod.Lex
import Mathlib.Data.String.Basic
import Mathlib.Data.Sum.Order
import Mathlib.Order.Compare
import Mathlib.Order.WithBot

namespace PackageAudit.Version

/-! ## 1. Keys -/

/-- The place of an identifier among all: numbers, then words. -/
def IdentifierKey.rank : IdentifierKey → ℕ ⊕ₗ String
  | .number n => toLex (.inl n)
  | .word s => toLex (.inr s)

/-- The places of some identifiers. -/
def ranks (identifiers : List String) : List (ℕ ⊕ₗ String) :=
  identifiers.map fun x => (identifierKey x).rank

/-- What a prerelease part is sorted by: a release stands above all lists. -/
def prereleaseKey (identifiers : List String) : WithTop (List (ℕ ⊕ₗ String)) :=
  if identifiers.isEmpty then ⊤ else ↑(ranks identifiers)

/-- What versions are sorted by. -/
abbrev Key := ℕ ×ₗ ℕ ×ₗ ℕ ×ₗ WithTop (List (ℕ ⊕ₗ String))

/-- The sort key of a version. -/
def key (v : Version) : Key :=
  toLex (v.major, toLex (v.minor, toLex (v.patch, prereleaseKey v.prerelease)))

/-- The sort key of a version text. -/
def sortKey? (text : String) : Option Key := (parse? text).map key

theorem IdentifierKey.compare_compares (a b : IdentifierKey) :
    (a.compare b).Compares a.rank b.rank := by
  cases a with
  | number m =>
    cases b with
    | number n => exact Sum.Lex.inl_strictMono.compares.mpr ((compare_iff m n).mp rfl)
    | word t => exact Sum.Lex.inl_lt_inr m t
  | word s =>
    cases b with
    | number n => exact Sum.Lex.inl_lt_inr n s
    | word t =>
      refine Sum.Lex.inr_strictMono.compares.mpr ?_
      simp only [IdentifierKey.compare]
      rcases lt_trichotomy s t with h | h | h
      · rw [if_pos h]; exact h
      · rw [if_neg (h ▸ lt_irrefl s), if_pos h]; exact h
      · rw [if_neg h.asymm, if_neg h.ne']; exact h

theorem compareIdentifiers_compares (as bs : List String) :
    (compareIdentifiers as bs).Compares (ranks as) (ranks bs) := by
  induction as generalizing bs with
  | nil =>
    cases bs with
    | nil => rfl
    | cons b bs => exact List.Lex.nil
  | cons a as ih =>
    cases bs with
    | nil => exact List.Lex.nil
    | cons b bs =>
      have hhead := IdentifierKey.compare_compares (identifierKey a) (identifierKey b)
      simp only [compareIdentifiers, ranks, List.map_cons]
      cases ho : (identifierKey a).compare (identifierKey b) with
      | lt =>
        rw [ho] at hhead
        exact List.Lex.rel hhead
      | gt =>
        rw [ho] at hhead
        exact List.Lex.rel hhead
      | eq =>
        rw [ho, Ordering.compares_eq] at hhead
        rw [hhead]
        have htail := ih bs
        simp only [Ordering.then]
        cases hp : compareIdentifiers as bs with
        | lt => rw [hp] at htail; exact List.Lex.cons htail
        | gt => rw [hp] at htail; exact List.Lex.cons htail
        | eq =>
          rw [hp, Ordering.compares_eq] at htail
          exact congrArg _ htail

theorem comparePrerelease_compares (as bs : List String) :
    (comparePrerelease as bs).Compares (prereleaseKey as) (prereleaseKey bs) := by
  cases as with
  | nil =>
    cases bs with
    | nil => rfl
    | cons b bs => exact WithTop.coe_lt_top _
  | cons a as =>
    cases bs with
    | nil => exact WithTop.coe_lt_top _
    | cons b bs =>
      exact WithTop.coe_strictMono.compares.mpr (compareIdentifiers_compares (a :: as) (b :: bs))

/-- Two comparisons one after the other are the comparison of the pairs. -/
theorem compares_then {α β : Type} [LinearOrder α] [LinearOrder β] {o p : Ordering}
    {a b : α} {c d : β} (h₁ : o.Compares a b) (h₂ : p.Compares c d) :
    (o.then p).Compares (toLex (a, c)) (toLex (b, d)) := by
  cases o with
  | lt => exact Prod.Lex.toLex_lt_toLex.mpr (.inl h₁)
  | gt => exact Prod.Lex.toLex_lt_toLex.mpr (.inl h₁)
  | eq =>
    rw [Ordering.compares_eq] at h₁
    subst h₁
    cases p with
    | lt => exact Prod.Lex.toLex_lt_toLex.mpr (.inr ⟨rfl, h₂⟩)
    | gt => exact Prod.Lex.toLex_lt_toLex.mpr (.inr ⟨rfl, h₂⟩)
    | eq =>
      rw [Ordering.compares_eq] at h₂
      subst h₂
      rfl

/-- Comparing two versions is comparing their keys. -/
theorem compareKey_compares (a b : Version) : (compareKey a b).Compares a.key b.key := by
  exact compares_then ((compare_iff _ _).mp rfl) (compares_then ((compare_iff _ _).mp rfl)
    (compares_then ((compare_iff _ _).mp rfl) (comparePrerelease_compares _ _)))

/-! ## 2. The relations -/

theorem precedes_iff {a b : Version} : a.precedes b = true ↔ a.key < b.key := by
  rw [precedes, beq_iff_eq]
  exact (compareKey_compares a b).eq_lt

theorem beq_eq (a b : Version) : (a == b) =
    (a.major == b.major && (a.minor == b.minor && (a.patch == b.patch &&
      a.prerelease == b.prerelease))) := rfl

instance : LawfulBEq Version where
  rfl {a} := by simp [beq_eq]
  eq_of_beq {a b} h := by
    simp only [beq_eq, Bool.and_eq_true, beq_iff_eq] at h
    obtain ⟨h₁, h₂, h₃, h₄⟩ := h
    cases a
    cases b
    simp_all

theorem atLeast_iff {a b : Version} : a.atLeast b = true ↔ b.key ≤ a.key := by
  rw [atLeast, Bool.not_eq_true', ← Bool.not_eq_true, precedes_iff, not_lt]

theorem atMost_iff {a b : Version} : a.atMost b = true ↔ a.key < b.key ∨ a = b := by
  rw [atMost, Bool.or_eq_true, precedes_iff, beq_iff_eq]

theorem exceeds_iff {a b : Version} : a.exceeds b = true ↔ b.key ≤ a.key ∧ a ≠ b := by
  rw [exceeds, Bool.and_eq_true, ← atLeast, atLeast_iff, bne_iff_ne]

end PackageAudit.Version
