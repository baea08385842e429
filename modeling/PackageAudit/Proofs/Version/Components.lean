/-
PackageAudit.Proofs.Version.Components — range operators compare components.

An operator on a partial version stands for comparators with complete
versions, whose open numbers are zeros and whose upper ends are one more in
some place. What is meant is simpler: a comparison of as many components of a
version as the partial version has (`Operator.Admits`).

The two are tied together by lists of numbers in lexicographic order. A list
lies from the filled-up `ns` on when its beginning does (`padded_le_iff`), and
below the filled-up successor of `ns` when its beginning is at most `ns`
(`lt_padded_next_iff`). With both, the beginning is `ns` itself. Every
operator is one of these cases, for a beginning of its own length.
-/
import PackageAudit.Proofs.Version.Expression
import Mathlib.Data.List.Lex

namespace PackageAudit

/-! ## 1. Numbers in lexicographic order -/

namespace Version

/-- Numbers filled up with zeros to a length. -/
def padded (n : Nat) (ns : List Nat) : List Nat := ns ++ List.replicate (n - ns.length) 0

/-- The numbers with the last one increased. -/
def next : List Nat → List Nat
  | [] => []
  | [a] => [a + 1]
  | a :: b :: ns => a :: next (b :: ns)

theorem cons_le_cons {a x : Nat} {ns vs : List Nat} :
    a :: ns ≤ x :: vs ↔ a < x ∨ a = x ∧ ns ≤ vs := by
  rw [le_iff_lt_or_eq, List.cons_lt_cons_iff, List.cons.injEq, le_iff_lt_or_eq, or_assoc,
    and_or_left]

theorem nil_le (vs : List Nat) : [] ≤ vs := not_lt.mp (List.not_lt_nil vs)

theorem padded_cons (n a : Nat) (ns : List Nat) :
    padded (n + 1) (a :: ns) = a :: padded n ns := by
  simp [padded]

theorem padded_nil_le (vs : List Nat) : padded vs.length [] ≤ vs := by
  induction vs with
  | nil => exact le_refl []
  | cons x xs ih =>
    have hzero : padded (x :: xs).length [] = 0 :: padded xs.length [] := rfl
    rw [hzero, cons_le_cons]
    rcases Nat.eq_zero_or_pos x with rfl | hx
    · exact Or.inr ⟨rfl, ih⟩
    · exact Or.inl hx

section

variable {ns vs : List Nat}

theorem padded_le_iff (h : ns.length ≤ vs.length) :
    padded vs.length ns ≤ vs ↔ ns ≤ vs.take ns.length := by
  induction ns generalizing vs with
  | nil => exact iff_of_true (padded_nil_le vs) (nil_le _)
  | cons a ns ih =>
    cases vs with
    | nil => cases h
    | cons x xs =>
      have hrest := ih (Nat.le_of_succ_le_succ h)
      rw [List.length_cons, padded_cons, List.length_cons, List.take_succ_cons,
        cons_le_cons, cons_le_cons, hrest]

theorem lt_padded_next_iff (hne : ns ≠ []) (h : ns.length ≤ vs.length) :
    vs < padded vs.length (next ns) ↔ vs.take ns.length ≤ ns := by
  induction ns generalizing vs with
  | nil => exact absurd rfl hne
  | cons a ns ih =>
    cases vs with
    | nil => cases h
    | cons x xs =>
      cases ns with
      | nil =>
        have hlast : ¬ xs < padded xs.length [] := not_lt.mpr (padded_nil_le xs)
        rw [next, List.length_cons, padded_cons, List.cons_lt_cons_iff]
        simp only [hlast, and_false, or_false, List.length_singleton, List.take_succ_cons,
          List.take_zero, cons_le_cons, le_refl, and_true]
        omega
      | cons b ns =>
        have hrest := ih (List.cons_ne_nil b ns) (Nat.le_of_succ_le_succ h)
        rw [next, List.length_cons, padded_cons, List.length_cons, List.take_succ_cons,
          List.cons_lt_cons_iff, cons_le_cons, hrest]

/-- The beginnings of lists are in the order of the lists. -/
theorem take_le_take (h : ns ≤ vs) (m : Nat) : ns.take m ≤ vs.take m := by
  induction m generalizing ns vs with
  | zero => simp
  | succ m ih =>
    cases ns with
    | nil => exact nil_le _
    | cons a ns =>
      cases vs with
      | nil => exact absurd h (not_le.mpr (List.nil_lt_cons a ns : [] < a :: ns))
      | cons x xs =>
        rw [List.take_succ_cons, List.take_succ_cons, cons_le_cons]
        exact (cons_le_cons.mp h).imp_right (And.imp_right ih)

/-- Between the filled-up numbers and the successor of their beginning lie
those that agree with the beginning. -/
theorem between_iff (ns vs : List Nat) (m : Nat) (hm : 0 < m) (hmn : m ≤ ns.length)
    (h : ns.length ≤ vs.length) :
    padded vs.length ns ≤ vs ∧ vs < padded vs.length (next (ns.take m)) ↔
      padded vs.length ns ≤ vs ∧ vs.take m = ns.take m := by
  have hlength : (ns.take m).length = m := by simp [hmn]
  have hne : ns.take m ≠ [] := List.ne_nil_of_length_pos (by omega)
  refine and_congr_right fun hlow => ?_
  rw [lt_padded_next_iff hne (by omega), hlength]
  have hbeginning : ns.take m ≤ vs.take m := by
    have hle := take_le_take ((padded_le_iff h).mp hlow) m
    rwa [List.take_take, min_eq_left hmn] at hle
  exact ⟨fun hhigh => le_antisymm hhigh hbeginning, fun heq => heq.le⟩

end

/-! ## 2. Releases -/

/-- The three numbers of a version, as a list. -/
def numbers (v : Version) : List Nat := [v.major, v.minor, v.patch]

section

variable {ns : List Nat} (h : ns.length ≤ 3) (v : Version)

include h

theorem padded_le_numbers : padded 3 ns ≤ v.numbers ↔ ns ≤ v.numbers.take ns.length := by
  have hvs : ns.length ≤ v.numbers.length := h
  exact padded_le_iff hvs

theorem numbers_lt_padded : v.numbers < padded 3 ns ↔ v.numbers.take ns.length < ns := by
  rw [← not_le, padded_le_numbers h, not_le]

theorem numbers_lt_next (hne : ns ≠ []) :
    v.numbers < padded 3 (next ns) ↔ v.numbers.take ns.length ≤ ns := by
  have hvs : ns.length ≤ v.numbers.length := h
  exact lt_padded_next_iff hne hvs

theorem next_le_numbers (hne : ns ≠ []) :
    padded 3 (next ns) ≤ v.numbers ↔ ns < v.numbers.take ns.length := by
  rw [← not_lt, numbers_lt_next h v hne, not_le]

end

section

variable {v u : Version}

/-- A release comes before a version when its numbers do. -/
theorem precedes_iff_numbers (hv : v.prerelease = []) :
    v.precedes u = true ↔ v.numbers < u.numbers := by
  rw [← precedes_release hv, precedes_iff]
  simp [key, Prod.Lex.toLex_lt_toLex, numbers, List.cons_lt_cons_iff, hv]

theorem atLeast_iff_numbers (hv : v.prerelease = []) :
    v.atLeast u = true ↔ u.numbers ≤ v.numbers := by
  rw [atLeast, Bool.not_eq_true', ← Bool.not_eq_true, precedes_iff_numbers hv, not_lt]

theorem eq_iff_numbers (hv : v.prerelease = []) (hu : u.prerelease = []) :
    v = u ↔ v.numbers = u.numbers := by
  obtain ⟨a, b, c, pre⟩ := v
  obtain ⟨d, e, f, pre'⟩ := u
  subst hv hu
  simp [numbers]

theorem exceeds_iff_numbers (hv : v.prerelease = []) (hu : u.prerelease = []) :
    v.exceeds u = true ↔ u.numbers < v.numbers := by
  rw [exceeds, Bool.and_eq_true, Bool.not_eq_true', ← Bool.not_eq_true, precedes_iff_numbers hv,
    not_lt, bne_iff_ne, Ne, eq_iff_numbers hv hu, lt_iff_le_and_ne, ne_comm]

theorem atMost_iff_numbers (hv : v.prerelease = []) (hu : u.prerelease = []) :
    v.atMost u = true ↔ v.numbers ≤ u.numbers := by
  rw [atMost, Bool.or_eq_true, precedes_iff_numbers hv, beq_iff_eq, eq_iff_numbers hv hu,
    le_iff_lt_or_eq]

end

end Version

/-! ## 3. Partial versions -/

namespace PartialVersion

open Version (padded next)

/-- The numbers before the first open part. -/
def numbers (p : PartialVersion) : List Nat :=
  match p.major, p.minor, p.patch with
  | none, _, _ => []
  | some major, none, _ => [major]
  | some major, some minor, none => [major, minor]
  | some major, some minor, some patch => [major, minor, patch]

/-- The partial version with these numbers, up to three, and nothing else. -/
def ofNumbers (ns : List Nat) : PartialVersion := ⟨ns[0]?, ns[1]?, ns[2]?, []⟩

theorem length_numbers_le (p : PartialVersion) : p.numbers.length ≤ 3 := by
  rw [numbers]
  split <;> simp

/-- A word without prerelease part is read as the numbers in it. -/
theorem eq_ofNumbers_of_parse? {word : List Char} {p : PartialVersion}
    (h : parse? word = some p) (hp : p.prerelease = []) : p = ofNumbers p.numbers := by
  obtain ⟨major, _, _, _, minor, patch, prerelease, rfl⟩ := exists_part_of_parse? h
  cases major with
  | none => rfl
  | some a =>
    cases minor with
    | none => rfl
    | some b =>
      cases patch with
      | none => rfl
      | some c =>
        obtain rfl : prerelease = [] := hp
        rfl

section

variable {ns : List Nat} {v : Version}

/-- The four shapes of a partial version. -/
theorem shapes (h : ns.length ≤ 3) :
    ns = [] ∨ (∃ a, ns = [a]) ∨ (∃ a b, ns = [a, b]) ∨ ∃ a b c, ns = [a, b, c] := by
  match ns, h with
  | [], _ => exact Or.inl rfl
  | [a], _ => exact Or.inr (Or.inl ⟨a, rfl⟩)
  | [a, b], _ => exact Or.inr (Or.inr (Or.inl ⟨a, b, rfl⟩))
  | [a, b, c], _ => exact Or.inr (Or.inr (Or.inr ⟨a, b, c, rfl⟩))

theorem allAdmit_from (hv : v.prerelease = []) (l : Version) :
    ComparatorSet.allAdmit [from_ l] v = true ↔ l.numbers ≤ v.numbers := by
  simp [ComparatorSet.allAdmit, Comparator.admits, from_, Version.atLeast_iff_numbers hv]

theorem allAdmit_below (hv : v.prerelease = []) (u : Version) :
    ComparatorSet.allAdmit [below u] v = true ↔ v.numbers < u.numbers := by
  simp [ComparatorSet.allAdmit, Comparator.admits, below, Version.precedes_iff_numbers hv]

theorem allAdmit_atMost (hv : v.prerelease = []) {u : Version} (hu : u.prerelease = []) :
    ComparatorSet.allAdmit [⟨.atMost, u⟩] v = true ↔ v.numbers ≤ u.numbers := by
  simp [ComparatorSet.allAdmit, Comparator.admits, Version.atMost_iff_numbers hv hu]

theorem allAdmit_greater (hv : v.prerelease = []) {u : Version} (hu : u.prerelease = []) :
    ComparatorSet.allAdmit [⟨.greater, u⟩] v = true ↔ u.numbers < v.numbers := by
  simp [ComparatorSet.allAdmit, Comparator.admits, Version.exceeds_iff_numbers hv hu]

theorem allAdmit_equal (hv : v.prerelease = []) {u : Version} (hu : u.prerelease = []) :
    ComparatorSet.allAdmit [⟨.equal, u⟩] v = true ↔ v.numbers = u.numbers := by
  simp [ComparatorSet.allAdmit, Comparator.admits, Version.eq_iff_numbers hv hu]

theorem allAdmit_from_below_iff (hv : v.prerelease = []) (l u : Version) :
    ComparatorSet.allAdmit [from_ l, below u] v = true ↔
      l.numbers ≤ v.numbers ∧ v.numbers < u.numbers := by
  simp [ComparatorSet.allAdmit, Comparator.admits, from_, below,
    Version.atLeast_iff_numbers hv, Version.precedes_iff_numbers hv]

/-- Bounds at the filled-up numbers and at the successor of their beginning
admit what agrees with the beginning. -/
theorem allAdmit_between (h : ns.length ≤ 3) (hv : v.prerelease = []) {m : Nat} (hm : 0 < m)
    (hmn : m ≤ ns.length) {l u : Version} (hl : l.numbers = padded 3 ns)
    (hu : u.numbers = padded 3 (next (ns.take m))) :
    ComparatorSet.allAdmit [from_ l, below u] v = true ↔
      padded 3 ns ≤ v.numbers ∧ v.numbers.take m = ns.take m := by
  rw [allAdmit_from_below_iff hv, hl, hu]
  exact Version.between_iff ns v.numbers m hm hmn h

theorem admits_onward (h : ns.length ≤ 3) (hv : v.prerelease = []) :
    (ofNumbers ns).onward.allAdmit v = true ↔ ns ≤ v.numbers.take ns.length := by
  rw [← Version.padded_le_numbers h]
  obtain rfl | ⟨a, rfl⟩ | ⟨a, b, rfl⟩ | ⟨a, b, c, rfl⟩ := shapes h
  · exact iff_of_true rfl (Version.padded_nil_le v.numbers)
  · exact allAdmit_from hv _
  · exact allAdmit_from hv _
  · exact allAdmit_from hv _

theorem admits_under (h : ns.length ≤ 3) (hv : v.prerelease = []) :
    (ofNumbers ns).under.allAdmit v = true ↔ v.numbers.take ns.length < ns := by
  rw [← Version.numbers_lt_padded h]
  obtain rfl | ⟨a, rfl⟩ | ⟨a, b, rfl⟩ | ⟨a, b, c, rfl⟩ := shapes h
  · exact allAdmit_below hv _
  · exact allAdmit_below hv _
  · exact allAdmit_below hv _
  · exact allAdmit_below hv _

theorem admits_upTo (h : ns.length ≤ 3) (hv : v.prerelease = []) :
    (ofNumbers ns).upTo.allAdmit v = true ↔ v.numbers.take ns.length ≤ ns := by
  obtain rfl | ⟨a, rfl⟩ | ⟨a, b, rfl⟩ | ⟨a, b, c, rfl⟩ := shapes h
  · exact iff_of_true rfl (le_refl [])
  · rw [← Version.numbers_lt_next h v (List.cons_ne_nil _ _)]
    exact allAdmit_below hv _
  · rw [← Version.numbers_lt_next h v (List.cons_ne_nil _ _)]
    exact allAdmit_below hv _
  · exact allAdmit_atMost hv rfl

theorem admits_above (h : ns.length ≤ 3) (hv : v.prerelease = []) :
    (ofNumbers ns).above.allAdmit v = true ↔ ns < v.numbers.take ns.length := by
  obtain rfl | ⟨a, rfl⟩ | ⟨a, b, rfl⟩ | ⟨a, b, c, rfl⟩ := shapes h
  · -- Nothing lies below the least release.
    have hleast : ¬ v.numbers < (ceiling 0).numbers := not_lt.mpr (Version.padded_nil_le v.numbers)
    exact (allAdmit_below hv _).trans (iff_of_false hleast (lt_irrefl []))
  · rw [← Version.next_le_numbers h v (List.cons_ne_nil _ _)]
    exact allAdmit_from hv _
  · rw [← Version.next_le_numbers h v (List.cons_ne_nil _ _)]
    exact allAdmit_from hv _
  · exact allAdmit_greater hv rfl

theorem admits_completions (h : ns.length ≤ 3) (hv : v.prerelease = []) :
    (ofNumbers ns).completions.allAdmit v = true ↔ v.numbers.take ns.length = ns := by
  -- Numbers that begin with `ns` lie from the filled-up `ns` on by themselves.
  have hbegins : padded 3 ns ≤ v.numbers ∧ v.numbers.take ns.length = ns.take ns.length ↔
      v.numbers.take ns.length = ns := by
    rw [List.take_length, and_iff_right_iff_imp]
    exact fun heq => (Version.padded_le_numbers h v).mpr heq.ge
  obtain rfl | ⟨a, rfl⟩ | ⟨a, b, rfl⟩ | ⟨a, b, c, rfl⟩ := shapes h
  · exact iff_of_true rfl rfl
  · exact (allAdmit_between h hv Nat.one_pos (Nat.le_refl 1) rfl rfl).trans hbegins
  · exact (allAdmit_between h hv Nat.two_pos (Nat.le_refl 2) rfl rfl).trans hbegins
  · exact allAdmit_equal hv rfl

theorem admits_tilde (h : ns.length ≤ 3) (hv : v.prerelease = []) :
    (ofNumbers ns).tilde.allAdmit v = true ↔ padded 3 ns ≤ v.numbers ∧
      v.numbers.take (min ns.length 2) = ns.take (min ns.length 2) := by
  obtain rfl | ⟨a, rfl⟩ | ⟨a, b, rfl⟩ | ⟨a, b, c, rfl⟩ := shapes h
  · exact iff_of_true rfl ⟨Version.padded_nil_le v.numbers, rfl⟩
  · exact allAdmit_between h hv Nat.one_pos (by simp) rfl rfl
  · exact allAdmit_between h hv Nat.two_pos (by simp) rfl rfl
  · exact allAdmit_between h hv Nat.two_pos (by simp) rfl rfl

/-- How many numbers a caret keeps: up to the first one that is not zero, or
all if all are zero. -/
def kept (ns : List Nat) : Nat := min ns.length ((ns.takeWhile (· == 0)).length + 1)

theorem admits_caret (h : ns.length ≤ 3) (hv : v.prerelease = []) :
    (ofNumbers ns).caret.allAdmit v = true ↔ padded 3 ns ≤ v.numbers ∧
      v.numbers.take (kept ns) = ns.take (kept ns) := by
  obtain rfl | ⟨a, rfl⟩ | ⟨a, b, rfl⟩ | ⟨a, b, c, rfl⟩ := shapes h
  · exact iff_of_true rfl ⟨Version.padded_nil_le v.numbers, rfl⟩
  · have hkept : kept [a] = 1 := by simp [kept]
    rw [hkept]
    exact allAdmit_between h hv Nat.one_pos (by simp) rfl rfl
  -- With more numbers the first ones decide which of them is kept last.
  · cases a with
    | zero => exact allAdmit_between h hv Nat.two_pos (by simp) rfl rfl
    | succ a => exact allAdmit_between h hv Nat.one_pos (by simp) rfl rfl
  · cases a with
    | zero =>
      cases b with
      | zero => exact allAdmit_between h hv (Nat.succ_pos 2) (by simp) rfl rfl
      | succ b => exact allAdmit_between h hv Nat.two_pos (by simp) rfl rfl
    | succ a => exact allAdmit_between h hv Nat.one_pos (by simp) rfl rfl

end

end PartialVersion

/-! ## 4. Range texts -/

namespace Range

open Version (padded)
open PartialVersion (kept)

/-- What an operator on numbers asks of the numbers of a version. -/
def Operator.Admits (op : Operator) (ns vs : List Nat) : Prop :=
  match op with
  | .bare => vs.take ns.length = ns
  | .above => ns < vs.take ns.length
  | .onward => ns ≤ vs.take ns.length
  | .under => vs.take ns.length < ns
  | .upTo => vs.take ns.length ≤ ns
  | .tilde => padded 3 ns ≤ vs ∧ vs.take (min ns.length 2) = ns.take (min ns.length 2)
  | .caret => padded 3 ns ≤ vs ∧ vs.take (kept ns) = ns.take (kept ns)

theorem allAdmit_apply (op : Operator) {ns : List Nat} (h : ns.length ≤ 3) {v : Version}
    (hv : v.prerelease = []) :
    (op.apply (.ofNumbers ns)).allAdmit v = true ↔ op.Admits ns v.numbers := by
  cases op with
  | bare => exact PartialVersion.admits_completions h hv
  | caret => exact PartialVersion.admits_caret h hv
  | tilde => exact PartialVersion.admits_tilde h hv
  | above => exact PartialVersion.admits_above h hv
  | onward => exact PartialVersion.admits_onward h hv
  | under => exact PartialVersion.admits_under h hv
  | upTo => exact PartialVersion.admits_upTo h hv

section

variable {word high : String} {p q : PartialVersion}
  (hp : PartialVersion.parse? word.toList = some p)

include hp

/-- An operator in front of a word is a range by itself. -/
theorem parse?_sign (hmark : word.toList.head? ≠ some '=') {op : Operator} {sign : String}
    (hsign : sign ∈ op.signs) : parse? (sign ++ word) = some ⟨sign ++ word, [op.apply p]⟩ := by
  have hword : IsWord (sign.toList ++ word.toList) :=
    (isWord_of_parse? hp).append (isOperatorChar_of_mem_signs hsign)
  have htext : (sign ++ word).toList = joined [sign.toList ++ word.toList] := by
    simp [joined]
  rw [parse?, htext, sets?_words (by simpa using hword), wordsComparators?,
    wordComparators?_sign hp hmark hsign, wordsComparators?]
  simp

/-- A hyphen between two words makes one range of them. -/
theorem parse?_hyphen (hq : PartialVersion.parse? high.toList = some q) :
    parse? (word ++ " - " ++ high) = some ⟨word ++ " - " ++ high, [p.onward ++ q.upTo]⟩ := by
  have hlow := (isWord_of_parse? hp).toIsPiece
  have hhigh := (isWord_of_parse? hq).toIsPiece
  have hpieces : ∀ w ∈ [word.toList, ['-'], high.toList], IsPiece w := by
    simp [hlow, isPiece_hyphen, hhigh]
  have htext : (word ++ " - " ++ high).toList = joined [word.toList, ['-'], high.toList] := by
    simp [joined]
  rw [parse?, htext, sets?_joined hpieces]
  simp only [ofWords?, hyphenComparators?, hp, hq, Option.bind_eq_bind, Option.bind_some]
  rfl

/-- **Operators compare components.** A partial version without prerelease
part is its numbers up to the first open part. An operator in front of it, in
each of its spellings, admits a release exactly when that many numbers of the
release are as the operator says; `low - high` admits it when its numbers are
at least the first and at most the second. -/
theorem admits_iff_components (hrelease : p.prerelease = []) {v : Version}
    (hv : v.prerelease = []) :
    (word.toList.head? ≠ some '=' → ∀ op : Operator, ∀ sign ∈ op.signs,
      ∃ r, parse? (sign ++ word) = some r ∧
        (r.admits v = true ↔ op.Admits p.numbers v.numbers)) ∧
    (∀ (high : String) q, PartialVersion.parse? high.toList = some q → q.prerelease = [] →
      ∃ r, parse? (word ++ " - " ++ high) = some r ∧
        (r.admits v = true ↔ p.numbers ≤ v.numbers.take p.numbers.length ∧
          v.numbers.take q.numbers.length ≤ q.numbers)) := by
  have hpnumbers := PartialVersion.eq_ofNumbers_of_parse? hp hrelease
  constructor
  · intro hmark op sign hsign
    refine ⟨_, parse?_sign hp hmark hsign, ?_⟩
    rw [admits_iff_of_release hv]
    simp only [List.mem_singleton, exists_eq_left]
    rw [← allAdmit_apply op p.length_numbers_le hv, ← hpnumbers]
  · intro high q hq hqrelease
    have hqnumbers := PartialVersion.eq_ofNumbers_of_parse? hq hqrelease
    refine ⟨_, parse?_hyphen hp hq, ?_⟩
    rw [admits_iff_of_release hv]
    simp only [List.mem_singleton, exists_eq_left]
    rw [← PartialVersion.admits_onward p.length_numbers_le hv,
      ← PartialVersion.admits_upTo q.length_numbers_le hv, ← hpnumbers, ← hqnumbers]
    simp [ComparatorSet.allAdmit, List.all_append]

end

/-- A caret keeps the minor number behind a zero, and an upper end that is open
after its major number reaches all versions of it. -/
theorem admits_iff_components_zero_major :
    (∃ r, parse? "^0.2" = some r ∧ r.admits ⟨0, 2, 9, []⟩ = true) ∧
      ∃ r, parse? "0.2 - 1.x.7" = some r ∧ r.admits ⟨1, 8, 0, []⟩ = true := by
  have hlow : PartialVersion.parse? "0.2".toList = some ⟨some 0, some 2, none, []⟩ := by decide
  have hhigh : PartialVersion.parse? "1.x.7".toList = some ⟨some 1, none, none, []⟩ := by decide
  constructor
  · obtain ⟨r, hr, hadmits⟩ :=
      (admits_iff_components hlow rfl (v := ⟨0, 2, 9, []⟩) rfl).1 (by decide) .caret "^" (by decide)
    exact ⟨r, hr, hadmits.mpr ⟨by decide, by decide⟩⟩
  · obtain ⟨r, hr, hadmits⟩ :=
      (admits_iff_components hlow rfl (v := ⟨1, 8, 0, []⟩) rfl).2 "1.x.7" _ hhigh rfl
    exact ⟨r, hr, hadmits.mpr ⟨by decide, by decide⟩⟩

end Range

end PackageAudit
