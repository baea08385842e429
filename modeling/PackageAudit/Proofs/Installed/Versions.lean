/-
PackageAudit.Proofs.Installed.Versions — the versions of a name in their order.

Texts of versions are compared in three ways: by the keys of the versions they
write, with a text that writes none behind all others, and by the texts themselves
where that does not decide. `Before` states these rules. They come down to one key,
`place`, a pair of the sort key, or a top element in place of a missing one, and
the text. The order of places is linear and the text is part of the place, so the
rules decide between any two different texts, whatever they are.

A list sorted by such a key is determined by its members, and the members are the
versions of the packages of a name. So the order in which packages were added
cannot be seen in it (`versions_arranged`).
-/
import PackageAudit.Proofs.Installed.Lookup
import PackageAudit.Proofs.Version.Precedence

namespace PackageAudit

/-! ## 1. The order of version texts -/

namespace Version

variable {a b : String}

/-- One version text stands before another: by its key, before a text that writes
no version, or else, when the keys are equal or both are missing, by itself. -/
inductive Before : String → String → Prop where
  | byKey {a b : String} {k l : Key} (ha : sortKey? a = some k) (hb : sortKey? b = some l)
      (h : k < l) : Before a b
  | unreadableLast {a b : String} {k : Key} (ha : sortKey? a = some k) (hb : sortKey? b = none) :
      Before a b
  | byText {a b : String} (hkey : sortKey? a = sortKey? b) (h : a < b) : Before a b

/-- The place of a text among all: its key, with none above all, then itself. -/
def place (text : String) : WithTop Key ×ₗ String :=
  toLex ((sortKey? text).elim ⊤ fun k => ↑k, text)

theorem place_injective : Function.Injective place :=
  fun _ _ h => congrArg (fun p => (ofLex p).2) h

theorem place_lt_iff : place a < place b ↔
    (sortKey? a).elim (⊤ : WithTop Key) (fun k => ↑k) < (sortKey? b).elim ⊤ (fun k => ↑k) ∨
      sortKey? a = sortKey? b ∧ a < b := by
  rw [place, place, Prod.Lex.toLex_lt_toLex]
  cases sortKey? a <;> cases sortKey? b <;> simp

/-- Standing before is having the lesser place. -/
theorem before_iff : Before a b ↔ place a < place b := by
  rw [place_lt_iff]
  constructor
  · intro h
    cases h with
    | byKey ha hb h =>
      rw [ha, hb]
      exact Or.inl (WithTop.coe_lt_coe.mpr h)
    | unreadableLast ha hb =>
      rw [ha, hb]
      exact Or.inl (WithTop.coe_lt_top _)
    | byText hkey h => exact Or.inr ⟨hkey, h⟩
  · rintro (h | ⟨hkey, h⟩)
    · cases ha : sortKey? a with
      | none => simp [ha] at h
      | some k =>
        cases hb : sortKey? b with
        | none => exact .unreadableLast ha hb
        | some l =>
          rw [ha, hb] at h
          exact .byKey ha hb (WithTop.coe_lt_coe.mp h)
    · exact .byText hkey h

/-- Of two different texts exactly one stands before the other. -/
theorem before_iff_not_before (h : a ≠ b) : Before a b ↔ ¬ Before b a := by
  rw [before_iff, before_iff, not_lt]
  exact ⟨le_of_lt, fun hle => lt_of_le_of_ne hle (place_injective.ne h)⟩

/-- Version texts are sorted by their places. -/
theorem textAtMost_iff (a b : String) : textAtMost a b = true ↔ place a ≤ place b := by
  rw [place, place, Prod.Lex.toLex_le_toLex, textAtMost]
  cases ha : parse? a with
  | none => cases hb : parse? b <;> simp [sortKey?, ha, hb]
  | some v =>
    cases hb : parse? b with
    | none => simp [sortKey?, ha, hb]
    | some w =>
      simp only [sortKey?, ha, hb, Option.map_some, Option.elim_some, WithTop.coe_lt_coe,
        WithTop.coe_inj]
      cases hcompare : compareKey v w with
      | lt =>
        have hlt : v.key < w.key := (compareKey_compares v w).eq_lt.mp hcompare
        simp [hlt]
      | eq =>
        have heq : v.key = w.key := (compareKey_compares v w).eq_eq.mp hcompare
        simp [heq]
      | gt =>
        have hgt : w.key < v.key := (compareKey_compares v w).eq_gt.mp hcompare
        simp [hgt.not_gt, hgt.ne']

instance (a b : String) : Decidable (Before a b) :=
  decidable_of_iff (textAtMost b a = false)
    (by rw [before_iff, ← Bool.not_eq_true, textAtMost_iff, not_le])

end Version

/-! ## 2. The versions of a name -/

namespace Installed

variable {ps qs : List InstalledPackage} {name : String} {list : List String}

/-- A list has the versions of the packages of a name, each once, in order. -/
structure Arranged (ps : List InstalledPackage) (name : String) (list : List String) : Prop where
  mem_iff : ∀ v, v ∈ list ↔ ∃ p ∈ ps, p.name = name ∧ p.version = v
  nodup : list.Nodup
  ordered : list.Pairwise Version.Before

/-- There is one such list at most, whatever order the packages are in. -/
theorem Arranged.unique {other : List String} (h : Arranged ps name list)
    (hother : Arranged qs name other) (hps : ps.Perm qs) : list = other := by
  have hmem : ∀ v, v ∈ list ↔ v ∈ other := by
    intro v
    rw [h.mem_iff, hother.mem_iff]
    simp only [hps.mem_iff]
  have hperm := (List.perm_ext_iff_of_nodup h.nodup hother.nodup).mpr hmem
  refine hperm.eq_of_pairwise (fun a b _ _ hab hba => ?_) h.ordered hother.ordered
  rw [Version.before_iff] at hab hba
  exact absurd hab hba.asymm

theorem arranged_versions (r : Installed) (name : String) :
    Arranged r.packages name (r.versions name) := by
  have hnodup : (Text.distinct ((r.named name).map InstalledPackage.version)).Nodup :=
    Table.nodup_eraseDups _
  refine ⟨fun v => ?_, (List.mergeSort_perm _ _).nodup_iff.mpr hnodup, ?_⟩
  · rw [versions, Version.sortTexts, List.mem_mergeSort, Text.distinct, List.mem_eraseDups,
      List.mem_map, named_eq]
    simp [and_assoc]
  · have hplaces := pairwise_lt_mergeSort Version.place Version.textAtMost_iff
      (hnodup.map Version.place_injective)
    exact hplaces.imp Version.before_iff.mpr

/-- **The list of versions is the arranged one.** In whatever order packages are
added to others, the versions of a name are the same list: the only one that has
each version of a package of the name once and all of them in order. That order
decides between any two different texts. -/
theorem versions_arranged (r : Installed) (name : String) (h : ps.Perm qs) :
    (ps.foldl add r).versions name = (qs.foldl add r).versions name ∧
    (∀ list, Arranged (r.packages ++ ps) name list ↔ list = (ps.foldl add r).versions name) ∧
    ∀ a b, a ≠ b → (Version.Before a b ↔ ¬ Version.Before b a) := by
  have hps := (ps.foldl add r).arranged_versions name
  have hqs := (qs.foldl add r).arranged_versions name
  rw [packages_foldl_add] at hps hqs
  refine ⟨hps.unique hqs (h.append_left _), fun list => ⟨fun hlist => ?_, fun heq => ?_⟩,
    fun a b => Version.before_iff_not_before⟩
  · exact hlist.unique hps (List.Perm.refl _)
  · exact heq ▸ hps

/-- Packages of one name, some of whose versions have one key or write none. -/
def mixedVersions : List InstalledPackage :=
  ["v1.9.0", "latest", "1.10.0", "1.9.0", "1.10.0-rc.2", "1.10.0-rc.10", "", "1.9.0"].map
    fun version => { name := "a", version, location := "/p/node_modules/a" }

/-- Their versions in order. -/
def mixedInOrder : List String :=
  ["1.9.0", "v1.9.0", "1.10.0-rc.2", "1.10.0-rc.10", "1.10.0", "", "latest"]

/-- Added one way or the other the packages give that list. -/
theorem versions_arranged_mixedVersions :
    (mixedVersions.foldl add { root := "/p" }).versions "a" =
      (mixedVersions.reverse.foldl add { root := "/p" }).versions "a" ∧
    mixedInOrder = (mixedVersions.foldl add { root := "/p" }).versions "a" := by
  obtain ⟨hsame, hlist, -⟩ :=
    versions_arranged { root := "/p" } "a" mixedVersions.reverse_perm.symm
  have hversion : ∀ v ∈ mixedInOrder, ∃ p ∈ mixedVersions, p.name = "a" ∧ p.version = v := by
    decide
  have hpackage : ∀ p ∈ mixedVersions, p.version ∈ mixedInOrder := by decide
  refine ⟨hsame, (hlist _).mp ⟨fun v => ⟨hversion v, ?_⟩, by decide, by decide +kernel⟩⟩
  rintro ⟨p, hp, -, rfl⟩
  exact hpackage p hp

end Installed

end PackageAudit
