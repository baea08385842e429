/-
PackageAudit.Proofs.Audit.Completion — what an audit owes to the order in
which its work is completed.

The files of a project are put in slots, so nothing that is read shows in which
order they were read (`readIn_eq`). The answers of lookups are taken as they
come; but a declared package has one answer, so the entries, once sorted by
name, are the same in every order (`byName_perm`). Only the warnings about
failed lookups tell the order.
-/
import PackageAudit.Proofs.Audit.Reading

namespace PackageAudit

/-! ## 1. The answers of lookups -/

namespace Outdated

variable {as bs : List Answer}

theorem name_of_ofAnswer? {a : Answer} {o : Outdated} (h : ofAnswer? a = some o) :
    o.name = a.declared.name := by
  rw [ofAnswer?] at h
  split at h
  · obtain ⟨v, -, h⟩ := Option.bind_eq_some_iff.mp h
    obtain ⟨least, -, h⟩ := Option.bind_eq_some_iff.mp h
    obtain ⟨_, -, hentry⟩ := Option.bind_eq_some_iff.mp h
    rw [← Option.some.inj hentry]
  · cases h

/-- Packages of distinct names have entries of distinct names. -/
theorem nodup_entries (h : (as.map (·.declared.name)).Nodup) :
    ((as.filterMap ofAnswer?).map Outdated.name).Nodup := by
  refine List.pairwise_map.mpr (List.Pairwise.filterMap ofAnswer? ?_ (List.pairwise_map.mp h))
  intro a b hne o ho p hp
  rwa [name_of_ofAnswer? ho, name_of_ofAnswer? hp]

/-- **Entries by name** are the same in whatever order they come, if each name
stands once. -/
theorem byName_perm {os ps : List Outdated} (h : os.Perm ps)
    (hnames : (os.map Outdated.name).Nodup) : byName os = byName ps := by
  have hkey : ∀ a b : Outdated, decide (a.name ≤ b.name) = true ↔ a.name ≤ b.name :=
    fun _ _ => decide_eq_true_iff
  exact mergeSort_eq_of_pairwise_lt Outdated.name hkey (h.trans (List.mergeSort_perm ps _).symm)
    (pairwise_lt_mergeSort Outdated.name hkey ((h.map Outdated.name).nodup_iff.mp hnames))

theorem kind_of_warning? {a : Answer} {w : Warning} (h : warning? a = some w) :
    w.kind = .lookupFailed := by
  rw [warning?] at h
  split at h
  · split at h
    · rw [← Option.some.inj h]
    · cases h
  · cases h

/-- Two results with the same entries, and with the same warnings about lookups
but for their order; or two errors. -/
inductive SameButOrder {ε : Type} : Except ε (List Outdated × List Warning) →
    Except ε (List Outdated × List Warning) → Prop where
  | failed (e e' : ε) : SameButOrder (.error e) (.error e')
  | found (entries : List Outdated) {ws ws' : List Warning} (hperm : ws.Perm ws')
      (hkind : ∀ w ∈ ws, w.kind = .lookupFailed) :
      SameButOrder (.ok (entries, ws)) (.ok (entries, ws'))

theorem SameButOrder.mapError {ε ε' : Type} (f : ε → ε')
    {x y : Except ε (List Outdated × List Warning)} (h : SameButOrder x y) :
    SameButOrder (x.mapError f) (y.mapError f) := by
  cases h with
  | failed e e' => exact .failed (f e) (f e')
  | found entries hperm hkind => exact .found entries hperm hkind

/-- **Answers in another order** come to the same. -/
theorem collect_perm (h : as.Perm bs) (hnames : (as.map (·.declared.name)).Nodup) :
    SameButOrder (collect as) (collect bs) := by
  have hstop : (as.findSome? stop?).isSome = (bs.findSome? stop?).isSome := by
    rw [List.isSome_findSome?, List.isSome_findSome?]
    exact h.any_eq
  rw [collect, collect]
  cases has : as.findSome? stop? with
  | some e =>
    rw [has] at hstop
    obtain ⟨e', he'⟩ := Option.isSome_iff_exists.mp hstop.symm
    rw [he']
    exact .failed e e'
  | none =>
    rw [has] at hstop
    have hbs : bs.findSome? stop? = none :=
      Option.isNone_iff_eq_none.mp (Option.isSome_eq_false_iff.mp hstop.symm)
    rw [hbs, byName_perm (h.filterMap ofAnswer?) (nodup_entries hnames)]
    refine .found _ (h.filterMap warning?) fun w hw => ?_
    obtain ⟨a, -, ha⟩ := List.mem_filterMap.mp hw
    exact kind_of_warning? ha

/-- Each declared package has one answer. -/
theorem nodup_answers {lookup : Lookup} {declared : List Declared}
    (h : (declared.map Declared.name).Nodup) :
    ((answers lookup declared).map (·.declared.name)).Nodup := by
  refine List.pairwise_map.mpr (List.Pairwise.filterMap _ ?_ (List.pairwise_map.mp h))
  intro d d' hne a ha a' ha'
  obtain ⟨range, -, rfl⟩ := Option.map_eq_some_iff.mp ha
  obtain ⟨range', -, rfl⟩ := Option.map_eq_some_iff.mp ha'
  exact hne

/-- **Lookups** come to the same in whatever order they are completed. -/
theorem checkIn_order (order order' : (n : Nat) → Completion n) {lookup : Lookup}
    {declared : List Declared} (h : (declared.map Declared.name).Nodup) :
    SameButOrder (checkIn order lookup declared) (checkIn order' lookup declared) := by
  have hperm : ∀ order : (n : Nat) → Completion n,
      (Completion.arrange (answers lookup declared) (order _)).Perm (answers lookup declared) :=
    fun order => Completion.arrange_perm _ _
  refine collect_perm ((hperm order).trans (hperm order').symm) ?_
  exact ((hperm order).map _).nodup_iff.mpr (nodup_answers h)

end Outdated

namespace Audit

variable {r : Request} {m : Material}

/-! ## 2. The audit -/

/-- **Reading** does not depend on the order in which files are read. -/
theorem readIn_eq (s : Schedule) (r : Request) : readIn s r = read r := by
  simp only [read, readIn, Completion.gather_eq]

/-- The packages looked up have distinct names. -/
theorem Reads.nodup_lookedUp (h : Reads r m) (options : Options) :
    ((m.lookedUp options).map Declared.name).Nodup :=
  (Manifest.indexed_of_load h.manifest).nodup_names.sublist (List.filter_sublist.map _)

theorem outdatedIn_order (s s' : Schedule) (h : Reads r m) :
    Outdated.SameButOrder (outdatedIn s r m) (outdatedIn s' r m) := by
  rw [outdatedIn, outdatedIn]
  split
  · exact (Outdated.checkIn_order _ _ (h.nodup_lookedUp r.options)).mapError AuditError.lookup
  · exact .found [] (.refl _) (by simp)

/-- Failed lookups are no files that had to be searched for phrases. -/
theorem degradedCount_append {ws : List Warning} (before : List Warning)
    (h : ∀ w ∈ ws, w.kind = .lookupFailed) :
    degradedCount (before ++ ws) = degradedCount before := by
  have hnone : ws.filter (fun w => w.kind == .degradedExtraction) = [] := by
    rw [List.filter_eq_nil_iff]
    intro w hw
    rw [h w hw]
    decide
  rw [degradedCount, List.filter_append, hnone, List.append_nil, degradedCount]

/-- **The order of work does not show.** However the files are read and the
packages looked up, there is no report in either case, or what has been read is
the same and so are the reports, but for the order of the warnings about failed
lookups, which come last. -/
theorem runIn_order (s s' : Schedule) (r : Request) :
    (∃ e e', runIn s r = .error e ∧ runIn s' r = .error e') ∨
      ∃ m rep rep', readIn s r = .ok m ∧ readIn s' r = .ok m ∧
        runIn s r = .ok rep ∧ runIn s' r = .ok rep' ∧
        rep' = { rep with warnings := rep'.warnings } ∧
        ∃ before ws ws', rep.warnings = before ++ ws ∧ rep'.warnings = before ++ ws' ∧
          ws.Perm ws' ∧ ∀ w ∈ ws, w.kind = .lookupFailed := by
  rw [runIn, runIn, readIn_eq s, readIn_eq s']
  cases hread : read r with
  | error e => exact .inl ⟨e, e, rfl, rfl⟩
  | ok m =>
    have hsame := outdatedIn_order s s' (read_eq_ok_iff.mp hread)
    have hreport : ∀ s, (.ok m >>= reportIn s r) = reportIn s r m := fun _ => rfl
    rw [hreport, hreport, reportIn, reportIn]
    generalize outdatedIn s r m = found at hsame
    generalize outdatedIn s' r m = found' at hsame
    cases hsame with
    | failed e e' => exact .inl ⟨e, e', rfl, rfl⟩
    | @found entries ws ws' hperm hkind =>
      have hkind' : ∀ w ∈ ws', w.kind = .lookupFailed :=
        fun w hw => hkind w (hperm.mem_iff.mpr hw)
      refine .inr ⟨m, _, _, rfl, rfl, rfl, rfl, ?_, m.warnings r.options, ws, ws', rfl, rfl, hperm,
        hkind⟩
      simp only [metadata, degradedCount_append _ hkind, degradedCount_append _ hkind']

end Audit

end PackageAudit
