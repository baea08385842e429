/-
PackageAudit.Proofs.Peer.Accounting — the peer analysis adds up.

The first pass keeps several accounts at once: the rows of each package, the
number of compatible ones, the conflicts and the missing peers. They are
written at different places, and nothing compares them. `Tally.Balances` says
that the accounts show what the rows show. Noting one more check keeps it
(`Balances.note`), hence so does checking the requirements at one location,
and with it the whole pass (`balances_firstPass`).

A row is in exactly one of three states, so the accounts of the states sum up
to the number of rows, and the rows are the requirements, location by
location. `accounting` puts this together for a whole analysis.
-/
import PackageAudit.Peer.Report
import PackageAudit.Proofs.Peer.Passes
import Mathlib.Data.List.Forall2

namespace PackageAudit.Peer

/-! ## 1. The states of a row -/

/-- The peer is not installed. -/
def Check.isAbsent (c : Check) : Bool := c.installedVersion.isNone

/-- The peer is installed in a version that is not accepted. -/
def Check.isRejected (c : Check) : Bool := c.installedVersion.isSome && !c.compatible

/-- A row is in exactly one of three states. -/
def Check.InOneState (c : Check) : Prop :=
  [c.compatible, c.isRejected, c.isAbsent].count true = 1

theorem inOneState_check (installed : Installed) (r : PeerRequirement) :
    (check installed r).InOneState := by
  cases h : installed.resolveFrom? r.peerName r.requiringLocation with
  | none =>
    rw [check_of_missing h]
    rfl
  | some p =>
    rw [check_of_installed h]
    cases hc : (compatibility r.requiredRange p.version).1 <;>
      simp [Check.InOneState, Check.isRejected, Check.isAbsent]

/-- The accounts of the three states sum up to all rows. -/
theorem length_eq_of_inOneState {rows : List Check} (h : ∀ c ∈ rows, c.InOneState) :
    rows.length = rows.countP Check.compatible + rows.countP Check.isRejected +
      rows.countP Check.isAbsent := by
  induction rows with
  | nil => rfl
  | cons c rows ih =>
    have hrest := ih fun d hd => h d (List.mem_cons_of_mem c hd)
    have hc := h c List.mem_cons_self
    simp only [Check.InOneState, List.count_cons, List.count_nil] at hc
    simp only [List.length_cons, List.countP_cons, hrest]
    revert hc
    cases c.compatible <;> cases c.isRejected <;> cases c.isAbsent <;> simp <;> omega

/-- The issue says of a row that the version found is not accepted. -/
def Check.RejectedBy (c : Check) (i : Issue) : Prop :=
  ∃ version, c.installedVersion = some version ∧
    i = DirectConflict.toIssue ⟨c.requirement, version, c.confidence⟩

/-- Each rejected row shows a conflict, and no other row does. -/
theorem forall₂_rejectedBy (rows : List Check) :
    List.Forall₂ Check.RejectedBy (rows.filter Check.isRejected)
      ((rows.filterMap Check.conflict?).map DirectConflict.toIssue) := by
  induction rows with
  | nil => exact .nil
  | cons c rows ih =>
    cases hv : c.installedVersion with
    | none =>
      have hstate : c.isRejected = false := by simp [Check.isRejected, hv]
      have hnone : c.conflict? = none := by simp [Check.conflict?, hv]
      rw [List.filter_cons_of_neg (by simp [hstate]), List.filterMap_cons_none hnone]
      exact ih
    | some version =>
      cases hc : c.compatible with
      | true =>
        have hstate : c.isRejected = false := by simp [Check.isRejected, hc]
        have hnone : c.conflict? = none := by simp [Check.conflict?, hv, hc]
        rw [List.filter_cons_of_neg (by simp [hstate]), List.filterMap_cons_none hnone]
        exact ih
      | false =>
        have hstate : c.isRejected = true := by simp [Check.isRejected, hv, hc]
        have hsome : c.conflict? = some ⟨c.requirement, version, c.confidence⟩ := by
          simp [Check.conflict?, hv, hc]
        rw [List.filter_cons_of_pos hstate, List.filterMap_cons_some hsome, List.map_cons]
        exact .cons ⟨version, hv, rfl⟩ ih

/-! ## 2. The accounts of the first pass -/

/-- The rows of the packages that are done. -/
def Tally.rows (t : Tally) : List Check := t.packages.flatMap PackageChecks.checks

/-- The accounts show what the rows show. -/
structure Tally.Balances (t : Tally) (rows : List Check) : Prop where
  compatible : t.compatible = rows.countP Check.compatible
  direct : t.direct = rows.filterMap Check.conflict?
  missing : t.missing = (rows.filter Check.isMissing).map Check.requirement

section

variable {t : Tally} {rows : List Check}

theorem Tally.Balances.note (h : t.Balances rows) (c : Check) :
    (t.note c).Balances (rows ++ [c]) where
  compatible := by
    cases hc : c.compatible <;> simp [Tally.note, h.compatible, hc]
  direct := by
    cases hc : c.conflict? <;> simp [Tally.note, h.direct, hc]
  missing := by
    cases hc : c.isMissing <;> simp [Tally.note, h.missing, hc]

theorem Tally.Balances.foldl_note (h : t.Balances rows) (cs : List Check) :
    (cs.foldl Tally.note t).Balances (rows ++ cs) := by
  induction cs generalizing t rows with
  | nil => simpa using h
  | cons c cs ih => simpa using ih (h.note c)

/-- Checking the requirements at one location keeps the balance. -/
theorem Tally.Balances.checkGroup (installed : Installed) (h : t.Balances t.rows)
    (group : String × List PeerRequirement) :
    (t.checkGroup installed group).Balances (t.checkGroup installed group).rows := by
  have hnoted := h.foldl_note (group.2.map (check installed))
  have hrows : (t.checkGroup installed group).rows =
      t.rows ++ group.2.map (check installed) := by
    simp [Tally.rows, Tally.packages_checkGroup, groupChecks]
  rw [hrows, Tally.checkGroup, Tally.foldl_checkOne]
  exact ⟨hnoted.compatible, hnoted.direct, hnoted.missing⟩

end

/-- At the end of the first pass the accounts show what all rows show. -/
theorem balances_firstPass (installed : Installed) :
    (firstPass installed).Balances (firstPass installed).rows := by
  have hrun : ∀ (groups : Table (List PeerRequirement)) (t : Tally), t.Balances t.rows →
      (groups.foldl (Tally.checkGroup installed) t).Balances
        (groups.foldl (Tally.checkGroup installed) t).rows := by
    intro groups
    induction groups with
    | nil => exact fun t h => h
    | cons group groups ih => exact fun t h => ih _ (h.checkGroup installed group)
  exact hrun _ {} ⟨rfl, rfl, rfl⟩

/-! ## 3. Both passes -/

/-- What a conflict is between. -/
def conflictType? (i : Issue) : Option String :=
  (Table.get? i.details "type").bind Json.string?

/-- The conflict is one with what is installed. -/
def isDirect (i : Issue) : Bool := conflictType? i == some "direct"

theorem filter_conflicts (a : Analysis) :
    a.conflicts.filter isDirect = a.direct.map DirectConflict.toIssue ∧
      a.conflicts.filter (fun i => !isDirect i) = a.cross.map CrossConflict.toIssue := by
  have hdirect : ∀ c : DirectConflict, isDirect c.toIssue = true := fun _ => rfl
  have hcross : ∀ c : CrossConflict, isDirect c.toIssue = false := fun _ => rfl
  simp [Analysis.conflicts, List.filter_append, List.filter_map, Function.comp_def, hdirect, hcross]

/-- The conflicts are those with what is installed and those between packages. -/
theorem length_conflicts (a : Analysis) :
    a.conflicts.length = a.conflicts.countP isDirect + a.cross.length := by
  have hparts := (List.filter_append_perm isDirect a.conflicts).length_eq
  rw [List.length_append, (filter_conflicts a).2, List.length_map] at hparts
  rw [← hparts, List.countP_eq_length_filter]

theorem requirement_rows (installed : Installed) :
    (analyze installed).rows.map Check.requirement =
      (requiringLocations installed).flatMap (requirementsAt installed) := by
  rw [rows_analyze, List.map_map]
  exact (List.map_congr_left fun r _ => requirement_check installed r).trans (List.map_id _)

/-- **The analysis adds up.** There is one row for each requirement, grouped by
the places of the requiring packages in the order of their first ones, and a
row is in exactly one state: compatible, rejected or absent. Each rejected row
has one direct conflict and each absent one that is not optional one missing
peer, and there are no others; all further conflicts are between packages. The
counts of the summary are the sums of these. -/
theorem accounting (installed : Installed) :
    let a := analyze installed
    (a.packages = (requiringLocations installed).map fun l =>
        groupChecks installed (l, requirementsAt installed l)) ∧
    (a.rows.map Check.requirement).Perm installed.peerRequirements ∧
    (∀ c ∈ a.rows, c.InOneState) ∧
    List.Forall₂ Check.RejectedBy (a.rows.filter Check.isRejected) (a.conflicts.filter isDirect) ∧
    a.conflicts.filter (fun i => !isDirect i) = a.cross.map CrossConflict.toIssue ∧
    a.missingIssues = (a.rows.filter fun c => c.isAbsent && !c.requirement.isOptional).map
      (fun c => missingIssue c.requirement) ∧
    a.summary.member? "total_peer_deps" = some (.ofNat (a.rows.countP Check.compatible +
      a.conflicts.countP isDirect + a.rows.countP Check.isAbsent)) ∧
    a.summary.member? "compatible" = some (.ofNat (a.rows.countP Check.compatible)) ∧
    a.summary.member? "conflicts" = some (.ofNat (a.conflicts.countP isDirect + a.cross.length)) ∧
    a.summary.member? "missing" = some (.ofNat a.missingIssues.length) := by
  intro a
  have hbalances : (firstPass installed).Balances a.rows := balances_firstPass installed
  have hperm : (a.rows.map Check.requirement).Perm installed.peerRequirements := by
    rw [requirement_rows]
    exact Table.perm_groups PeerRequirement.requiringLocation installed.peerRequirements
  have hstates : ∀ c ∈ a.rows, c.InOneState := by
    intro c hc
    obtain ⟨r, _, rfl⟩ := mem_rows_analyze.mp hc
    exact inOneState_check installed r
  obtain ⟨hdirect, hcross⟩ := filter_conflicts a
  have hrejected : List.Forall₂ Check.RejectedBy (a.rows.filter Check.isRejected)
      (a.conflicts.filter isDirect) := by
    have hnoted : a.direct = a.rows.filterMap Check.conflict? := hbalances.direct
    rw [hdirect, hnoted]
    exact forall₂_rejectedBy a.rows
  have hcount : a.rows.countP Check.isRejected = a.conflicts.countP isDirect := by
    rw [List.countP_eq_length_filter, List.countP_eq_length_filter, hrejected.length_eq]
  have hmissing : a.missing = (a.rows.filter Check.isMissing).map Check.requirement :=
    hbalances.missing
  refine ⟨packages_firstPass installed, hperm, hstates, hrejected, hcross, ?_, ?_, ?_, ?_, ?_⟩
  · rw [Analysis.missingIssues, hmissing, List.map_map]
    rfl
  · have htotal : installed.peerRequirements.length = a.rows.length := by
      rw [← hperm.length_eq, List.length_map]
    rw [← hcount, ← length_eq_of_inOneState hstates, ← htotal]
    rfl
  · rw [← hbalances.compatible]
    rfl
  · rw [← length_conflicts a]
    rfl
  · rw [Analysis.missingIssues, List.length_map]
    rfl

end PackageAudit.Peer
