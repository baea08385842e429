/-
PackageAudit.Proofs.FileTree.Places — all places of a tree.

Names lead from an entry to the places inside of it (`mem_places`), and there
are as many of these as the entry has names (`length_places`). What is met at
distinct places of a tree can be counted by that.
-/
import PackageAudit.Proofs.FileTree.Plain
import PackageAudit.Source.Scan

namespace PackageAudit.Entry

mutual

/-- The places in an entry, by the names that lead to them from a place, each
with what stands there. -/
def places (place : List String) : Entry → List (List String × Entry)
  | .folder entries => (place, .folder entries) :: placesIn place entries
  | e => [(place, e)]

/-- The places in some entries of a folder. -/
def placesIn (place : List String) : List (String × Entry) → List (List String × Entry)
  | [] => []
  | (n, e) :: es => e.places (place ++ [n]) ++ placesIn place es

end

mutual

theorem length_places (place : List String) : ∀ e : Entry, (e.places place).length = e.size
  | .file _ => by simp [places, size]
  | .link _ => by simp [places, size]
  | .folder entries => by
    rw [places, size, List.length_cons, length_placesIn place entries, Nat.add_comm]

theorem length_placesIn (place : List String) : ∀ entries : List (String × Entry),
    (placesIn place entries).length = sizes entries
  | [] => rfl
  | (n, e) :: es => by
    rw [placesIn, sizes, List.length_append, length_places (place ++ [n]) e,
      length_placesIn place es]

end

theorem mem_placesIn {place : List String} {entries : List (String × Entry)} {n : String}
    {e : Entry} {p : List String × Entry} (he : (n, e) ∈ entries)
    (hp : p ∈ e.places (place ++ [n])) : p ∈ placesIn place entries := by
  induction entries with
  | nil => cases he
  | cons d entries ih =>
    obtain ⟨m, d⟩ := d
    rw [placesIn, List.mem_append]
    rcases List.mem_cons.mp he with heq | he
    · obtain ⟨rfl, rfl⟩ := Prod.mk.inj heq
      exact Or.inl hp
    · exact Or.inr (ih he)

/-- What names lead to stands at its place. -/
theorem mem_places (place : List String) {e c : Entry} {names : List String}
    (h : e.at? names = some c) : (place ++ names, c) ∈ e.places place := by
  induction names generalizing e place with
  | nil =>
    obtain rfl := Option.some.inj h
    cases e <;> simp [places]
  | cons n names ih =>
    obtain ⟨entries, inner, rfl, hinner, hrest⟩ := exists_folder_of_at?_cons h
    have hmem := ih (place ++ [n]) hrest
    rw [List.append_assoc] at hmem
    rw [places]
    exact List.mem_cons_of_mem _ (mem_placesIn (Table.mem_of_get? hinner) hmem)

end PackageAudit.Entry
