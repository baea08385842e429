/-
PackageAudit.Proofs.Peer.Agreement — the two passes of the peer analysis
agree.

The first pass tries an installed version on each range by itself, the
second asks whether ranges have a version in common without trying any. They
meet in one version: where every requirement on a peer is found compatible
with the same installed version, that version lies in the intersection of
the ranges, and the second pass has nothing to report
(`no_cross_conflict_of_compatible`). The ranges must be canonical, as for
every statement about intersections.
-/
import PackageAudit.Proofs.Peer.Passes
import PackageAudit.Proofs.Version.Intersection

namespace PackageAudit.Peer

/-- Canonical ranges that admit one version agree. -/
theorem agree_of_admits {ranges : List String} {v : Version}
    (h : ∀ text ∈ ranges, ∃ q, Range.parse? text = some q ∧ q.Canonical ∧ q.admits v = true) :
    (agreement ranges).agree = true := by
  obtain ⟨rs, hrs, hall⟩ := exists_mapM_forall h
  rw [(agreement_eq_of_read hrs).1]
  exact Range.haveIntersection_of_admits (fun q hq => (hall q hq).1) fun q hq => (hall q hq).2

/-- **The passes agree.** If all rows of a peer found the same installed
version and are compatible with high confidence, and their ranges are
canonical, no conflict between packages is reported for that peer. -/
theorem no_cross_conflict_of_compatible {installed : Installed} {peer w : String}
    (hrows : ∀ c ∈ (analyze installed).rows, c.requirement.peerName = peer →
      c.installedVersion = some w ∧ c.compatible = true ∧ c.confidence = .high)
    (hranges : ∀ c ∈ (analyze installed).rows, c.requirement.peerName = peer →
      ∀ q ∈ Range.parse? c.requirement.requiredRange, q.Canonical) :
    ∀ k ∈ (analyze installed).cross, k.peer ≠ peer := by
  rintro k hk rfl
  obtain ⟨ws, hf⟩ := mem_cross_analyze.mp hk
  obtain ⟨peer, ⟨r₀, hr₀, hpeer₀⟩, hcheck⟩ := mem_crossChecks.mp hf
  obtain ⟨_, rfl, hkpeer, _, hdisagree, _⟩ := crossCheck_conflict (congrArg Prod.fst hcheck)
  subst hkpeer
  have hrow : ∀ r ∈ installed.peerRequirements, r.peerName = k.peer →
      ∃ q v, Range.parse? r.requiredRange = some q ∧ Version.parse? w = some v ∧
        q.Canonical ∧ q.admits v = true := by
    intro r hr hpeer
    have hmem : check installed r ∈ (analyze installed).rows := mem_rows_analyze.mpr ⟨r, hr, rfl⟩
    have hname : (check installed r).requirement.peerName = k.peer := by
      rw [requirement_check, hpeer]
    obtain ⟨hw, hc, hh⟩ := hrows _ hmem hname
    obtain ⟨q, v, hq, hv, hadmits⟩ := admits_of_check hw hc hh
    have hcanonical : q.Canonical := hranges _ hmem hname q (by rw [requirement_check]; exact hq)
    exact ⟨q, v, hq, hv, hcanonical, hadmits⟩
  -- Any one requirement gives the version; all others admit the same one.
  obtain ⟨_, v, _, hv, _, _⟩ := hrow r₀ hr₀ hpeer₀
  have hagree := agree_of_admits (v := v) fun text ht => by
    obtain ⟨r, hr, rfl⟩ := List.mem_map.mp ht
    obtain ⟨hmem, hname⟩ := List.mem_filter.mp (mem_of_mem_distinctRequirements hr)
    obtain ⟨q, v', hq, hv', hcanonical, hadmits⟩ := hrow r hmem (eq_of_beq hname)
    rw [hv, Option.some.injEq] at hv'
    subst hv'
    exact ⟨q, hq, hcanonical, hadmits⟩
  rw [hagree] at hdisagree
  cases hdisagree

/-- Two packages that require one peer, which is installed as a prerelease. -/
def prereleasePeer : Installed := {
  root := "/p"
  present := true
  packages := [
    { name := "core", version := "3.1.0-rc.2", location := "/p/node_modules/core" },
    { name := "left", version := "1.0.0", location := "/p/node_modules/left"
      peerDependencies := [("core", .str "^3.1.0-rc.1 || 2.x")] },
    { name := "right", version := "1.4.0", location := "/p/node_modules/right"
      peerDependencies := [("core", .str ">2 <=3.1.0-rc.2")] }] }

/-- The passes agree on a prerelease at a closed end. -/
theorem no_cross_conflict_prereleasePeer :
    (∀ c ∈ (analyze prereleasePeer).rows, c.requirement.peerName = "core" →
      c.installedVersion = some "3.1.0-rc.2" ∧ c.compatible = true ∧ c.confidence = .high) ∧
    (∀ c ∈ (analyze prereleasePeer).rows, c.requirement.peerName = "core" →
      ∀ q ∈ Range.parse? c.requirement.requiredRange, q.Canonical) ∧
    (∀ k ∈ (analyze prereleasePeer).cross, k.peer ≠ "core") := by
  have hrows : ∀ c ∈ (analyze prereleasePeer).rows, c.requirement.peerName = "core" →
      c.installedVersion = some "3.1.0-rc.2" ∧ c.compatible = true ∧ c.confidence = .high := by
    decide +kernel
  have hranges : ∀ c ∈ (analyze prereleasePeer).rows, c.requirement.peerName = "core" →
      ∀ q ∈ Range.parse? c.requirement.requiredRange, q.Canonical := by
    decide +kernel
  exact ⟨hrows, hranges, no_cross_conflict_of_compatible hrows hranges⟩

end PackageAudit.Peer
