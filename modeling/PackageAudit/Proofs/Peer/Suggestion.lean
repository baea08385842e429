/-
PackageAudit.Proofs.Peer.Suggestion — suggested ranges mean what they say.

Ranges that agree are answered with the expression of the first interval that
they have in common. An expression is read back as a range that admits the
releases of its interval, and the intervals of an intersection contain
exactly what all ranges admit; so the expressions together admit exactly the
releases that all ranges admit, and a suggestion none that some requirement
does not (`expressions_exact`). Releases differ by their numbers alone, so
the ranges need not be canonical.
-/
import PackageAudit.Proofs.Peer.Passes
import PackageAudit.Proofs.Version.Expression

namespace PackageAudit.Peer

/-! ## 1. Ranges that were read -/

section

variable {texts : List String} {ranges : List Range}

theorem renders_of_mem_intersect (h : texts.mapM Range.parse? = some ranges) {i : Interval}
    (hi : i ∈ Range.intersect ranges) : i.Renders i.toExpression := by
  have hwritten : ∀ r ∈ ranges, r.BoundsIn Version.Written := by
    intro r hr
    obtain ⟨text, _, htext⟩ := exists_of_mem_mapM h hr
    exact Range.boundsIn_written_of_parse? htext
  exact Interval.renders_toExpression (Range.endsIn_intersect hwritten i hi)

/-- The expressions of an intersection admit the releases that all ranges
admit. -/
theorem admits_iff_exists_expression (h : texts.mapM Range.parse? = some ranges) {v : Version}
    (hv : v.prerelease = []) :
    (∀ r ∈ ranges, r.admits v = true) ↔
      ∃ i ∈ Range.intersect ranges, ∃ r, Range.parse? i.toExpression = some r ∧
        r.admits v = true := by
  rw [Range.forall_admits_iff_of_release hv]
  refine exists_congr fun i => and_congr_right fun hi => ?_
  obtain ⟨r, hr, hadmits⟩ := Range.admits_iff_of_renders (renders_of_mem_intersect h hi)
  simp [hr, hadmits v hv]

end

/-! ## 2. Alignments -/

/-- What is said for sure is said of ranges that can be read. -/
theorem exists_of_confidence_high {texts : List String}
    (h : (agreement texts).confidence = .high) :
    ∃ ranges, texts.mapM Range.parse? = some ranges := by
  cases hread : texts.mapM Range.parse? with
  | none =>
    simp only [agreement, hread] at h
    cases h
  | some ranges => exact ⟨ranges, rfl⟩

/-- Ranges that agree for sure are answered with the expression of their
first common interval. -/
theorem exists_of_agreement_high {texts : List String} (hagree : (agreement texts).agree = true)
    (hhigh : (agreement texts).confidence = .high) :
    ∃ ranges, texts.mapM Range.parse? = some ranges ∧ ∃ i ∈ Range.intersect ranges,
      (agreement texts).suggestion = some i.toExpression := by
  obtain ⟨ranges, h⟩ := exists_of_confidence_high hhigh
  refine ⟨ranges, h, ?_⟩
  cases hint : Range.intersect ranges with
  | nil =>
    simp only [agreement, h, hint] at hagree
    cases hagree
  | cons i is =>
    refine ⟨i, List.mem_cons_self, ?_⟩
    simp only [agreement, h, hint]

/-- The suggestion of a sure alignment is a range that admits only releases
that every requirement on the peer admits. -/
theorem suggestion_sound {installed : Installed} {a : Alignment}
    (ha : a ∈ (analyze installed).alignments) (hhigh : a.confidence = .high) :
    ∃ s, Range.parse? a.suggestion = some s ∧ ∀ v : Version, v.prerelease = [] →
      s.admits v = true → ∀ q ∈ installed.peerRequirements, q.peerName = a.peer →
        ∃ r, Range.parse? q.requiredRange = some r ∧ r.admits v = true := by
  obtain ⟨ws, hf⟩ := mem_alignments_analyze.mp ha
  obtain ⟨peer, _, hcheck⟩ := mem_crossChecks.mp hf
  obtain ⟨texts, htexts, rfl, hagree, hconfidence, hsuggestion⟩ :=
    crossCheck_alignment (congrArg Prod.fst hcheck)
  obtain ⟨ranges, hread, i, hi, hexpression⟩ :=
    exists_of_agreement_high hagree (hconfidence ▸ hhigh)
  rw [hexpression, Option.getD_some] at hsuggestion
  obtain ⟨s, hs, hadmits⟩ := Range.admits_iff_of_renders (renders_of_mem_intersect hread hi)
  refine ⟨s, hsuggestion ▸ hs, fun v hv hsv q hq hpeer => ?_⟩
  have hall := (Range.forall_admits_iff_of_release hv).mpr ⟨i, hi, (hadmits v hv).mp hsv⟩
  -- The requirement itself may have been left out as a repetition.
  have hmem : q ∈ installed.peerRequirements.filter fun r => r.peerName == a.peer :=
    List.mem_filter.mpr ⟨hq, beq_iff_eq.mpr hpeer⟩
  obtain ⟨k, hk, _, hrange⟩ := exists_mem_distinctRequirements hmem
  obtain ⟨r, hr, hparse⟩ := exists_mem_of_mapM hread (x := k.requiredRange)
    (by rw [htexts]; exact List.mem_map_of_mem hk)
  exact ⟨r, hrange ▸ hparse, hall r hr⟩

/-- **Suggestions mean what they say.** Each expression of an intersection can
be read; all together they admit exactly the releases that all ranges admit;
and the suggestion of a sure alignment admits only releases that every
requirement on the peer admits. -/
theorem expressions_exact {texts : List String} {ranges : List Range}
    (h : texts.mapM Range.parse? = some ranges) {v : Version} (hv : v.prerelease = []) :
    (∀ i ∈ Range.intersect ranges, ∃ r, Range.parse? i.toExpression = some r) ∧
    ((∀ r ∈ ranges, r.admits v = true) ↔
      ∃ i ∈ Range.intersect ranges, ∃ r, Range.parse? i.toExpression = some r ∧
        r.admits v = true) ∧
    (∀ installed : Installed, ∀ a ∈ (analyze installed).alignments, a.confidence = .high →
      ∃ s, Range.parse? a.suggestion = some s ∧
        (s.admits v = true → ∀ q ∈ installed.peerRequirements, q.peerName = a.peer →
          ∃ r, Range.parse? q.requiredRange = some r ∧ r.admits v = true)) := by
  refine ⟨fun i hi => ?_, admits_iff_exists_expression h hv, fun installed a ha hhigh => ?_⟩
  · obtain ⟨r, hr, _⟩ := Range.admits_iff_of_renders (renders_of_mem_intersect h hi)
    exact ⟨r, hr⟩
  · obtain ⟨s, hs, hsound⟩ := suggestion_sound ha hhigh
    exact ⟨s, hs, hsound v hv⟩

/-- Two packages whose requirements on one peer agree. -/
def alignedPeer : Installed := {
  root := "/p"
  present := true
  packages := [
    { name := "left", version := "1.0.0", location := "/p/node_modules/left"
      peerDependencies := [("core", .str "0.x || <4 >2")] },
    { name := "right", version := "1.4.0", location := "/p/node_modules/right"
      peerDependencies := [("core", .str "^0.2.1-rc.1 || >=3")] }] }

theorem mem_alignments_alignedPeer :
    ⟨"core", ["left", "right"], ["0.x || <4 >2", "^0.2.1-rc.1 || >=3"], "^0.2.1-rc.1", .high⟩ ∈
      (analyze alignedPeer).alignments := by
  have hpackages : Text.sortedSet ["left", "right"] = ["left", "right"] :=
    Text.sortedSet_eq_self (by decide)
  have hranges : Text.sortedSet ["0.x || <4 >2", "^0.2.1-rc.1 || >=3"] =
      ["0.x || <4 >2", "^0.2.1-rc.1 || >=3"] := Text.sortedSet_eq_self (by decide)
  have hagree : agreement ["0.x || <4 >2", "^0.2.1-rc.1 || >=3"] =
      ⟨true, some "^0.2.1-rc.1", .high⟩ := rfl
  have hrows : alignedPeer.peerRequirements = [
      ⟨"left", "1.0.0", "/p/node_modules/left", "core", "0.x || <4 >2", false⟩,
      ⟨"right", "1.4.0", "/p/node_modules/right", "core", "^0.2.1-rc.1 || >=3", false⟩] := by
    decide +kernel
  refine mem_alignments_analyze.mpr ⟨[], mem_crossChecks.mpr ⟨"core", ?_, ?_⟩⟩
  · rw [hrows]
    decide
  · have hentries : distinctRequirements
        (alignedPeer.peerRequirements.filter fun r => r.peerName == "core") =
        alignedPeer.peerRequirements := by
      rw [hrows]
      decide
    simp only [crossCheck, hentries]
    simp only [hrows, List.map_cons, List.map_nil, hpackages, hranges, hagree]
    rfl

/-- Two common intervals that are printed as carets, one of them with a
prerelease at its lower end. -/
theorem expressions_exact_alignedPeer :
    ∃ ranges, ["0.x || <4 >2", "^0.2.1-rc.1 || >=3"].mapM Range.parse? = some ranges ∧
      (Range.intersect ranges).map Interval.toExpression = ["^0.2.1-rc.1", "^3.0.0"] ∧
      (∀ i ∈ Range.intersect ranges, ∃ r, Range.parse? i.toExpression = some r) ∧
      (∀ r ∈ ranges, r.admits ⟨3, 9, 0, []⟩ = true) ∧
      ∃ a ∈ (analyze alignedPeer).alignments, a.suggestion = "^0.2.1-rc.1" ∧
        ∀ q ∈ alignedPeer.peerRequirements, q.peerName = a.peer →
          ∃ r, Range.parse? q.requiredRange = some r ∧ r.admits ⟨0, 2, 7, []⟩ = true := by
  have hread : ["0.x || <4 >2", "^0.2.1-rc.1 || >=3"].mapM Range.parse? = some _ := rfl
  refine ⟨_, hread, by decide, ?_, ?_, _, mem_alignments_alignedPeer, rfl, ?_⟩
  · exact (expressions_exact hread (v := ⟨3, 9, 0, []⟩) rfl).1
  · exact (expressions_exact hread (v := ⟨3, 9, 0, []⟩) rfl).2.1.mpr (by decide)
  · obtain ⟨s, hs, hsound⟩ := (expressions_exact hread (v := ⟨0, 2, 7, []⟩) rfl).2.2
      alignedPeer _ mem_alignments_alignedPeer rfl
    have hadmits : ∀ t ∈ Range.parse? "^0.2.1-rc.1", t.admits ⟨0, 2, 7, []⟩ = true := by decide
    exact hsound (hadmits s hs)

end PackageAudit.Peer
