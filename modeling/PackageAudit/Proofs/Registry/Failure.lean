/-
PackageAudit.Proofs.Registry.Failure — how the lookup of a version fails.

A request that is refused, a status of an error and a body that is no document
are failures of the registry: each becomes a warning, and the audit goes on. A
document is taken to be built in a certain way, though, and one that is not
(`Document.IllBuilt`) is no failure of the registry, so the audit stops there.
That is the only way to stop it (`exists_answer_eq_stop_iff`,
`exists_reportIn_iff`). A session that is told an error keeps what it knows.

`lookup_failures` has the whole: for one lookup, for all lookups in whatever
order they are completed, and for the report.
-/
import PackageAudit.Audit.Basic
import PackageAudit.Proofs.Collection

namespace PackageAudit

/-! ## 1. One lookup -/

namespace Registry

/-- A document that is no object, or whose tags are something and no object. -/
def IllBuilt (document : Json) : Prop :=
  (∀ members, document ≠ .obj members) ∨
  ∃ members tags, document = .obj members ∧ Table.get? members "dist-tags" = some tags ∧
    tags.holds = true ∧ ∀ named, tags ≠ .obj named

/-- A request is answered, and its body is an ill-built document. -/
def AnswersIllBuilt (r : Registry) (package : String) : Prop :=
  ∃ code reason body document, r.web (r.addressOf package) = .answered code reason body ∧
    isErrorStatus code = false ∧ Json.parse body = .ok document ∧ IllBuilt document

variable {r : Registry} {package : String} {document : Json} {s : Session}

/-- The latest version can be looked for in every other document. -/
theorem latestIn?_eq_none_iff : latestIn? document = none ↔ IllBuilt document := by
  cases document with
  | obj members =>
    simp only [latestIn?, IllBuilt, ne_eq, Json.obj.injEq]
    cases hget : Table.get? members "dist-tags" with
    | none => simp [Json.holds, hget]
    | some tags => cases tags <;> simp [hget]
  | _ => simp [latestIn?, IllBuilt]

/-- A document is not had because of a failure of the registry. -/
theorem isFailure_of_document {e : LookupError} (h : r.document package = .error e) :
    e.isFailure = true := by
  rw [document] at h
  split at h
  · cases h
    rfl
  · split at h
    · cases h
      rfl
    · rename_i body _ _
      cases hparse : Json.parse body with
      | error fault =>
        rw [hparse] at h
        cases h
        rfl
      | ok d =>
        rw [hparse] at h
        cases h

theorem document_eq_ok_iff : r.document package = .ok document ↔
    ∃ code reason body, r.web (r.addressOf package) = .answered code reason body ∧
      isErrorStatus code = false ∧ Json.parse body = .ok document := by
  rw [Registry.document]
  cases hweb : r.web (r.addressOf package) with
  | refused reason => simp
  | answered code reason body =>
    cases hstatus : isErrorStatus code with
    | true => simp [hstatus]
    | false => simp [hstatus, mapError_eq_ok_iff]

/-- **What stops an audit.** A lookup ends with an error that is no failure of the
registry exactly when an ill-built document is the answer. -/
theorem exists_answer_eq_stop_iff :
    (∃ e, r.answer package = .error e ∧ e.isFailure = false) ↔ r.AnswersIllBuilt package := by
  have hill : r.AnswersIllBuilt package ↔
      ∃ d, r.document package = .ok d ∧ latestIn? d = none := by
    simp only [AnswersIllBuilt, document_eq_ok_iff, latestIn?_eq_none_iff]
    constructor
    · rintro ⟨code, reason, body, d, hweb, hstatus, hparse, hd⟩
      exact ⟨d, ⟨code, reason, body, hweb, hstatus, hparse⟩, hd⟩
    · rintro ⟨d, ⟨code, reason, body, hweb, hstatus, hparse⟩, hd⟩
      exact ⟨code, reason, body, d, hweb, hstatus, hparse, hd⟩
  rw [hill, answer]
  cases hdocument : r.document package with
  | error e => simpa using isFailure_of_document hdocument
  | ok d =>
    simp only [Except.ok.injEq, exists_eq_left']
    cases latestIn? d <;> simp [LookupError.isFailure]

theorem snd_latest : (r.latest s package).2 =
    match s.known.get? package with
    | some v => .ok v
    | none => r.answer package := by
  rw [latest]
  cases s.known.get? package with
  | some v => rfl
  | none => cases r.answer package <;> rfl

/-- A session that is told an error keeps what it knows. -/
theorem known_latest_of_error {e : LookupError} (h : (r.latest s package).2 = .error e) :
    (r.latest s package).1.known = s.known := by
  rw [latest] at h ⊢
  cases hknown : s.known.get? package with
  | some v => rfl
  | none =>
    cases hanswer : r.answer package with
    | error e' => rfl
    | ok v => simp [hknown, hanswer] at h

/-- A lookup gives an answer or fails as the registry does, unless its answer has
to be asked for and is an ill-built document. -/
theorem latest_answers_or_fails_iff :
    ((∃ v, (r.latest s package).2 = .ok v) ∨
      ∃ e, (r.latest s package).2 = .error e ∧ e.isFailure = true) ↔
      s.known.get? package ≠ none ∨ ¬ r.AnswersIllBuilt package := by
  rw [snd_latest, ← exists_answer_eq_stop_iff]
  cases s.known.get? package with
  | some v => simp
  | none => cases r.answer package <;> simp

end Registry

/-! ## 2. All lookups -/

namespace Outdated

variable {lookup : Lookup} {declared : List Declared} {as : List Answer}

/-- Answers can be collected when none of them stops. -/
theorem exists_collect_eq_ok_iff : (∃ found, collect as = .ok found) ↔
    ∀ a ∈ as, stop? a = none := by
  rw [collect, ← List.findSome?_eq_none_iff]
  cases as.findSome? stop? <;> simp

theorem stop?_eq_none_iff {a : Answer} :
    stop? a = none ↔ ¬ ∃ e, a.latest = .error e ∧ e.isFailure = false := by
  rw [stop?]
  cases a.latest with
  | ok v => simp
  | error e => cases h : e.isFailure <;> simp [h]

/-- The warning about a declared package that is looked up in vain. -/
def failureWarning? (lookup : Lookup) (d : Declared) : Option Warning :=
  match Range.parse? d.range, lookup d.name with
  | some _, .error e => some ⟨.lookupFailed, e.message, none⟩
  | _, _ => none

variable (order : (n : Nat) → Completion n)

theorem mem_answers_iff {a : Answer} : a ∈ answers lookup declared ↔
    ∃ d ∈ declared, ∃ range, Range.parse? d.range = some range ∧ ⟨d, range, lookup d.name⟩ = a := by
  simp only [answers, List.mem_filterMap, Option.map_eq_some_iff]

/-- Lookups come to an end when no lookup of a readable range stops. -/
theorem exists_checkIn_eq_ok_iff : (∃ found, checkIn order lookup declared = .ok found) ↔
    ∀ d ∈ declared, Range.parse? d.range ≠ none →
      ¬ ∃ e, lookup d.name = .error e ∧ e.isFailure = false := by
  have hperm := Completion.arrange_perm (answers lookup declared) (order _)
  rw [checkIn, exists_collect_eq_ok_iff]
  simp only [hperm.mem_iff, stop?_eq_none_iff]
  constructor
  · intro h d hd hrange
    obtain ⟨range, hrange⟩ := Option.ne_none_iff_exists'.mp hrange
    exact h _ (mem_answers_iff.mpr ⟨d, hd, range, hrange, rfl⟩)
  · intro h a ha
    obtain ⟨d, hd, range, hrange, rfl⟩ := mem_answers_iff.mp ha
    exact h d hd (by simp [hrange])

/-- Each lookup that fails has its warning, and nothing else has one. -/
theorem warnings_checkIn_perm {found : List Outdated × List Warning}
    (h : checkIn order lookup declared = .ok found) :
    found.2.Perm (declared.filterMap (failureWarning? lookup)) := by
  have hperm := Completion.arrange_perm (answers lookup declared) (order _)
  have hstop := exists_collect_eq_ok_iff.mp ⟨found, h⟩
  have hwarnings : found.2 =
      (Completion.arrange (answers lookup declared) (order _)).filterMap warning? := by
    rw [checkIn, collect, List.findSome?_eq_none_iff.mpr hstop] at h
    rw [← Except.ok.inj h]
  have heach : ∀ d ∈ declared,
      ((Range.parse? d.range).map fun range => (⟨d, range, lookup d.name⟩ : Answer)).bind warning? =
        failureWarning? lookup d := by
    intro d hd
    cases hrange : Range.parse? d.range with
    | none => simp [failureWarning?, hrange]
    | some range =>
      have hnone : stop? ⟨d, range, lookup d.name⟩ = none :=
        hstop _ (hperm.mem_iff.mpr (mem_answers_iff.mpr ⟨d, hd, range, hrange, rfl⟩))
      rw [stop?_eq_none_iff] at hnone
      cases hlookup : lookup d.name with
      | ok v => simp [failureWarning?, hrange, hlookup, warning?]
      | error e =>
        have he : e.isFailure = true := by simpa [hlookup] using hnone
        simp [failureWarning?, hrange, hlookup, warning?, he]
  rw [hwarnings]
  refine (hperm.filterMap warning?).trans (.of_eq ?_)
  rw [answers, List.filterMap_filterMap]
  exact List.filterMap_congr heach

end Outdated

/-! ## 3. The report -/

namespace Audit

variable {r : Request} {m : Material}

/-- There is a report unless a lookup that is asked for stops. -/
theorem exists_reportIn_iff (s : Schedule) : (∃ rep, reportIn s r m = .ok rep) ↔
    (r.options.checkOutdated = true → ∀ d ∈ m.lookedUp r.options, Range.parse? d.range ≠ none →
      ¬ ∃ e, r.lookup d.name = .error e ∧ e.isFailure = false) := by
  have hreport : (∃ rep, reportIn s r m = .ok rep) ↔ ∃ found, outdatedIn s r m = .ok found := by
    rw [reportIn]
    cases outdatedIn s r m <;> simp [bind, Except.bind, pure, Except.pure]
  rw [hreport, outdatedIn, ← Outdated.exists_checkIn_eq_ok_iff s.lookups]
  by_cases h : r.options.checkOutdated = true
  · simp [h, mapError_eq_ok_iff]
  · simp [h]

end Audit

/-- **Failed lookups.** A lookup gives an answer or fails as the registry does,
exactly if it is known or no ill-built document is the answer; and a session that
is told an error keeps what it knows. In whatever order the lookups of declared
packages are completed, they come to an end exactly if no ill-built document is
among the answers, with one warning for each that fails; and so does the report. -/
theorem lookup_failures (g : Registry) :
    (∀ (s : Registry.Session) (package : String),
      (((∃ v, (g.latest s package).2 = .ok v) ∨
        ∃ e, (g.latest s package).2 = .error e ∧ e.isFailure = true) ↔
        s.known.get? package ≠ none ∨ ¬ g.AnswersIllBuilt package) ∧
      ∀ e, (g.latest s package).2 = .error e → (g.latest s package).1.known = s.known) ∧
    (∀ (order : (n : Nat) → Completion n) (declared : List Declared),
      ((∃ found, Outdated.checkIn order g.answer declared = .ok found) ↔
        ∀ d ∈ declared, Range.parse? d.range ≠ none → ¬ g.AnswersIllBuilt d.name) ∧
      ∀ found, Outdated.checkIn order g.answer declared = .ok found →
        found.2.Perm (declared.filterMap (Outdated.failureWarning? g.answer))) ∧
    ∀ (s : Schedule) (r : Audit.Request) (m : Audit.Material),
      (∃ rep, Audit.reportIn s { r with lookup := g.answer } m = .ok rep) ↔
        (r.options.checkOutdated = true → ∀ d ∈ m.lookedUp r.options,
          Range.parse? d.range ≠ none → ¬ g.AnswersIllBuilt d.name) := by
  refine ⟨fun s package => ⟨Registry.latest_answers_or_fails_iff,
    fun e h => Registry.known_latest_of_error h⟩, fun order declared => ⟨?_,
    fun found h => Outdated.warnings_checkIn_perm order h⟩, fun s r m => ?_⟩
  · simp only [Outdated.exists_checkIn_eq_ok_iff, Registry.exists_answer_eq_stop_iff]
  · simp only [Audit.exists_reportIn_iff, Registry.exists_answer_eq_stop_iff]

/-- A declared package. -/
def leftPad : Declared := ⟨"left-pad", "^1.0.0", .production⟩

/-- A project that declares it alone. -/
def leftPadRead : Audit.Material :=
  { (default : Audit.Material) with
    manifest := .ofDeclared "/p/package.json" none none [leftPad] [] }

/-- An audit that looks up versions in a registry. -/
def lookingUp (g : Registry) : Audit.Request where
  tree := ⟨.folder []⟩
  project := "/p"
  options := { checkOutdated := true }
  lookup := g.answer
  timing := { startedAt := "" }

/-- A registry that refuses every request. -/
def refusing : Registry := ⟨"https://registry.npmjs.org", fun _ => .refused "offline"⟩

/-- Its refusals are warnings, and there is a report. -/
theorem lookup_failures_refusing :
    (∃ e, (refusing.latest {} "left-pad").2 = .error e ∧ e.isFailure = true) ∧
    (∃ found, Outdated.check refusing.answer [leftPad] = .ok found ∧ found.2.Perm
      [⟨.lookupFailed, "Registry lookup failed for left-pad: offline", none⟩]) ∧
    ∃ rep, Audit.report (lookingUp refusing) leftPadRead = .ok rep := by
  have hwell : ∀ package, ¬ refusing.AnswersIllBuilt package := by
    rintro package ⟨code, reason, body, document, hweb, -⟩
    cases hweb
  obtain ⟨hlatest, hcheck, hreport⟩ := lookup_failures refusing
  refine ⟨?_, ?_, ?_⟩
  · refine ((hlatest {} "left-pad").1.mpr (Or.inr (hwell _))).resolve_left ?_
    rintro ⟨v, hv⟩
    cases hv
  · obtain ⟨found, hfound⟩ := (hcheck Completion.inOrder [leftPad]).1.mpr fun d _ _ => hwell d.name
    exact ⟨found, hfound, (hcheck Completion.inOrder [leftPad]).2 found hfound⟩
  · exact (hreport .inOrder (lookingUp refusing) leftPadRead).mpr fun _ d _ _ => hwell d.name

/-- A registry that answers every request with an empty list. -/
def listing : Registry := ⟨"https://registry.npmjs.org", fun _ => .answered 200 "OK" "[]"⟩

/-- Its answers are no failures of the registry. The lookup ends with another error,
and so do all lookups and the audit. -/
theorem list_stops_lookup :
    (listing.latest {} "left-pad").2 = .error (.unexpectedDocument "left-pad") ∧
    (LookupError.unexpectedDocument "left-pad").isFailure = false ∧
    Outdated.check listing.answer [leftPad] = .error (.unexpectedDocument "left-pad") ∧
    ∀ rep, Audit.report (lookingUp listing) leftPadRead ≠ .ok rep := by
  refine ⟨by with_unfolding_all rfl, rfl, by with_unfolding_all rfl, fun rep hrep => ?_⟩
  have hreport : Audit.report (lookingUp listing) leftPadRead =
      .error (.lookup (.unexpectedDocument "left-pad")) := by
    with_unfolding_all rfl
  cases hreport.symm.trans hrep

end PackageAudit
