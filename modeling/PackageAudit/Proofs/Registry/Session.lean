/-
PackageAudit.Proofs.Registry.Session — a session answers as a fresh one does.

A lookup in a session ends in one of three ways: the answer is known, it is asked
for and remembered, or it is asked for and there is none. One invariant holds
through all of them: a session knows, of the packages that it was asked about, the
answers that there are, and nothing else (`Recalls`). Whether a package was looked
up before and has an answer is a matter of the names and the registry alone, so a
whole run can be told without the session (`run_eq_of_recalls`).

A failed lookup leaves a session as it recalls the packages before. So it can be
left out of a run, and all else stays as it was.
-/
import PackageAudit.Proofs.Registry.Failure
import PackageAudit.Proofs.Table

namespace PackageAudit.Registry

/-- What a lookup ends with, and the addresses that are asked on the way. -/
structure Outcome where
  answer : Except LookupError Json
  asked : List String

variable {r : Registry} {s : Session} {seen : List String} {package : String}

/-! ## 1. One lookup -/

/-- What a lookup in a session ends with. -/
def outcome (r : Registry) (s : Session) (package : String) : Outcome where
  answer := (r.latest s package).2
  asked := (r.latest s package).1.requests.drop s.requests.length

/-- A session knows of each package that it was asked about the answer, if there is
one, and of other packages nothing. -/
def Recalls (r : Registry) (s : Session) (seen : List String) : Prop :=
  ∀ package, s.known.get? package =
    if package ∈ seen then (r.answer package).toOption else none

theorem recalls_start (r : Registry) : r.Recalls {} [] := fun _ => rfl

theorem latest_of_known {v : Json} (h : s.known.get? package = some v) :
    r.latest s package = (s, .ok v) := by
  rw [latest, h]

theorem requests_latest_of_unknown (h : s.known.get? package = none) :
    (r.latest s package).1.requests = s.requests ++ [r.addressOf package] := by
  rw [latest, h]
  cases r.answer package <;> rfl

theorem known_latest_of_ok {v : Json} (h : r.answer package = .ok v) (q : String) :
    (r.latest s package).1.known.get? q =
      if q = package then some ((s.known.get? package).getD v) else s.known.get? q := by
  rw [latest]
  cases hknown : s.known.get? package with
  | some w =>
    by_cases heq : q = package
    · rw [if_pos heq, heq, hknown, Option.getD_some]
    · rw [if_neg heq]
  | none => rw [h, Table.get?_put, Option.getD_none]

theorem Recalls.known_eq_none_iff (h : r.Recalls s seen) :
    s.known.get? package = none ↔ ¬ (package ∈ seen ∧ (r.answer package).isOk) := by
  rw [h package]
  cases r.answer package <;> simp [Except.toOption, Except.isOk, Except.toBool]

/-- A lookup in a session ends as a single request does. -/
theorem Recalls.snd_latest_eq (h : r.Recalls s seen) (package : String) :
    (r.latest s package).2 = r.answer package := by
  rw [snd_latest, h package]
  by_cases hseen : package ∈ seen
  · rw [if_pos hseen]
    cases r.answer package <;> rfl
  · rw [if_neg hseen]

/-- **Steps.** After a lookup a session recalls one package more, whatever the lookup
ends with. -/
theorem Recalls.latest (h : r.Recalls s seen) (package : String) :
    r.Recalls (r.latest s package).1 (seen ++ [package]) := by
  intro q
  have hq := h q
  simp only [List.mem_append, List.mem_singleton]
  cases hanswer : r.answer package with
  | error e =>
    -- Nothing is stored, and there is no answer that would have to be recalled.
    rw [known_latest_of_error ((h.snd_latest_eq package).trans hanswer), hq]
    by_cases heq : q = package
    · subst heq
      simp [hanswer, Except.toOption]
    · simp [heq]
  | ok v =>
    rw [known_latest_of_ok hanswer]
    by_cases heq : q = package
    · subst heq
      by_cases hseen : q ∈ seen <;> simp [hq, hseen, hanswer, Except.toOption]
    · simp [heq, hq]

/-- What a lookup ends with, told from the packages looked up before. -/
theorem Recalls.outcome_eq (h : r.Recalls s seen) (package : String) :
    r.outcome s package = ⟨r.answer package,
      if package ∈ seen ∧ (r.answer package).isOk then [] else [r.addressOf package]⟩ := by
  rw [outcome, h.snd_latest_eq, Outcome.mk.injEq]
  refine ⟨rfl, ?_⟩
  split
  · rename_i hanswered
    obtain ⟨v, hv⟩ := Option.ne_none_iff_exists'.mp
      fun hnone => h.known_eq_none_iff.mp hnone hanswered
    rw [latest_of_known hv, List.drop_length]
  · rename_i hnew
    rw [requests_latest_of_unknown (h.known_eq_none_iff.mpr hnew), List.drop_left]

/-! ## 2. Runs -/

/-- What several lookups in one session end with, in their order. -/
def run (r : Registry) : Session → List String → List Outcome
  | _, [] => []
  | s, p :: ps => r.outcome s p :: r.run (r.latest s p).1 ps

/-- A session after several lookups. -/
def after (r : Registry) (s : Session) (packages : List String) : Session :=
  packages.foldl (fun s p => (r.latest s p).1) s

theorem run_append (s : Session) (before packages : List String) :
    r.run s (before ++ packages) = r.run s before ++ r.run (r.after s before) packages := by
  induction before generalizing s with
  | nil => rfl
  | cons p ps ih =>
    rw [List.cons_append, run, run, List.cons_append, ih]
    rfl

theorem Recalls.after (h : r.Recalls s seen) (packages : List String) :
    r.Recalls (r.after s packages) (seen ++ packages) := by
  induction packages generalizing s seen with
  | nil =>
    rw [List.append_nil]
    exact h
  | cons p ps ih => simpa [Registry.after] using ih (h.latest p)

/-- **Runs.** In a session that recalls some packages, each lookup ends as it would
by itself, and asks unless the package was looked up before and has an answer. -/
theorem run_eq_of_recalls (h : r.Recalls s seen) (packages : List String) :
    r.run s packages = packages.mapIdx fun i p => ⟨r.answer p,
      if p ∈ seen ++ packages.take i ∧ (r.answer p).isOk then [] else [r.addressOf p]⟩ := by
  induction packages generalizing s seen with
  | nil => rfl
  | cons p ps ih =>
    rw [run, h.outcome_eq, ih (h.latest p), List.mapIdx_cons]
    simp

/-- The answer of a fresh session is that to a single request. -/
theorem answer_fresh (r : Registry) (package : String) :
    (r.latest {} package).2 = r.answer package := snd_latest

/-- **The memory of a session cannot be seen in its answers.** In a run of lookups
each ends as in a fresh session, with a version, with null or with an error. It asks
for the package unless that was looked up before in the run and has an answer, null
included; so what was answered is never asked for again, and what failed always is.
A failed lookup can be left out of a run: those before it and those behind it end the
same way and ask for the same addresses. -/
theorem run_transparent (r : Registry) :
    (∀ packages : List String, r.run {} packages = packages.mapIdx fun i p =>
      ⟨(r.latest {} p).2, if p ∈ packages.take i ∧ (r.latest {} p).2.isOk then []
        else [r.addressOf p]⟩) ∧
    ∀ (before : List String) (p : String) (behind : List String) (e : LookupError),
      (r.latest {} p).2 = .error e →
      ∃ later, r.run {} (before ++ behind) = r.run {} before ++ later ∧
        r.run {} (before ++ p :: behind) =
          r.run {} before ++ ⟨.error e, [r.addressOf p]⟩ :: later := by
  refine ⟨fun packages => ?_, fun before p behind e he => ?_⟩
  · simp only [answer_fresh]
    exact run_eq_of_recalls r.recalls_start packages
  · rw [answer_fresh] at he
    have hrecalls : r.Recalls (r.after {} before) before := r.recalls_start.after before
    have houtcome : r.outcome (r.after {} before) p = ⟨.error e, [r.addressOf p]⟩ := by
      rw [hrecalls.outcome_eq, he]
      simp [Except.isOk, Except.toBool]
    have hknown : (r.latest (r.after {} before) p).1.known = (r.after {} before).known :=
      known_latest_of_error (congrArg Outcome.answer houtcome)
    have hlater : r.Recalls (r.latest (r.after {} before) p).1 before := fun q =>
      hknown ▸ hrecalls q
    refine ⟨r.run (r.after {} before) behind, run_append _ _ _, ?_⟩
    rw [run_append, run, houtcome, run_eq_of_recalls hlater, run_eq_of_recalls hrecalls]

/-- A registry that knows the version of one package, has no version of another and
refuses all other requests. -/
def halfKnown : Registry where
  address := "https://registry.npmjs.org"
  web address :=
    if address == "https://registry.npmjs.org/react" then
      .answered 200 "OK" "\x7b\"dist-tags\": \x7b\"latest\": \"18.2.0\"\x7d\x7d"
    else if address == "https://registry.npmjs.org/unreleased" then .answered 200 "OK" "\x7b\x7d"
    else .refused "offline"

/-- The two that are answered, one of them with null, are asked for once and the
third one each time; without its first lookup the others end the same way. -/
theorem run_transparent_halfKnown :
    ((halfKnown.run {} ["react", "vue", "unreleased", "vue", "unreleased", "react"]).map
        fun o => o.asked.length) = [1, 1, 1, 1, 0, 0] ∧
    (halfKnown.latest {} "unreleased").2 = .ok .null ∧
    (halfKnown.latest {} "vue").2 = .error (.refused "vue" "offline") ∧
    ∃ later, halfKnown.run {} ["react", "unreleased", "vue", "unreleased", "react"] =
        halfKnown.run {} ["react"] ++ later ∧
      halfKnown.run {} ["react", "vue", "unreleased", "vue", "unreleased", "react"] =
        halfKnown.run {} ["react"] ++
          ⟨.error (.refused "vue" "offline"), ["https://registry.npmjs.org/vue"]⟩ :: later := by
  have hvue : (halfKnown.latest {} "vue").2 = .error (.refused "vue" "offline") := by
    with_unfolding_all rfl
  exact ⟨by decide +kernel, by with_unfolding_all rfl, hvue,
    (run_transparent halfKnown).2 ["react"] "vue" ["unreleased", "vue", "unreleased", "react"] _
      hvue⟩

end PackageAudit.Registry
