import Mathlib.Data.List.Range
import Mathlib.Tactic.Common

/-!
# Serial dispatch

One target receives numbered steps, one at a time and in order.  A step is
recorded before it is sent and settled when its result is known; a refused step
may be recorded again under a fresh revision.  A log that replays settles each
step as applied at most once, in order and without gaps, and a recorded step
that is never settled is its last entry.
-/

namespace EliotSearch.Library

namespace SerialDispatch

inductive Entry where
  | recorded (step revision : ℕ)
  | settled (step revision : ℕ) (applied : Bool)
  deriving DecidableEq, Repr

/-- How far a target got: the steps below `applied` are applied. -/
structure Progress where
  applied : ℕ
  inFlight : Option (ℕ × ℕ)
  revision : ℕ
  deriving DecidableEq, Repr

def Progress.start : Progress := ⟨0, none, 0⟩

/-- Only the next step is recorded, and only the step in flight is settled. -/
def Progress.next (progress : Progress) : Entry → Option Progress
  | .recorded step revision =>
      if progress.inFlight = none ∧ step = progress.applied ∧
          revision = progress.revision + 1 then
        some { progress with inFlight := some (step, revision), revision }
      else none
  | .settled step revision applied =>
      if progress.inFlight = some (step, revision) then
        some { progress with
          applied := if applied then progress.applied + 1 else progress.applied
          inFlight := none }
      else none

def replay (log : List Entry) : Option Progress := log.foldlM Progress.next Progress.start

theorem next_recorded {progress after : Progress} {step revision : ℕ} :
    progress.next (.recorded step revision) = some after ↔
      progress.inFlight = none ∧ step = progress.applied ∧ revision = progress.revision + 1 ∧
        after = ⟨progress.applied, some (step, revision), revision⟩ := by
  simp only [Progress.next]
  split
  · rename_i hguard
    obtain ⟨hidle, hstep, hrevision⟩ := hguard
    simp [hidle, hstep, hrevision, eq_comm]
  · rename_i hguard
    constructor
    · intro hnone
      cases hnone
    · rintro ⟨hidle, hstep, hrevision, -⟩
      exact absurd ⟨hidle, hstep, hrevision⟩ hguard

theorem next_settled {progress after : Progress} {step revision : ℕ} {applied : Bool} :
    progress.next (.settled step revision applied) = some after ↔
      progress.inFlight = some (step, revision) ∧
        after = ⟨if applied then progress.applied + 1 else progress.applied, none,
          progress.revision⟩ := by
  simp only [Progress.next]
  split
  · rename_i hguard
    simp [hguard, eq_comm]
  · rename_i hguard
    simp [hguard]

theorem replay_append (first second : List Entry) :
    replay (first ++ second) = (replay first).bind fun progress =>
      second.foldlM Progress.next progress := by
  simp [replay, List.foldlM_append]

theorem replay_concat {log : List Entry} {entry : Entry} {after : Progress} :
    replay (log ++ [entry]) = some after ↔
      ∃ progress, replay log = some progress ∧ progress.next entry = some after := by
  rw [replay_append, Option.bind_eq_some_iff]
  simp

/-- Every initial part of a log that replays does. -/
theorem replay_initial {first second : List Entry} {after : Progress}
    (hreplay : replay (first ++ second) = some after) :
    ∃ progress, replay first = some progress := by
  rw [replay_append, Option.bind_eq_some_iff] at hreplay
  obtain ⟨progress, hprogress, -⟩ := hreplay
  exact ⟨progress, hprogress⟩

/-! ## Applied steps -/

def Entry.appliedStep : Entry → Option ℕ
  | .settled step _ true => some step
  | _ => none

/-- The steps that were settled as applied, in the order of the log. -/
def appliedSteps (log : List Entry) : List ℕ := log.filterMap Entry.appliedStep

/-- The step in flight is the next one and carries the latest revision. -/
theorem replay_inFlight {log : List Entry} {progress : Progress}
    (hreplay : replay log = some progress) {step revision : ℕ}
    (hinFlight : progress.inFlight = some (step, revision)) :
    step = progress.applied ∧ revision = progress.revision := by
  rcases List.eq_nil_or_concat log with rfl | ⟨before, entry, rfl⟩
  · obtain rfl : Progress.start = progress := Option.some.inj hreplay
    cases hinFlight
  · rw [List.concat_eq_append] at hreplay
    obtain ⟨earlier, -, hnext⟩ := replay_concat.mp hreplay
    cases entry with
    | recorded recordedStep recordedRevision =>
        obtain ⟨-, hstep, -, rfl⟩ := next_recorded.mp hnext
        obtain ⟨rfl, rfl⟩ := Prod.mk.inj (Option.some.inj hinFlight)
        exact ⟨hstep, rfl⟩
    | settled settledStep settledRevision applied =>
        obtain ⟨-, rfl⟩ := next_settled.mp hnext
        cases hinFlight

/-- The applied steps are exactly the first ones, each once and in order. -/
theorem appliedSteps_eq_range {log : List Entry} {progress : Progress}
    (hreplay : replay log = some progress) : appliedSteps log = List.range progress.applied := by
  induction log using List.reverseRecOn generalizing progress with
  | nil =>
      obtain rfl : Progress.start = progress := Option.some.inj hreplay
      rfl
  | append_singleton log entry ih =>
      obtain ⟨earlier, hearlier, hnext⟩ := replay_concat.mp hreplay
      have hsteps := ih hearlier
      rw [appliedSteps, List.filterMap_append, ← appliedSteps, hsteps]
      cases entry with
      | recorded step revision =>
          obtain ⟨-, -, -, rfl⟩ := next_recorded.mp hnext
          simp [Entry.appliedStep]
      | settled step revision applied =>
          obtain ⟨hinFlight, rfl⟩ := next_settled.mp hnext
          cases applied with
          | false => simp [Entry.appliedStep]
          | true =>
              have hstep := (replay_inFlight hearlier hinFlight).1
              simp [Entry.appliedStep, hstep, List.range_succ]

theorem count_appliedSteps {log : List Entry} {progress : Progress}
    (hreplay : replay log = some progress) (step : ℕ) :
    (appliedSteps log).count step = if step < progress.applied then 1 else 0 := by
  rw [appliedSteps_eq_range hreplay, List.count_range]

/-! ## Unsettled steps -/

/-- The entry settles the given record. -/
def Entry.Settles (step revision : ℕ) : Entry → Prop
  | .settled other otherRevision _ => other = step ∧ otherRevision = revision
  | .recorded _ _ => False

/-- Only its settlement can follow a record. -/
theorem replay_after_recorded {before after : List Entry} {step revision : ℕ}
    {progress : Progress}
    (hreplay : replay (before ++ .recorded step revision :: after) = some progress)
    (hunsettled : ∀ entry ∈ after, ¬ entry.Settles step revision) :
    after = [] ∧ progress.inFlight = some (step, revision) := by
  cases after with
  | nil =>
      obtain ⟨earlier, -, hnext⟩ := replay_concat.mp hreplay
      obtain ⟨-, -, -, rfl⟩ := next_recorded.mp hnext
      exact ⟨rfl, rfl⟩
  | cons entry after =>
      have hsplit : before ++ .recorded step revision :: entry :: after =
          (before ++ [.recorded step revision] ++ [entry]) ++ after := by simp
      rw [hsplit] at hreplay
      obtain ⟨middle, hmiddle⟩ := replay_initial hreplay
      obtain ⟨recorded, hrecorded, hnext⟩ := replay_concat.mp hmiddle
      obtain ⟨earlier, -, hrecord⟩ := replay_concat.mp hrecorded
      obtain ⟨-, -, -, rfl⟩ := next_recorded.mp hrecord
      have hnot := hunsettled entry List.mem_cons_self
      cases entry with
      | recorded other otherRevision =>
          obtain ⟨hidle, -⟩ := next_recorded.mp hnext
          cases hidle
      | settled other otherRevision applied =>
          obtain ⟨hinFlight, -⟩ := next_settled.mp hnext
          obtain ⟨rfl, rfl⟩ := Prod.mk.inj (Option.some.inj hinFlight)
          exact absurd ⟨rfl, rfl⟩ hnot

/-- What a log looked like when a step was recorded. -/
theorem replay_before_recorded {before after : List Entry} {step revision : ℕ}
    {progress : Progress}
    (hreplay : replay (before ++ .recorded step revision :: after) = some progress) :
    ∃ earlier, replay before = some earlier ∧ earlier.inFlight = none ∧ earlier.applied = step ∧
      revision = earlier.revision + 1 := by
  rw [List.append_cons] at hreplay
  obtain ⟨middle, hmiddle⟩ := replay_initial hreplay
  obtain ⟨earlier, hearlier, hnext⟩ := replay_concat.mp hmiddle
  obtain ⟨hidle, hstep, hrevision, -⟩ := next_recorded.mp hnext
  exact ⟨earlier, hearlier, hidle, hstep.symm, hrevision⟩

end SerialDispatch

end EliotSearch.Library
