import EliotSearch.Session.Integrity
import EliotSearch.Session.Texts

/-!
# Controls

Which operation a Cancel reaches, and which replies are past cancelling.  A
Cancel is ignored when its identity is not above the identity of the last
flushed reply, whatever that reply answered; the results below say under which
order of identities this mark separates answered operations from later ones.
-/

namespace EliotSearch.Session

open EliotSearch.Library

variable {wire : Wire}

/-- Two states of one operation. -/
structure Active.Same (before after : Active) : Prop where
  id_eq : before.id = after.id
  data_eq : before.data = after.data
  serial_eq : before.serial = after.serial

theorem Active.Same.refl (active : Active) : active.Same active :=
  ⟨rfl, rfl, rfl⟩

/-- The operation a job was sent for. -/
structure Job.Starts (job : Job wire) (active : Active) : Prop where
  id_eq : job.message.requestId = active.id
  data_eq : job.message.isData = active.data
  serial_eq : job.serial = active.serial

namespace Exchange

theorem Cancelling.active_cases {now : Instant} {id : UInt64} {state next : Exchange wire}
    (hcancel : Cancelling now id state next) {active : Active}
    (hactive : next.active = some active) :
    ∃ before, state.active = some before ∧ before.Same active := by
  cases hcancel with
  | late => exact ⟨active, hactive, .refl active⟩
  | deferred => exact ⟨active, hactive, .refl active⟩
  | active hbefore hid =>
      obtain rfl := Option.some.inj hactive
      exact ⟨_, hbefore, rfl, rfl, rfl⟩
  | output => exact ⟨active, hactive, .refl active⟩
  | idle => exact ⟨active, hactive, .refl active⟩

theorem Accepting.active_cases {now started : Instant} {message : wire.Frame}
    {state next : Exchange wire} {job : Option (Job wire)}
    (haccept : Accepting now message started state next job) {active : Active}
    (hactive : next.active = some active) :
    (∃ before, state.active = some before ∧ before.Same active) ∨
      ∃ sent, job = some sent ∧ sent.Starts active := by
  cases haccept with
  | cancelled hkind hcancel => exact Or.inl (hcancel.active_cases hactive)
  | duplicate => exact Or.inl ⟨active, hactive, .refl active⟩
  | deferred => exact Or.inl ⟨active, hactive, .refl active⟩
  | refused => cases hactive
  | sent =>
      obtain rfl := Option.some.inj hactive
      exact Or.inr ⟨_, rfl, rfl, rfl, rfl⟩

theorem Cancelling.completedId {now : Instant} {id : UInt64} {state next : Exchange wire}
    (hcancel : Cancelling now id state next) : next.completedId = state.completedId := by
  cases hcancel <;> rfl

theorem Accepting.completedId {now started : Instant} {message : wire.Frame}
    {state next : Exchange wire} {job : Option (Job wire)}
    (haccept : Accepting now message started state next job) :
    next.completedId = state.completedId := by
  cases haccept with
  | cancelled hkind hcancel => exact hcancel.completedId
  | _ => rfl

theorem Consuming.completedId {now : Instant} {bytes rest : Bytes} {state next : Exchange wire}
    {job : Option (Job wire)} (hconsume : Consuming now bytes state next job rest) :
    next.completedId = state.completedId := by
  cases hconsume with
  | fragment => rfl
  | frame hpush hcount hframe hmessage hstarted haccept => exact haccept.completedId

theorem Resuming.completedId {now : Instant} {deferred : Deferred wire}
    {state next : Exchange wire} {job : Option (Job wire)}
    (hresume : Resuming now deferred state next job) : next.completedId = state.completedId := by
  cases hresume with
  | cancelled => rfl
  | accepted hcancelled haccept => exact haccept.completedId

end Exchange

namespace Loop

/-- The job of a command. -/
def dispatched : Option (Command wire) → Option (Job wire)
  | some (.execute job) => some job
  | _ => none

theorem dispatched_map (job : Option (Job wire)) : dispatched (job.map .execute) = job := by
  cases job <;> rfl

/-- An active operation was active before a reaction, or was sent by it. -/
theorem Reaction.active_cases {loop next : Loop wire} {event : Event wire}
    {command : Option (Command wire)} (hreaction : Reaction loop event next command)
    {active : Active} (hactive : next.exchange.active = some active) :
    (∃ before, loop.exchange.active = some before ∧ before.Same active) ∨
      ∃ job, dispatched command = some job ∧ job.Starts active := by
  cases hreaction with
  | expiring hlive hphase hexpired =>
      obtain ⟨before, hbefore, rfl⟩ := Option.map_eq_some_iff.mp hactive
      exact Or.inl ⟨before, hbefore, rfl, rfl, rfl⟩
  | frame hphase hconsume halive =>
      rw [dispatched_map]
      cases hconsume with
      | fragment => exact Or.inl ⟨active, hactive, .refl active⟩
      | frame hpush hcount hframe hmessage hstarted haccept => exact haccept.active_cases hactive
  | reply => cases hactive
  | resumed hphase hresume halive =>
      rw [dispatched_map]
      cases hresume with
      | cancelled => exact Or.inl ⟨active, hactive, .refl active⟩
      | accepted hcancelled haccept => exact haccept.active_cases hactive
  | unasked hphase hnone houtput hexpired hdrain =>
      obtain ⟨ready, -, rfl⟩ := hdrain
      exact Or.inl ⟨active, hactive, .refl active⟩
  | timedOut hphase htimer hexpired hbefore hcleanup =>
      obtain rfl := Option.some.inj hactive
      exact Or.inl ⟨_, hbefore, rfl, rfl, rfl⟩
  | joined hphase hwhole hdrain =>
      obtain ⟨ready, -, rfl⟩ := hdrain
      exact Or.inl ⟨active, hactive, .refl active⟩
  | _ => exact Or.inl ⟨active, hactive, .refl active⟩

/-- The mark of late Cancels moves only when a reply is flushed whole. -/
theorem Reaction.completed_cases {loop next : Loop wire} {event : Event wire}
    {command : Option (Command wire)} (hreaction : Reaction loop event next command) :
    (next.exchange.completedId = loop.exchange.completedId ∧ next.delivered = loop.delivered) ∨
      ∃ output, loop.phase = .flushing ∧ loop.exchange.output = some output ∧
        next.exchange.completedId = some output.id ∧ next.exchange.active = loop.exchange.active ∧
        next.delivered = loop.delivered ++ [output] := by
  cases hreaction with
  | frame hphase hconsume halive => exact Or.inl ⟨hconsume.completedId, rfl⟩
  | delivered hphase houtput halive hends => exact Or.inr ⟨_, hphase, houtput, rfl, rfl, rfl⟩
  | committed hphase houtput halive hends => exact Or.inr ⟨_, hphase, houtput, rfl, rfl, rfl⟩
  | resumed hphase hresume halive => exact Or.inl ⟨hresume.completedId, rfl⟩
  | unasked hphase hactive houtput hexpired hdrain =>
      obtain ⟨ready, -, rfl⟩ := hdrain
      exact Or.inl ⟨rfl, rfl⟩
  | joined hphase hwhole hdrain =>
      obtain ⟨ready, -, rfl⟩ := hdrain
      exact Or.inl ⟨rfl, rfl⟩
  | _ => exact Or.inl ⟨rfl, rfl⟩

end Loop

/-! ## Cancels of active work -/

/-- A Cancel of an active operation whose identity is above the mark reaches it. -/
theorem Exchange.cancel_active {state : Exchange wire} {active : Active}
    (hactive : state.active = some active) (hdeferred : state.deferred = none)
    (hnew : ∀ completed ∈ state.completedId, completed < active.id) (now : Instant) :
    state.cancel now active.id = .ok { state with
      active := some { active with
        cancel := true
        stopped := some (active.stopped.getD .cancelled)
        cleanup := some (active.cleanup.getD (now + cleanupAllowance)) } } := by
  have hlate : ¬ ∃ completed ∈ state.completedId, active.id ≤ completed := by
    rintro ⟨completed, hcompleted, hle⟩
    exact UInt64.not_le.mpr (hnew completed hcompleted) hle
  rw [Exchange.cancel, if_neg hlate]
  simp only [hdeferred, Option.filter_none, hactive]
  rw [Results.refuse_of_not (fun hne => hne rfl)]
  rfl

namespace Loop

/-- A data request goes to the worker only under an identity above the mark of
late Cancels. -/
def DispatchesFresh (loop : Loop wire) (tick : Tick wire) : Prop :=
  ∀ job ∈ dispatched (loop.step tick).2, job.message.isData = true →
    ∀ completed ∈ loop.exchange.completedId, completed < job.message.requestId

instance (loop : Loop wire) (tick : Tick wire) : Decidable (loop.DispatchesFresh tick) :=
  inferInstanceAs (Decidable (∀ _ ∈ _, _))

/-- The active data operation is above the mark of late Cancels. -/
def ActiveFresh (loop : Loop wire) : Prop :=
  ∀ active, loop.exchange.active = some active → active.data = true →
    ∀ completed ∈ loop.exchange.completedId, completed < active.id

theorem ActiveFresh.after {loop : Loop wire} (hintegral : loop.Integral)
    (hfresh : loop.ActiveFresh) {tick : Tick wire} (hdispatch : loop.DispatchesFresh tick) :
    (loop.after tick).ActiveFresh := by
  have hreaction := react_reaction (loop.advance tick) tick.event
  intro active hactive hdata completed hcompleted
  rcases hreaction.completed_cases with ⟨hsame, -⟩ | ⟨output, hphase, houtput, -, hactiveSame, -⟩
  · have hbefore : completed ∈ loop.exchange.completedId := hsame ▸ hcompleted
    rcases hreaction.active_cases hactive with ⟨before, hbeforeActive, hsameActive⟩ |
      ⟨job, hjob, hstarts⟩
    · rw [← hsameActive.id_eq]
      exact hfresh before hbeforeActive (hsameActive.data_eq.trans hdata) completed hbefore
    · rw [← hstarts.id_eq]
      exact hdispatch job hjob (hstarts.data_eq.trans hdata) completed hbefore
  · -- a reply is flushed only while nothing is active
    have hlive : (loop.advance tick).Live := Live.of_phase hphase (by simp)
    have hnone := ((hintegral.advance tick).exclusive hlive).output_of_active
      (hactiveSame.symm.trans hactive)
    rw [hnone] at houtput
    cases houtput

/-- In every run that dispatches data requests only under identities above the
mark, a Cancel of the active data operation sets its flag and stop reason. -/
theorem cancel_reaches_active (clock : Instant) (ticks : List (Tick wire))
    (hdispatch : Runs.Throughout after DispatchesFresh (start clock) ticks)
    (hlive : (run clock ticks).Live) {active : Active}
    (hactive : (run clock ticks).exchange.active = some active) (hdata : active.data = true)
    (now started : Instant) (alive : Bool) :
    ∃ next reached,
      (run clock ticks).exchange.accept now alive (.cancel active.id) started = .ok (next, none) ∧
        next.active = some reached ∧ active.Same reached ∧ reached.cancel = true ∧
        reached.stopped.isSome = true := by
  have hboth : (run clock ticks).Integral ∧ (run clock ticks).ActiveFresh := by
    refine Runs.run_invariant_throughout (fun loop => loop.Integral ∧ loop.ActiveFresh)
      ⟨integral_start clock, fun _ hnone => by cases hnone⟩ ?_ hdispatch
    rintro loop tick ⟨hintegral, hfresh⟩ hmeets
    exact ⟨hintegral.after tick, hfresh.after hintegral hmeets⟩
  obtain ⟨hintegral, hfresh⟩ := hboth
  have hexclusive := hintegral.exclusive hlive
  have hdeferred := hexclusive.deferred (hexclusive.output_of_active hactive)
  have hcancel := Exchange.cancel_active hactive hdeferred
    (hfresh active hactive hdata) now
  have haccept : (run clock ticks).exchange.accept now alive (.cancel active.id) started =
      ((run clock ticks).exchange.cancel now active.id).map fun next => (next, none) := rfl
  rw [hcancel] at haccept
  exact ⟨_, _, haccept, rfl, ⟨rfl, rfl, rfl⟩, rfl, rfl⟩

end Loop

namespace Sample

variable {frames : List (SessionClientFrame Unit)}

/-- The loop takes one frame that arrives in one chunk. -/
def receive (message : SessionClientFrame Unit) : List (Tick (wireOf frames)) :=
  [⟨0, .look⟩, ⟨0, .read (bytes message)⟩, ⟨0, .frame true⟩]

/-- The loop writes a reply of the given length and flushes it. -/
def deliver (length : Nat) : List (Tick (wireOf frames)) :=
  [⟨0, .look⟩, ⟨0, .wrote length⟩, ⟨0, .look⟩, ⟨0, .flush⟩, ⟨0, .commit true⟩]

def openFirst : SessionClientFrame Unit := .openWindow 1 5000 () 1 60000

/-- The first request is with the worker. -/
def begun : List (Tick (wireOf [openFirst])) := receive openFirst

/-- An idle Cancel of a large identity, whose refusal is flushed before the
first request. -/
def staleMark : List (Tick (wireOf [.cancel 100, openFirst, .cancel 1])) :=
  receive (.cancel 100) ++ deliver 87 ++ receive openFirst

end Sample

/-- After an idle Cancel of 100 the active operation 1 cannot be cancelled. -/
theorem Loop.cancel_misses_active :
    let before := Loop.run 0 Sample.staleMark
    let after := Loop.run 0 (Sample.staleMark ++ Sample.receive (.cancel 1))
    (before.exchange.active.map fun active => (active.id, active.data)) = some (1, true) ∧
      (after.exchange.active.map fun active => (active.id, active.cancel, active.stopped)) =
        some (1, false, none) := by
  decide +kernel

theorem Loop.cancel_reaches_active_sample :
    ∃ active : Active, ∃ next reached,
      (Loop.run 0 Sample.begun).exchange.accept 0 true (.cancel active.id) 0 = .ok (next, none) ∧
        next.active = some reached ∧ active.Same reached ∧ reached.cancel = true ∧
        reached.stopped.isSome = true :=
  ⟨⟨1, true, 5000000000, false, 0, none, none⟩,
    Loop.cancel_reaches_active 0 Sample.begun (by decide +kernel) (by decide +kernel)
      (by decide +kernel) rfl 0 0 true⟩

/-! ## Late Cancels -/

namespace Loop

/-- The reply that a commit is about to count as flushed. -/
def committing (loop : Loop wire) : Option (Output wire) :=
  match loop.phase with
  | .flushing => loop.exchange.output
  | _ => none

/-- No reply is flushed after that of a data frame with a greater identity. -/
def FlushesAbove (loop : Loop wire) (_ : Tick wire) : Prop :=
  ∀ output ∈ loop.committing, ∀ earlier ∈ loop.delivered, earlier.data = true →
    earlier.id ≤ output.id

instance (loop : Loop wire) (tick : Tick wire) : Decidable (loop.FlushesAbove tick) :=
  inferInstanceAs (Decidable (∀ _ ∈ _, ∀ _ ∈ _, _))

/-- Every answered data frame is at or below the mark of late Cancels. -/
def AnsweredBelow (loop : Loop wire) : Prop :=
  ∀ earlier ∈ loop.delivered, earlier.data = true →
    ∃ completed ∈ loop.exchange.completedId, earlier.id ≤ completed

theorem AnsweredBelow.after {loop : Loop wire} (hanswered : loop.AnsweredBelow)
    {tick : Tick wire} (hflush : loop.FlushesAbove tick) : (loop.after tick).AnsweredBelow := by
  intro earlier hearlier hdata
  rcases (react_reaction (loop.advance tick) tick.event).completed_cases with
    ⟨hmark, hsame⟩ | ⟨output, hphase, houtput, hmark, -, hdelivered⟩
  · have hbefore : earlier ∈ loop.delivered := hsame ▸ hearlier
    obtain ⟨completed, hcompleted, hle⟩ := hanswered earlier hbefore hdata
    exact ⟨completed, hmark.trans hcompleted, hle⟩
  · refine ⟨output.id, hmark, ?_⟩
    have hmem : earlier ∈ loop.delivered ++ [output] := hdelivered ▸ hearlier
    rcases List.mem_append.mp hmem with hbefore | hnew
    · have hcommitting : loop.committing = some output := by
        have hflushing : loop.phase = .flushing := hphase
        simp only [committing, hflushing]
        exact houtput
      exact hflush output hcommitting earlier hbefore hdata
    · rw [List.mem_singleton.mp hnew]
      exact UInt64.le_refl _

/-- In every run that flushes no reply after that of a data frame with a greater
identity, a Cancel of an answered data frame changes nothing. -/
theorem late_cancel_ignored (clock : Instant) (ticks : List (Tick wire))
    (hflush : Runs.Throughout after FlushesAbove (start clock) ticks) {output : Output wire}
    (houtput : output ∈ (run clock ticks).delivered) (hdata : output.data = true)
    (now started : Instant) (alive : Bool) :
    (run clock ticks).exchange.accept now alive (.cancel output.id) started =
      .ok ((run clock ticks).exchange, none) := by
  have hanswered : (run clock ticks).AnsweredBelow :=
    Runs.run_invariant_throughout AnsweredBelow
      (fun _ hmem => absurd hmem List.not_mem_nil) (fun _ _ hbefore hmeets => hbefore.after hmeets) hflush
  obtain ⟨completed, hcompleted, hle⟩ := hanswered output houtput hdata
  have hcancel : (run clock ticks).exchange.cancel now output.id =
      .ok (run clock ticks).exchange := by
    rw [Exchange.cancel, if_pos ⟨completed, hcompleted, hle⟩]
    rfl
  have haccept : (run clock ticks).exchange.accept now alive (.cancel output.id) started =
      ((run clock ticks).exchange.cancel now output.id).map fun next => (next, none) := rfl
  rw [haccept, hcancel]
  rfl

end Loop

namespace Sample

/-- The worker fails the operation of the given identity before any output. -/
def answer (id : UInt64) : List (Tick (wireOf frames)) :=
  [⟨0, .look⟩, ⟨0, .reply (some (failure id (.code (Json.ascii "QUERY_ENDPOINT_REQUIRED"))))⟩]

def openFifth : SessionClientFrame Unit := .openWindow 5 5000 () 1 60000

/-- A request with a smaller identity is refused after the first one. -/
def reused : List (Tick (wireOf [openFifth, .continuePage 3 5000 1 1, .cancel 5])) :=
  receive openFifth ++ answer 5 ++ deliver 83 ++ receive (.continuePage 3 5000 1 1) ++ deliver 86

def answered : List (Tick (wireOf [openFifth])) := receive openFifth ++ answer 5 ++ deliver 83

end Sample

/-- The refusal of a smaller identity moves the mark back, and the next Cancel of
the answered request 5 gets a reply of its own. -/
theorem Loop.late_cancel_answered_again :
    let before := Loop.run 0 Sample.reused
    let after := Loop.run 0 (Sample.reused ++ Sample.receive (.cancel 5))
    before.delivered.map (fun output => (output.id, output.data)) = [(5, true), (3, true)] ∧
      before.exchange.output.isNone = true ∧
      (after.exchange.output.map fun output => (output.id, output.data)) = some (5, false) := by
  decide +kernel

theorem Loop.late_cancel_ignored_sample :
    (Loop.run 0 Sample.answered).delivered.map Output.id = [5] ∧
      ∀ output ∈ (Loop.run 0 Sample.answered).delivered,
        (Loop.run 0 Sample.answered).exchange.accept 0 true (.cancel output.id) 0 =
          .ok ((Loop.run 0 Sample.answered).exchange, none) := by
  have hdata : ∀ output ∈ (Loop.run 0 Sample.answered).delivered, output.data = true := by
    decide +kernel
  exact ⟨by decide +kernel, fun output houtput =>
    Loop.late_cancel_ignored 0 Sample.answered (by decide +kernel) houtput (hdata output houtput)
      0 0 true⟩

end EliotSearch.Session
