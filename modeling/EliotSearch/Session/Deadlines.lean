import EliotSearch.Session.Boundary
import EliotSearch.Session.Slot

/-!
# Operation deadlines

An operation whose deadline passes is stopped, and the worker's failure is
reported like every other reply.  The slot of that reply keeps the deadline of
the operation, or the end of its cleanup, so the time that is left to write it
depends on when the worker answered.
-/

namespace EliotSearch.Session

open EliotSearch.Library

variable {wire : Wire}

namespace Exchange

/-- An operation asks under an identity, within the window when it asks for
data, and is stopped by a Cancel or by its deadline. -/
structure Timed (state : Exchange wire) : Prop where
  window : state.opened = true → state.expires.isSome = true
  asked : ∀ active, state.active = some active →
    active.id ≠ 0 ∧ (active.data = true → state.opened = true) ∧
      ∀ reason ∈ active.stopped, reason = .cancelled ∨ reason = .deadline
  deferred : ∀ deferred, state.deferred = some deferred → deferred.message.requestId ≠ 0
  failed : ∀ output, state.output = some output → output.answer.IsFailure →
    output.ready.IsFailure

theorem timed_new : (new : Exchange wire).Timed where
  window hopened := by cases hopened
  asked _ hactive := by cases hactive
  deferred _ hdeferred := by cases hdeferred
  failed _ houtput := by cases houtput

/-- A change that touches none of the fields involved. -/
theorem Timed.of_same {state next : Exchange wire} (hstate : state.Timed)
    (hopened : next.opened = state.opened) (hexpires : next.expires = state.expires)
    (hactive : next.active = state.active) (hdeferred : next.deferred = state.deferred)
    (houtput : next.output = state.output) : next.Timed := by
  constructor
  · rw [hopened, hexpires]
    exact hstate.window
  · rw [hactive, hopened]
    exact hstate.asked
  · rw [hdeferred]
    exact hstate.deferred
  · rw [houtput]
    exact hstate.failed

/-- A change of the active operation that keeps its identity. -/
theorem Timed.stop {state : Exchange wire} (hstate : state.Timed) {active stopped : Active}
    (hactive : state.active = some active) (hsame : active.Same stopped)
    (hreason : ∀ reason ∈ stopped.stopped, reason = .cancelled ∨ reason = .deadline) :
    Timed { state with active := some stopped } := by
  obtain ⟨hid, hdata, -⟩ := hstate.asked active hactive
  refine ⟨hstate.window, ?_, hstate.deferred, hstate.failed⟩
  rintro _ ⟨⟩
  rw [← hsame.id_eq, ← hsame.data_eq]
  exact ⟨hid, hdata, hreason⟩

/-- A refusal takes the slot. -/
theorem Timed.refuse {state : Exchange wire} (hstate : state.Timed) {now : Instant}
    {id : UInt64} {data : Bool} {output : Output wire} (hrefusal : Refusal now id data output) :
    Timed { state with output := some output } := by
  refine ⟨hstate.window, hstate.asked, hstate.deferred, ?_⟩
  rintro _ ⟨⟩ -
  exact hrefusal.failed

theorem Cancelling.timed {now : Instant} {id : UInt64} {state next : Exchange wire}
    (hcancel : Cancelling now id state next) (hstate : state.Timed) : next.Timed := by
  cases hcancel with
  | late => exact hstate
  | deferred hdeferred hid hdata =>
      refine ⟨hstate.window, hstate.asked, ?_, hstate.failed⟩
      rintro _ ⟨⟩
      have hbefore := hstate.deferred _ hdeferred
      exact hbefore
  | @active active hactive hid =>
      refine hstate.stop hactive ⟨rfl, rfl, rfl⟩ ?_
      rintro _ ⟨⟩
      obtain ⟨-, -, hreason⟩ := hstate.asked active hactive
      cases hstopped : active.stopped with
      | none => exact Or.inl rfl
      | some reason => exact hreason reason hstopped
  | output hnew hactive houtput hid hcursor hready hreply =>
      refine ⟨hstate.window, hstate.asked, hstate.deferred, ?_⟩
      rintro _ ⟨⟩ -
      exact hready
  | idle hnew hactive houtput hrefusal => exact hstate.refuse hrefusal

theorem Accepting.timed {now started : Instant} {message : wire.Frame}
    {state next : Exchange wire} {job : Option (Job wire)}
    (haccept : Accepting now message started state next job) (hstate : state.Timed)
    (hid : message.requestId ≠ 0) : next.Timed := by
  cases haccept with
  | cancelled hkind hcancel => exact hcancel.timed hstate
  | duplicate hkind hle hactive houtput hrefusal => exact hstate.refuse hrefusal
  | deferred hkind hnew houtput hcursor hfree =>
      refine ⟨hstate.window, hstate.asked, ?_, hstate.failed⟩
      rintro _ ⟨⟩
      exact hid
  | refused hdata hnew hactive houtput hrefusal =>
      refine ⟨hstate.window, by rintro _ ⟨⟩, hstate.deferred, ?_⟩
      rintro _ ⟨⟩ -
      exact hrefusal.failed
  | @sent deferred _ _ _ _ hkind hnew hactive hfree hopening hdeadline =>
      have hkept : ∀ found, deferred = some found → found.message.requestId ≠ 0 := by
        intro found hfound
        rcases hfree with ⟨-, hsame⟩ | ⟨-, hnone, -⟩
        · exact hstate.deferred found (hsame.symm.trans hfound)
        · rw [hnone] at hfound
          cases hfound
      cases hopening with
      | opens hclosed =>
          refine ⟨fun _ => rfl, ?_, hkept, by rintro _ ⟨⟩⟩
          rintro _ ⟨⟩
          exact ⟨hid, fun _ => rfl, by rintro _ ⟨⟩⟩
      | uses hdata hkind hopened =>
          refine ⟨hstate.window, ?_, hkept, by rintro _ ⟨⟩⟩
          rintro _ ⟨⟩
          exact ⟨hid, fun _ => hopened, by rintro _ ⟨⟩⟩
      | closes =>
          refine ⟨hstate.window, ?_, hkept, by rintro _ ⟨⟩⟩
          rintro _ ⟨⟩
          exact ⟨hid, fun hdata => (by cases hdata), by rintro _ ⟨⟩⟩

theorem Consuming.timed {now : Instant} {bytes rest : Bytes} {state next : Exchange wire}
    {job : Option (Job wire)} (hconsume : Consuming now bytes state next job rest)
    (hstate : state.Timed) : next.Timed := by
  cases hconsume with
  | fragment => exact hstate.of_same rfl rfl rfl rfl rfl
  | frame hpush hcount hframe hmessage hstarted haccept =>
      exact haccept.timed (hstate.of_same rfl rfl rfl rfl rfl)
        (wire.decodeSessionFrame_id hmessage)

theorem Resuming.timed {now : Instant} {deferred : Deferred wire} {state next : Exchange wire}
    {job : Option (Job wire)} (hresume : Resuming now deferred state next job)
    (hstate : state.Timed) (hid : deferred.message.requestId ≠ 0) : next.Timed := by
  cases hresume with
  | cancelled hcancelled hrefusal =>
      refine ⟨hstate.window, hstate.asked, hstate.deferred, ?_⟩
      rintro _ ⟨⟩ -
      exact hrefusal.failed
  | accepted hcancelled haccept => exact haccept.timed hstate hid

end Exchange

namespace Loop

/-- The operations of the loop are timed, and the timer is armed for the deadline
of the exchange. -/
structure Timely (loop : Loop wire) : Prop where
  exchange : loop.exchange.Timed
  resuming : ∀ deferred, loop.phase = .resuming deferred → deferred.message.requestId ≠ 0
  selecting : ∀ deadline, loop.phase = .selecting deadline →
    deadline = loop.exchange.deadline loop.idle

theorem Timely.next {next : Loop wire} (hexchange : next.exchange.Timed)
    (hresuming : ∀ deferred, next.phase ≠ .resuming deferred)
    (hselecting : ∀ deadline, next.phase ≠ .selecting deadline) : next.Timely :=
  ⟨hexchange, fun _ hphase => absurd hphase (hresuming _),
    fun _ hphase => absurd hphase (hselecting _)⟩

theorem Reaction.timely {loop next : Loop wire} {event : Event wire}
    {command : Option (Command wire)} (hreaction : Reaction loop event next command)
    (hloop : loop.Timely) : next.Timely := by
  have hexchange := hloop.exchange
  cases hreaction with
  | ignored => exact hloop
  | failed => exact .next hexchange (by simp [fail, finish]) (by simp [fail, finish])
  | selecting hphase =>
      refine ⟨hexchange, by simp, ?_⟩
      rintro _ ⟨⟩
      rfl
  | expiring hlive hphase hexpired =>
      refine .next ⟨hexchange.window, ?_, hexchange.deferred, hexchange.failed⟩ (by simp [expire])
        (by simp [expire])
      intro active hactive
      obtain ⟨before, hbefore, rfl⟩ := Option.map_eq_some_iff.mp hactive
      have hasked := hexchange.asked before hbefore
      exact hasked
  | stopped => exact .next hexchange (by simp [finish]) (by simp [finish])
  | read => exact .next hexchange (by simp) (by simp)
  | frame hphase hconsume halive =>
      refine .next (hconsume.timed hexchange) ?_ ?_
      · intro deferred hresuming
        dsimp only at hresuming
        split at hresuming <;> cases hresuming
      · intro deadline hselecting
        dsimp only at hselecting
        split at hselecting <;> cases hselecting
  | reply hphase hactive houtput hanswer =>
      refine .next ⟨hexchange.window, by rintro _ ⟨⟩, hexchange.deferred, ?_⟩ (by simp) (by simp)
      rintro _ ⟨⟩ hfailed
      exact hfailed
  | wrote hphase houtput hcount hbound =>
      refine .next ⟨hexchange.window, hexchange.asked, hexchange.deferred, ?_⟩ (by simp) (by simp)
      rintro _ ⟨⟩ hfailed
      have hready := hexchange.failed _ houtput hfailed
      exact hready
  | flushing => exact .next hexchange (by simp) (by simp)
  | delivered =>
      exact .next ⟨hexchange.window, hexchange.asked, hexchange.deferred, by rintro _ ⟨⟩⟩ (by simp)
        (by simp)
  | committed hphase houtput halive hends =>
      refine ⟨⟨hexchange.window, hexchange.asked, by rintro _ ⟨⟩, by rintro _ ⟨⟩⟩, ?_, ?_⟩
      · intro deferred hresuming
        dsimp only at hresuming
        split at hresuming
        · rename_i found hfound
          obtain rfl := Phase.resuming.inj hresuming
          exact hexchange.deferred found hfound
        · cases hresuming
      · intro deadline hselecting
        dsimp only at hselecting
        split at hselecting <;> cases hselecting
  | resumed hphase hresume halive =>
      exact .next (hresume.timed hexchange (hloop.resuming _ hphase)) (by simp) (by simp)
  | unasked hphase hactive houtput hexpired hdrain =>
      obtain ⟨ready, -, rfl⟩ := hdrain
      exact .next hexchange (by simp) (by simp)
  | timedOut hphase htimer hexpired hactive hcleanup =>
      refine .next (hexchange.stop hactive ⟨rfl, rfl, rfl⟩ ?_) (by simp) (by simp)
      rintro _ ⟨⟩
      exact Or.inr rfl
  | joined hphase hwhole hdrain =>
      obtain ⟨ready, -, rfl⟩ := hdrain
      exact .next hexchange (by simp) (by simp)
  | drained hphase hfarewell hcount hbound =>
      exact .next hexchange (by simp [hphase]) (by simp [hphase])
  | farewell => exact .next hexchange (by simp [finish]) (by simp [finish])

theorem timely_run (clock : Instant) (ticks : List (Tick wire)) : (run clock ticks).Timely := by
  refine Runs.run_invariant (.next Exchange.timed_new (by simp [start]) (by simp [start])) ?_ ticks
  intro loop tick hloop
  exact (react_reaction (loop.advance tick) tick.event).timely
    ⟨hloop.exchange, hloop.resuming, hloop.selecting⟩

/-! ## Failures of the worker -/

/-- Taking this reply of the worker reports a failure: the worker failed, or the
operation was stopped before it answered. -/
def ReportsFailure (active : Active) (ready : Ready wire) : Prop :=
  ready.IsFailure ∨ (active.stopped ≠ none ∧ ready.ends = false)

theorem answer_failure {active : Active} {ready : Ready wire} (hid : active.id ≠ 0)
    (hreason : ∀ reason ∈ active.stopped, reason = .cancelled ∨ reason = .deadline)
    (hreports : ReportsFailure active ready) :
    ∃ answer, active.answer ready = .ok answer ∧ answer.IsFailure := by
  have hkept (hends : ready.ends = false) : ready.IsFailure ∨ active.stopped ≠ none →
      ∃ answer, active.answer ready = .ok answer ∧ answer.IsFailure := by
    intro hfails
    cases hstopped : active.stopped with
    | none =>
        refine ⟨ready, by simp only [Active.answer, hstopped], ?_⟩
        exact hfails.resolve_right fun hnot => hnot hstopped
    | some reason =>
        have hcode : ∀ text, reason = .code text → ∃ code, FailureCode.new text = .ok code := by
          rintro text rfl
          rcases hreason _ hstopped with hcancelled | hdeadline
          · cases hcancelled
          · cases hdeadline
        have hencodes : ∃ failed : Ready wire, failure active.id reason = .ok failed :=
          failure_ok hid hcode
        obtain ⟨failed, hfailed⟩ := hencodes
        refine ⟨failed, ?_, (failure_eq_ok hfailed).1⟩
        simp only [Active.answer, hstopped, hends, Bool.false_eq_true, if_false, hfailed,
          Except.mapError]
  rcases hreports with hfailed | ⟨hstopped, hends⟩
  · exact hkept hfailed.2.2 (Or.inl hfailed)
  · exact hkept hends (Or.inr hstopped)

/-- The reply in the slot while the loop waits for a branch. -/
def pending (loop : Loop wire) : Option (Output wire) :=
  match loop.phase with
  | .selecting _ => loop.exchange.output
  | _ => none

/-- The instant that the loop waits for. -/
def waiting (loop : Loop wire) : Option Instant :=
  match loop.phase with
  | .selecting deadline => some deadline
  | _ => none

theorem waiting_eq_some {loop : Loop wire} {deadline : Instant}
    (hwaiting : loop.waiting = some deadline) : loop.phase = .selecting deadline := by
  unfold waiting at hwaiting
  split at hwaiting
  · rename_i found hphase
    rw [hphase, Option.some.inj hwaiting]
  · cases hwaiting

/-- When the timer finds a worker's failure waiting to be written, neither the
deadline it inherited from its operation nor the time allowed for a begun client
frame has passed, unless it has waited for the whole allowance. -/
def WritesInTime (loop : Loop wire) (tick : Tick wire) : Prop :=
  tick.event.isTimer = true → ¬ (loop.advance tick).Expired →
    ∀ output ∈ loop.pending, output.data = true → output.answer.IsFailure →
      (loop.clock + tick.elapsed < output.deadline ∧
        ∀ started ∈ loop.exchange.frameStarted,
          loop.clock + tick.elapsed < started + millis maxRemainingMs) ∨
      output.since + cleanupAllowance ≤ loop.clock + tick.elapsed

instance (loop : Loop wire) (tick : Tick wire) : Decidable (loop.WritesInTime tick) :=
  inferInstanceAs (Decidable (_ → ¬ _ → ∀ _ ∈ _, _ → _ → _ ∨ _))

theorem pending_of_selecting {loop : Loop wire} {deadline : Instant}
    (hphase : loop.phase = .selecting deadline) : loop.pending = loop.exchange.output := by
  simp only [pending, hphase]

/-- The timer of an unexpired window with a pending reply was armed for the
deadline of that reply or for the end of a client frame. -/
theorem deadline_of_output {state : Exchange wire} {output : Output wire} {idle now : Instant}
    (hopened : state.expires.isSome = true) (hexpired : ∀ expires ∈ state.expires, now < expires)
    (hactive : state.active = none) (houtput : state.output = some output)
    (hpassed : state.deadline idle ≤ now) :
    output.deadline ≤ now ∨
      ∃ started ∈ state.frameStarted, started + millis maxRemainingMs ≤ now := by
  obtain ⟨expires, hexpires⟩ := Option.isSome_iff_exists.mp hopened
  have hbefore := hexpired expires hexpires
  simp only [Exchange.deadline, hexpires, hactive, houtput, Option.getD_some] at hpassed
  cases hstarted : state.frameStarted with
  | none =>
      rw [hstarted] at hpassed
      rcases min_le_iff.mp hpassed with hwindow | hreply
      · exact absurd hwindow (not_le.mpr hbefore)
      · exact Or.inl hreply
  | some started =>
      rw [hstarted] at hpassed
      rcases min_le_iff.mp hpassed with hwindow | hframe
      · rcases min_le_iff.mp hwindow with hwindow | hreply
        · exact absurd hwindow (not_le.mpr hbefore)
        · exact Or.inl hreply
      · exact Or.inr ⟨started, rfl, hframe⟩

/-- A session that ends at an operation deadline was waiting, with nothing
active, in an unexpired window. -/
theorem Failing.queryDeadline {loop : Loop wire} {event : Event wire}
    (hfailing : Failing loop event .queryDeadline) (hloop : loop.Integral) :
    event = .timer ∧ ¬ loop.Expired ∧ loop.exchange.active = none ∧
      ∃ deadline, loop.phase = .selecting deadline ∧ deadline ≤ loop.clock := by
  have hpeer (hfault : SessionError.byPeer .queryDeadline = true) : False := by cases hfault
  cases hfailing with
  | frame hphase hconsume =>
      rcases Exchange.consume_error hconsume with hfault | ⟨hcontra, -⟩ | ⟨hcontra, -⟩
      · exact (hpeer hfault).elim
      · cases hcontra
      · cases hcontra
  | reply hphase hactive houtput hreceived =>
      rcases Exchange.received_error hreceived with hcontra | hfault
      · cases hcontra
      · exact (hpeer hfault).elim
  | commit hphase hcommit =>
      rcases Exchange.commitFlushed_error hcommit with ⟨hcontra, -⟩ | ⟨hcontra, -⟩ <;> cases hcontra
  | resume hphase htake =>
      rcases Exchange.takeDeferred_error (hloop.resuming _ hphase).2 htake with hfault | ⟨hcontra, -⟩
      · exact (hpeer hfault).elim
      · cases hcontra
  | timer hphase htimer hexpired htimedOut =>
      rcases Exchange.timedOut_error htimedOut with ⟨hcontra, -⟩ | ⟨-, hactive⟩
      · cases hcontra
      · exact ⟨rfl, hexpired, hactive, _, hphase, htimer⟩

/-- Flushing a failure leaves the session idle. -/
theorem Reaction.flushed_failure {loop next : Loop wire} {event : Event wire}
    {command : Option (Command wire)} (hreaction : Reaction loop event next command)
    (hloop : loop.Integral) (hphase : loop.phase = .flushing) {output : Output wire}
    (houtput : loop.exchange.output = some output) (hfailed : output.ready.IsFailure)
    (hflushed : next.exchange.output = none) : next.Live ∧ next.exchange.active = none := by
  have hlive := Live.of_phase hphase (by simp)
  have hidle : loop.exchange.active = none := by
    refine (hloop.exclusive hlive).slot.resolve_right ?_
    rw [houtput]
    exact Option.some_ne_none output
  have hunflushed (hsame : next.exchange.output = loop.exchange.output) : False := by
    rw [hsame, houtput] at hflushed
    cases hflushed
  cases hreaction with
  | delivered hflushing hfound halive hends =>
      obtain rfl := Option.some.inj (houtput.symm.trans hfound)
      rw [hfailed.2.2] at hends
      cases hends
  | committed hflushing hfound halive hends =>
      refine ⟨fun result hended => ?_, hidle⟩
      dsimp only at hended
      split at hended <;> cases hended
  | frame hother =>
      rw [hphase] at hother
      cases hother
  | resumed hother =>
      rw [hphase] at hother
      cases hother
  | reply => cases hflushed
  | wrote => cases hflushed
  | unasked hother =>
      rw [hphase] at hother
      cases hother
  | joined hother =>
      rw [hphase] at hother
      cases hother
  | _ => exact (hunflushed rfl).elim

/-- The pending answer of a data operation of an open window. -/
structure Reports (loop : Loop wire) (output : Output wire) : Prop where
  opened : loop.exchange.opened = true
  output_eq : loop.exchange.output = some output
  data : output.data = true
  failed : output.answer.IsFailure

theorem Timely.reported {loop : Loop wire} (hloop : loop.Timely) {active : Active}
    (hactive : loop.exchange.active = some active) (hdata : active.data = true)
    {ready : Ready wire} (hreports : ReportsFailure active ready) :
    ∃ output, ((loop.reply (some (.ok ready))).Reports output) ∧
      (loop.reply (some (.ok ready))).Live ∧
      (loop.reply (some (.ok ready))).exchange.active = none ∧ output.id = active.id ∧
      output.ready = output.answer ∧ output.cursor = 0 ∧ output.since = loop.clock := by
  obtain ⟨hid, hopened, hreason⟩ := hloop.exchange.asked active hactive
  obtain ⟨answer, hanswer, hfailed⟩ := answer_failure hid hreason hreports
  have hreply : loop.reply (some (.ok ready)) = { loop with
      exchange := { loop.exchange with
        active := none
        output := some {
          id := active.id, ready := answer, cursor := 0
          deadline := active.cleanup.getD active.deadline, data := active.data
          since := loop.clock, answer } }
      phase := .top } := by
    simp only [Loop.reply, Exchange.received, hactive, Results.okOr_some, Results.ok_bind,
      Except.mapError, hanswer, Results.pure_eq_ok]
  rw [hreply]
  exact ⟨_, ⟨hopened hdata, rfl, hdata, hfailed⟩, by rintro _ ⟨⟩, rfl, rfl, rfl, rfl, rfl⟩

end Loop

namespace Sample

/-- The worker of request 5 answers that its deadline, at five seconds, passed. -/
def lateFailure : List (Tick (wireOf [openFifth])) :=
  receive openFifth ++ [⟨0, .look⟩, ⟨5000000000, .reply (some (failure 5 .deadline))⟩]

/-- The timer finds the deadline passed before the worker answers. -/
def timedFailure : List (Tick (wireOf [openFifth])) :=
  receive openFifth ++ [⟨0, .look⟩, ⟨5000000000, .timer⟩, ⟨0, .look⟩]

/-- The failure of request 5 is written whole and found within the lifetime of
the window. -/
def flushing : List (Tick (wireOf [openFifth])) :=
  timedFailure ++ [⟨0, .reply (some (failure 5 .deadline))⟩, ⟨0, .look⟩, ⟨0, .wrote 74⟩,
    ⟨0, .look⟩, ⟨0, .flush⟩]

end Sample

namespace Loop

end Loop

end EliotSearch.Session
