import EliotSearch.Session.Controls

/-!
# The output slot

What becomes of the reply in the output slot.  A reaction keeps it, perhaps with
more of it written or replaced by the answer to its Cancel, or counts it as
flushed, or drops it for a Close before its first byte is written.
-/

namespace EliotSearch.Session

open EliotSearch.Library

variable {wire : Wire}

/-- Two states of one reply.  Only a Cancel that comes before its first byte
replaces it. -/
structure Output.Continues (before after : Output wire) : Prop where
  id_eq : after.id = before.id
  deadline_eq : after.deadline = before.deadline
  data_eq : after.data = before.data
  since_eq : after.since = before.since
  answer_eq : after.answer = before.answer
  cursor_le : before.cursor ≤ after.cursor
  ready : after.ready = before.ready ∨
    (before.cursor = 0 ∧ after.ready.IsFailure ∧ after.ready.reply.requestId = before.id)

theorem Output.Continues.refl (output : Output wire) : output.Continues output :=
  ⟨rfl, rfl, rfl, rfl, rfl, le_rfl, Or.inl rfl⟩

namespace Exchange

/-- Nothing is active behind a pending reply. -/
theorem Exclusive.active_of_output {state : Exchange wire} (hstate : state.Exclusive)
    {output : Output wire} (houtput : state.output = some output) : state.active = none := by
  refine hstate.slot.resolve_right ?_
  rw [houtput]
  exact Option.some_ne_none output

theorem Cancelling.output_cases {now : Instant} {id : UInt64} {state next : Exchange wire}
    (hcancel : Cancelling now id state next) {output : Output wire}
    (houtput : state.output = some output) :
    ∃ after, next.output = some after ∧ output.Continues after := by
  cases hcancel with
  | output hnew hactive hfound hid hcursor hready hreply =>
      obtain rfl := Option.some.inj (houtput.symm.trans hfound)
      exact ⟨_, rfl, rfl, rfl, rfl, rfl, rfl, le_rfl, Or.inr ⟨hcursor, hready, hreply.trans hid.symm⟩⟩
  | idle hnew hactive hnone hrefusal =>
      rw [hnone] at houtput
      cases houtput
  | _ => exact ⟨output, houtput, .refl output⟩

theorem Accepting.output_cases {now started : Instant} {message : wire.Frame}
    {state next : Exchange wire} {job : Option (Job wire)}
    (haccept : Accepting now message started state next job) {output : Output wire}
    (houtput : state.output = some output) :
    (∃ after, next.output = some after ∧ output.Continues after) ∨
      ∃ sent, job = some sent ∧ sent.message.isClose = true ∧ output.cursor = 0 := by
  cases haccept with
  | cancelled hkind hcancel => exact Or.inl (hcancel.output_cases houtput)
  | duplicate hkind hle hactive hnone hrefusal =>
      rw [hnone] at houtput
      cases houtput
  | deferred => exact Or.inl ⟨output, houtput, .refl output⟩
  | refused hdata hnew hactive hnone hrefusal =>
      rw [hnone] at houtput
      cases houtput
  | sent hkind hnew hactive hfree hopening hdeadline =>
      rcases hfree with ⟨hnone, -⟩ | ⟨hclose, -, found, hfound, hcursor⟩
      · rw [hnone] at houtput
        cases houtput
      · obtain rfl := Option.some.inj (houtput.symm.trans hfound)
        exact Or.inr ⟨_, rfl, hclose, hcursor⟩

theorem Consuming.output_cases {now : Instant} {bytes rest : Bytes} {state next : Exchange wire}
    {job : Option (Job wire)} (hconsume : Consuming now bytes state next job rest)
    {output : Output wire} (houtput : state.output = some output) :
    (∃ after, next.output = some after ∧ output.Continues after) ∨
      ∃ sent, job = some sent ∧ sent.message.isClose = true ∧ output.cursor = 0 := by
  cases hconsume with
  | fragment => exact Or.inl ⟨output, houtput, .refl output⟩
  | frame hpush hcount hframe hmessage hstarted haccept => exact haccept.output_cases houtput

end Exchange

namespace Loop

theorem Reaction.clock {loop next : Loop wire} {event : Event wire}
    {command : Option (Command wire)} (hreaction : Reaction loop event next command) :
    next.clock = loop.clock := by
  cases hreaction with
  | unasked hphase hactive houtput hexpired hdrain =>
      obtain ⟨ready, -, rfl⟩ := hdrain
      rfl
  | joined hphase hwhole hdrain =>
      obtain ⟨ready, -, rfl⟩ := hdrain
      rfl
  | _ => rfl

theorem clock_after (loop : Loop wire) (tick : Tick wire) :
    (loop.after tick).clock = loop.clock + tick.elapsed :=
  (react_reaction (loop.advance tick) tick.event).clock

/-- A reaction keeps the reply in the slot, flushes it, or drops it for a Close
that finds none of it written. -/
theorem Reaction.output_cases {loop next : Loop wire} {event : Event wire}
    {command : Option (Command wire)} (hreaction : Reaction loop event next command)
    (hloop : loop.Integral) {output : Output wire}
    (houtput : loop.exchange.output = some output) :
    (next.delivered = loop.delivered ∧
        ∃ after, next.exchange.output = some after ∧ output.Continues after) ∨
      (loop.phase = .flushing ∧ next.exchange.output = none ∧
        next.delivered = loop.delivered ++ [output]) ∨
      (next.delivered = loop.delivered ∧ ∃ job, dispatched command = some job ∧
        job.message.isClose = true ∧ output.cursor = 0) := by
  have hkept (hsame : next.exchange.output = loop.exchange.output)
      (hdelivered : next.delivered = loop.delivered) :
      next.delivered = loop.delivered ∧
        ∃ after, next.exchange.output = some after ∧ output.Continues after :=
    ⟨hdelivered, output, hsame.trans houtput, .refl output⟩
  cases hreaction with
  | frame hphase hconsume halive =>
      rw [dispatched_map]
      rcases hconsume.output_cases houtput with hafter | hclosed
      · exact Or.inl ⟨rfl, hafter⟩
      · exact Or.inr (Or.inr ⟨rfl, hclosed⟩)
  | reply hphase hactive hnone hanswer =>
      rw [hnone] at houtput
      cases houtput
  | wrote hphase hfound hcount hbound =>
      obtain rfl := Option.some.inj (houtput.symm.trans hfound)
      exact Or.inl ⟨rfl, _, rfl, rfl, rfl, rfl, rfl, rfl, Nat.le_add_right _ _, Or.inl rfl⟩
  | delivered hphase hfound halive hends =>
      obtain rfl := Option.some.inj (houtput.symm.trans hfound)
      exact Or.inr (Or.inl ⟨hphase, rfl, rfl⟩)
  | committed hphase hfound halive hends =>
      obtain rfl := Option.some.inj (houtput.symm.trans hfound)
      exact Or.inr (Or.inl ⟨hphase, rfl, rfl⟩)
  | resumed hphase hresume halive =>
      rw [(hloop.resuming _ hphase).2] at houtput
      cases houtput
  | unasked hphase hactive hnone hexpired hdrain =>
      rw [hnone] at houtput
      cases houtput
  | joined hphase hwhole hdrain =>
      obtain ⟨ready, -, rfl⟩ := hdrain
      exact Or.inl (hkept rfl rfl)
  | _ => exact Or.inl (hkept rfl rfl)

end Loop

end EliotSearch.Session
