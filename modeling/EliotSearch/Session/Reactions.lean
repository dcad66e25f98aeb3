import EliotSearch.Session.Loop

/-!
# Reactions of the session loop

Everything the loop can do with an event, one case for each branch.  The
invariants of the loop are proved by these cases.
-/

namespace EliotSearch.Session

open EliotSearch.Library
open EliotSearch.Library.Results

namespace Loop

variable {wire : Wire}

/-- The loop begins to write the last reply of an expired window. -/
def Drains (id : UInt64) (loop next : Loop wire) : Prop :=
  ∃ ready : Ready wire, ready.reply = ⟨id, .expired⟩ ∧ next = { loop with
    farewell := some (ready, 0)
    phase := .draining (loop.clock + cleanupAllowance) }

/-- Why an event can end the session with an error. -/
inductive Failing (loop : Loop wire) : Event wire → SessionError → Prop where
  | readFailed {deadline : Instant} (hphase : loop.phase = .selecting deadline) :
      Failing loop .readFailed .inputIo
  | truncated {deadline : Instant} (hphase : loop.phase = .selecting deadline) :
      Failing loop (.read []) .frameInvalid
  | frame {alive : Bool} {bytes : Bytes} {error : SessionError}
      (hphase : loop.phase = .consuming bytes)
      (hconsume : loop.exchange.consume loop.clock alive bytes = .error error) :
      Failing loop (.frame alive) error
  | unanswered {deadline : Instant} {active : Active} (hphase : loop.phase = .selecting deadline)
      (hactive : loop.exchange.active = some active) (houtput : loop.exchange.output = none) :
      Failing loop (.reply none) .workerPanicked
  | reply {deadline : Instant} {active : Active} {result : Except Bytes (Ready wire)}
      {error : SessionError} (hphase : loop.phase = .selecting deadline)
      (hactive : loop.exchange.active = some active) (houtput : loop.exchange.output = none)
      (hreceived : loop.exchange.received loop.clock result = .error error) :
      Failing loop (.reply (some result)) error
  | closed {deadline : Instant} (hphase : loop.phase = .selecting deadline) :
      Failing loop (.wrote 0) .outputClosed
  | writeFailed (hlive : loop.Live) : Failing loop .writeFailed .outputIo
  | commit {alive : Bool} {error : SessionError} (hphase : loop.phase = .flushing)
      (hcommit : loop.exchange.commitFlushed alive = .error error) :
      Failing loop (.commit alive) error
  | resume {alive : Bool} {deferred : Deferred wire} {error : SessionError}
      (hphase : loop.phase = .resuming deferred)
      (htake : loop.exchange.takeDeferred loop.clock alive deferred = .error error) :
      Failing loop (.resume alive) error
  | done {deadline : Instant} {signalled : Bool} (hphase : loop.phase = .selecting deadline)
      (hactive : loop.exchange.active = none) (houtput : loop.exchange.output = none)
      (hearly : signalled = false ∨ ¬ loop.Expired) :
      Failing loop (.done signalled) .workerPanicked
  | timer {deadline : Instant} {error : SessionError} (hphase : loop.phase = .selecting deadline)
      (htimer : deadline ≤ loop.clock) (hexpired : ¬ loop.Expired)
      (htimedOut : loop.exchange.timedOut loop.clock = .error error) : Failing loop .timer error
  | partialOutput {limit : Instant} {output : Output wire} (hphase : loop.phase = .expiring limit)
      (houtput : loop.exchange.output = some output) (hcursor : output.cursor ≠ 0) :
      Failing loop (.joined true) .expiredPartialOutput
  | unjoined {limit : Instant} (hphase : loop.phase = .expiring limit) :
      Failing loop (.joined false) .workerPanicked
  | cleanup {limit : Instant} (hphase : loop.phase = .expiring limit ∨ loop.phase = .draining limit)
      (hlimit : limit ≤ loop.clock) : Failing loop .timer .cleanupExpired
  | undrained {limit : Instant} (hphase : loop.phase = .draining limit) :
      Failing loop (.wrote 0) .outputIo

/-- What the loop can do with an event. -/
inductive Reaction (loop : Loop wire) :
    Event wire → Loop wire → Option (Command wire) → Prop where
  /-- The event is not awaited. -/
  | ignored {event : Event wire} : Reaction loop event loop none
  | failed {event : Event wire} {error : SessionError} (hfailing : Failing loop event error) :
      Reaction loop event (loop.fail error) none
  | selecting (hphase : loop.phase = .top) (hlasting : ¬ loop.Expired) :
      Reaction loop .look
        { loop with phase := .selecting (loop.exchange.deadline loop.idle) } none
  | expiring {event : Event wire} (hlive : loop.Live)
      (hphase : loop.phase = .top ∨ ∃ deadline, loop.phase = .selecting deadline)
      (hexpired : loop.Expired) (hlooks : event.looks = true) :
      Reaction loop event loop.expire.1 (some .shutdown)
  | stopped {deadline : Instant} (hphase : loop.phase = .selecting deadline) :
      Reaction loop (.read []) (loop.finish (.ok ())) none
  | read {deadline : Instant} {chunk : Bytes} (hphase : loop.phase = .selecting deadline)
      (hchunk : chunk ≠ []) :
      Reaction loop (.read chunk) { loop with phase := .consuming chunk } none
  | frame {alive : Bool} {bytes rest : Bytes} {exchange : Exchange wire}
      {job : Option (Job wire)} (hphase : loop.phase = .consuming bytes)
      (hconsume : Exchange.Consuming loop.clock bytes loop.exchange exchange job rest)
      (halive : job.isSome = true → alive = true) :
      Reaction loop (.frame alive)
        { loop with exchange, phase := if rest = [] then .top else .consuming rest }
        (job.map .execute)
  | reply {deadline : Instant} {active : Active} {ready answer : Ready wire}
      (hphase : loop.phase = .selecting deadline) (hactive : loop.exchange.active = some active)
      (houtput : loop.exchange.output = none)
      (hanswer : Exchange.Answering active ready answer) :
      Reaction loop (.reply (some (.ok ready)))
        { loop with
          exchange := { loop.exchange with
            active := none
            output := some {
              id := active.id, ready := answer, cursor := 0
              deadline := active.cleanup.getD active.deadline, data := active.data
              since := loop.clock, answer } }
          phase := .top } none
  | wrote {deadline : Instant} {count : Nat} {output : Output wire}
      (hphase : loop.phase = .selecting deadline) (houtput : loop.exchange.output = some output)
      (hcount : count ≠ 0) (hbound : output.cursor + count ≤ output.ready.bytes.length) :
      Reaction loop (.wrote count)
        { loop with
          exchange := { loop.exchange with
            output := some { output with cursor := output.cursor + count } }
          stdout := loop.stdout ++ (output.ready.bytes.drop output.cursor).take count
          phase := .top } none
  | flushing {deadline : Instant} {output : Output wire}
      (hphase : loop.phase = .selecting deadline) (houtput : loop.exchange.output = some output)
      (hcursor : output.cursor = output.ready.bytes.length) (hexpired : ¬ loop.Expired) :
      Reaction loop .flush { loop with phase := .flushing } none
  | delivered {alive : Bool} {output : Output wire} (hphase : loop.phase = .flushing)
      (houtput : loop.exchange.output = some output)
      (halive : output.ready.commit.isSome = true → alive = true)
      (hends : output.ready.ends = true) :
      Reaction loop (.commit alive)
        { loop with
          exchange := { loop.exchange with output := none, completedId := some output.id }
          delivered := loop.delivered ++ [output]
          phase := .ended (.ok ()) }
        (output.ready.commit.map fun (expected, next) => .commit expected next)
  | committed {alive : Bool} {output : Output wire} (hphase : loop.phase = .flushing)
      (houtput : loop.exchange.output = some output)
      (halive : output.ready.commit.isSome = true → alive = true)
      (hends : output.ready.ends = false) :
      Reaction loop (.commit alive)
        { loop with
          exchange := { loop.exchange with
            output := none, completedId := some output.id, deferred := none }
          delivered := loop.delivered ++ [output]
          phase := match loop.exchange.deferred with
            | some deferred => .resuming deferred
            | none => .top }
        (output.ready.commit.map fun (expected, next) => .commit expected next)
  | resumed {alive : Bool} {deferred : Deferred wire} {exchange : Exchange wire}
      {job : Option (Job wire)} (hphase : loop.phase = .resuming deferred)
      (hresume : Exchange.Resuming loop.clock deferred loop.exchange exchange job)
      (halive : job.isSome = true → alive = true) :
      Reaction loop (.resume alive) { loop with exchange, phase := .top } (job.map .execute)
  | unasked {deadline : Instant} {next : Loop wire} (hphase : loop.phase = .selecting deadline)
      (hactive : loop.exchange.active = none) (houtput : loop.exchange.output = none)
      (hexpired : loop.Expired) (hdrain : Drains 0 loop next) :
      Reaction loop (.done true) next none
  | timedOut {deadline : Instant} {active : Active} (hphase : loop.phase = .selecting deadline)
      (htimer : deadline ≤ loop.clock) (hexpired : ¬ loop.Expired)
      (hactive : loop.exchange.active = some active) (hcleanup : active.cleanup = none) :
      Reaction loop .timer
        { loop with
          exchange := { loop.exchange with
            active := some { active with
              cancel := true
              stopped := some .deadline
              cleanup := some (loop.clock + cleanupAllowance) } }
          phase := .top } none
  | joined {limit : Instant} {next : Loop wire} (hphase : loop.phase = .expiring limit)
      (hwhole : ∀ output ∈ loop.exchange.output, output.cursor = 0)
      (hdrain : Drains (expiredId loop.exchange) loop next) :
      Reaction loop (.joined true) next none
  | drained {limit : Instant} {count cursor : Nat} {ready : Ready wire}
      (hphase : loop.phase = .draining limit) (hfarewell : loop.farewell = some (ready, cursor))
      (hcount : count ≠ 0) (hbound : cursor + count ≤ ready.bytes.length) :
      Reaction loop (.wrote count)
        { loop with
          farewell := some (ready, cursor + count)
          stdout := loop.stdout ++ (ready.bytes.drop cursor).take count } none
  | farewell {limit : Instant} {cursor : Nat} {ready : Ready wire}
      (hphase : loop.phase = .draining limit) (hfarewell : loop.farewell = some (ready, cursor))
      (hcursor : cursor = ready.bytes.length) :
      Reaction loop .flush (loop.finish (.ok ())) none

theorem Live.of_phase {loop : Loop wire} {phase : Phase wire} (hphase : loop.phase = phase)
    (hlive : ∀ result, phase ≠ .ended result) : loop.Live := by
  intro result hended
  exact hlive result (hphase.symm.trans hended)

theorem look_reaction {loop : Loop wire} (hphase : loop.phase = .top) :
    Reaction loop .look loop.look.1 loop.look.2 := by
  unfold look
  split
  · rename_i hexpired
    exact .expiring (Live.of_phase hphase (by simp)) (Or.inl hphase) hexpired rfl
  · rename_i hlasting
    exact .selecting hphase hlasting

theorem read_reaction {loop : Loop wire} {deadline : Instant} {chunk : Bytes}
    (hphase : loop.phase = .selecting deadline) :
    Reaction loop (.read chunk) (loop.read chunk) none := by
  unfold read
  split
  · rename_i hchunk
    subst hchunk
    split
    · exact .stopped hphase
    · exact .failed (.truncated hphase)
  · rename_i hchunk
    exact .read hphase hchunk

theorem frame_reaction {loop : Loop wire} {alive : Bool} {bytes : Bytes}
    (hphase : loop.phase = .consuming bytes) :
    Reaction loop (.frame alive) (loop.frame alive bytes).1 (loop.frame alive bytes).2 := by
  unfold frame
  split
  · rename_i hconsume
    obtain ⟨hconsuming, halive⟩ := Exchange.consume_eq_ok hconsume
    exact .frame hphase hconsuming halive
  · rename_i hconsume
    exact .failed (.frame hphase hconsume)

theorem reply_reaction {loop : Loop wire} {deadline : Instant} {active : Active}
    {result : Option (Except Bytes (Ready wire))} (hphase : loop.phase = .selecting deadline)
    (hactive : loop.exchange.active = some active) (houtput : loop.exchange.output = none) :
    Reaction loop (.reply result) (loop.reply result) none := by
  unfold reply
  split
  · exact .failed (.unanswered hphase hactive houtput)
  · rename_i result
    split
    · rename_i hreceived
      obtain ⟨active, ready, answer, hactive, rfl, hanswer, rfl⟩ :=
        Exchange.received_eq_ok hreceived
      exact .reply hphase hactive houtput hanswer
    · rename_i hreceived
      exact .failed (.reply hphase hactive houtput hreceived)

theorem wrote_reaction {loop : Loop wire} {deadline : Instant} {count : Nat}
    {output : Output wire} (hphase : loop.phase = .selecting deadline)
    (houtput : loop.exchange.output = some output)
    (hbound : output.cursor + count ≤ output.ready.bytes.length) :
    Reaction loop (.wrote count) (loop.wrote count output) none := by
  unfold wrote
  split
  · rename_i hcount
    subst hcount
    exact .failed (.closed hphase)
  · rename_i hcount
    exact .wrote hphase houtput hcount hbound

theorem flush_reaction {loop : Loop wire} {deadline : Instant} {output : Output wire}
    (hphase : loop.phase = .selecting deadline) (houtput : loop.exchange.output = some output)
    (hcursor : output.cursor = output.ready.bytes.length) :
    Reaction loop .flush loop.flush.1 loop.flush.2 := by
  unfold flush
  split
  · rename_i hexpired
    exact .expiring (Live.of_phase hphase (by simp)) (Or.inr ⟨deadline, hphase⟩) hexpired rfl
  · rename_i hexpired
    exact .flushing hphase houtput hcursor hexpired

theorem commit_reaction {loop : Loop wire} {alive : Bool} (hphase : loop.phase = .flushing) :
    Reaction loop (.commit alive) (loop.commit alive).1 (loop.commit alive).2 := by
  unfold commit
  split
  · rename_i hcommit
    obtain ⟨output, houtput, rfl, halive, rfl, hnext⟩ := Exchange.commitFlushed_eq_ok hcommit
    rw [houtput]
    rcases hnext with ⟨hends, rfl, rfl⟩ | ⟨hends, rfl, rfl⟩
    · rw [if_pos hends]
      exact .delivered hphase houtput halive hends
    · rw [if_neg (by simp [hends])]
      exact .committed hphase houtput halive hends
  · rename_i hcommit
    exact .failed (.commit hphase hcommit)

theorem resume_reaction {loop : Loop wire} {alive : Bool} {deferred : Deferred wire}
    (hphase : loop.phase = .resuming deferred) :
    Reaction loop (.resume alive) (loop.resume alive deferred).1
      (loop.resume alive deferred).2 := by
  unfold resume
  split
  · rename_i htake
    obtain ⟨hresuming, halive⟩ := Exchange.takeDeferred_eq_ok htake
    exact .resumed hphase hresuming halive
  · rename_i htake
    exact .failed (.resume hphase htake)

/-- The last reply of an expired window can always be begun. -/
theorem drain_drains (id : UInt64) (loop : Loop wire) : Drains id loop (loop.drain id) := by
  have hencodes : ∃ ready : Ready wire, outcome id .expired true = .ok ready :=
    outcome_ok .expired true (Or.inr rfl) rfl
  obtain ⟨ready, hready⟩ := hencodes
  unfold drain
  split
  · rename_i ready houtcome
    exact ⟨ready, (outcome_eq_ok houtcome).1, rfl⟩
  · rename_i code houtcome
    rw [hready] at houtcome
    cases houtcome

theorem done_reaction {loop : Loop wire} {deadline : Instant} {signalled : Bool}
    (hphase : loop.phase = .selecting deadline) (hactive : loop.exchange.active = none)
    (houtput : loop.exchange.output = none) :
    Reaction loop (.done signalled) (loop.done signalled) none := by
  unfold done
  split
  · rename_i hdone
    obtain ⟨rfl, hexpired⟩ := hdone
    exact .unasked hphase hactive houtput hexpired (drain_drains 0 loop)
  · rename_i hdone
    refine .failed (.done hphase hactive houtput ?_)
    cases signalled with
    | false => exact Or.inl rfl
    | true => exact Or.inr fun hexpired => hdone ⟨rfl, hexpired⟩

theorem timer_reaction {loop : Loop wire} {deadline : Instant}
    (hphase : loop.phase = .selecting deadline) (htimer : deadline ≤ loop.clock) :
    Reaction loop .timer loop.timer.1 loop.timer.2 := by
  unfold timer
  split
  · rename_i hexpired
    exact .expiring (Live.of_phase hphase (by simp)) (Or.inr ⟨deadline, hphase⟩) hexpired rfl
  · rename_i hexpired
    split
    · rename_i htimedOut
      obtain ⟨active, hactive, hcleanup, rfl⟩ := Exchange.timedOut_eq_ok htimedOut
      exact .timedOut hphase htimer hexpired hactive hcleanup
    · rename_i htimedOut
      exact .failed (.timer hphase htimer hexpired htimedOut)

theorem joined_reaction {loop : Loop wire} {limit : Instant} {signalled : Bool}
    (hphase : loop.phase = .expiring limit) :
    Reaction loop (.joined signalled) (loop.joined signalled) none := by
  unfold joined
  split
  · rename_i hsignalled
    subst hsignalled
    split
    · rename_i hshort
      obtain ⟨output, houtput, hcursor⟩ := hshort
      exact .failed (.partialOutput hphase houtput hcursor)
    · rename_i hwhole
      simp only [not_exists, not_and, not_not] at hwhole
      exact .joined hphase hwhole (drain_drains _ loop)
  · rename_i hsignalled
    obtain rfl := Bool.eq_false_of_not_eq_true hsignalled
    exact .failed (.unjoined hphase)

theorem drained_reaction {loop : Loop wire} {limit : Instant} {count cursor : Nat}
    {ready : Ready wire} (hphase : loop.phase = .draining limit)
    (hfarewell : loop.farewell = some (ready, cursor))
    (hbound : cursor + count ≤ ready.bytes.length) :
    Reaction loop (.wrote count) (loop.drained count ready cursor) none := by
  unfold drained
  split
  · rename_i hcount
    subst hcount
    exact .failed (.undrained hphase)
  · rename_i hcount
    exact .drained hphase hfarewell hcount hbound

/-- Every reaction of the loop is one of the cases above. -/
theorem react_reaction (loop : Loop wire) (event : Event wire) :
    Reaction loop event (loop.react event).1 (loop.react event).2 := by
  unfold react
  split
  · rename_i hphase
    exact look_reaction hphase
  · rename_i hphase
    exact read_reaction hphase
  · rename_i hphase
    exact .failed (.readFailed hphase)
  · rename_i deadline result hphase
    split
    · rename_i houtput hactive
      exact reply_reaction hphase hactive houtput
    · exact .ignored
  · rename_i deadline count hphase
    split
    · rename_i output houtput
      split
      · rename_i hbound
        exact wrote_reaction hphase houtput hbound.2
      · exact .ignored
    · exact .ignored
  · rename_i hphase
    split
    · exact .failed (.writeFailed (Live.of_phase hphase (by simp)))
    · exact .ignored
  · rename_i hphase
    split
    · rename_i hwhole
      obtain ⟨output, houtput, hcursor⟩ := hwhole
      exact flush_reaction hphase houtput hcursor
    · exact .ignored
  · rename_i hphase
    split
    · rename_i houtput hactive
      exact done_reaction hphase hactive houtput
    · exact .ignored
  · rename_i deadline hphase
    split
    · rename_i htimer
      exact timer_reaction hphase htimer
    · exact .ignored
  · rename_i hphase
    exact frame_reaction hphase
  · rename_i hphase
    exact commit_reaction hphase
  · rename_i hphase
    exact resume_reaction hphase
  · rename_i hphase
    exact joined_reaction hphase
  · rename_i hphase
    split
    · rename_i hlimit
      exact .failed (.cleanup (Or.inl hphase) hlimit)
    · exact .ignored
  · rename_i hphase
    split
    · rename_i ready cursor hfarewell
      split
      · rename_i hbound
        exact drained_reaction hphase hfarewell hbound.2
      · exact .ignored
    · exact .ignored
  · rename_i hphase
    exact .failed (.writeFailed (Live.of_phase hphase (by simp)))
  · rename_i hphase
    split
    · rename_i hwhole
      obtain ⟨⟨ready, cursor⟩, hfarewell, hcursor⟩ := hwhole
      exact .farewell hphase hfarewell hcursor
    · exact .ignored
  · rename_i hphase
    split
    · rename_i hlimit
      exact .failed (.cleanup (Or.inr hphase) hlimit)
    · exact .ignored
  · exact .ignored

/-- A live session that ends with an error was failed by the event. -/
theorem Reaction.failing {loop next : Loop wire} {event : Event wire}
    {command : Option (Command wire)} (hreaction : Reaction loop event next command)
    (hlive : loop.Live) {error : SessionError} (hended : next.phase = .ended (.error error)) :
    Failing loop event error := by
  cases hreaction with
  | ignored => exact absurd hended (hlive _)
  | failed hfailing =>
      obtain rfl := Except.error.inj (Phase.ended.inj hended)
      exact hfailing
  | frame hphase hconsume halive =>
      dsimp only at hended
      split at hended <;> cases hended
  | committed hphase houtput halive hends =>
      dsimp only at hended
      split at hended <;> cases hended
  | unasked hphase hactive houtput hexpired hdrain =>
      obtain ⟨ready, -, rfl⟩ := hdrain
      cases hended
  | joined hphase hwhole hdrain =>
      obtain ⟨ready, -, rfl⟩ := hdrain
      cases hended
  | drained hphase hfarewell hcount hbound => exact absurd hended (hlive _)
  | _ => cases hended

end Loop

end EliotSearch.Session
