import EliotSearch.Session.Controls
import EliotSearch.Session.Faults

/-!
# The boundary of partial output

A session that ends because a reply was cut off says so with one of three
errors.  A reply is cut off when some of its bytes are written and some are
not.  The results below say when the three errors mean that, and what becomes of
a Cancel that names a reply whose last byte is already written.
-/

namespace EliotSearch.Session

open EliotSearch.Library
open EliotSearch.Library.Results

variable {wire : Wire}

namespace Exchange

/-! ## Reception -/

/-- A frame that has begun to arrive is incomplete and its start is known. -/
structure Receiving (state : Exchange wire) : Prop where
  awaits : state.input.Awaits
  started : state.input.isEmpty = false → state.frameStarted.isSome = true

theorem Receiving.of_same {state next : Exchange wire} (hstate : state.Receiving)
    (hinput : next.input = state.input) (hstarted : next.frameStarted = state.frameStarted) :
    next.Receiving := by
  refine ⟨hinput ▸ hstate.awaits, fun hempty => ?_⟩
  rw [hstarted]
  exact hstate.started (hinput ▸ hempty)

/-- The frame that is read next has a start. -/
theorem Receiving.begins {state : Exchange wire} (hstate : state.Receiving) (now : Instant) :
    ∃ started, (if state.input.isEmpty then some now else state.frameStarted) = some started := by
  split
  · exact ⟨now, rfl⟩
  · rename_i hempty
    exact Option.isSome_iff_exists.mp (hstate.started (Bool.eq_false_of_not_eq_true hempty))

theorem receiving_client {state : Exchange wire} (hinput : state.input = FrameBuffer.client) :
    state.Receiving := by
  refine ⟨hinput ▸ FrameBuffer.awaits_empty _, fun hempty => ?_⟩
  rw [hinput] at hempty
  cases hempty

theorem Cancelling.input {now : Instant} {id : UInt64} {state next : Exchange wire}
    (hcancel : Cancelling now id state next) :
    next.input = state.input ∧ next.frameStarted = state.frameStarted := by
  cases hcancel <;> exact ⟨rfl, rfl⟩

theorem Accepting.input {now started : Instant} {message : wire.Frame}
    {state next : Exchange wire} {job : Option (Job wire)}
    (haccept : Accepting now message started state next job) :
    next.input = state.input ∧ next.frameStarted = state.frameStarted := by
  cases haccept with
  | cancelled hkind hcancel => exact hcancel.input
  | _ => exact ⟨rfl, rfl⟩

theorem Consuming.receiving {now : Instant} {bytes rest : Bytes} {state next : Exchange wire}
    {job : Option (Job wire)} (hconsume : Consuming now bytes state next job rest)
    (hstate : state.Receiving) (hbytes : bytes ≠ []) : next.Receiving := by
  cases hconsume with
  | fragment hpush hcount hframe =>
      obtain ⟨-, -, -, ⟨hawaits, -⟩ | ⟨-, hcomplete⟩⟩ :=
        FrameBuffer.push_spec hstate.awaits hbytes hpush
      · refine ⟨hawaits, fun _ => ?_⟩
        dsimp only
        split
        · rfl
        · rename_i hempty
          exact hstate.started (Bool.eq_false_of_not_eq_true hempty)
      · rw [hframe] at hcomplete
        cases hcomplete
  | frame hpush hcount hframe hmessage hstarted haccept =>
      exact receiving_client haccept.input.1

theorem Resuming.receiving {now : Instant} {deferred : Deferred wire}
    {state next : Exchange wire} {job : Option (Job wire)}
    (hresume : Resuming now deferred state next job) (hstate : state.Receiving) :
    next.Receiving := by
  cases hresume with
  | cancelled => exact hstate.of_same rfl rfl
  | accepted hcancelled haccept => exact hstate.of_same haccept.input.1 haccept.input.2

/-- A Cancel at or below the mark is taken and changes nothing else. -/
theorem consume_late {now : Instant} {alive : Bool} {bytes : Bytes} {state : Exchange wire}
    {message : wire.Frame} (hstate : state.Receiving) (hbytes : bytes ≠ [])
    (hincoming : state.incoming bytes = some message) (hkind : message.isCancel = true)
    (hlate : ∃ completed ∈ state.completedId, message.requestId ≤ completed) :
    ∃ rest, state.consume now alive bytes =
      .ok ({ state with input := FrameBuffer.client, frameStarted := none }, none, rest) := by
  obtain ⟨input, count, frame, hpush, hframe, hdecode⟩ := incoming_eq_some.mp hincoming
  obtain ⟨hpositive, -⟩ := FrameBuffer.push_spec hstate.awaits hbytes hpush
  obtain ⟨started, hstarted⟩ := hstate.begins now
  refine ⟨bytes.drop count, ?_⟩
  simp only [consume, hpush, hframe, hdecode, hstarted, Except.mapError, ok_bind,
    refuse_of_not hpositive.ne', okOr_some, accept, hkind, if_true, cancel, if_pos hlate,
    pure_eq_ok]

end Exchange

namespace Loop

/-- Every reaction keeps the reception of frames well formed. -/
structure Receiving (loop : Loop wire) : Prop where
  exchange : loop.exchange.Receiving
  consuming : ∀ rest, loop.phase = .consuming rest → rest ≠ []

theorem Reaction.receiving {loop next : Loop wire} {event : Event wire}
    {command : Option (Command wire)} (hreaction : Reaction loop event next command)
    (hloop : loop.Receiving) : next.Receiving := by
  have hkept {exchange : Exchange wire} (hinput : exchange.input = loop.exchange.input)
      (hstarted : exchange.frameStarted = loop.exchange.frameStarted) : exchange.Receiving :=
    hloop.exchange.of_same hinput hstarted
  cases hreaction with
  | ignored => exact hloop
  | read hphase hchunk =>
      refine ⟨hloop.exchange, fun rest hconsuming => ?_⟩
      cases hconsuming
      exact hchunk
  | frame hphase hconsume halive =>
      refine ⟨hconsume.receiving hloop.exchange (hloop.consuming _ hphase), ?_⟩
      intro rest hconsuming
      dsimp only at hconsuming
      split at hconsuming
      · cases hconsuming
      · rename_i hrest
        cases hconsuming
        exact hrest
  | committed hphase houtput halive hends =>
      refine ⟨hkept rfl rfl, fun rest hconsuming => ?_⟩
      dsimp only at hconsuming
      split at hconsuming <;> cases hconsuming
  | resumed hphase hresume halive => exact ⟨hresume.receiving hloop.exchange, nofun⟩
  | unasked hphase hactive houtput hexpired hdrain =>
      obtain ⟨ready, -, rfl⟩ := hdrain
      exact ⟨hloop.exchange, nofun⟩
  | joined hphase hwhole hdrain =>
      obtain ⟨ready, -, rfl⟩ := hdrain
      exact ⟨hloop.exchange, nofun⟩
  | drained hphase hfarewell hcount hbound => exact ⟨hloop.exchange, hloop.consuming⟩
  | _ => exact ⟨hkept rfl rfl, nofun⟩

theorem receiving_run (clock : Instant) (ticks : List (Tick wire)) :
    (run clock ticks).Receiving := by
  refine Runs.run_invariant ⟨Exchange.receiving_client rfl, nofun⟩ (fun loop tick hloop => ?_)
    ticks
  exact (react_reaction (loop.advance tick) tick.event).receiving ⟨hloop.exchange, hloop.consuming⟩

/-! ## Replies written whole -/

/-- The message that the next frame event completes. -/
def incoming (loop : Loop wire) : Option wire.Frame :=
  match loop.phase with
  | .consuming bytes => loop.exchange.incoming bytes
  | _ => none

/-- The reply in the slot while the loop waits for the worker of an expired
window. -/
def expiringOutput (loop : Loop wire) : Option (Output wire) :=
  match loop.phase with
  | .expiring _ => loop.exchange.output
  | _ => none

/-- The identity is that of a reply of which every byte is written. -/
def NamesWhole (loop : Loop wire) (id : UInt64) : Prop :=
  (∃ output ∈ loop.exchange.output, output.id = id ∧ output.IsWhole) ∨
    ∃ output ∈ loop.delivered, output.id = id

instance (loop : Loop wire) (id : UInt64) : Decidable (loop.NamesWhole id) :=
  inferInstanceAs (Decidable ((∃ _ ∈ _, _) ∨ ∃ _ ∈ _, _))

/-- No Cancel above the mark of late Cancels names a reply written whole, and no
expiry is acted on while such a reply is in the slot. -/
def LeavesWhole (loop : Loop wire) (tick : Tick wire) : Prop :=
  (tick.event.isFrame = true → ∀ message ∈ loop.incoming, message.isCancel = true →
    loop.NamesWhole message.requestId →
      ∃ completed ∈ loop.exchange.completedId, message.requestId ≤ completed) ∧
  (tick.event.isJoined = true → ∀ output ∈ loop.expiringOutput, ¬ output.IsWhole)

instance (loop : Loop wire) (tick : Tick wire) : Decidable (loop.LeavesWhole tick) :=
  inferInstanceAs (Decidable (_ ∧ _))

theorem incoming_of_consume {loop : Loop wire} {bytes : Bytes}
    (hphase : loop.phase = .consuming bytes) : loop.incoming = loop.exchange.incoming bytes := by
  simp only [incoming, hphase]

/-- A reaction that says it cut off a reply finds one begun; when that reply is
written whole, a Cancel named it or its window expired. -/
theorem Failing.cuts {loop : Loop wire} {event : Event wire} {error : SessionError}
    (hfailing : Failing loop event error) (hloop : loop.Integral)
    (herror : error.isPartial = true) :
    ∃ output, loop.exchange.output = some output ∧ output.cursor ≠ 0 ∧
      (output.IsWhole →
        (event.isFrame = true ∧ ∃ message ∈ loop.incoming, message.isCancel = true ∧
          output.id = message.requestId ∧
          ∀ completed ∈ loop.exchange.completedId, completed < message.requestId) ∨
        (event.isJoined = true ∧ loop.expiringOutput = some output)) := by
  have hpeer (hfault : error.byPeer = true) : False := by
    rw [error.byPeer_eq_false herror] at hfault
    cases hfault
  cases hfailing with
  | frame hphase hconsume =>
      rcases Exchange.consume_error hconsume with
        hfault | ⟨rfl, -⟩ | ⟨-, message, output, hincoming, hcut⟩
      · exact (hpeer hfault).elim
      · cases herror
      · refine ⟨output, hcut.output_eq, hcut.begun, fun hall => Or.inl ⟨rfl, message, ?_, ?_⟩⟩
        · exact (incoming_of_consume hphase).trans hincoming
        · exact hcut.whole hall
  | reply hphase hactive houtput hreceived =>
      rcases Exchange.received_error hreceived with rfl | hfault
      · cases herror
      · exact (hpeer hfault).elim
  | commit hphase hcommit =>
      rcases Exchange.commitFlushed_error hcommit with ⟨rfl, -⟩ | ⟨rfl, -⟩ <;> cases herror
  | resume hphase htake =>
      rcases Exchange.takeDeferred_error (hloop.resuming _ hphase).2 htake with hfault | ⟨rfl, -⟩
      · exact (hpeer hfault).elim
      · cases herror
  | timer hphase htimer hexpired htimedOut =>
      rcases Exchange.timedOut_error htimedOut with ⟨rfl, -⟩ | ⟨rfl, -⟩ <;> cases herror
  | partialOutput hphase houtput hcursor =>
      refine ⟨_, houtput, hcursor, fun _ => Or.inr ⟨rfl, ?_⟩⟩
      simp only [expiringOutput, hphase, houtput]
  | _ => cases herror

theorem after_late {loop : Loop wire} {tick : Tick wire} {bytes : Bytes} {exchange : Exchange wire}
    (hframe : tick.event.isFrame = true) (hphase : loop.phase = .consuming bytes)
    (hconsume : ∀ (now : Instant) (alive : Bool), ∃ rest,
      loop.exchange.consume now alive bytes = .ok (exchange, none, rest)) :
    (loop.after tick).Live ∧ (loop.after tick).exchange = exchange := by
  obtain ⟨elapsed, event⟩ := tick
  cases event with
  | frame alive =>
      obtain ⟨rest, hok⟩ := hconsume (loop.clock + elapsed) alive
      have hafter : loop.after ⟨elapsed, .frame alive⟩ = { loop with
          clock := loop.clock + elapsed
          exchange
          phase := if rest = [] then .top else .consuming rest } := by
        simp only [after, step, advance, react, hphase, frame, hok]
      rw [hafter]
      refine ⟨fun result hended => ?_, rfl⟩
      dsimp only at hended
      split at hended <;> cases hended
  | _ => cases hframe

/-- In every run that leaves replies written whole alone, a session says that it
cut off a reply only when the reply in its slot is written in part, and a Cancel
that names a reply written whole leaves the session and its replies as they
are. -/
theorem partial_errors (clock : Instant) (ticks : List (Tick wire)) (tick : Tick wire)
    (hleaves : Runs.Throughout after LeavesWhole (start clock) (ticks ++ [tick])) :
    (∀ error : SessionError, error.isPartial = true → (run clock ticks).Live →
      (run clock (ticks ++ [tick])).phase = .ended (.error error) →
        ∃ output, (run clock ticks).exchange.output = some output ∧ output.IsPartial) ∧
    (tick.event.isFrame = true → ∀ message ∈ (run clock ticks).incoming,
      message.isCancel = true → (run clock ticks).NamesWhole message.requestId →
        (run clock (ticks ++ [tick])).Live ∧
          (run clock (ticks ++ [tick])).exchange =
            { (run clock ticks).exchange with
              input := FrameBuffer.client, frameStarted := none }) := by
  have hintegral : (run clock ticks : Loop wire).Integral := integral_run clock ticks
  have hreceiving : (run clock ticks : Loop wire).Receiving := receiving_run clock ticks
  have hmeets : (run clock ticks).LeavesWhole tick := (Runs.throughout_append.mp hleaves).2.1
  have hlast : run clock (ticks ++ [tick]) = (run clock ticks).after tick :=
    run_append clock ticks [tick]
  rw [hlast]
  constructor
  · intro error herror hlive hended
    have hreaction := react_reaction ((run clock ticks).advance tick) tick.event
    obtain ⟨output, houtput, hcursor, hwhole⟩ :=
      (hreaction.failing hlive hended).cuts (hintegral.advance tick) herror
    refine ⟨output, houtput, Nat.pos_of_ne_zero hcursor, ?_⟩
    refine lt_of_le_of_ne ((hintegral.exclusive hlive).bounded output houtput) fun hall => ?_
    rcases hwhole hall with ⟨hframe, message, hincoming, hkind, hid, hnew⟩ | ⟨hjoined, hexpiring⟩
    · obtain ⟨completed, hcompleted, hle⟩ := hmeets.1 hframe message hincoming hkind
        (Or.inl ⟨output, houtput, hid, hall⟩)
      exact UInt64.not_le.mpr (hnew completed hcompleted) hle
    · exact hmeets.2 hjoined output hexpiring hall
  · intro hframe message hincoming hkind hnames
    have hlate := hmeets.1 hframe message hincoming hkind hnames
    obtain ⟨bytes, hphase⟩ : ∃ bytes, (run clock ticks).phase = .consuming bytes := by
      unfold incoming at hincoming
      split at hincoming
      · rename_i bytes hphase
        exact ⟨bytes, hphase⟩
      · cases hincoming
    rw [incoming_of_consume hphase] at hincoming
    exact after_late hframe hphase fun _ _ =>
      Exchange.consume_late hreceiving.exchange (hreceiving.consuming _ hphase) hincoming hkind
        hlate

end Loop

namespace Sample

/-- The reply to request 5 is written whole and not flushed. -/
def written : List (Tick (wireOf [openFifth, .cancel 5])) :=
  receive openFifth ++ answer 5 ++ [⟨0, .look⟩, ⟨0, .wrote 83⟩]

/-- The flush of that reply finds the lifetime of the window passed. -/
def lateFlush : List (Tick (wireOf [openFifth, .cancel 5])) :=
  written ++ [⟨0, .look⟩, ⟨60000000000, .flush⟩]

/-- The reply to request 5 is written in part when its Cancel arrives. -/
def cutOff : List (Tick (wireOf [openFifth, .cancel 5])) :=
  receive openFifth ++ answer 5 ++ [⟨0, .look⟩, ⟨0, .wrote 82⟩, ⟨0, .look⟩,
    ⟨0, .read (bytes (.cancel 5))⟩]

/-- The reply to request 5 is flushed when its Cancel arrives. -/
def flushed : List (Tick (wireOf [openFifth, .cancel 5])) :=
  receive openFifth ++ answer 5 ++ deliver 83 ++ [⟨0, .look⟩, ⟨0, .read (bytes (.cancel 5))⟩]

/-- What a session ended with, when it did. -/
def endedWith {wire : Wire} (loop : Loop wire) : Option SessionError :=
  match loop.phase with
  | .ended (.error error) => some error
  | _ => none

/-- The written length and the length of the reply in the slot. -/
def progress {wire : Wire} (loop : Loop wire) : Option (Nat × Nat) :=
  loop.exchange.output.map fun output => (output.cursor, output.ready.bytes.length)

end Sample

namespace Loop

/-- A Cancel and an expiry that find a reply written whole both report that it
was cut off. -/
theorem whole_reply_reported_partial :
    Sample.progress (run 0 Sample.written) = some (83, 83) ∧
      Sample.endedWith (run 0 (Sample.written ++ Sample.receive (.cancel 5))) =
        some .partialOutputCancelled ∧
      Sample.progress (run 0 Sample.lateFlush) = some (83, 83) ∧
      Sample.endedWith (run 0 (Sample.lateFlush ++ [⟨0, .joined true⟩])) =
        some .expiredPartialOutput := by
  decide +kernel

theorem partial_errors_sample :
    (∃ output, (run 0 Sample.cutOff).exchange.output = some output ∧ output.IsPartial) ∧
      Sample.endedWith (run 0 (Sample.cutOff ++ [⟨0, .frame true⟩])) =
        some .partialOutputCancelled ∧
      (run 0 Sample.flushed).NamesWhole 5 ∧
      (run 0 (Sample.flushed ++ [⟨0, .frame true⟩])).Live := by
  have hended : Sample.endedWith (run 0 (Sample.cutOff ++ [⟨0, .frame true⟩])) =
      some .partialOutputCancelled := by decide +kernel
  refine ⟨(partial_errors 0 Sample.cutOff ⟨0, .frame true⟩ (by decide +kernel)).1
    .partialOutputCancelled rfl (by decide +kernel) ?_, hended, by decide +kernel, ?_⟩
  · unfold Sample.endedWith at hended
    split at hended
    · rename_i error hphase
      rw [hphase, Option.some.inj hended]
    · cases hended
  · exact ((partial_errors 0 Sample.flushed ⟨0, .frame true⟩ (by decide +kernel)).2 rfl
      (.cancel 5) (by decide +kernel) rfl (by decide +kernel)).1

end Loop

end EliotSearch.Session
