import EliotSearch.Session.Deadlines

/-!
# Calm sessions

When a session cannot end with an error: its streams work, its frames are
accepted, no time limit passes, no reply is cut off, and the worker's end of a
channel is there when the loop uses it.
-/

namespace EliotSearch.Session

open EliotSearch.Library
open EliotSearch.Library.Json
open EliotSearch.Library.Results

variable {wire : Wire}

namespace Exchange

/-! ## Accepted frames -/

/-- A Cancel is late, or it names what it finds: a deferred request, the active
operation, or the pending reply before its first byte. -/
def AcceptsCancel (id : UInt64) (state : Exchange wire) : Prop :=
  (∃ completed ∈ state.completedId, id ≤ completed) ∨
  (∃ deferred ∈ state.deferred, deferred.message.requestId = id ∧
    deferred.message.isClose = false) ∨
  (∃ active ∈ state.active, active.id = id) ∨
  (state.active.isNone = true ∧ ∀ output ∈ state.output, output.id = id ∧ output.cursor = 0)

/-- A request has a new identity, or nothing is under way; it is not in the way
of another one, and a Close does not cut off a reply. -/
def AcceptsRequest (message : wire.Frame) (state : Exchange wire) : Prop :=
  (message.requestId ≤ state.lastId → state.active.isNone = true ∧ state.output.isNone = true) ∧
  (state.lastId < message.requestId →
    (state.active.isNone = true ∨ message.isClose = true) ∧
    ∀ output ∈ state.output,
      (message.isClose = true → output.cursor = 0 ∨ output.cursor = output.ready.bytes.length) ∧
      (state.deferred.isNone = true ∨ message.isClose = true))

/-- The frame is no fault of the peer. -/
def Accepts (message : wire.Frame) (state : Exchange wire) : Prop :=
  (message.isCancel = true → state.AcceptsCancel message.requestId) ∧
  (message.isCancel = false → state.AcceptsRequest message)

instance (id : UInt64) (state : Exchange wire) : Decidable (state.AcceptsCancel id) :=
  inferInstanceAs (Decidable ((∃ _ ∈ _, _) ∨ (∃ _ ∈ _, _ ∧ _) ∨ (∃ _ ∈ _, _) ∨ (_ ∧ ∀ _ ∈ _, _)))

instance (message : wire.Frame) (state : Exchange wire) :
    Decidable (state.AcceptsRequest message) :=
  inferInstanceAs (Decidable ((_ → _ ∧ _) ∧ (_ → (_ ∨ _) ∧ ∀ _ ∈ _, (_ → _ ∨ _) ∧ (_ ∨ _))))

instance (message : wire.Frame) (state : Exchange wire) : Decidable (state.Accepts message) :=
  inferInstanceAs (Decidable ((_ → _) ∧ (_ → _)))

/-- The frame goes to the worker: a request with a new identity that no reply is
in the way of and that fits the window. -/
def Needs (message : wire.Frame) (state : Exchange wire) : Prop :=
  message.isCancel = false ∧ state.lastId < message.requestId ∧
  (∀ output ∈ state.output, message.isClose = true ∧ output.cursor = 0) ∧
  (message.isClose = true ∨ state.opened ≠ message.isOpen)

instance (message : wire.Frame) (state : Exchange wire) : Decidable (state.Needs message) :=
  inferInstanceAs (Decidable (_ ∧ _ ∧ (∀ _ ∈ _, _) ∧ (_ ∨ _)))

/-- The next bytes are part of a frame, and the frame they complete is accepted. -/
def Takes (bytes : Bytes) (state : Exchange wire) : Prop :=
  ∃ pushed ∈ (state.input.push bytes).toOption, ∀ frame ∈ pushed.1.frame,
    ∃ message ∈ (wire.decodeSessionFrame frame).toOption, state.Accepts message

instance (bytes : Bytes) (state : Exchange wire) : Decidable (state.Takes bytes) :=
  inferInstanceAs (Decidable (∃ _ ∈ _, ∀ _ ∈ _, ∃ _ ∈ _, _))

theorem refuseWith_ok (now : Instant) {id : UInt64} (reason : QueryFailure) (data : Bool)
    (state : Exchange wire) (hid : id ≠ 0)
    (hcode : ∀ text, reason = .code text → ∃ code, FailureCode.new text = .ok code) :
    ∃ next, state.refuseWith now id reason data = .ok next := by
  have hencodes : ∃ ready : Ready wire, failure id reason = .ok ready := failure_ok hid hcode
  obtain ⟨ready, hready⟩ := hencodes
  rw [refuseWith, hready]
  exact ⟨_, rfl⟩

theorem reject_ok (now : Instant) {id : UInt64} {code : String} (data : Bool)
    (state : Exchange wire) (hid : id ≠ 0)
    (hcode : ∃ found, FailureCode.new (ascii code) = .ok found) :
    ∃ next, state.reject now id code data = .ok next :=
  state.refuseWith_ok now _ data hid fun _ htext => (QueryFailure.code.inj htext) ▸ hcode

theorem noActiveRequest_valid :
    ∃ found, FailureCode.new (ascii "SESSION_NO_ACTIVE_REQUEST") = .ok found :=
  ⟨⟨ascii "SESSION_NO_ACTIVE_REQUEST", by decide⟩, rfl⟩

theorem requestIdInvalid_valid :
    ∃ found, FailureCode.new (ascii "SESSION_REQUEST_ID_INVALID") = .ok found :=
  ⟨⟨ascii "SESSION_REQUEST_ID_INVALID", by decide⟩, rfl⟩

theorem alreadyOpen_valid : ∃ found, FailureCode.new (ascii "WINDOW_ALREADY_OPEN") = .ok found :=
  ⟨⟨ascii "WINDOW_ALREADY_OPEN", by decide⟩, rfl⟩

theorem notOpen_valid : ∃ found, FailureCode.new (ascii "WINDOW_NOT_OPEN") = .ok found :=
  ⟨⟨ascii "WINDOW_NOT_OPEN", by decide⟩, rfl⟩

theorem cancel_ok (now : Instant) {id : UInt64} {state : Exchange wire}
    (haccepts : state.AcceptsCancel id) (hid : id ≠ 0) :
    ∃ next, state.cancel now id = .ok next := by
  unfold cancel
  split
  · exact ⟨state, rfl⟩
  rename_i hlate
  split
  · exact ⟨_, rfl⟩
  rename_i hfilter
  have hcases := haccepts.resolve_left hlate
  have hdeferred : ¬ ∃ deferred ∈ state.deferred,
      deferred.message.requestId = id ∧ deferred.message.isClose = false := by
    rintro ⟨deferred, hmem, hsame, hdata⟩
    rw [Option.mem_def.mp hmem, Option.filter_some, if_pos (by simp [hsame, hdata])] at hfilter
    cases hfilter
  have hcases := hcases.resolve_left hdeferred
  split
  · rename_i active hactive
    rw [hactive] at hcases
    rcases hcases with ⟨found, hfound, hsame⟩ | ⟨hnone, -⟩
    · obtain rfl := Option.some.inj hfound
      rw [refuse_of_not (not_not.mpr hsame)]
      exact ⟨_, rfl⟩
    · cases hnone
  · rename_i output hactive houtput
    rw [hactive, houtput] at hcases
    rcases hcases with ⟨found, hfound, -⟩ | ⟨-, hall⟩
    · cases hfound
    · obtain ⟨hsame, hcursor⟩ := hall output rfl
      have hencodes : ∃ ready : Ready wire, failure id .cancelled = .ok ready :=
        failure_ok hid (by rintro _ ⟨⟩)
      obtain ⟨ready, hready⟩ := hencodes
      rw [refuse_of_not (not_not.mpr hsame), ok_bind, refuse_of_not (not_not.mpr hcursor), ok_bind,
        hready]
      exact ⟨_, rfl⟩
  · exact state.reject_ok now false hid noActiveRequest_valid

/-- Taking an accepted request fails only when the worker is gone. -/
theorem dispatch_error_of_gone {now : Instant} {alive : Bool} {message : wire.Frame}
    {started : Instant} {state : Exchange wire} {error : SessionError}
    (hactive : state.active.isNone = true ∨ message.isClose = true)
    (hkind : message.isCancel = false) (hid : message.requestId ≠ 0)
    (hdispatch : state.dispatch now alive message started = .error error) :
    error = .workerPanicked ∧ alive = false ∧
      (message.isClose = true ∨ state.opened ≠ message.isOpen) := by
  have hfree : ¬ (state.active.isSome = true ∧ message.isClose = false) := by
    rintro ⟨hsome, hdata⟩
    rcases hactive with hnone | hclose
    · rw [Option.isNone_iff_eq_none.mp hnone] at hsome
      cases hsome
    · rw [hdata] at hclose
      cases hclose
  have hrejects {refusing : Exchange wire} {code : String}
      (hcode : ∃ found, FailureCode.new (ascii code) = .ok found)
      (herror : (do return (← refusing.reject now message.requestId code true, none) :
        Except SessionError (Exchange wire × Option (Job wire))) = .error error) : False := by
    obtain ⟨next, hnext⟩ := refusing.reject_ok now true hid hcode
    rw [hnext] at herror
    cases herror
  rw [dispatch, refuse_of_not hfree, ok_bind] at hdispatch
  cases message with
  | openWindow id remainingMs query pageSize ttlMs =>
      dsimp only at hdispatch
      split at hdispatch
      · exact (hrejects alreadyOpen_valid hdispatch).elim
      · rename_i hopened
        obtain ⟨rfl, halive⟩ := send_error hdispatch
        exact ⟨rfl, halive, Or.inr (by simpa [SessionClientFrame.isOpen] using hopened)⟩
  | continuePage id remainingMs windowId pageSize =>
      dsimp only at hdispatch
      split at hdispatch
      · rename_i hopened
        obtain ⟨rfl, halive⟩ := send_error hdispatch
        exact ⟨rfl, halive, Or.inr (by simpa [SessionClientFrame.isOpen] using hopened)⟩
      · exact (hrejects notOpen_valid hdispatch).elim
  | expand id remainingMs windowId itemIndex beforeBytes afterBytes =>
      dsimp only at hdispatch
      split at hdispatch
      · rename_i hopened
        obtain ⟨rfl, halive⟩ := send_error hdispatch
        exact ⟨rfl, halive, Or.inr (by simpa [SessionClientFrame.isOpen] using hopened)⟩
      · exact (hrejects notOpen_valid hdispatch).elim
  | close id =>
      obtain ⟨rfl, halive⟩ := send_error hdispatch
      exact ⟨rfl, halive, Or.inl rfl⟩
  | cancel id => cases hkind

/-- An accepted frame ends the session only when it needs a worker that is gone. -/
theorem accept_error_of_gone {now : Instant} {alive : Bool} {message : wire.Frame}
    {started : Instant} {state : Exchange wire} {error : SessionError}
    (haccepts : state.Accepts message) (hid : message.requestId ≠ 0)
    (haccept : state.accept now alive message started = .error error) :
    error = .workerPanicked ∧ alive = false ∧ state.Needs message := by
  unfold accept at haccept
  dsimp only at haccept
  split at haccept
  · rename_i hkind
    obtain ⟨next, hnext⟩ := cancel_ok now (haccepts.1 hkind) hid
    rw [hnext] at haccept
    cases haccept
  rename_i hkind
  replace hkind := Bool.eq_false_of_not_eq_true hkind
  replace haccepts := haccepts.2 hkind
  split at haccept
  · rename_i hle
    obtain ⟨hactive, houtput⟩ := haccepts.1 hle
    have hidle : ¬ (state.active.isSome = true ∨ state.output.isSome = true) := by
      simp [Option.isNone_iff_eq_none.mp hactive, Option.isNone_iff_eq_none.mp houtput]
    obtain ⟨next, hnext⟩ := state.reject_ok now message.isData hid requestIdInvalid_valid
    rw [refuse_of_not hidle, ok_bind, hnext] at haccept
    cases haccept
  rename_i hle
  have hnew := UInt64.not_le.mp hle
  replace haccepts := haccepts.2 hnew
  split at haccept
  · rename_i houtput
    obtain ⟨rfl, halive, hwindow⟩ :=
        dispatch_error_of_gone (by exact haccepts.1) hkind hid haccept
    refine ⟨rfl, halive, hkind, hnew, ?_, hwindow⟩
    rw [houtput]
    exact fun _ hmem => absurd hmem (Option.not_mem_none _)
  · rename_i output houtput
    obtain ⟨hcursor, hdeferred⟩ := haccepts.2 output houtput
    split at haccept
    · rename_i hclose
      obtain ⟨rfl, halive, hwindow⟩ :=
        dispatch_error_of_gone (by exact haccepts.1) hkind hid haccept
      refine ⟨rfl, halive, hkind, hnew, ?_, hwindow⟩
      intro found hfound
      obtain rfl := Option.some.inj (houtput.symm.trans hfound)
      exact hclose
    · rename_i hclose
      have hwhole : ¬ (message.isClose = true ∧ output.cursor ≠ output.ready.bytes.length) := by
        rintro ⟨hcloses, hcut⟩
        rcases hcursor hcloses with hzero | hall
        · exact hclose ⟨hcloses, hzero⟩
        · exact hcut hall
      have hfree : ¬ (state.deferred.isSome = true ∧ message.isClose = false) := by
        rintro ⟨hsome, hdata⟩
        rcases hdeferred with hnone | hcloses
        · rw [Option.isNone_iff_eq_none.mp hnone] at hsome
          cases hsome
        · rw [hdata] at hcloses
          cases hcloses
      rw [refuse_of_not hwhole, ok_bind, refuse_of_not hfree] at haccept
      cases haccept

theorem consume_error_of_gone {now : Instant} {alive : Bool} {bytes : Bytes}
    {state : Exchange wire} {error : SessionError} (hreceiving : state.Receiving)
    (hbytes : bytes ≠ []) (htakes : state.Takes bytes)
    (hconsume : state.consume now alive bytes = .error error) :
    error = .workerPanicked ∧ alive = false ∧
      ∃ message, state.incoming bytes = some message ∧ state.Needs message := by
  obtain ⟨⟨input, count⟩, hpushed, hmessages⟩ := htakes
  have hpush : state.input.push bytes = .ok (input, count) := toOption_eq_some.mp hpushed
  obtain ⟨hpositive, -⟩ := FrameBuffer.push_spec hreceiving.awaits hbytes hpush
  simp only [consume, hpush, Except.mapError, ok_bind, refuse_of_not hpositive.ne'] at hconsume
  split at hconsume
  · cases hconsume
  rename_i frame hframe
  obtain ⟨message, hdecoded, haccepts⟩ := hmessages frame hframe
  have hdecode : wire.decodeSessionFrame frame = .ok message := toOption_eq_some.mp hdecoded
  obtain ⟨started, hstarted⟩ := hreceiving.begins now
  simp only [hdecode, hstarted, ok_bind, okOr_some, bind_eq_error, pure_eq_ok] at hconsume
  have hincoming : state.incoming bytes = some message :=
    incoming_eq_some.mpr ⟨input, count, frame, hpush, hframe, hdecode⟩
  rcases hconsume with haccept | ⟨_, -, hcontra⟩
  · obtain ⟨rfl, halive, hneeds⟩ :=
      accept_error_of_gone (by exact haccepts) (wire.decodeSessionFrame_id hdecode) haccept
    exact ⟨rfl, halive, message, hincoming, hneeds⟩
  · cases hcontra

theorem takeDeferred_error_of_gone {now : Instant} {alive : Bool} {deferred : Deferred wire}
    {state : Exchange wire} {error : SessionError} (hid : deferred.message.requestId ≠ 0)
    (haccepts : deferred.cancelled = false → state.Accepts deferred.message)
    (htake : state.takeDeferred now alive deferred = .error error) :
    error = .workerPanicked ∧ alive = false ∧ deferred.cancelled = false ∧
      state.Needs deferred.message := by
  unfold takeDeferred at htake
  split at htake
  · obtain ⟨next, hnext⟩ := refuseWith_ok now .cancelled deferred.message.isData
      { state with lastId := deferred.message.requestId } hid (by rintro _ ⟨⟩)
    dsimp only at htake
    rw [hnext] at htake
    cases htake
  · rename_i hkept
    replace hkept := Bool.eq_false_of_not_eq_true hkept
    obtain ⟨rfl, halive, hneeds⟩ := accept_error_of_gone (haccepts hkept) hid htake
    exact ⟨rfl, halive, hkept, hneeds⟩

theorem received_ok {now : Instant} {active : Active} {ready : Ready wire} {state : Exchange wire}
    (htimed : state.Timed) (hactive : state.active = some active) :
    ∃ next, state.received now (.ok ready) = .ok next := by
  obtain ⟨hid, -, hreason⟩ := htimed.asked active hactive
  have hanswers : ∃ answer, active.answer ready = .ok answer := by
    by_cases hkept : active.stopped = none ∨ ready.ends = true
    · refine ⟨ready, ?_⟩
      unfold Active.answer
      rcases hkept with hnone | hends
      · rw [hnone]
      · rw [hends]
        cases active.stopped <;> rfl
    · rw [not_or] at hkept
      obtain ⟨answer, hanswer, -⟩ := Loop.answer_failure hid hreason
        (Or.inr ⟨hkept.1, Bool.eq_false_of_not_eq_true hkept.2⟩)
      exact ⟨answer, hanswer⟩
  obtain ⟨answer, hanswer⟩ := hanswers
  simp only [received, hactive, okOr_some, ok_bind, Except.mapError, hanswer]
  exact ⟨_, rfl⟩

end Exchange

/-! ## Calm events -/

namespace Loop

/-- The bytes being taken. -/
def chunk (loop : Loop wire) : Option Bytes :=
  match loop.phase with
  | .consuming bytes => some bytes
  | _ => none

/-- The deferred request being taken. -/
def resumed (loop : Loop wire) : Option (Deferred wire) :=
  match loop.phase with
  | .resuming deferred => some deferred
  | _ => none

/-- The limit of an expiry. -/
def limit (loop : Loop wire) : Option Instant :=
  match loop.phase with
  | .expiring limit => some limit
  | .draining limit => some limit
  | _ => none

/-- The timer finds an expired window or an operation that can still be stopped,
and no limit of an expiry passed. -/
def InTime (loop : Loop wire) : Prop :=
  (∀ deadline ∈ loop.waiting, deadline ≤ loop.clock → ¬ loop.Expired →
    ∃ active ∈ loop.exchange.active, active.cleanup = none) ∧
  ∀ limit ∈ loop.limit, loop.clock < limit

instance (loop : Loop wire) : Decidable loop.InTime :=
  inferInstanceAs (Decidable ((∀ _ ∈ _, _ → ¬ _ → ∃ _ ∈ _, _) ∧ ∀ _ ∈ _, _))

/-- Nothing goes wrong outside the session: the streams work and stay open, the
peer sends frames that are accepted, the worker's replies can be encoded, no time
limit passes, and an expiry cuts off no reply. -/
def Calm (loop : Loop wire) : Event wire → Prop
  | .read chunk => chunk ≠ []
  | .readFailed => False
  | .frame _ => ∀ bytes ∈ loop.chunk, loop.exchange.Takes bytes
  | .reply result => ∀ found ∈ result, found.isOk = true
  | .wrote count => count ≠ 0
  | .writeFailed => False
  | .resume _ => ∀ deferred ∈ loop.resumed, deferred.cancelled = false →
      loop.exchange.Accepts deferred.message
  | .done signalled => signalled = true
  | .timer => loop.InTime
  | .joined signalled => signalled = true ∧ ∀ output ∈ loop.exchange.output, output.cursor = 0
  | _ => True

instance (loop : Loop wire) (event : Event wire) : Decidable (loop.Calm event) :=
  match event with
  | .read _ => inferInstanceAs (Decidable (_ ≠ _))
  | .readFailed => inferInstanceAs (Decidable False)
  | .frame _ => inferInstanceAs (Decidable (∀ _ ∈ _, _))
  | .reply _ => inferInstanceAs (Decidable (∀ _ ∈ _, _))
  | .wrote _ => inferInstanceAs (Decidable (_ ≠ _))
  | .writeFailed => inferInstanceAs (Decidable False)
  | .resume _ => inferInstanceAs (Decidable (∀ _ ∈ _, _ → _))
  | .done _ => inferInstanceAs (Decidable (_ = _))
  | .timer => inferInstanceAs (Decidable loop.InTime)
  | .joined _ => inferInstanceAs (Decidable (_ ∧ ∀ _ ∈ _, _))
  | .look => inferInstanceAs (Decidable True)
  | .flush => inferInstanceAs (Decidable True)
  | .commit _ => inferInstanceAs (Decidable True)

/-- The loop uses no channel whose other end the worker has dropped: it sends
neither a job nor a cursor update to a queue that is gone, and does not wait for
the reply of a job that was dropped. -/
def Connected (loop : Loop wire) : Event wire → Prop
  | .frame alive => alive = false → ∀ message ∈ loop.incoming, ¬ loop.exchange.Needs message
  | .reply result => result.isSome = true
  | .commit alive => alive = false → ∀ output ∈ loop.committing, output.ready.commit = none
  | .resume alive => alive = false → ∀ deferred ∈ loop.resumed, deferred.cancelled = false →
      ¬ loop.exchange.Needs deferred.message
  | _ => True

instance (loop : Loop wire) (event : Event wire) : Decidable (loop.Connected event) :=
  match event with
  | .frame _ => inferInstanceAs (Decidable (_ → ∀ _ ∈ _, ¬ _))
  | .reply _ => inferInstanceAs (Decidable (_ = _))
  | .commit _ => inferInstanceAs (Decidable (_ → ∀ _ ∈ _, _))
  | .resume _ => inferInstanceAs (Decidable (_ → ∀ _ ∈ _, _ → ¬ _))
  | .look => inferInstanceAs (Decidable True)
  | .read _ => inferInstanceAs (Decidable True)
  | .readFailed => inferInstanceAs (Decidable True)
  | .wrote _ => inferInstanceAs (Decidable True)
  | .writeFailed => inferInstanceAs (Decidable True)
  | .flush => inferInstanceAs (Decidable True)
  | .done _ => inferInstanceAs (Decidable True)
  | .timer => inferInstanceAs (Decidable True)
  | .joined _ => inferInstanceAs (Decidable True)

/-- A calm event ends the session with an error only when the loop uses a
channel that the worker has dropped, or finds the worker done too early. -/
theorem Failing.of_calm {loop : Loop wire} {event : Event wire} {error : SessionError}
    (hfailing : Failing loop event error) (hcalm : loop.Calm event) (hintegral : loop.Integral)
    (hreceiving : loop.Receiving) (htimely : loop.Timely) :
    error = .workerPanicked ∧ (¬ loop.Connected event ∨ (event = .done true ∧ ¬ loop.Expired)) := by
  cases hfailing with
  | readFailed => exact hcalm.elim
  | truncated => exact absurd rfl hcalm
  | @frame alive bytes _ hphase hconsume =>
      have hchunk : loop.chunk = some bytes := by simp only [chunk, hphase]
      obtain ⟨rfl, halive, message, hincoming, hneeds⟩ :=
        Exchange.consume_error_of_gone hreceiving.exchange (hreceiving.consuming _ hphase)
          (hcalm bytes hchunk) hconsume
      refine ⟨rfl, Or.inl fun hconnected => hconnected halive message ?_ hneeds⟩
      exact (incoming_of_consume hphase).trans hincoming
  | unanswered => exact ⟨rfl, Or.inl fun hconnected => by cases hconnected⟩
  | @reply _ active result _ hphase hactive houtput hreceived =>
      cases result with
      | error code => cases hcalm (.error code) rfl
      | ok ready =>
          obtain ⟨next, hnext⟩ := Exchange.received_ok htimely.exchange hactive
          rw [hnext] at hreceived
          cases hreceived
  | closed => exact absurd rfl hcalm
  | writeFailed => exact hcalm.elim
  | commit hphase hcommit =>
      obtain ⟨found, hfound, -⟩ := hintegral.flushing hphase
      rcases Exchange.commitFlushed_error hcommit with ⟨-, hnone⟩ |
        ⟨rfl, halive, output, houtput, hsome⟩
      · rw [hfound] at hnone
        cases hnone
      · refine ⟨rfl, Or.inl fun hconnected => ?_⟩
        have hcommitting : loop.committing = some output := by
          simp only [committing, hphase]
          exact houtput
        rw [hconnected halive output hcommitting] at hsome
        cases hsome
  | @resume alive deferred _ hphase htake =>
      have hresumed : loop.resumed = some deferred := by simp only [resumed, hphase]
      obtain ⟨rfl, halive, hkept, hneeds⟩ :=
        Exchange.takeDeferred_error_of_gone (htimely.resuming _ hphase) (hcalm _ hresumed) htake
      exact ⟨rfl, Or.inl fun hconnected => hconnected halive _ hresumed hkept hneeds⟩
  | @done _ signalled hphase hactive houtput hearly =>
      have hsignalled : signalled = true := hcalm
      subst hsignalled
      refine ⟨rfl, Or.inr ⟨rfl, ?_⟩⟩
      exact hearly.resolve_left Bool.true_eq_false.mp
  | @timer deadline _ hphase htimer hexpired htimedOut =>
      have hwaiting : loop.waiting = some deadline := by simp only [waiting, hphase]
      obtain ⟨active, hactive, hcleanup⟩ := hcalm.1 _ hwaiting htimer hexpired
      simp only [Exchange.timedOut, Option.mem_def.mp hactive, hcleanup] at htimedOut
      cases htimedOut
  | partialOutput hphase houtput hcursor => exact absurd (hcalm.2 _ houtput) hcursor
  | unjoined => cases hcalm.1
  | @cleanup limit hphase hlimit =>
      have hfound : loop.limit = some limit := by
        rcases hphase with hphase | hphase <;> simp only [Loop.limit, hphase]
      exact absurd hlimit (not_le.mpr (hcalm.2 _ hfound))
  | undrained => exact absurd rfl hcalm

end Loop

end EliotSearch.Session
