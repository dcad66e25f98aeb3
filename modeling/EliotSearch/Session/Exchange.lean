import EliotSearch.Session.Frames

/-!
# The session exchange

The state of the loop that services the standard streams of one session: the
frame being received, the one active operation, the one pending output and the
one deferred request.  An operation is handed to the worker as a `Job` with
the serial number of its reply channel; the flag that cancels it is shared with
the worker and is set for every job that is not the active one any more.

Instants are nanoseconds of a clock that does not overflow; an `alive` argument
says whether the worker still owns the receiving end of the command channel.
-/

namespace EliotSearch.Session

open EliotSearch.Library
open EliotSearch.Library.Json
open EliotSearch.Library.Results
open EliotSearch.Library.Words

abbrev Instant := Nat

def millis (ms : UInt64) : Nat := ms.toNat * 1000000

def cleanupAllowance : Nat := 5000000000

inductive QueryFailure where
  | cancelled
  | deadline
  | code (text : Bytes)
  deriving DecidableEq

/-- How a session ends without success. -/
inductive SessionError where
  | responseMismatch
  | partialOutputCancelled
  | partialOutputClose
  | requestIdInvalid
  | requestInFlight
  | controlInvalid
  | noActiveRequest
  | workerPanicked
  | cleanupExpired
  | queryDeadline
  | frameInvalid
  | inputIo
  | outputIo
  | outputClosed
  | expiredPartialOutput
  /-- A code reported by a frame or by the worker. -/
  | reported (code : Bytes)
  deriving DecidableEq

/-! ## Encoded replies -/

/-- One encoded reply, the cursor update its flush commits, and whether it ends
the session. -/
structure Ready (wire : Wire) where
  reply : wire.Reply
  bytes : Bytes
  encoded : wire.encodeSessionReply reply = .ok bytes
  commit : Option (UInt8 × UInt8)
  ends : Bool

section Replies

variable {wire : Wire}

/-- Encode a reply together with the proof that it is one. -/
def encodeReady (reply : wire.Reply) (commit : Option (UInt8 × UInt8)) (ends : Bool) :
    Except ProtocolError (Ready wire) :=
  match hencoded : wire.encodeSessionReply reply with
  | .ok bytes => .ok ⟨reply, bytes, hencoded, commit, ends⟩
  | .error error => .error error

def outcome (requestId : UInt64) (outcome : wire.Outcome) (ends : Bool) :
    Except Bytes (Ready wire) :=
  (encodeReady ⟨requestId, outcome⟩ none ends).mapError ProtocolError.code

def failure (requestId : UInt64) (failure : QueryFailure) : Except Bytes (Ready wire) :=
  match failure with
  | .cancelled => outcome requestId .cancelled false
  | .deadline => do
      let code ← (FailureCode.new (ascii "QUERY_DEADLINE")).mapError ProtocolError.code
      outcome requestId (.failed code) false
  | .code text => do
      let code ← (FailureCode.new text).mapError ProtocolError.code
      outcome requestId (.failed code) false

theorem encodeReady_eq_ok {reply : wire.Reply} {commit : Option (UInt8 × UInt8)} {ends : Bool}
    {ready : Ready wire} (hready : encodeReady reply commit ends = .ok ready) :
    ready.reply = reply ∧ ready.commit = commit ∧ ready.ends = ends := by
  unfold encodeReady at hready
  split at hready
  · obtain rfl := Except.ok.inj hready
    exact ⟨rfl, rfl, rfl⟩
  · cases hready

theorem outcome_eq_ok {requestId : UInt64} {result : wire.Outcome} {ends : Bool}
    {ready : Ready wire} (hready : outcome requestId result ends = .ok ready) :
    ready.reply = ⟨requestId, result⟩ ∧ ready.commit = none ∧ ready.ends = ends :=
  encodeReady_eq_ok (mapError_eq_ok.mp hready)

/-- A reply that reports a failure before any output. -/
def Ready.IsFailure (ready : Ready wire) : Prop :=
  ready.reply.outcome.isFailure = true ∧ ready.commit = none ∧ ready.ends = false

instance (ready : Ready wire) : Decidable ready.IsFailure :=
  inferInstanceAs (Decidable (_ ∧ _ ∧ _))

theorem outcome_isFailure {requestId : UInt64} {result : wire.Outcome} {ready : Ready wire}
    (hready : outcome requestId result false = .ok ready) (hfailure : result.isFailure = true) :
    ready.IsFailure ∧ ready.reply.requestId = requestId := by
  obtain ⟨hreply, hcommit, hends⟩ := outcome_eq_ok hready
  refine ⟨⟨?_, hcommit, hends⟩, congrArg SessionReply.requestId hreply⟩
  rw [hreply]
  exact hfailure

theorem failure_eq_ok {requestId : UInt64} {reason : QueryFailure} {ready : Ready wire}
    (hready : failure requestId reason = .ok ready) :
    ready.IsFailure ∧ ready.reply.requestId = requestId := by
  cases reason with
  | cancelled => exact outcome_isFailure hready rfl
  | deadline =>
      simp only [failure, bind_eq_ok] at hready
      obtain ⟨code, -, hready⟩ := hready
      exact outcome_isFailure hready rfl
  | code text =>
      simp only [failure, bind_eq_ok] at hready
      obtain ⟨code, -, hready⟩ := hready
      exact outcome_isFailure hready rfl

/-- A reply without payload can be encoded. -/
theorem encodeReady_ok (reply : wire.Reply) (commit : Option (UInt8 × UInt8)) (ends : Bool)
    (hid : reply.requestId ≠ 0 ∨ reply.outcome.isExpired = true)
    (hbare : reply.outcome.isBare = true) :
    ∃ ready, encodeReady reply commit ends = .ok ready := by
  have hcorrelated : ¬ (reply.requestId = 0 ∧ reply.outcome.isExpired = false) := by
    rintro ⟨hzero, hlasting⟩
    rcases hid with hid | hexpired
    · exact hid hzero
    · rw [hlasting] at hexpired
      cases hexpired
  have hvalid : wire.validateReply reply = .ok () := by
    rw [Wire.validateReply, refuse_of_not hcorrelated, ok_bind]
    cases houtcome : reply.outcome with
    | page page => rw [houtcome] at hbare; cases hbare
    | expanded expansion => rw [houtcome] at hbare; cases hbare
    | _ => rfl
  have hfits : ¬ framePrefixBytes + (wire.printReply reply).length > maxFrameBytes :=
    not_lt.mpr (wire.printBare reply hbare)
  have hencoded : ∃ bytes, wire.encodeSessionReply reply = .ok bytes := by
    rw [Wire.encodeSessionReply, hvalid, ok_bind, encode, refuse_of_not hfits]
    exact ⟨_, rfl⟩
  obtain ⟨bytes, hencoded⟩ := hencoded
  unfold encodeReady
  split
  · exact ⟨_, rfl⟩
  · rename_i error herror
    rw [hencoded] at herror
    cases herror

theorem outcome_ok {requestId : UInt64} (result : wire.Outcome) (ends : Bool)
    (hid : requestId ≠ 0 ∨ result.isExpired = true) (hbare : result.isBare = true) :
    ∃ ready, outcome requestId result ends = .ok ready := by
  obtain ⟨ready, hready⟩ := encodeReady_ok ⟨requestId, result⟩ none ends hid hbare
  exact ⟨ready, mapError_eq_ok.mpr hready⟩

/-- A failure whose code is valid can be reported under every identity but zero. -/
theorem failure_ok {requestId : UInt64} {reason : QueryFailure} (hid : requestId ≠ 0)
    (hcode : ∀ text, reason = .code text → ∃ code, FailureCode.new text = .ok code) :
    ∃ ready : Ready wire, failure requestId reason = .ok ready := by
  cases reason with
  | cancelled => exact outcome_ok .cancelled false (Or.inl hid) rfl
  | deadline =>
      have hvalid : ∃ code, FailureCode.new (ascii "QUERY_DEADLINE") = .ok code :=
        ⟨⟨ascii "QUERY_DEADLINE", by decide⟩, rfl⟩
      obtain ⟨code, hnew⟩ := hvalid
      obtain ⟨ready, hready⟩ := outcome_ok (.failed code) false (Or.inl hid) rfl
      exact ⟨ready, by rw [failure, hnew]; exact hready⟩
  | code text =>
      obtain ⟨code, hnew⟩ := hcode text rfl
      obtain ⟨ready, hready⟩ := outcome_ok (.failed code) false (Or.inl hid) rfl
      exact ⟨ready, by rw [failure, hnew]; exact hready⟩

end Replies

/-! ## State -/

/-- The operation the worker is asked to perform.  `data` says that it is not a
Close. -/
structure Active where
  id : UInt64
  data : Bool
  deadline : Instant
  cancel : Bool
  serial : Nat
  stopped : Option QueryFailure
  cleanup : Option Instant
  deriving DecidableEq

/-- A stopped operation reports why it was stopped, unless its reply ends the
session. -/
def Active.answer {wire : Wire} (active : Active) (ready : Ready wire) :
    Except SessionError (Ready wire) :=
  match active.stopped with
  | some reason => if ready.ends then .ok ready else (failure active.id reason).mapError .reported
  | none => .ok ready

/-- The reply being written.  `answer` is the reply that took the output slot,
which a Cancel can replace, and `since` says when; `data` says that it answers a
data frame and not a control. -/
structure Output (wire : Wire) where
  id : UInt64
  ready : Ready wire
  cursor : Nat
  deadline : Instant
  data : Bool
  since : Instant
  answer : Ready wire

structure Deferred (wire : Wire) where
  message : wire.Frame
  started : Instant
  cancelled : Bool

structure Exchange (wire : Wire) where
  input : FrameBuffer
  frameStarted : Option Instant
  opened : Bool
  lastId : UInt64
  completedId : Option UInt64
  expires : Option Instant
  active : Option Active
  output : Option (Output wire)
  /-- A complete next request can arrive after peer decode but before local
  flush. -/
  deferred : Option (Deferred wire)
  /-- The number of jobs sent so far. -/
  issued : Nat

/-- What the worker receives for one operation. -/
structure Job (wire : Wire) where
  message : wire.Frame
  deadline : Instant
  expires : Option Instant
  serial : Nat

/-- An empty buffer for client frames. -/
def FrameBuffer.client : FrameBuffer := ⟨[], [], 0, maxClientFrameBytes⟩

theorem FrameBuffer.new_client : FrameBuffer.new maxClientFrameBytes = .ok FrameBuffer.client :=
  rfl

namespace Exchange

variable {wire : Wire}

def new : Exchange wire where
  input := FrameBuffer.client
  frameStarted := none
  opened := false
  lastId := 0
  completedId := none
  expires := none
  active := none
  output := none
  deferred := none
  issued := 0

def cancelActive (state : Exchange wire) : Exchange wire :=
  { state with active := state.active.map fun active => { active with cancel := true } }

/-- Answer without the worker. -/
def refuseWith (now : Instant) (id : UInt64) (reason : QueryFailure) (data : Bool)
    (state : Exchange wire) : Except SessionError (Exchange wire) := do
  let ready ← (failure id reason).mapError .reported
  return { state with
    output := some {
      id, ready, cursor := 0, deadline := now + cleanupAllowance, data, since := now
      answer := ready } }

def reject (now : Instant) (id : UInt64) (code : String) (data : Bool)
    (state : Exchange wire) : Except SessionError (Exchange wire) :=
  state.refuseWith now id (.code (ascii code)) data

/-! ## Cancel -/

def cancel (now : Instant) (id : UInt64) (state : Exchange wire) :
    Except SessionError (Exchange wire) :=
  -- Cancel is control for existing work, never a second reply slot
  if ∃ completed ∈ state.completedId, id ≤ completed then return state
  else
    match state.deferred.filter fun deferred =>
        deferred.message.requestId == id && !deferred.message.isClose with
    | some deferred => return { state with deferred := some { deferred with cancelled := true } }
    | none =>
        match state.active, state.output with
        | some active, _ => do
            refuse (active.id ≠ id) .responseMismatch
            return { state with
              active := some { active with
                cancel := true
                stopped := some (active.stopped.getD .cancelled)
                cleanup := some (active.cleanup.getD (now + cleanupAllowance)) } }
        | none, some output => do
            refuse (output.id ≠ id) .responseMismatch
            refuse (output.cursor ≠ 0) .partialOutputCancelled
            let ready ← (failure id .cancelled).mapError .reported
            return { state with output := some { output with ready } }
        | none, none => state.reject now id "SESSION_NO_ACTIVE_REQUEST" false

/-! ## Accept -/

/-- Hand an operation to the worker under a fresh reply channel. -/
def send (alive : Bool) (message : wire.Frame) (started : Instant) (remaining : UInt64)
    (jobExpiry : Option Instant) (state : Exchange wire) :
    Except SessionError (Exchange wire × Option (Job wire)) := do
  let deadline := match state.expires with
    | some expires => min (started + millis remaining) expires
    | none => started + millis remaining
  refuse (alive = false) .workerPanicked
  return (
    { state with
      active := some {
        id := message.requestId, data := message.isData, deadline, cancel := false
        serial := state.issued, stopped := none, cleanup := none }
      issued := state.issued + 1 },
    some { message, deadline, expires := jobExpiry, serial := state.issued })

/-- Take a request that no output is in the way of. -/
def dispatch (now : Instant) (alive : Bool) (message : wire.Frame) (started : Instant)
    (state : Exchange wire) : Except SessionError (Exchange wire × Option (Job wire)) := do
  refuse (state.active.isSome = true ∧ message.isClose = false) .requestInFlight
  let id := message.requestId
  let state := { state with active := none, lastId := id }
  match message with
  | .openWindow _ remainingMs _ _ ttlMs =>
      if state.opened then return (← state.reject now id "WINDOW_ALREADY_OPEN" true, none)
      else
        -- accepted Open, before worker dispatch, root acquisition or pinning
        let expires := now + millis ttlMs
        { state with opened := true, expires := some expires }.send alive message started
          remainingMs (some expires)
  | .continuePage _ remainingMs _ _ =>
      if state.opened then state.send alive message started remainingMs none
      else return (← state.reject now id "WINDOW_NOT_OPEN" true, none)
  | .expand _ remainingMs _ _ _ _ =>
      if state.opened then state.send alive message started remainingMs none
      else return (← state.reject now id "WINDOW_NOT_OPEN" true, none)
  | .close _ => state.send alive message started 5000 none
  | .cancel _ => .error .controlInvalid

def accept (now : Instant) (alive : Bool) (message : wire.Frame) (started : Instant)
    (state : Exchange wire) : Except SessionError (Exchange wire × Option (Job wire)) :=
  let id := message.requestId
  if message.isCancel then return (← state.cancel now id, none)
  else if id ≤ state.lastId then do
    refuse (state.active.isSome = true ∨ state.output.isSome = true) .requestIdInvalid
    return (← state.reject now id "SESSION_REQUEST_ID_INVALID" message.isData, none)
  else
    match state.output with
    | none => state.dispatch now alive message started
    | some output =>
        if message.isClose = true ∧ output.cursor = 0 then
          { state with output := none, deferred := none }.dispatch now alive message started
        else do
          refuse (message.isClose = true ∧ output.cursor ≠ output.ready.bytes.length)
            .partialOutputClose
          refuse (state.deferred.isSome = true ∧ message.isClose = false) .requestInFlight
          return ({ state with deferred := some { message, started, cancelled := false } }, none)

/-- One round of `consume`: take the next fragment of a chunk, and the frame it
completes. -/
def consume (now : Instant) (alive : Bool) (bytes : Bytes) (state : Exchange wire) :
    Except SessionError (Exchange wire × Option (Job wire) × Bytes) := do
  let frameStarted := if state.input.isEmpty then some now else state.frameStarted
  let (input, count) ← (state.input.push bytes).mapError fun error => .reported error.code
  refuse (count = 0) .frameInvalid
  match input.frame with
  | none => return ({ state with input, frameStarted }, none, bytes.drop count)
  | some frame => do
      let message ← (wire.decodeSessionFrame frame).mapError fun error => .reported error.code
      let started ← okOr frameStarted .frameInvalid
      let (state, job) ← { state with input := FrameBuffer.client, frameStarted := none }.accept now
        alive message started
      return (state, job, bytes.drop count)

/-! ## Replies, deadlines and flushes -/

def received (now : Instant) (result : Except Bytes (Ready wire)) (state : Exchange wire) :
    Except SessionError (Exchange wire) := do
  let active ← okOr state.active .noActiveRequest
  let ready ← result.mapError .reported
  let ready ← active.answer ready
  return { state with
    active := none
    output := some {
      id := active.id, ready, cursor := 0
      deadline := active.cleanup.getD active.deadline, data := active.data, since := now
      answer := ready } }

/-- The instant at which the loop stops waiting. -/
def deadline (idle : Instant) (state : Exchange wire) : Instant :=
  let window := state.expires.getD idle
  let withActive := match state.active with
    | some active => min window (active.cleanup.getD active.deadline)
    | none => window
  let withOutput := match state.output with
    | some output => min withActive output.deadline
    | none => withActive
  match state.frameStarted with
  | some started => min withOutput (started + millis maxRemainingMs)
  | none => withOutput

def timedOut (now : Instant) (state : Exchange wire) : Except SessionError (Exchange wire) :=
  match state.active with
  | some active => do
      refuse (active.cleanup.isSome = true) .cleanupExpired
      return { state with
        active := some { active with
          cancel := true
          stopped := some .deadline
          cleanup := some (now + cleanupAllowance) } }
  | none => .error .queryDeadline

/-- The first part of `flushed`: commit the page of the flushed reply and free
the output slot.  The result carries the cursor update sent to the worker, the
request to take next, and whether the session ends. -/
def commitFlushed (alive : Bool) (state : Exchange wire) :
    Except SessionError
      (Exchange wire × Option (UInt8 × UInt8) × Option (Deferred wire) × Bool) := do
  let output ← okOr state.output .outputIo
  refuse (output.ready.commit.isSome = true ∧ alive = false) .workerPanicked
  let state := { state with output := none, completedId := some output.id }
  if output.ready.ends then return (state, output.ready.commit, none, true)
  else return ({ state with deferred := none }, output.ready.commit, state.deferred, false)

/-- The second part of `flushed`: take the request deferred by the output. -/
def takeDeferred (now : Instant) (alive : Bool) (deferred : Deferred wire)
    (state : Exchange wire) : Except SessionError (Exchange wire × Option (Job wire)) :=
  if deferred.cancelled then
    let id := deferred.message.requestId
    let data := deferred.message.isData
    return (← { state with lastId := id }.refuseWith now id .cancelled data, none)
  else state.accept now alive deferred.message deferred.started

end Exchange

end EliotSearch.Session
