import EliotSearch.Query.WindowItems
import EliotSearch.Session.Exchange

/-!
# The client of a session

The state that a parent keeps for its one session child: the frame it is writing,
one control behind it, the request in flight and the entries it was shown.

Exhausted allocations and overflowing instants are left out.
-/

namespace EliotSearch.Session.SessionClientFrame

variable {Query : Type}

/-- The time that a data request may take. -/
def remainingMs : SessionClientFrame Query → UInt64
  | openWindow _ remaining .. => remaining
  | continuePage _ remaining .. => remaining
  | expand _ remaining .. => remaining
  | cancel _ => 0
  | close _ => 0

/-- The same command with another time. -/
def withRemaining (ms : UInt64) : SessionClientFrame Query → SessionClientFrame Query
  | openWindow id _ query pageSize ttl => openWindow id ms query pageSize ttl
  | continuePage id _ windowId pageSize => continuePage id ms windowId pageSize
  | expand id _ windowId itemIndex before after => expand id ms windowId itemIndex before after
  | cancel id => cancel id
  | close id => close id

section WithRemaining

variable (ms other : UInt64) (message : SessionClientFrame Query)

@[simp]
theorem withRemaining_requestId : (message.withRemaining ms).requestId = message.requestId := by
  cases message <;> rfl

@[simp]
theorem withRemaining_isCancel : (message.withRemaining ms).isCancel = message.isCancel := by
  cases message <;> rfl

@[simp]
theorem withRemaining_isData : (message.withRemaining ms).isData = message.isData := by
  cases message <;> rfl

@[simp]
theorem withRemaining_withRemaining :
    (message.withRemaining ms).withRemaining other = message.withRemaining other := by
  cases message <;> rfl

end WithRemaining

end EliotSearch.Session.SessionClientFrame

namespace EliotSearch.Client

open EliotSearch.Library
open EliotSearch.Library.Json
open EliotSearch.Library.Results
open EliotSearch.Session

/-! ## Commands -/

/-- Failures of a client.  A rejected command is local and leaves the session
usable; the other failures end it. -/
inductive ClientError where
  | commandRejected (requestId : UInt64) (code : Bytes)
  | protocol (error : ProtocolError)
  | io
  | deadline
  | cancelled
  | childExit
  deriving DecidableEq

/-- Refuse a command by name. -/
def rejected (requestId : UInt64) (code : String) : ClientError :=
  .commandRejected requestId (ascii code)

/-- What a client knows of the payloads: how a query is written, the range of an item
that can be expanded, and the checks of replies against their requests. -/
structure Checks (wire : Wire) where
  queryText : wire.Query → Bytes
  range : wire.Item → Option (UInt64 × UInt64)
  validatePage : wire.Query → List (WindowEntry wire.Item) → UInt8 → WindowPage wire.Item →
    Except ProtocolError Unit
  validateExpansion : wire.Frame → wire.Item → wire.Expansion → Except ProtocolError Unit

variable {wire : Wire} (checks : Checks wire)

/-- Encodes one typed session operation. -/
def encodeSessionFrame (message : wire.Frame) : Except ProtocolError Bytes := do
  message.validate wire.validateQuery
  encode maxClientFrameBytes (Session.Texts.frame checks.queryText message)

/-! ### A frame with less time -/

section Encoding

theorem word64_length_mono {left right : UInt64} (hle : left.toNat ≤ right.toNat) :
    (Session.Texts.word64 left).length ≤ (Session.Texts.word64 right).length := by
  change (decimal left.toNat).length ≤ (decimal right.toNat).length
  unfold decimal
  split
  · split
    · exact le_rfl
    · rename_i hright
      rw [List.length_map, List.length_reverse]
      exact List.length_pos_iff.mpr (Nat.digits_ne_nil_iff_ne_zero.mpr hright)
  · rename_i hleft
    rw [if_neg (by omega), List.length_map, List.length_map, List.length_reverse,
      List.length_reverse]
    exact Nat.le_digits_len_le 10 _ _ hle

/-- Texts that are no longer make an object that is no longer. -/
theorem object_length_mono {left right : List Bytes}
    (hmembers : List.Forall₂ (fun text other => text.length ≤ other.length) left right) :
    (Session.Texts.object left).length ≤ (Session.Texts.object right).length := by
  rw [Session.Texts.object_length, Session.Texts.object_length]
  refine Nat.add_le_add_right ?_ 2
  induction hmembers with
  | nil => exact le_rfl
  | cons hle hrest ih =>
      cases hrest with
      | nil => exact hle
      | cons hnext hmore =>
          simp only [Session.Texts.separated, List.length_append] at ih ⊢
          omega

theorem member_length_mono (name : String) {text other : Bytes} (hle : text.length ≤ other.length) :
    (Session.Texts.member name text).length ≤ (Session.Texts.member name other).length := by
  rw [Session.Texts.member_length, Session.Texts.member_length]
  exact Nat.add_le_add_left hle _

theorem frame_length_mono {Query : Type} (queryText : Query → Bytes)
    (message : SessionClientFrame Query) {ms : UInt64} (hle : ms.toNat ≤ message.remainingMs.toNat) :
    (Session.Texts.frame queryText (message.withRemaining ms)).length ≤
      (Session.Texts.frame queryText message).length := by
  cases message with
  | openWindow id remaining query pageSize ttl =>
      exact object_length_mono (.cons le_rfl (.cons le_rfl (.cons
        (member_length_mono _ (word64_length_mono hle)) (.cons le_rfl (.cons le_rfl
          (.cons le_rfl .nil))))))
  | continuePage id remaining windowId pageSize =>
      exact object_length_mono (.cons le_rfl (.cons le_rfl (.cons
        (member_length_mono _ (word64_length_mono hle)) (.cons le_rfl (.cons le_rfl .nil)))))
  | expand id remaining windowId itemIndex before after =>
      exact object_length_mono (.cons le_rfl (.cons le_rfl (.cons
        (member_length_mono _ (word64_length_mono hle)) (.cons le_rfl (.cons le_rfl
          (.cons le_rfl (.cons le_rfl .nil)))))))
  | cancel id => exact le_rfl
  | close id => exact le_rfl

theorem validate_withRemaining {Query : Type} {validateQuery : Query → Except ProtocolError Unit}
    {message : SessionClientFrame Query} {ms : UInt64}
    (hvalid : message.validate validateQuery = .ok ()) (hms : validateRemaining ms = .ok ()) :
    (message.withRemaining ms).validate validateQuery = .ok () := by
  cases message with
  | openWindow id remaining query pageSize ttl =>
      simp only [SessionClientFrame.withRemaining, SessionClientFrame.validate, bind_eq_ok]
        at hvalid ⊢
      obtain ⟨_, hid, _, hquery, _, hsize, _, httl, -⟩ := hvalid
      exact ⟨_, hid, _, hquery, _, hsize, _, httl, hms⟩
  | continuePage id remaining windowId pageSize =>
      simp only [SessionClientFrame.withRemaining, SessionClientFrame.validate, bind_eq_ok]
        at hvalid ⊢
      obtain ⟨_, hid, _, hwindow, _, hsize, -⟩ := hvalid
      exact ⟨_, hid, _, hwindow, _, hsize, hms⟩
  | expand id remaining windowId itemIndex before after =>
      simp only [SessionClientFrame.withRemaining, SessionClientFrame.validate, bind_eq_ok]
        at hvalid ⊢
      obtain ⟨_, hid, _, hwindow, _, hbounds, -⟩ := hvalid
      exact ⟨_, hid, _, hwindow, _, hbounds, hms⟩
  | cancel id => exact hvalid
  | close id => exact hvalid

variable {checks}

/-- A frame that can be encoded can be encoded with less time. -/
theorem encodeSessionFrame_withRemaining {message : wire.Frame} {ms : UInt64}
    (hencoded : ∃ bytes, encodeSessionFrame checks message = .ok bytes)
    (hms : validateRemaining ms = .ok ()) (hle : ms.toNat ≤ message.remainingMs.toNat) :
    ∃ bytes, encodeSessionFrame checks (message.withRemaining ms) = .ok bytes := by
  obtain ⟨bytes, hencoded⟩ := hencoded
  simp only [encodeSessionFrame, encode, bind_eq_ok, refuse_eq_ok, not_lt, gt_iff_lt] at hencoded ⊢
  obtain ⟨_, hvalid, _, hfits, -⟩ := hencoded
  have hlength := frame_length_mono checks.queryText message hle
  exact ⟨_, _, validate_withRemaining hvalid hms, (), by omega, rfl⟩

end Encoding

/-! ## State -/

structure PendingSessionRequest (wire : Wire) where
  message : wire.Frame
  deadline : Instant
  sent : Bool

/-- Concrete state of the one session child and its original emitted entries. -/
structure Session (wire : Wire) where
  /-- Whether the input of the child is still held. -/
  stdin : Bool
  /-- Whether the child has exited and its outputs have ended. -/
  finished : Bool
  outbound : Bytes
  written : Nat
  writingControl : Option wire.Frame
  queuedControl : Option wire.Frame
  active : Option (PendingSessionRequest wire)
  closing : Option (PendingSessionRequest wire)
  cancelledRequest : Option UInt64
  lastId : UInt64
  query : Option wire.Query
  summary : Option WindowSummary
  emitted : List (WindowEntry wire.Item)
  lifetimeEnd : Option Instant

namespace Session

/-- The state of a child that was just started. -/
def start : Session wire where
  stdin := true
  finished := false
  outbound := []
  written := 0
  writingControl := none
  queuedControl := none
  active := none
  closing := none
  cancelledRequest := none
  lastId := 0
  query := none
  summary := none
  emitted := []
  lifetimeEnd := none

/-! ## Submissions -/

/-- The checks made before any state changes. -/
def admissible (now deadline : Instant) (message : wire.Frame) (session : Session wire) :
    Except ClientError Unit := do
  (message.validate wire.validateQuery).mapError fun error =>
    .commandRejected message.requestId error.code
  (encodeSessionFrame checks message).map (fun _ => ()) |>.mapError fun error =>
    if error = .frameTooLarge then .commandRejected message.requestId error.code
    else .protocol error
  refuse (session.finished = true ∨ session.stdin = false ∨ now ≥ deadline) .deadline

/-- Keep a Cancel or a Close in the control slot, which may replace an unsent Cancel;
data is not kept there. -/
def queueControl (deadline : Instant) (message : wire.Frame) (session : Session wire) :
    Except ClientError (Option (Session wire)) :=
  match message with
  | .cancel id => do
      refuse (session.active.map (fun pending => pending.message.requestId) ≠ some id ∨
        session.closing.isSome ∨ session.cancelledRequest = some id)
        (rejected id "SESSION_CONTROL_INVALID")
      return some { session with cancelledRequest := some id, queuedControl := some message }
  | .close id => do
      refuse (id ≤ session.lastId ∨ session.closing.isSome)
        (rejected id "SESSION_REQUEST_ID_INVALID")
      return some { session with
        lastId := id
        closing := some ⟨message, deadline, false⟩
        queuedControl := some message }
  | _ => return none

def validateExpand (requestId : UInt64) (itemIndex : UInt8) (beforeBytes afterBytes : UInt64)
    (session : Session wire) : Except ClientError Unit := do
  let entry ← okOr session.emitted[itemIndex.toNat]? (rejected requestId "WINDOW_ITEM_NOT_EMITTED")
  let (start, stop) ← okOr (checks.range entry.item) (rejected requestId "WINDOW_ITEM_UNAVAILABLE")
  refuse (stop < start ∨ stop.toNat - start.toNat + beforeBytes.toNat + afterBytes.toNat >
    maxExpansionBytes.toNat) (rejected requestId "WINDOW_EXPANSION_LIMIT")

/-- What a data request needs of the window; the first Open keeps its query. -/
def preflight (now : Instant) (message : wire.Frame) (session : Session wire) :
    Except ClientError (Session wire) :=
  match message with
  | .openWindow id _ query _ ttlMs => do
      refuse session.query.isSome (rejected id "WINDOW_ALREADY_OPEN")
      return { session with query := some query, lifetimeEnd := some (now + millis ttlMs) }
  | .expand id _ _ itemIndex beforeBytes afterBytes => do
      refuse session.summary.isNone (rejected id "WINDOW_NOT_OPEN")
      session.validateExpand checks id itemIndex beforeBytes afterBytes
      return session
  | message => do
      refuse session.summary.isNone (rejected message.requestId "WINDOW_NOT_OPEN")
      return session

/-- Make a data request the one in flight.  Its identity is used up even when the
window refuses it. -/
def submitData (now deadline : Instant) (message : wire.Frame) (session : Session wire) :
    Session wire × Except ClientError Unit :=
  if session.active.isSome ∨ session.closing.isSome then
    (session, .error (rejected message.requestId "SESSION_REQUEST_IN_FLIGHT"))
  else if message.requestId ≤ session.lastId then
    (session, .error (rejected message.requestId "SESSION_REQUEST_ID_INVALID"))
  else
    let session := { session with lastId := message.requestId }
    match session.preflight checks now message with
    | .error error => (session, .error error)
    | .ok session =>
        ({ session with
          cancelledRequest := none
          active := some ⟨message, min deadline (now + millis message.remainingMs), false⟩ }, .ok ())

/-- Submits one typed data request or correlated control. -/
def submit (now deadline : Instant) (message : wire.Frame) (session : Session wire) :
    Session wire × Except ClientError Unit :=
  match session.admissible checks now deadline message with
  | .error error => (session, .error error)
  | .ok () =>
      match session.queueControl deadline message with
      | .error error => (session, .error error)
      | .ok (some session) => (session, .ok ())
      | .ok none => session.submitData checks now deadline message

/-! ## Writing -/

/-- Fill the outbound frame when none is being written.  A data request not yet sent
comes before the control and is written with the time it has left. -/
def prepareWrite (now : Instant) (session : Session wire) : Except ClientError (Session wire) :=
  if session.outbound ≠ [] ∧ (session.written ≠ 0 ∨ session.writingControl.isSome) then
    .ok session
  else
    match session.active.filter fun pending => !pending.sent with
    | some pending => do
        let ms := min ((pending.deadline - now) / 1000000) maxRemainingMs.toNat
        refuse (pending.deadline < now ∨ ms = 0) .deadline
        let message := pending.message.withRemaining (UInt64.ofNat ms)
        let outbound ← (encodeSessionFrame checks message).mapError ClientError.protocol
        return { session with
          written := 0
          active := some { pending with message }
          outbound }
    | none =>
        match if session.outbound = [] then session.queuedControl else none with
        | some control => do
            let outbound ← (encodeSessionFrame checks control).mapError ClientError.protocol
            return { session with
              written := 0
              queuedControl := none
              writingControl := some control
              outbound }
        | none => .ok { session with written := 0 }

/-- The frame that is written now. -/
def current (session : Session wire) : Option wire.Frame :=
  match session.writingControl with
  | some control => some control
  | none => session.active.map PendingSessionRequest.message

/-- The frame was written to its end. -/
def wroteAll (session : Session wire) : Session wire :=
  match session.writingControl with
  | some control =>
      { session with
        writingControl := none
        closing := if control.isClose then session.closing.map ({ · with sent := true })
          else session.closing
        outbound := []
        written := 0 }
  | none =>
      { session with
        active := session.active.map ({ · with sent := true })
        outbound := []
        written := 0 }

def wrote (count : Nat) (session : Session wire) : Except ClientError (Session wire) := do
  refuse (count = 0) .io
  if session.written + count = session.outbound.length then return session.wroteAll
  else return { session with written := session.written + count }

/-! ## Replies -/

/-- The request was sent under the identity. -/
def answers (id : UInt64) (pending : Option (PendingSessionRequest wire)) : Bool :=
  pending.any fun pending => pending.sent && pending.message.requestId == id

/-- The reply ends the session: it was closed, or it expired. -/
def Ends (reply : wire.Reply) (session : Session wire) : Prop :=
  match reply.outcome with
  | .closed => answers reply.requestId session.closing = true
  | .expired => session.query.isSome ∧ (reply.requestId = 0 ∨
      answers reply.requestId session.active = true ∨ answers reply.requestId session.closing = true)
  | _ => False

instance (reply : wire.Reply) (session : Session wire) : Decidable (session.Ends reply) := by
  unfold Ends
  split <;> infer_instance

def acceptPage (pageSize : UInt8) (page : WindowPage wire.Item) (session : Session wire) :
    Except ClientError (Session wire) := do
  refuse (∃ summary ∈ session.summary, summary ≠ page.summary) (.protocol .invalidMessage)
  let query ← okOr session.query (.protocol .invalidMessage)
  (checks.validatePage query session.emitted pageSize page).mapError ClientError.protocol
  return { session with
    summary := some page.summary
    emitted := session.emitted ++ page.items }

/-- Check the outcome of a request and keep what a page shows. -/
def acceptOutcome (message : wire.Frame) (outcome : wire.Outcome) (session : Session wire) :
    Except ClientError (Session wire) :=
  match message, outcome with
  | .openWindow _ _ _ pageSize _, .page page => session.acceptPage checks pageSize page
  | .continuePage _ _ _ pageSize, .page page => session.acceptPage checks pageSize page
  | .expand id remaining windowId itemIndex before after, .expanded expansion => do
      let entry ← okOr session.emitted[itemIndex.toNat]? (.protocol .invalidMessage)
      (checks.validateExpansion (.expand id remaining windowId itemIndex before after) entry.item
        expansion).mapError ClientError.protocol
      return session
  | _, .failed _ => return session
  | _, .cancelled => return session
  | _, _ => .error (.protocol .invalidMessage)

/-- The request in flight is answered; a Cancel of which no byte was written is
dropped. -/
def release (session : Session wire) : Session wire :=
  let unwritten := session.written = 0 ∧ session.writingControl.any SessionClientFrame.isCancel
  { session with
    active := none
    queuedControl := session.queuedControl.filter fun control => !control.isCancel
    writingControl := if unwritten then none else session.writingControl
    outbound := if unwritten then [] else session.outbound }

/-- Checks a reply against the state. -/
def acceptReply (reply : wire.Reply) (session : Session wire) :
    Except ClientError (Session wire) :=
  if session.Ends reply then .ok { session with active := none }
  else do
    let pending ← okOr
      (session.active.filter fun pending =>
        pending.sent && pending.message.requestId == reply.requestId)
      (.protocol .invalidCorrelation)
    let session ← session.acceptOutcome checks pending.message reply.outcome
    return session.release

/-- Let go of the input of the child. -/
def finish (session : Session wire) : Session wire := { session with stdin := false }

end Session

end EliotSearch.Client
