import EliotSearch.Session.Effects

/-!
# Faults

Which error each operation of an exchange can end the session with, and what it
says about the state: a fault of the peer, a worker that is gone, a reply that is
cut off, or a deadline.
-/

namespace EliotSearch.Session

open EliotSearch.Library
open EliotSearch.Library.Results

variable {wire : Wire}

/-- The error is about what the peer sent, or a code reported in its place. -/
def SessionError.byPeer : SessionError → Bool
  | .responseMismatch => true
  | .requestIdInvalid => true
  | .requestInFlight => true
  | .controlInvalid => true
  | .frameInvalid => true
  | .reported _ => true
  | _ => false

/-- The session says that it cut off a reply. -/
def SessionError.isPartial : SessionError → Bool
  | .partialOutputCancelled => true
  | .partialOutputClose => true
  | .expiredPartialOutput => true
  | _ => false

theorem SessionError.byPeer_eq_false {error : SessionError} (hcut : error.isPartial = true) :
    error.byPeer = false := by
  cases error with
  | partialOutputCancelled => rfl
  | partialOutputClose => rfl
  | expiredPartialOutput => rfl
  | _ => cases hcut

/-- Some bytes of the reply are written and some are not. -/
def Output.IsPartial (output : Output wire) : Prop :=
  0 < output.cursor ∧ output.cursor < output.ready.bytes.length

/-- Every byte of the reply is written. -/
def Output.IsWhole (output : Output wire) : Prop :=
  output.cursor = output.ready.bytes.length

instance (output : Output wire) : Decidable output.IsWhole :=
  inferInstanceAs (Decidable (_ = _))

namespace Exchange

theorem refuseWith_error {now : Instant} {id : UInt64} {reason : QueryFailure} {data : Bool}
    {state : Exchange wire} {error : SessionError}
    (hrefuse : state.refuseWith now id reason data = .error error) : error.byPeer = true := by
  simp only [refuseWith, bind_eq_error, mapError_eq_error, pure_eq_ok] at hrefuse
  rcases hrefuse with ⟨_, -, rfl⟩ | ⟨_, -, hcontra⟩
  · rfl
  · cases hcontra

theorem cancel_error {now : Instant} {id : UInt64} {state : Exchange wire}
    {error : SessionError} (hcancel : state.cancel now id = .error error) :
    error.byPeer = true ∨
      (error.isPartial = true ∧ (∀ completed ∈ state.completedId, completed < id) ∧
        ∃ output, state.output = some output ∧ output.id = id ∧ output.cursor ≠ 0) := by
  unfold cancel at hcancel
  split at hcancel
  · cases hcancel
  rename_i hlate
  have hnew : ∀ completed ∈ state.completedId, completed < id := by
    intro completed hcompleted
    exact UInt64.not_le.mp fun hle => hlate ⟨completed, hcompleted, hle⟩
  split at hcancel
  · cases hcancel
  split at hcancel
  · simp only [bind_eq_error, refuse_eq_error, pure_eq_ok] at hcancel
    rcases hcancel with ⟨-, rfl⟩ | ⟨_, -, hcontra⟩
    · exact Or.inl rfl
    · cases hcontra
  · rename_i output hactive houtput
    simp only [bind_eq_error, refuse_eq_error, refuse_eq_ok] at hcancel
    rcases hcancel with ⟨-, rfl⟩ | ⟨_, hid, ⟨hcursor, rfl⟩ | ⟨_, -, hfailure | ⟨_, -, hcontra⟩⟩⟩
    · exact Or.inl rfl
    · exact Or.inr ⟨rfl, hnew, output, houtput, not_not.mp hid, hcursor⟩
    · obtain ⟨_, -, rfl⟩ := mapError_eq_error.mp hfailure
      exact Or.inl rfl
    · cases hcontra
  · exact Or.inl (refuseWith_error hcancel)

theorem send_error {alive : Bool} {message : wire.Frame} {started : Instant}
    {remaining : UInt64} {jobExpiry : Option Instant} {state : Exchange wire}
    {error : SessionError} (hsend : state.send alive message started remaining jobExpiry =
      .error error) : error = .workerPanicked ∧ alive = false := by
  simp only [send, bind_eq_error, refuse_eq_error, pure_eq_ok] at hsend
  rcases hsend with ⟨halive, rfl⟩ | ⟨_, -, hcontra⟩
  · exact ⟨rfl, halive⟩
  · cases hcontra

theorem dispatch_error {now : Instant} {alive : Bool} {message : wire.Frame}
    {started : Instant} {state : Exchange wire} {error : SessionError}
    (hdispatch : state.dispatch now alive message started = .error error) :
    error.byPeer = true ∨ (error = .workerPanicked ∧ alive = false) := by
  have hreject {refusing : Exchange wire} {code : String}
      (herror : (do return (← refusing.reject now message.requestId code true, none) :
        Except SessionError (Exchange wire × Option (Job wire))) = .error error) :
      error.byPeer = true := by
    simp only [bind_eq_error, pure_eq_ok] at herror
    rcases herror with hrefuse | ⟨_, -, hcontra⟩
    · exact refuseWith_error hrefuse
    · cases hcontra
  simp only [dispatch, bind_eq_error, refuse_eq_error] at hdispatch
  rcases hdispatch with ⟨-, rfl⟩ | ⟨_, -, hdispatch⟩
  · exact Or.inl rfl
  cases message with
  | openWindow id remainingMs query pageSize ttlMs =>
      dsimp only at hdispatch
      split at hdispatch
      · exact Or.inl (hreject hdispatch)
      · exact Or.inr (send_error hdispatch)
  | continuePage id remainingMs windowId pageSize =>
      dsimp only at hdispatch
      split at hdispatch
      · exact Or.inr (send_error hdispatch)
      · exact Or.inl (hreject hdispatch)
  | expand id remainingMs windowId itemIndex beforeBytes afterBytes =>
      dsimp only at hdispatch
      split at hdispatch
      · exact Or.inr (send_error hdispatch)
      · exact Or.inl (hreject hdispatch)
  | close id => exact Or.inr (send_error hdispatch)
  | cancel id =>
      obtain rfl := Except.error.inj hdispatch
      exact Or.inl rfl

/-- A frame that cuts off a reply: a Close that finds it written in part, or a
Cancel of it after its first byte. -/
structure CutsOff (message : wire.Frame) (state : Exchange wire) (output : Output wire) :
    Prop where
  output_eq : state.output = some output
  begun : output.cursor ≠ 0
  whole : output.IsWhole → message.isCancel = true ∧ output.id = message.requestId ∧
    ∀ completed ∈ state.completedId, completed < message.requestId

theorem accept_error {now : Instant} {alive : Bool} {message : wire.Frame}
    {started : Instant} {state : Exchange wire} {error : SessionError}
    (haccept : state.accept now alive message started = .error error) :
    error.byPeer = true ∨ (error = .workerPanicked ∧ alive = false) ∨
      (error.isPartial = true ∧ ∃ output, CutsOff message state output) := by
  unfold accept at haccept
  dsimp only at haccept
  split at haccept
  · rename_i hkind
    simp only [bind_eq_error, pure_eq_ok] at haccept
    rcases haccept with hcancel | ⟨_, -, hcontra⟩
    · rcases cancel_error hcancel with hpeer | ⟨hcuts, hnew, output, houtput, hid, hcursor⟩
      · exact Or.inl hpeer
      · exact Or.inr (Or.inr ⟨hcuts, output, houtput, hcursor, fun _ => ⟨hkind, hid, hnew⟩⟩)
    · cases hcontra
  split at haccept
  · simp only [bind_eq_error, refuse_eq_error, pure_eq_ok] at haccept
    rcases haccept with ⟨-, rfl⟩ | ⟨_, -, hrefuse | ⟨_, -, hcontra⟩⟩
    · exact Or.inl rfl
    · exact Or.inl (refuseWith_error hrefuse)
    · cases hcontra
  split at haccept
  · exact (dispatch_error haccept).imp_right Or.inl
  · rename_i output houtput
    split at haccept
    · exact (dispatch_error haccept).imp_right Or.inl
    · rename_i hclose
      simp only [bind_eq_error, refuse_eq_error, pure_eq_ok] at haccept
      rcases haccept with ⟨⟨hcloses, hcut⟩, rfl⟩ | ⟨_, -, ⟨-, rfl⟩ | ⟨_, -, hcontra⟩⟩
      · exact Or.inr (Or.inr ⟨rfl, output, houtput, fun hcursor => hclose ⟨hcloses, hcursor⟩,
          fun hwhole => absurd hwhole hcut⟩)
      · exact Or.inl rfl
      · cases hcontra

/-- The message that the next bytes complete. -/
def incoming (bytes : Bytes) (state : Exchange wire) : Option wire.Frame := do
  let (input, _) ← (state.input.push bytes).toOption
  let frame ← input.frame
  (wire.decodeSessionFrame frame).toOption

theorem incoming_eq_some {bytes : Bytes} {state : Exchange wire} {message : wire.Frame} :
    state.incoming bytes = some message ↔ ∃ input count frame,
      state.input.push bytes = .ok (input, count) ∧ input.frame = some frame ∧
        wire.decodeSessionFrame frame = .ok message := by
  simp only [incoming, Option.bind_eq_bind, Option.bind_eq_some_iff, toOption_eq_some, Prod.exists]
  constructor
  · rintro ⟨input, count, hpush, frame, hframe, hdecode⟩
    exact ⟨input, count, frame, hpush, hframe, hdecode⟩
  · rintro ⟨input, count, frame, hpush, hframe, hdecode⟩
    exact ⟨input, count, hpush, frame, hframe, hdecode⟩

theorem consume_error {now : Instant} {alive : Bool} {bytes : Bytes} {state : Exchange wire}
    {error : SessionError} (hconsume : state.consume now alive bytes = .error error) :
    error.byPeer = true ∨ (error = .workerPanicked ∧ alive = false) ∨
      (error.isPartial = true ∧ ∃ message output, state.incoming bytes = some message ∧
        CutsOff message state output) := by
  simp only [consume, bind_eq_error, mapError_eq_error, mapError_eq_ok, refuse_eq_error]
    at hconsume
  rcases hconsume with ⟨_, -, rfl⟩ | ⟨⟨input, count⟩, hpush, ⟨-, rfl⟩ | ⟨_, -, hrest⟩⟩
  · exact Or.inl rfl
  · exact Or.inl rfl
  dsimp only at hrest
  split at hrest
  · cases hrest
  rename_i frame hframe
  simp only [bind_eq_error, mapError_eq_error, mapError_eq_ok, okOr_eq_error, okOr_eq_ok,
    pure_eq_ok] at hrest
  rcases hrest with ⟨_, -, rfl⟩ | ⟨message, hmessage, ⟨-, rfl⟩ | ⟨started, -, hrest⟩⟩
  · exact Or.inl rfl
  · exact Or.inl rfl
  rcases hrest with haccept | ⟨_, -, hcontra⟩
  · have hincoming : state.incoming bytes = some message :=
      incoming_eq_some.mpr ⟨input, count, frame, hpush, hframe, hmessage⟩
    rcases accept_error haccept with hpeer | hgone | ⟨hcuts, output, hcut⟩
    · exact Or.inl hpeer
    · exact Or.inr (Or.inl hgone)
    · exact Or.inr (Or.inr ⟨hcuts, message, output, hincoming, hcut.output_eq, hcut.begun,
        hcut.whole⟩)
  · cases hcontra

theorem takeDeferred_error {now : Instant} {alive : Bool} {deferred : Deferred wire}
    {state : Exchange wire} {error : SessionError} (houtput : state.output = none)
    (htake : state.takeDeferred now alive deferred = .error error) :
    error.byPeer = true ∨ (error = .workerPanicked ∧ alive = false) := by
  unfold takeDeferred at htake
  split at htake
  · simp only [bind_eq_error, pure_eq_ok] at htake
    rcases htake with hrefuse | ⟨_, -, hcontra⟩
    · exact Or.inl (refuseWith_error hrefuse)
    · cases hcontra
  · rcases accept_error htake with hpeer | hgone | ⟨-, output, hcut⟩
    · exact Or.inl hpeer
    · exact Or.inr hgone
    · have hsome := hcut.output_eq
      rw [houtput] at hsome
      cases hsome

/-! ## Replies, timeouts and flushes -/

theorem received_error {now : Instant} {result : Except Bytes (Ready wire)}
    {state : Exchange wire} {error : SessionError}
    (hreceived : state.received now result = .error error) :
    error = .noActiveRequest ∨ error.byPeer = true := by
  simp only [received, bind_eq_error, okOr_eq_error, mapError_eq_error, pure_eq_ok] at hreceived
  rcases hreceived with ⟨-, rfl⟩ | ⟨active, -, ⟨_, -, rfl⟩ | ⟨ready, -, hrest⟩⟩
  · exact Or.inl rfl
  · exact Or.inr rfl
  rcases hrest with hanswer | ⟨_, -, hcontra⟩
  · unfold Active.answer at hanswer
    split at hanswer
    · split at hanswer
      · cases hanswer
      · obtain ⟨_, -, rfl⟩ := mapError_eq_error.mp hanswer
        exact Or.inr rfl
    · cases hanswer
  · cases hcontra

theorem commitFlushed_error {alive : Bool} {state : Exchange wire} {error : SessionError}
    (hcommit : state.commitFlushed alive = .error error) :
    (error = .outputIo ∧ state.output = none) ∨
      (error = .workerPanicked ∧ alive = false ∧
        ∃ output, state.output = some output ∧ output.ready.commit.isSome = true) := by
  simp only [commitFlushed, bind_eq_error, okOr_eq_error, okOr_eq_ok, refuse_eq_error] at hcommit
  rcases hcommit with ⟨hnone, rfl⟩ | ⟨output, houtput, ⟨⟨hsome, halive⟩, rfl⟩ | ⟨_, -, hrest⟩⟩
  · exact Or.inl ⟨rfl, hnone⟩
  · exact Or.inr ⟨rfl, halive, output, houtput, hsome⟩
  · split at hrest <;> cases hrest

theorem timedOut_error {now : Instant} {state : Exchange wire} {error : SessionError}
    (htimedOut : state.timedOut now = .error error) :
    (error = .cleanupExpired ∧ state.active.isSome = true) ∨
      (error = .queryDeadline ∧ state.active = none) := by
  unfold timedOut at htimedOut
  split at htimedOut
  · rename_i active hactive
    simp only [bind_eq_error, refuse_eq_error, pure_eq_ok] at htimedOut
    rcases htimedOut with ⟨-, rfl⟩ | ⟨_, -, hcontra⟩
    · exact Or.inl ⟨rfl, by rw [hactive]; rfl⟩
    · cases hcontra
  · rename_i hactive
    obtain rfl := Except.error.inj htimedOut
    exact Or.inr ⟨rfl, hactive⟩

end Exchange

end EliotSearch.Session
