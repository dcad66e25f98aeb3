import EliotSearch.Client.Session
import EliotSearch.Library.Omissions

/-!
# What a client writes

The bytes that a session writes to its child, over any order of commands, partial
writes and replies: whole frames in the order of the accepted commands.
-/

namespace EliotSearch.Client

open EliotSearch.Library
open EliotSearch.Library.Results
open EliotSearch.Session

variable {wire : Wire}

/-! ## Runs -/

/-- A session and what happened to it: the accepted commands, the frames written to
their end, and all bytes written. -/
structure Traffic (wire : Wire) where
  session : Session wire
  clock : Instant
  accepted : List wire.Frame
  sent : List wire.Frame
  stream : Bytes

/-- What a caller and the two pipes do. -/
inductive Action (wire : Wire) where
  | submit (deadline : Instant) (message : wire.Frame)
  | prepare
  | wrote (count : Nat)
  | reply (reply : wire.Reply)
  | finish

namespace Traffic

variable (checks : Checks wire)

def start (clock : Instant) : Traffic wire := ⟨Session.start, clock, [], [], []⟩

/-- The effect of an action at an instant.  A failed write or an invalid reply ends the
session, and so does a reply to that effect. -/
def step (now : Instant) (action : Action wire) (traffic : Traffic wire) : Traffic wire :=
  match action with
  | .submit deadline message =>
      match traffic.session.submit checks now deadline message with
      | (session, .ok ()) =>
          { traffic with session, clock := now, accepted := traffic.accepted ++ [message] }
      | (session, .error _) => { traffic with session, clock := now }
  | .prepare =>
      match traffic.session.prepareWrite checks now with
      | .ok session => { traffic with session, clock := now }
      | .error _ => { traffic with session := traffic.session.finish, clock := now }
  | .wrote count =>
      if traffic.session.stdin = true ∧
          traffic.session.written + count ≤ traffic.session.outbound.length then
        match traffic.session.wrote count with
        | .ok session =>
            { traffic with
              session
              clock := now
              sent := if traffic.session.written + count = traffic.session.outbound.length then
                traffic.sent ++ traffic.session.current.toList else traffic.sent
              stream := traffic.stream ++
                (traffic.session.outbound.drop traffic.session.written).take count }
        | .error _ => { traffic with session := traffic.session.finish, clock := now }
      else { traffic with clock := now }
  | .reply reply =>
      match traffic.session.acceptReply checks reply with
      | .ok session =>
          { traffic with
            session := if traffic.session.Ends reply then session.finish else session
            clock := now }
      | .error _ => { traffic with session := traffic.session.finish, clock := now }
  | .finish => { traffic with session := traffic.session.finish, clock := now }

/-- Every state reached from the start, with a clock that does not go back. -/
inductive Reached : Traffic wire → Prop where
  | start (clock : Instant) : Reached (start clock)
  | step {traffic : Traffic wire} (now : Instant) (action : Action wire)
      (hreached : Reached traffic) (hclock : traffic.clock ≤ now) :
      Reached (traffic.step checks now action)

end Traffic

/-! ## Commands in waiting -/

/-- The command of a frame, whatever its time. -/
def command (frame : wire.Frame) : wire.Frame := frame.withRemaining 0

/-- The accepted commands that are still to be written, in their order. -/
def Session.waiting (session : Session wire) : List wire.Frame :=
  session.writingControl.toList ++
    ((session.active.filter fun pending => !pending.sent).map
      PendingSessionRequest.message).toList ++ session.queuedControl.toList

/-- Only a Cancel may be left out. -/
def Droppable (frame : wire.Frame) : Prop := frame.isCancel = true

/-- The request was accepted with a time that ends no earlier, and its frame fitted
with that time. -/
def Fresh (checks : Checks wire) (clock : Instant) (pending : PendingSessionRequest wire) : Prop :=
  ∃ original : wire.Frame, ∃ started : Instant, started ≤ clock ∧
    command original = command pending.message ∧ original.isData = true ∧
    (∃ bytes, encodeSessionFrame checks original = .ok bytes) ∧
    pending.deadline ≤ started + millis original.remainingMs

/-- What holds between any two actions. -/
structure Sound (checks : Checks wire) (traffic : Traffic wire) : Prop where
  stream : ∃ frames, List.Forall₂ (fun frame bytes => encodeSessionFrame checks frame = .ok bytes)
    traffic.sent frames ∧
    traffic.stream = frames.flatten ++ traffic.session.outbound.take traffic.session.written
  unfinished : traffic.session.outbound ≠ [] →
    traffic.session.written < traffic.session.outbound.length
  idle : traffic.session.outbound = [] →
    traffic.session.written = 0 ∧ traffic.session.writingControl = none
  whole : traffic.session.outbound ≠ [] →
    ∃ frame, encodeSessionFrame checks frame = .ok traffic.session.outbound ∧
      (traffic.session.stdin = true → traffic.session.current = some frame)
  unsent : traffic.session.stdin = true → traffic.session.outbound ≠ [] →
    traffic.session.writingControl = none →
    ∃ pending, traffic.session.active = some pending ∧ pending.sent = false
  order : ∃ rest, Omits Droppable (traffic.accepted.map command)
    (traffic.sent.map command ++ rest) ∧
    (traffic.session.stdin = true → rest = traffic.session.waiting.map command)
  fresh : ∀ pending, traffic.session.active = some pending → pending.sent = false →
    Fresh checks traffic.clock pending
  queued : ∀ control, traffic.session.queuedControl = some control →
    (∃ bytes, encodeSessionFrame checks control = .ok bytes) ∧ control.isData = false
  cancels : traffic.session.stdin = true → ∀ control,
    traffic.session.queuedControl = some control →
    (control.isCancel = true ∧ traffic.session.cancelledRequest = some control.requestId ∧
      traffic.session.active.map (fun pending => pending.message.requestId) =
        some control.requestId) ∨
    (control.isClose = true ∧ traffic.session.closing.isSome)
  controls : ∀ control, traffic.session.writingControl = some control → control.isData = false
  ids : ((traffic.accepted.filter fun frame => !frame.isCancel).map
      SessionClientFrame.requestId).Pairwise (· < ·) ∧
    ∀ frame ∈ traffic.accepted, frame.isCancel = false →
      frame.requestId ≤ traffic.session.lastId

variable {checks : Checks wire}

/-! ## What a submission does -/

theorem encodeSessionFrame_ne_nil {frame : wire.Frame} {bytes : Bytes}
    (hencoded : encodeSessionFrame checks frame = .ok bytes) : bytes ≠ [] := by
  simp only [encodeSessionFrame, encode, bind_eq_ok, pure_eq_ok, Except.ok.injEq] at hencoded
  obtain ⟨_, -, _, -, rfl⟩ := hencoded
  intro hnil
  have hlength := congrArg List.length hnil
  rw [List.length_append, Words.le32_length, List.length_nil] at hlength
  omega

theorem Session.preflight_eq_ok {now : Instant} {message : wire.Frame} {session next : Session wire}
    (hpreflight : session.preflight checks now message = .ok next) :
    ∃ query lifetimeEnd, next = { session with query, lifetimeEnd } := by
  cases message with
  | openWindow id remaining query pageSize ttl =>
      simp only [preflight, bind_eq_ok, pure_eq_ok, Except.ok.injEq] at hpreflight
      obtain ⟨_, -, rfl⟩ := hpreflight
      exact ⟨_, _, rfl⟩
  | expand id remaining windowId itemIndex before after =>
      simp only [preflight, bind_eq_ok, pure_eq_ok, Except.ok.injEq] at hpreflight
      obtain ⟨_, -, _, -, rfl⟩ := hpreflight
      exact ⟨_, _, rfl⟩
  | continuePage id remaining windowId pageSize =>
      simp only [preflight, bind_eq_ok, pure_eq_ok, Except.ok.injEq] at hpreflight
      obtain ⟨_, -, rfl⟩ := hpreflight
      exact ⟨_, _, rfl⟩
  | cancel id =>
      simp only [preflight, bind_eq_ok, pure_eq_ok, Except.ok.injEq] at hpreflight
      obtain ⟨_, -, rfl⟩ := hpreflight
      exact ⟨_, _, rfl⟩
  | close id =>
      simp only [preflight, bind_eq_ok, pure_eq_ok, Except.ok.injEq] at hpreflight
      obtain ⟨_, -, rfl⟩ := hpreflight
      exact ⟨_, _, rfl⟩

/-- What an accepted command does to the session. -/
inductive Session.Accepts (checks : Checks wire) (now deadline : Instant) (message : wire.Frame)
    (session : Session wire) : Session wire → Prop where
  | cancel (hcancel : message.isCancel = true)
      (hactive : session.active.map (fun pending => pending.message.requestId) =
        some message.requestId)
      (hclosing : session.closing = none)
      (hfirst : session.cancelledRequest ≠ some message.requestId) :
      Accepts checks now deadline message session { session with
        cancelledRequest := some message.requestId, queuedControl := some message }
  | close (hclose : message.isClose = true) (hid : session.lastId < message.requestId)
      (hclosing : session.closing = none) :
      Accepts checks now deadline message session { session with
        lastId := message.requestId
        closing := some ⟨message, deadline, false⟩
        queuedControl := some message }
  | data (query : Option wire.Query) (lifetimeEnd : Option Instant)
      (hdata : message.isData = true) (hid : session.lastId < message.requestId)
      (hactive : session.active = none) (hclosing : session.closing = none) :
      Accepts checks now deadline message session { session with
        lastId := message.requestId
        query
        lifetimeEnd
        cancelledRequest := none
        active := some ⟨message, min deadline (now + millis message.remainingMs), false⟩ }

theorem Session.submitData_cases (now deadline : Instant) (message : wire.Frame)
    (session : Session wire) (hstdin : session.stdin = true)
    (hbytes : ∃ bytes, encodeSessionFrame checks message = .ok bytes)
    (hdata : message.isData = true) :
    (∃ next, session.submitData checks now deadline message = (next, .ok ()) ∧
      session.stdin = true ∧ (∃ bytes, encodeSessionFrame checks message = .ok bytes) ∧
      session.Accepts checks now deadline message next) ∨
    ∃ error id, session.lastId ≤ id ∧
      session.submitData checks now deadline message =
        ({ session with lastId := id }, .error error) := by
  unfold submitData
  split
  · exact Or.inr ⟨_, session.lastId, UInt64.le_refl _, rfl⟩
  · rename_i hfree
    rw [not_or, Option.not_isSome_iff_eq_none, Option.not_isSome_iff_eq_none] at hfree
    obtain ⟨hactive, hclosing⟩ := hfree
    split
    · exact Or.inr ⟨_, session.lastId, UInt64.le_refl _, rfl⟩
    · rename_i hid
      rw [UInt64.not_le] at hid
      dsimp only
      cases hpreflight : Session.preflight checks now message
          { session with lastId := message.requestId } with
      | error error => exact Or.inr ⟨error, message.requestId, UInt64.le_of_lt hid, rfl⟩
      | ok next =>
          obtain ⟨query, lifetimeEnd, rfl⟩ := preflight_eq_ok hpreflight
          exact Or.inl ⟨_, rfl, hstdin, hbytes, .data query lifetimeEnd hdata hid hactive hclosing⟩

/-- A submission is accepted, or it changes no more than the last identity. -/
theorem Session.submit_cases (now deadline : Instant) (message : wire.Frame)
    (session : Session wire) :
    (∃ next, session.submit checks now deadline message = (next, .ok ()) ∧
      session.stdin = true ∧ (∃ bytes, encodeSessionFrame checks message = .ok bytes) ∧
      session.Accepts checks now deadline message next) ∨
    ∃ error id, session.lastId ≤ id ∧
      session.submit checks now deadline message = ({ session with lastId := id }, .error error) := by
  unfold submit
  cases hadmissible : session.admissible checks now deadline message with
  | error error => exact Or.inr ⟨error, session.lastId, UInt64.le_refl _, rfl⟩
  | ok _ =>
      simp only [admissible, bind_eq_ok, mapError_eq_ok, refuse_eq_ok, not_or] at hadmissible
      obtain ⟨_, -, _, hencoded, -, hstdin, -⟩ := hadmissible
      have hstdin : session.stdin = true := by simpa using hstdin
      have hbytes : ∃ bytes, encodeSessionFrame checks message = .ok bytes := by
        cases hbytes : encodeSessionFrame checks message with
        | error error =>
            rw [hbytes] at hencoded
            cases hencoded
        | ok bytes => exact ⟨bytes, rfl⟩
      dsimp only
      cases hqueue : session.queueControl deadline message with
      | error error => exact Or.inr ⟨error, session.lastId, UInt64.le_refl _, rfl⟩
      | ok queued =>
          cases message with
          | cancel id =>
              simp only [queueControl, bind_eq_ok, refuse_eq_ok, pure_eq_ok, Except.ok.injEq,
                not_or, not_not] at hqueue
              obtain ⟨_, ⟨hactive, hclosing, hfirst⟩, rfl⟩ := hqueue
              exact Or.inl ⟨_, rfl, hstdin, hbytes, .cancel rfl hactive
                (Option.not_isSome_iff_eq_none.mp hclosing) hfirst⟩
          | close id =>
              simp only [queueControl, bind_eq_ok, refuse_eq_ok, pure_eq_ok, Except.ok.injEq,
                not_or, UInt64.not_le] at hqueue
              obtain ⟨_, ⟨hid, hclosing⟩, rfl⟩ := hqueue
              exact Or.inl ⟨_, rfl, hstdin, hbytes, .close rfl hid
                (Option.not_isSome_iff_eq_none.mp hclosing)⟩
          | openWindow id remaining query pageSize ttl =>
              obtain rfl := Except.ok.inj hqueue
              exact submitData_cases now deadline _ session hstdin hbytes rfl
          | continuePage id remaining windowId pageSize =>
              obtain rfl := Except.ok.inj hqueue
              exact submitData_cases now deadline _ session hstdin hbytes rfl
          | expand id remaining windowId itemIndex before after =>
              obtain rfl := Except.ok.inj hqueue
              exact submitData_cases now deadline _ session hstdin hbytes rfl

/-! ## Every action keeps what holds -/

theorem Fresh.later {clock now : Instant} {pending : PendingSessionRequest wire}
    (hfresh : Fresh checks clock pending) (hclock : clock ≤ now) : Fresh checks now pending := by
  obtain ⟨original, started, hstarted, hrest⟩ := hfresh
  exact ⟨original, started, hstarted.trans hclock, hrest⟩

theorem sound_start (clock : Instant) : Sound checks (Traffic.start clock : Traffic wire) where
  stream := ⟨[], .nil, rfl⟩
  unfinished hsome := absurd rfl hsome
  idle _ := ⟨rfl, rfl⟩
  whole hsome := absurd rfl hsome
  unsent _ hsome := absurd rfl hsome
  order := ⟨[], .nil, fun _ => rfl⟩
  fresh _ hactive := nomatch hactive
  queued _ hqueued := nomatch hqueued
  cancels _ _ hqueued := nomatch hqueued
  controls _ hwriting := nomatch hwriting
  ids := ⟨.nil, fun _ hmem => absurd hmem List.not_mem_nil⟩

section Submitting

variable {traffic : Traffic wire} {now deadline : Instant} {message : wire.Frame}

/-- An identity above the last one is above those of all accepted commands. -/
theorem Sound.ids_append (hsound : Sound checks traffic)
    (hid : traffic.session.lastId < message.requestId) :
    (((traffic.accepted ++ [message]).filter fun frame => !frame.isCancel).map
        SessionClientFrame.requestId).Pairwise (· < ·) ∧
      ∀ frame ∈ traffic.accepted ++ [message], frame.isCancel = false →
        frame.requestId ≤ message.requestId := by
  obtain ⟨hpairs, hbounded⟩ := hsound.ids
  have hlater (frame : wire.Frame) (hmem : frame ∈ traffic.accepted)
      (hkept : frame.isCancel = false) : frame.requestId < message.requestId :=
    UInt64.lt_of_le_of_lt (hbounded frame hmem hkept) hid
  constructor
  · rw [List.filter_append, List.map_append, List.pairwise_append]
    refine ⟨hpairs, ?_, ?_⟩
    · cases hcancel : message.isCancel <;> simp [hcancel]
    · intro left hleft right hright
      obtain ⟨frame, hframe, rfl⟩ := List.mem_map.mp hleft
      obtain ⟨last, hlast, rfl⟩ := List.mem_map.mp hright
      obtain ⟨hmem, hkept⟩ := List.mem_filter.mp hframe
      obtain rfl := List.mem_singleton.mp (List.mem_filter.mp hlast).1
      exact hlater frame hmem (by simpa using hkept)
  · intro frame hmem hkept
    rcases List.mem_append.mp hmem with hold | hnew
    · exact UInt64.le_of_lt (hlater frame hold hkept)
    · obtain rfl := List.mem_singleton.mp hnew
      exact UInt64.le_refl _

/-- A refused command changes no more than the last identity. -/
theorem Sound.refused (hsound : Sound checks traffic) (hclock : traffic.clock ≤ now) {id : UInt64}
    (hid : traffic.session.lastId ≤ id) :
    Sound checks { traffic with
      session := { traffic.session with lastId := id }, clock := now } where
  stream := hsound.stream
  unfinished := hsound.unfinished
  idle := hsound.idle
  whole := hsound.whole
  unsent := hsound.unsent
  order := hsound.order
  fresh pending hactive hunsent := (hsound.fresh pending hactive hunsent).later hclock
  queued := hsound.queued
  cancels := hsound.cancels
  controls := hsound.controls
  ids := ⟨hsound.ids.1, fun frame hmem hkept =>
    UInt64.le_trans (hsound.ids.2 frame hmem hkept) hid⟩

/-- A Cancel is the first one of the active request, so the control slot is free. -/
theorem Sound.cancel (hsound : Sound checks traffic) (hclock : traffic.clock ≤ now)
    (hstdin : traffic.session.stdin = true)
    (hbytes : ∃ bytes, encodeSessionFrame checks message = .ok bytes)
    (hcancel : message.isCancel = true)
    (hactive : traffic.session.active.map (fun pending => pending.message.requestId) =
      some message.requestId)
    (hclosing : traffic.session.closing = none)
    (hfirst : traffic.session.cancelledRequest ≠ some message.requestId) :
    Sound checks { traffic with
      session := { traffic.session with
        cancelledRequest := some message.requestId, queuedControl := some message }
      clock := now
      accepted := traffic.accepted ++ [message] } where
  stream := hsound.stream
  unfinished := hsound.unfinished
  idle := hsound.idle
  whole := hsound.whole
  unsent := hsound.unsent
  order := by
    have hfree : traffic.session.queuedControl = none := by
      cases hqueued : traffic.session.queuedControl with
      | none => rfl
      | some control =>
          rcases hsound.cancels hstdin control hqueued with ⟨-, hcancelled, hsame⟩ | ⟨-, hclose⟩
          · rw [hactive] at hsame
            exact absurd (hcancelled.trans hsame.symm) hfirst
          · rw [hclosing] at hclose
            cases hclose
    obtain ⟨rest, homits, hrest⟩ := hsound.order
    refine ⟨rest ++ [command message], ?_, fun _ => ?_⟩
    · rw [List.map_append, ← List.append_assoc]
      exact homits.append_keep (command message)
    · rw [hrest hstdin]
      simp [Session.waiting, hfree]
  fresh pending hactive hunsent := (hsound.fresh pending hactive hunsent).later hclock
  queued control hqueued := by
    obtain rfl := Option.some.inj hqueued
    exact ⟨hbytes, by rw [SessionClientFrame.isData, hcancel]; rfl⟩
  cancels _ control hqueued := by
    obtain rfl := Option.some.inj hqueued
    exact Or.inl ⟨hcancel, rfl, hactive⟩
  controls := hsound.controls
  ids := by
    obtain ⟨hpairs, hbounded⟩ := hsound.ids
    constructor
    · simpa [List.filter_append, hcancel] using hpairs
    · intro frame hmem hkept
      rcases List.mem_append.mp hmem with hold | hnew
      · exact hbounded frame hold hkept
      · obtain rfl := List.mem_singleton.mp hnew
        rw [hcancel] at hkept
        cases hkept

/-- A Close takes the control slot; a Cancel that waits there is left out. -/
theorem Sound.close (hsound : Sound checks traffic) (hclock : traffic.clock ≤ now)
    (hstdin : traffic.session.stdin = true)
    (hbytes : ∃ bytes, encodeSessionFrame checks message = .ok bytes)
    (hclose : message.isClose = true) (hid : traffic.session.lastId < message.requestId)
    (hclosing : traffic.session.closing = none) :
    Sound checks { traffic with
      session := { traffic.session with
        lastId := message.requestId
        closing := some ⟨message, deadline, false⟩
        queuedControl := some message }
      clock := now
      accepted := traffic.accepted ++ [message] } where
  stream := hsound.stream
  unfinished := hsound.unfinished
  idle := hsound.idle
  whole := hsound.whole
  unsent := hsound.unsent
  order := by
    obtain ⟨rest, homits, hrest⟩ := hsound.order
    obtain rfl := hrest hstdin
    cases hqueued : traffic.session.queuedControl with
    | none =>
        refine ⟨_, ?_, fun _ => rfl⟩
        have hkept := homits.append_keep (command message)
        simpa [Session.waiting, hqueued] using hkept
    | some control =>
        rcases hsound.cancels hstdin control hqueued with ⟨hcancel, -⟩ | ⟨-, hother⟩
        · refine ⟨_, ?_, fun _ => rfl⟩
          have hlast : Omits Droppable (traffic.accepted.map command)
              ((traffic.sent.map command ++ traffic.session.writingControl.toList.map command ++
                ((traffic.session.active.filter fun pending => !pending.sent).map
                  PendingSessionRequest.message).toList.map command) ++ [command control]) := by
            simpa [Session.waiting, hqueued] using homits
          have hdroppable : Droppable (command control) := by
            rw [Droppable, command, SessionClientFrame.withRemaining_isCancel]
            exact hcancel
          have hdropped := hlast.remove hdroppable
          rw [List.append_nil] at hdropped
          have hkept := hdropped.append_keep (command message)
          simpa [Session.waiting] using hkept
        · rw [hclosing] at hother
          cases hother
  fresh pending hactive hunsent := (hsound.fresh pending hactive hunsent).later hclock
  queued control hqueued := by
    obtain rfl := Option.some.inj hqueued
    exact ⟨hbytes, by rw [SessionClientFrame.isData, hclose, Bool.not_true, Bool.and_false]⟩
  cancels _ control hqueued := by
    obtain rfl := Option.some.inj hqueued
    exact Or.inr ⟨hclose, rfl⟩
  controls := hsound.controls
  ids := hsound.ids_append hid

/-- Data is accepted when nothing waits but a control that is being written. -/
theorem Sound.data (hsound : Sound checks traffic) (hstdin : traffic.session.stdin = true)
    (hbytes : ∃ bytes, encodeSessionFrame checks message = .ok bytes)
    (query : Option wire.Query) (lifetimeEnd : Option Instant) (hdata : message.isData = true)
    (hid : traffic.session.lastId < message.requestId)
    (hactive : traffic.session.active = none) (hclosing : traffic.session.closing = none) :
    Sound checks { traffic with
      session := { traffic.session with
        lastId := message.requestId
        query
        lifetimeEnd
        cancelledRequest := none
        active := some ⟨message, min deadline (now + millis message.remainingMs), false⟩ }
      clock := now
      accepted := traffic.accepted ++ [message] } := by
  have hfree : traffic.session.queuedControl = none := by
    cases hqueued : traffic.session.queuedControl with
    | none => rfl
    | some control =>
        rcases hsound.cancels hstdin control hqueued with ⟨-, -, hsome⟩ | ⟨-, hclose⟩
        · rw [hactive] at hsome
          cases hsome
        · rw [hclosing] at hclose
          cases hclose
  refine ⟨hsound.stream, hsound.unfinished, hsound.idle, ?_, ?_, ?_, ?_, hsound.queued, ?_,
    hsound.controls, hsound.ids_append hid⟩
  · intro hsome
    obtain ⟨frame, hencoded, hcurrent⟩ := hsound.whole hsome
    refine ⟨frame, hencoded, fun _ => ?_⟩
    have hframe := hcurrent hstdin
    cases hwriting : traffic.session.writingControl with
    | none =>
        rw [Session.current, hwriting, hactive] at hframe
        cases hframe
    | some control =>
        rw [Session.current, hwriting] at hframe
        rw [Session.current, hwriting]
        exact hframe
  · intro _ _ _
    exact ⟨_, rfl, rfl⟩
  · obtain ⟨rest, homits, hrest⟩ := hsound.order
    obtain rfl := hrest hstdin
    refine ⟨_, ?_, fun _ => rfl⟩
    have hkept := homits.append_keep (command message)
    simpa [Session.waiting, hfree, hactive, Option.filter_some] using hkept
  · intro pending hpending _
    obtain rfl := Option.some.inj hpending
    exact ⟨message, now, le_rfl, rfl, hdata, hbytes, min_le_right _ _⟩
  · intro _ control hqueued
    have hqueued : traffic.session.queuedControl = some control := hqueued
    rw [hfree] at hqueued
    cases hqueued

theorem Sound.submit (hsound : Sound checks traffic) (hclock : traffic.clock ≤ now) :
    Sound checks (traffic.step checks now (.submit deadline message)) := by
  rcases @Session.submit_cases wire checks now deadline message traffic.session with
    ⟨next, hsubmit, hstdin, hbytes, haccepts⟩ | ⟨error, id, hid, hsubmit⟩
  · rw [Traffic.step, hsubmit]
    cases haccepts with
    | cancel hcancel hactive hclosing hfirst =>
        exact hsound.cancel hclock hstdin hbytes hcancel hactive hclosing hfirst
    | close hclose hid hclosing => exact hsound.close hclock hstdin hbytes hclose hid hclosing
    | data query lifetimeEnd hdata hid hactive hclosing =>
        exact hsound.data hstdin hbytes query lifetimeEnd hdata hid hactive hclosing
  · rw [Traffic.step, hsubmit]
    exact hsound.refused hclock hid

end Submitting

section Writing

variable {traffic : Traffic wire} {now : Instant}

/-- Time alone changes nothing. -/
theorem Sound.wait (hsound : Sound checks traffic) (hclock : traffic.clock ≤ now) :
    Sound checks { traffic with clock := now } :=
  ⟨hsound.stream, hsound.unfinished, hsound.idle, hsound.whole, hsound.unsent, hsound.order,
    fun pending hactive hunsent => (hsound.fresh pending hactive hunsent).later hclock,
    hsound.queued, hsound.cancels, hsound.controls, hsound.ids⟩

/-- Nothing is written once the input of the child is let go of. -/
theorem Sound.finish (hsound : Sound checks traffic) (hclock : traffic.clock ≤ now) :
    Sound checks { traffic with session := traffic.session.finish, clock := now } where
  stream := hsound.stream
  unfinished := hsound.unfinished
  idle := hsound.idle
  whole hsome := by
    obtain ⟨frame, hencoded, -⟩ := hsound.whole hsome
    exact ⟨frame, hencoded, fun hstdin => nomatch hstdin⟩
  unsent hstdin := nomatch hstdin
  order := by
    obtain ⟨rest, homits, -⟩ := hsound.order
    exact ⟨rest, homits, fun hstdin => nomatch hstdin⟩
  fresh pending hactive hunsent := (hsound.fresh pending hactive hunsent).later hclock
  queued := hsound.queued
  cancels hstdin := nomatch hstdin
  controls := hsound.controls
  ids := hsound.ids

/-- The time that is left is within the time that was asked for. -/
theorem left_le {deadline now started remaining ms : Nat} (hms : ms ≤ (deadline - now) / 1000000)
    (hdeadline : deadline ≤ started + remaining * 1000000) (hstarted : started ≤ now) :
    ms ≤ remaining := by omega

theorem toNat_ofNat_of_le_maximum {ms : Nat} (hms : ms ≤ maxRemainingMs.toNat) :
    (UInt64.ofNat ms).toNat = ms := by
  have hmaximum : maxRemainingMs.toNat = 120000 := rfl
  exact UInt64.toNat_ofNat_of_lt' (lt_of_le_of_lt hms (hmaximum ▸ by decide))

/-- A fresh request can be encoded with the time it has left. -/
theorem Fresh.encodes {clock : Instant} {pending : PendingSessionRequest wire} {ms : Nat}
    (hfresh : Fresh checks clock pending) (hclock : clock ≤ now)
    (hleft : ms ≤ (pending.deadline - now) / 1000000) (hmaximum : ms ≤ maxRemainingMs.toNat)
    (hms : ms ≠ 0) :
    ∃ bytes, encodeSessionFrame checks (pending.message.withRemaining (UInt64.ofNat ms)) =
      .ok bytes := by
  obtain ⟨original, started, hstarted, hsame, -, hencoded, hdeadline⟩ := hfresh
  have hword := toNat_ofNat_of_le_maximum hmaximum
  have hbounded : ms ≤ original.remainingMs.toNat :=
    left_le hleft hdeadline (hstarted.trans hclock)
  have hcommand : pending.message.withRemaining (UInt64.ofNat ms) =
      original.withRemaining (UInt64.ofNat ms) := by
    have hcopy := congrArg (SessionClientFrame.withRemaining (UInt64.ofNat ms)) hsame
    simpa [command] using hcopy.symm
  rw [hcommand]
  refine encodeSessionFrame_withRemaining hencoded ?_ (hword.le.trans hbounded)
  rw [validateRemaining, refuse_of_not]
  rw [not_or, UInt64.not_lt, UInt64.le_iff_toNat_le, hword]
  refine ⟨fun hzero => hms ?_, hmaximum⟩
  rw [← hword, hzero]
  rfl

/-- When a frame can be filled in, no control is being written. -/
theorem Sound.vacant (hsound : Sound checks traffic)
    (hfree : ¬ (traffic.session.outbound ≠ [] ∧
      (traffic.session.written ≠ 0 ∨ traffic.session.writingControl.isSome))) :
    traffic.session.written = 0 ∧ traffic.session.writingControl = none := by
  by_cases hempty : traffic.session.outbound = []
  · exact hsound.idle hempty
  · have hneither : ¬ (traffic.session.written ≠ 0 ∨ traffic.session.writingControl.isSome) :=
      fun heither => hfree ⟨hempty, heither⟩
    rw [not_or, not_not, Option.not_isSome_iff_eq_none] at hneither
    exact hneither

/-- A write is prepared, or there is no time left for it. -/
theorem Sound.prepareWrite (hsound : Sound checks traffic) (hclock : traffic.clock ≤ now) :
    (∃ next, traffic.session.prepareWrite checks now = .ok next ∧
      Sound checks { traffic with session := next, clock := now }) ∨
    traffic.session.prepareWrite checks now = .error .deadline := by
  unfold Session.prepareWrite
  split
  · exact Or.inl ⟨_, rfl, hsound.wait hclock⟩
  · rename_i hfree
    obtain ⟨hwritten, hwriting⟩ := hsound.vacant hfree
    obtain ⟨frames, hframes, hstream⟩ := hsound.stream
    rw [hwritten, List.take_zero, List.append_nil] at hstream
    obtain ⟨rest, homits, hrest⟩ := hsound.order
    split
    · rename_i pending hpending
      obtain ⟨hactive, hunsent⟩ := Option.filter_eq_some_iff.mp hpending
      have hunsent : pending.sent = false := by simpa using hunsent
      by_cases hlate : pending.deadline < now ∨
          min ((pending.deadline - now) / 1000000) maxRemainingMs.toNat = 0
      · right
        dsimp only
        rw [refuse, if_pos hlate]
        rfl
      · have hfresh := (hsound.fresh pending hactive hunsent).later hclock
        obtain ⟨bytes, hbytes⟩ := hfresh.encodes le_rfl (Nat.min_le_left _ _)
          (Nat.min_le_right _ _) (not_or.mp hlate).2
        left
        refine ⟨_, by dsimp only; rw [refuse_of_not hlate, ok_bind, hbytes]; rfl, ?_⟩
        have hsome := encodeSessionFrame_ne_nil hbytes
        refine ⟨⟨frames, hframes, ?_⟩, fun _ => List.length_pos_iff.mpr hsome,
          fun hnone => absurd hnone hsome, fun _ => ⟨_, hbytes, fun _ => ?_⟩,
          fun _ _ _ => ⟨_, rfl, hunsent⟩, ⟨rest, homits, fun hstdin => ?_⟩, ?_, hsound.queued,
          fun hstdin control hqueued => ?_, hsound.controls, hsound.ids⟩
        · rw [List.take_zero, List.append_nil]
          exact hstream
        · rw [Session.current, hwriting]
          rfl
        · rw [hrest hstdin]
          simp [Session.waiting, hwriting, hactive, Option.filter_some, hunsent, command]
        · intro other hother _
          obtain rfl := Option.some.inj hother
          obtain ⟨original, started, hstarted, hsame, hdata, hencoded, hdeadline⟩ := hfresh
          refine ⟨original, started, hstarted, ?_, hdata, hencoded, hdeadline⟩
          rw [hsame]
          simp [command]
        · have hcontrol := hsound.cancels hstdin control hqueued
          rw [hactive] at hcontrol
          simpa using hcontrol
    · rename_i hnone
      split
      · rename_i control hcontrol
        have hqueued : traffic.session.queuedControl = some control := by
          split at hcontrol
          · exact hcontrol
          · cases hcontrol
        obtain ⟨⟨bytes, hbytes⟩, hkind⟩ := hsound.queued control hqueued
        have hsome := encodeSessionFrame_ne_nil hbytes
        left
        refine ⟨_, by rw [hbytes]; rfl, ?_⟩
        refine ⟨⟨frames, hframes, ?_⟩, fun _ => List.length_pos_iff.mpr hsome,
          fun hnil => absurd hnil hsome, fun _ => ⟨_, hbytes, fun _ => rfl⟩,
          (by rintro _ _ ⟨⟩), ⟨rest, homits, fun hstdin => ?_⟩,
          fun pending hactive hunsent => (hsound.fresh pending hactive hunsent).later hclock,
          (by rintro _ ⟨⟩), (by rintro _ _ ⟨⟩), ?_, hsound.ids⟩
        · rw [List.take_zero, List.append_nil]
          exact hstream
        · rw [hrest hstdin]
          simp [Session.waiting, hwriting, hnone, hqueued]
        · intro other hother
          obtain rfl := Option.some.inj hother
          exact hkind
      · left
        refine ⟨_, rfl, ?_⟩
        have hsame : { traffic.session with written := 0 } = traffic.session := by
          rw [← hwritten]
        rw [hsame]
        exact hsound.wait hclock

/-- A write that ends within the frame. -/
theorem Sound.wrotePart (hsound : Sound checks traffic) (hclock : traffic.clock ≤ now)
    {count : Nat}
    (hpart : traffic.session.written + count < traffic.session.outbound.length) :
    Sound checks { traffic with
      session := { traffic.session with written := traffic.session.written + count }
      clock := now
      stream := traffic.stream ++
        (traffic.session.outbound.drop traffic.session.written).take count } where
  stream := by
    obtain ⟨frames, hframes, hstream⟩ := hsound.stream
    refine ⟨frames, hframes, ?_⟩
    rw [hstream, List.append_assoc, ← List.take_add]
  unfinished _ := hpart
  idle hnil := by
    have hnil : traffic.session.outbound = [] := hnil
    rw [hnil] at hpart
    exact absurd hpart (Nat.not_lt_zero _)
  whole := hsound.whole
  unsent := hsound.unsent
  order := hsound.order
  fresh pending hactive hunsent := (hsound.fresh pending hactive hunsent).later hclock
  queued := hsound.queued
  cancels := hsound.cancels
  controls := hsound.controls
  ids := hsound.ids

/-- A write that ends the frame: what was waiting first is sent. -/
theorem Sound.wroteAll (hsound : Sound checks traffic) (hclock : traffic.clock ≤ now)
    {count : Nat} (hstdin : traffic.session.stdin = true) (hcount : count ≠ 0)
    (hall : traffic.session.written + count = traffic.session.outbound.length) :
    Sound checks { traffic with
      session := traffic.session.wroteAll
      clock := now
      sent := traffic.sent ++ traffic.session.current.toList
      stream := traffic.stream ++
        (traffic.session.outbound.drop traffic.session.written).take count } := by
  have hsome : traffic.session.outbound ≠ [] := by
    intro hnil
    rw [hnil, List.length_nil] at hall
    omega
  obtain ⟨frame, hencoded, hcurrent⟩ := hsound.whole hsome
  have hcurrent := hcurrent hstdin
  obtain ⟨frames, hframes, hstream⟩ := hsound.stream
  have hwhole : ∃ frames, List.Forall₂
      (fun frame bytes => encodeSessionFrame checks frame = .ok bytes)
        (traffic.sent ++ traffic.session.current.toList) frames ∧
      traffic.stream ++ (traffic.session.outbound.drop traffic.session.written).take count =
        frames.flatten := by
    refine ⟨frames ++ [traffic.session.outbound], ?_, ?_⟩
    · rw [hcurrent]
      exact List.rel_append hframes (.cons hencoded .nil)
    · rw [hstream, List.append_assoc, ← List.take_add, hall, List.take_length, List.flatten_append,
        List.flatten_singleton]
  obtain ⟨rest, homits, hrest⟩ := hsound.order
  obtain rfl := hrest hstdin
  cases hwriting : traffic.session.writingControl with
  | some control =>
      rw [Session.current, hwriting] at hcurrent hwhole
      have hsession : traffic.session.wroteAll = { traffic.session with
          writingControl := none
          closing := if control.isClose then
              traffic.session.closing.map ({ · with sent := true })
            else traffic.session.closing
          outbound := []
          written := 0 } := by
        rw [Session.wroteAll, hwriting]
      rw [hsession, Session.current, hwriting]
      obtain ⟨frames, hframes, hstream⟩ := hwhole
      refine ⟨⟨frames, hframes, ?_⟩, fun hnone => absurd rfl hnone, fun _ => ⟨rfl, rfl⟩,
        fun hnone => absurd rfl hnone, fun _ hnone => absurd rfl hnone, ⟨_, ?_, fun _ => rfl⟩,
        fun pending hactive hunsent => (hsound.fresh pending hactive hunsent).later hclock,
        hsound.queued, ?_, (fun _ hnone => nomatch hnone), hsound.ids⟩
      · rw [hstream, List.take_nil, List.append_nil]
      · simpa [Session.waiting, hwriting] using homits
      · intro _ other hqueued
        rcases hsound.cancels hstdin other hqueued with hcancel | ⟨hclose, hclosing⟩
        · exact Or.inl hcancel
        · refine Or.inr ⟨hclose, ?_⟩
          dsimp only
          split
          · rw [Option.isSome_map]
            exact hclosing
          · exact hclosing
  | none =>
      obtain ⟨pending, hactive, hunsent⟩ := hsound.unsent hstdin hsome hwriting
      rw [Session.current, hwriting] at hcurrent hwhole
      have hsession : traffic.session.wroteAll = { traffic.session with
          active := some { pending with sent := true }
          outbound := []
          written := 0 } := by
        simp only [Session.wroteAll, hwriting, hactive, Option.map_some]
      rw [hsession, Session.current, hwriting]
      obtain ⟨frames, hframes, hstream⟩ := hwhole
      refine ⟨⟨frames, hframes, ?_⟩, fun hnone => absurd rfl hnone, fun _ => ⟨rfl, hwriting⟩,
        fun hnone => absurd rfl hnone, fun _ hnone => absurd rfl hnone, ⟨_, ?_, fun _ => rfl⟩, ?_,
        hsound.queued, ?_, hsound.controls, hsound.ids⟩
      · rw [hstream, List.take_nil, List.append_nil]
      · simpa [Session.waiting, hwriting, hactive, Option.filter_some, hunsent] using homits
      · intro other hother hfalse
        obtain rfl := Option.some.inj hother
        cases hfalse
      · intro _ other hqueued
        have hcontrol := hsound.cancels hstdin other hqueued
        rw [hactive] at hcontrol
        exact hcontrol

theorem Sound.wrote (hsound : Sound checks traffic) (hclock : traffic.clock ≤ now)
    (count : Nat) : Sound checks (traffic.step checks now (.wrote count)) := by
  rw [Traffic.step]
  split
  · rename_i hwritten
    obtain ⟨hstdin, hwithin⟩ := hwritten
    by_cases hcount : count = 0
    · rw [Session.wrote, refuse, if_pos hcount]
      exact hsound.finish hclock
    · rw [Session.wrote, refuse_of_not hcount, ok_bind]
      by_cases hall : traffic.session.written + count = traffic.session.outbound.length
      · rw [if_pos hall, if_pos hall]
        exact hsound.wroteAll hclock hstdin hcount hall
      · rw [if_neg hall, if_neg hall]
        exact hsound.wrotePart hclock (lt_of_le_of_ne hwithin hall)
  · exact hsound.wait hclock

end Writing

section Replying

variable {traffic : Traffic wire} {now : Instant}

/-- An outcome changes no more than what the window has shown. -/
theorem Session.acceptOutcome_eq_ok {message : wire.Frame} {outcome : wire.Outcome}
    {session next : Session wire}
    (haccepted : session.acceptOutcome checks message outcome = .ok next) :
    ∃ summary emitted, next = { session with summary, emitted } := by
  unfold acceptOutcome at haccepted
  split at haccepted
  · simp only [acceptPage, bind_eq_ok, pure_eq_ok, Except.ok.injEq] at haccepted
    obtain ⟨_, -, _, -, _, -, rfl⟩ := haccepted
    exact ⟨_, _, rfl⟩
  · simp only [acceptPage, bind_eq_ok, pure_eq_ok, Except.ok.injEq] at haccepted
    obtain ⟨_, -, _, -, _, -, rfl⟩ := haccepted
    exact ⟨_, _, rfl⟩
  · simp only [bind_eq_ok, pure_eq_ok, Except.ok.injEq] at haccepted
    obtain ⟨_, -, _, -, rfl⟩ := haccepted
    exact ⟨_, _, rfl⟩
  · obtain rfl := Except.ok.inj haccepted
    exact ⟨_, _, rfl⟩
  · obtain rfl := Except.ok.inj haccepted
    exact ⟨_, _, rfl⟩
  · cases haccepted

/-- An accepted reply ends the session or answers the request in flight. -/
theorem Session.acceptReply_eq_ok {reply : wire.Reply} {session next : Session wire}
    (haccepted : session.acceptReply checks reply = .ok next) :
    (session.Ends reply ∧ next = { session with active := none }) ∨
    ¬ session.Ends reply ∧ ∃ pending summary emitted, session.active = some pending ∧
      pending.sent = true ∧ next = { session with summary, emitted }.release := by
  unfold acceptReply at haccepted
  split at haccepted
  · rename_i hends
    obtain rfl := Except.ok.inj haccepted
    exact Or.inl ⟨hends, rfl⟩
  · rename_i hends
    simp only [bind_eq_ok, okOr_eq_ok, pure_eq_ok, Except.ok.injEq] at haccepted
    obtain ⟨pending, hpending, shown, hshown, rfl⟩ := haccepted
    obtain ⟨hactive, hanswered⟩ := Option.filter_eq_some_iff.mp hpending
    obtain ⟨summary, emitted, rfl⟩ := acceptOutcome_eq_ok hshown
    rw [Bool.and_eq_true] at hanswered
    exact Or.inr ⟨hends, pending, summary, emitted, hactive, hanswered.1, rfl⟩

/-- The session is over with its request. -/
theorem Sound.ended (hsound : Sound checks traffic) :
    Sound checks { traffic with
      session := { traffic.session with active := none }.finish, clock := now } where
  stream := hsound.stream
  unfinished := hsound.unfinished
  idle := hsound.idle
  whole hsome := by
    obtain ⟨frame, hencoded, -⟩ := hsound.whole hsome
    exact ⟨frame, hencoded, fun hstdin => nomatch hstdin⟩
  unsent hstdin := nomatch hstdin
  order := by
    obtain ⟨rest, homits, -⟩ := hsound.order
    exact ⟨rest, homits, fun hstdin => nomatch hstdin⟩
  fresh _ hactive := nomatch hactive
  queued := hsound.queued
  cancels hstdin := nomatch hstdin
  controls := hsound.controls
  ids := hsound.ids

/-- Leave a list out at its end, element by element. -/
theorem Omits.filter_toList {whole front : List wire.Frame} {slot : Option wire.Frame}
    (homits : Omits Droppable whole (front ++ slot.toList.map command)) :
    Omits Droppable whole
      (front ++ (slot.filter fun control => !control.isCancel).toList.map command) := by
  cases slot with
  | none => exact homits
  | some control =>
      cases hcancel : control.isCancel with
      | false => simpa [Option.filter_some, hcancel] using homits
      | true =>
          have hdroppable : Droppable (command control) := by
            rw [Droppable, command, SessionClientFrame.withRemaining_isCancel]
            exact hcancel
          have hdropped : Omits Droppable whole (front ++ []) := homits.remove hdroppable
          simpa [Option.filter_some, hcancel] using hdropped

/-- The answered request takes its unwritten Cancel along. -/
theorem Sound.release (hsound : Sound checks traffic) {pending : PendingSessionRequest wire} (summary : Option WindowSummary)
    (emitted : List (WindowEntry wire.Item)) (hactive : traffic.session.active = some pending)
    (hsent : pending.sent = true) :
    Sound checks { traffic with
      session := { traffic.session with summary, emitted }.release, clock := now } := by
  have hcontrol : traffic.session.stdin = true → traffic.session.outbound ≠ [] →
      traffic.session.writingControl ≠ none := by
    intro hstdin hsome hnone
    obtain ⟨other, hother, hunsent⟩ := hsound.unsent hstdin hsome hnone
    rw [hactive] at hother
    obtain rfl := Option.some.inj hother
    rw [hsent] at hunsent
    cases hunsent
  have hqueued : ∀ control,
      (traffic.session.queuedControl.filter fun control => !control.isCancel) = some control →
        traffic.session.queuedControl = some control ∧ control.isCancel = false := by
    intro control hfilter
    obtain ⟨hqueued, hkept⟩ := Option.filter_eq_some_iff.mp hfilter
    exact ⟨hqueued, by simpa using hkept⟩
  have hcloses : traffic.session.stdin = true → ∀ control,
      (traffic.session.queuedControl.filter fun control => !control.isCancel) = some control →
        control.isClose = true ∧ traffic.session.closing.isSome := by
    intro hstdin control hfilter
    obtain ⟨hslot, hother⟩ := hqueued control hfilter
    rcases hsound.cancels hstdin control hslot with ⟨hcancel, -⟩ | hclose
    · rw [hother] at hcancel
      cases hcancel
    · exact hclose
  obtain ⟨rest, homits, hrest⟩ := hsound.order
  have hkept : traffic.session.stdin = true → Omits Droppable (traffic.accepted.map command)
      (traffic.sent.map command ++ traffic.session.writingControl.toList.map command ++
        (traffic.session.queuedControl.filter fun control =>
          !control.isCancel).toList.map command) := by
    intro hstdin
    apply Omits.filter_toList
    rw [hrest hstdin] at homits
    simpa [Session.waiting, hactive, Option.filter_some, hsent] using homits
  by_cases hunwritten : traffic.session.written = 0 ∧
      traffic.session.writingControl.any SessionClientFrame.isCancel = true
  · have hsession : { traffic.session with summary, emitted }.release = { traffic.session with
        summary
        emitted
        active := none
        queuedControl := traffic.session.queuedControl.filter fun control => !control.isCancel
        writingControl := none
        outbound := [] } := by
      simp only [Session.release, hunwritten, and_self, if_true]
    rw [hsession]
    obtain ⟨hwritten, hcancel⟩ := hunwritten
    obtain ⟨frames, hframes, hstream⟩ := hsound.stream
    rw [hwritten, List.take_zero, List.append_nil] at hstream
    refine ⟨⟨frames, hframes, ?_⟩, fun hsome => absurd rfl hsome, fun _ => ⟨hwritten, rfl⟩,
      fun hsome => absurd rfl hsome, fun _ hsome => absurd rfl hsome, ?_,
      (fun _ hnone => nomatch hnone), ?_, ?_, (fun _ hnone => nomatch hnone), hsound.ids⟩
    · rw [List.take_nil, List.append_nil]
      exact hstream
    · by_cases hstdin : traffic.session.stdin = true
      · refine ⟨_, ?_, fun _ => rfl⟩
        obtain ⟨control, hwriting, hdropped⟩ :
            ∃ control, traffic.session.writingControl = some control ∧
              control.isCancel = true := by
          simpa [Option.any_eq_true] using hcancel
        have hdroppable : Droppable (command control) := by
          rw [Droppable, command, SessionClientFrame.withRemaining_isCancel]
          exact hdropped
        have hwhole := hkept hstdin
        rw [hwriting, Option.toList_some, List.map_singleton, List.append_assoc,
          List.singleton_append] at hwhole
        simpa [Session.waiting] using hwhole.remove hdroppable
      · exact ⟨rest, homits, fun htrue => absurd htrue hstdin⟩
    · exact fun control hfilter => hsound.queued control (hqueued control hfilter).1
    · exact fun hstdin control hfilter => Or.inr (hcloses hstdin control hfilter)
  · have hsession : { traffic.session with summary, emitted }.release = { traffic.session with
        summary
        emitted
        active := none
        queuedControl :=
          traffic.session.queuedControl.filter fun control => !control.isCancel } := by
      simp only [Session.release, hunwritten, if_false]
    rw [hsession]
    refine ⟨hsound.stream, hsound.unfinished, hsound.idle, fun hsome => ?_, ?_, ?_,
      (fun _ hnone => nomatch hnone), ?_, ?_, hsound.controls, hsound.ids⟩
    · obtain ⟨frame, hencoded, hcurrent⟩ := hsound.whole hsome
      refine ⟨frame, hencoded, fun hstdin => ?_⟩
      have hframe := hcurrent hstdin
      cases hwriting : traffic.session.writingControl with
      | none => exact absurd hwriting (hcontrol hstdin hsome)
      | some control =>
          rw [Session.current, hwriting] at hframe
          rw [Session.current, hwriting]
          exact hframe
    · exact fun hstdin hsome hnone => absurd hnone (hcontrol hstdin hsome)
    · by_cases hstdin : traffic.session.stdin = true
      · refine ⟨_, ?_, fun _ => rfl⟩
        simpa [Session.waiting] using hkept hstdin
      · exact ⟨rest, homits, fun htrue => absurd htrue hstdin⟩
    · exact fun control hfilter => hsound.queued control (hqueued control hfilter).1
    · exact fun hstdin control hfilter => Or.inr (hcloses hstdin control hfilter)

theorem Sound.reply (hsound : Sound checks traffic) (hclock : traffic.clock ≤ now)
    (reply : wire.Reply) : Sound checks (traffic.step checks now (.reply reply)) := by
  rw [Traffic.step]
  cases haccepted : traffic.session.acceptReply checks reply with
  | error error => exact hsound.finish hclock
  | ok session =>
      rcases Session.acceptReply_eq_ok haccepted with
        ⟨hends, rfl⟩ | ⟨hends, pending, summary, emitted, hactive, hsent, rfl⟩
      · dsimp only
        rw [if_pos hends]
        exact hsound.ended
      · dsimp only
        rw [if_neg hends]
        exact hsound.release summary emitted hactive hsent

end Replying

theorem Sound.step {traffic : Traffic wire} {now : Instant} (hsound : Sound checks traffic)
    (hclock : traffic.clock ≤ now) (action : Action wire) :
    Sound checks (traffic.step checks now action) := by
  cases action with
  | submit deadline message => exact hsound.submit hclock
  | prepare =>
      rw [Traffic.step]
      rcases hsound.prepareWrite hclock with ⟨next, hprepared, hnext⟩ | hlate
      · rw [hprepared]
        exact hnext
      · rw [hlate]
        exact hsound.finish hclock
  | wrote count => exact hsound.wrote hclock count
  | reply reply => exact hsound.reply hclock reply
  | finish => exact hsound.finish hclock

/-- The invariant of all runs. -/
theorem sound_of_reached {traffic : Traffic wire} (hreached : Traffic.Reached checks traffic) :
    Sound checks traffic := by
  induction hreached with
  | start clock => exact sound_start clock
  | step now action _ hclock ih => exact ih.step hclock action

/-! ## Cancels name their request -/

/-- Every Cancel stands behind the request that it names. -/
def Named (accepted : List wire.Frame) : Prop :=
  ∀ front control back, accepted = front ++ control :: back → control.isCancel = true →
    ∃ request ∈ front, request.isData = true ∧ request.requestId = control.requestId

theorem Named.append {accepted : List wire.Frame} {message : wire.Frame} (hnamed : Named accepted)
    (hmessage : message.isCancel = true →
      ∃ request ∈ accepted, request.isData = true ∧ request.requestId = message.requestId) :
    Named (accepted ++ [message]) := by
  intro front control back hsplit hcancel
  rcases List.eq_nil_or_concat back with rfl | ⟨back, last, rfl⟩
  · obtain ⟨rfl, hlast⟩ := List.append_inj' hsplit rfl
    obtain rfl := List.singleton_inj.mp hlast
    exact hmessage hcancel
  · have hinner : accepted ++ [message] = (front ++ control :: back) ++ [last] := by
      simpa using hsplit
    exact hnamed front control back (List.append_inj' hinner rfl).1 hcancel

/-- The request in flight was accepted. -/
def Traffic.Asked (traffic : Traffic wire) : Prop :=
  ∀ id, traffic.session.active.map (fun pending => pending.message.requestId) = some id →
    ∃ request ∈ traffic.accepted, request.isData = true ∧ request.requestId = id


/-- Only a submission puts another request in flight or accepts a command. -/
theorem Session.prepareWrite_active {now : Instant} {session next : Session wire}
    (hprepared : session.prepareWrite checks now = .ok next) :
    next.active.map (fun pending => pending.message.requestId) =
      session.active.map (fun pending => pending.message.requestId) := by
  unfold prepareWrite at hprepared
  split at hprepared
  · obtain rfl := Except.ok.inj hprepared
    rfl
  · split at hprepared
    · rename_i pending hpending
      simp only [bind_eq_ok, pure_eq_ok, Except.ok.injEq] at hprepared
      obtain ⟨_, -, bytes, -, rfl⟩ := hprepared
      rw [(Option.filter_eq_some_iff.mp hpending).1]
      simp
    · split at hprepared
      · simp only [bind_eq_ok, pure_eq_ok, Except.ok.injEq] at hprepared
        obtain ⟨bytes, -, rfl⟩ := hprepared
        rfl
      · obtain rfl := Except.ok.inj hprepared
        rfl

theorem Session.wrote_active {count : Nat} {session next : Session wire}
    (hwrote : session.wrote count = .ok next) :
    next.active.map (fun pending => pending.message.requestId) =
      session.active.map (fun pending => pending.message.requestId) := by
  simp only [wrote, bind_eq_ok] at hwrote
  obtain ⟨_, -, hwrote⟩ := hwrote
  split at hwrote
  · obtain rfl := Except.ok.inj hwrote
    unfold wroteAll
    split
    · rfl
    · rw [Option.map_map]
      rfl
  · obtain rfl := Except.ok.inj hwrote
    rfl

theorem isCancel_of_isClose {message : wire.Frame} (hclose : message.isClose = true) :
    message.isCancel = false := by
  cases message with
  | close id => rfl
  | openWindow id remaining query pageSize ttl => cases hclose
  | continuePage id remaining windowId pageSize => cases hclose
  | expand id remaining windowId itemIndex before after => cases hclose
  | cancel id => cases hclose

theorem asked_step {traffic : Traffic wire} (hasked : traffic.Asked)
    (hnamed : Named traffic.accepted) (now : Instant) (action : Action wire) :
    (traffic.step checks now action).Asked ∧ Named (traffic.step checks now action).accepted := by
  cases action with
  | submit deadline message =>
      rcases @Session.submit_cases wire checks now deadline message traffic.session with
        ⟨next, hsubmit, -, -, haccepts⟩ | ⟨error, id, -, hsubmit⟩
      · rw [Traffic.step, hsubmit]
        have hgrows : ∀ id, (∃ request ∈ traffic.accepted,
            request.isData = true ∧ request.requestId = id) →
            ∃ request ∈ traffic.accepted ++ [message],
              request.isData = true ∧ request.requestId = id := by
          rintro id ⟨request, hmem, hdata⟩
          exact ⟨request, List.mem_append_left _ hmem, hdata⟩
        cases haccepts with
        | cancel hcancel hactive hclosing hfirst =>
            exact ⟨fun id hid => hgrows id (hasked id hid),
              hnamed.append fun _ => hasked message.requestId hactive⟩
        | close hclose hid hclosing =>
            refine ⟨fun id hid => hgrows id (hasked id hid), hnamed.append fun hcancel => ?_⟩
            rw [isCancel_of_isClose hclose] at hcancel
            cases hcancel
        | data query lifetimeEnd hdata hid hactive hclosing =>
            refine ⟨fun id hid => ?_, hnamed.append fun hcancel => ?_⟩
            · obtain rfl := Option.some.inj hid
              exact ⟨message, List.mem_append_right _ (List.mem_singleton_self _), hdata, rfl⟩
            · rw [SessionClientFrame.isData, hcancel] at hdata
              cases hdata
      · rw [Traffic.step, hsubmit]
        exact ⟨hasked, hnamed⟩
  | prepare =>
      rw [Traffic.step]
      cases hprepared : traffic.session.prepareWrite checks now with
      | error error => exact ⟨hasked, hnamed⟩
      | ok next =>
          refine ⟨fun id hid => hasked id ?_, hnamed⟩
          rw [← Session.prepareWrite_active hprepared]
          exact hid
  | wrote count =>
      rw [Traffic.step]
      split
      · cases hwrote : traffic.session.wrote count with
        | error error => exact ⟨hasked, hnamed⟩
        | ok next =>
            refine ⟨fun id hid => hasked id ?_, hnamed⟩
            rw [← Session.wrote_active hwrote]
            exact hid
      · exact ⟨hasked, hnamed⟩
  | reply reply =>
      rw [Traffic.step]
      cases haccepted : traffic.session.acceptReply checks reply with
      | error error => exact ⟨hasked, hnamed⟩
      | ok session =>
          refine ⟨fun id hid => ?_, hnamed⟩
          rcases Session.acceptReply_eq_ok haccepted with
            ⟨hends, rfl⟩ | ⟨hends, pending, summary, emitted, -, -, rfl⟩
          · dsimp only at hid
            rw [if_pos hends] at hid
            cases hid
          · dsimp only at hid
            rw [if_neg hends] at hid
            cases hid
  | finish => exact ⟨hasked, hnamed⟩

theorem named_of_reached {traffic : Traffic wire} (hreached : Traffic.Reached checks traffic) :
    Named traffic.accepted := by
  have hboth : traffic.Asked ∧ Named traffic.accepted := by
    induction hreached with
    | start clock =>
        exact ⟨(fun _ hid => nomatch hid), fun front _ _ hsplit => by simp [Traffic.start] at hsplit⟩
    | step now action _ _ ih => exact asked_step ih.1 ih.2 now action
  exact hboth.2

/-! ## The stream of a session -/

/-- A Cancel goes from the outbound slot only while no byte of it was written. -/
theorem unwritten_of_dropped {reply : wire.Reply} {session next : Session wire}
    (haccepted : session.acceptReply checks reply = .ok next)
    (hdropped : next.writingControl ≠ session.writingControl) : session.written = 0 := by
  rcases Session.acceptReply_eq_ok haccepted with
    ⟨-, rfl⟩ | ⟨-, pending, summary, emitted, -, -, rfl⟩
  · exact absurd rfl hdropped
  · by_contra hwritten
    apply hdropped
    simp [Session.release, hwritten]

/-- In every run, the bytes written are whole frames and the beginning of the frame that
is being written.  The frames sent and still waiting are the accepted commands in their
order, without some Cancels; every request stands before the Cancel that names it.  A
frame that was accepted can be encoded whenever there is time left, and a reply drops no
control of which a byte was written. -/
theorem stream_intact {traffic : Traffic wire} (hreached : Traffic.Reached checks traffic) :
    (∃ frames, List.Forall₂ (fun frame bytes => encodeSessionFrame checks frame = .ok bytes)
        traffic.sent frames ∧
      traffic.stream = frames.flatten ++
        traffic.session.outbound.take traffic.session.written) ∧
    (traffic.session.outbound = [] ∨ ∃ frame,
      encodeSessionFrame checks frame = .ok traffic.session.outbound ∧
      (traffic.session.stdin = true → traffic.session.current = some frame)) ∧
    (∃ rest, Omits Droppable (traffic.accepted.map command)
        (traffic.sent.map command ++ rest) ∧
      (traffic.session.stdin = true → rest = traffic.session.waiting.map command)) ∧
    ((traffic.accepted.filter fun frame => !frame.isCancel).map
      SessionClientFrame.requestId).Pairwise (· < ·) ∧
    Named traffic.accepted ∧
    (∀ now, traffic.clock ≤ now →
      (∃ next, traffic.session.prepareWrite checks now = .ok next) ∨
      traffic.session.prepareWrite checks now = .error .deadline) ∧
    (∀ reply next, traffic.session.acceptReply checks reply = .ok next →
      next.writingControl ≠ traffic.session.writingControl → traffic.session.written = 0) := by
  have hsound := sound_of_reached hreached
  refine ⟨hsound.stream, ?_, hsound.order, hsound.ids.1, named_of_reached hreached, ?_, ?_⟩
  · by_cases hempty : traffic.session.outbound = []
    · exact Or.inl hempty
    · exact Or.inr (hsound.whole hempty)
  · intro now hclock
    rcases hsound.prepareWrite hclock with ⟨next, hprepared, -⟩ | hlate
    · exact Or.inl ⟨next, hprepared⟩
    · exact Or.inr hlate
  · intro reply next haccepted hdropped
    exact unwritten_of_dropped haccepted hdropped

/-! ### A run -/

namespace TrafficSample

/-- A wire on which no payload is checked. -/
def plainWire : Wire := Wire.sample [] Session.Sample.query [] []

def plainChecks : Checks plainWire :=
  ⟨fun _ => Session.Sample.query, fun _ => none, fun _ _ _ _ => .ok (), fun _ _ _ => .ok ()⟩

/-- The steps of a client: an Open, written in two parts with its Cancel between them,
and the answer before the Cancel is begun. -/
def steps : List (Instant × Action plainWire) :=
  [(0, .submit 5000000000 (.openWindow 1 4000 PUnit.unit 1 60000)), (1000000, .prepare),
    (1000000, .wrote 7), (2000000, .submit 5000000000 (.cancel 1)), (2000000, .prepare),
    (2000000, .wrote 153), (2000000, .prepare), (3000000, .reply ⟨1, .cancelled⟩)]

def run (steps : List (Instant × Action plainWire)) : Traffic plainWire :=
  steps.foldl (fun traffic step => traffic.step plainChecks step.1 step.2) (Traffic.start 0)

theorem step_clock (now : Instant) (action : Action plainWire) (traffic : Traffic plainWire) :
    (traffic.step plainChecks now action).clock = now := by
  cases action with
  | submit deadline message =>
      rw [Traffic.step]
      split <;> rfl
  | prepare =>
      rw [Traffic.step]
      split <;> rfl
  | wrote count =>
      rw [Traffic.step]
      split
      · split <;> rfl
      · rfl
  | reply reply =>
      rw [Traffic.step]
      split <;> rfl
  | finish => rfl

theorem reached_foldl {traffic : Traffic plainWire}
    (hreached : Traffic.Reached plainChecks traffic) (steps : List (Instant × Action plainWire))
    (hclock : List.IsChain (· ≤ ·) (traffic.clock :: steps.map Prod.fst)) :
    Traffic.Reached plainChecks (steps.foldl
      (fun traffic step => traffic.step plainChecks step.1 step.2) traffic) := by
  induction steps generalizing traffic with
  | nil => exact hreached
  | cons step steps ih =>
      obtain ⟨hnow, hlater⟩ := List.isChain_cons_cons.mp hclock
      apply ih (.step step.1 step.2 hreached hnow)
      rw [step_clock]
      exact hlater

end TrafficSample

open TrafficSample in
/-- In the run, the Cancel was never begun, and the stream holds the Open alone. -/
theorem stream_intact_sample :
    (run steps).accepted.map SessionClientFrame.isCancel = [false, true] ∧
    (run steps).sent.map SessionClientFrame.requestId = [1] ∧
    (run steps).stream.length = 160 ∧
    (run steps).session.waiting.map SessionClientFrame.requestId = [] ∧
    Named (run steps).accepted := by
  have hintact := stream_intact (reached_foldl (.start 0) steps (by decide))
  exact ⟨by decide +kernel, by decide +kernel, by decide +kernel, by decide +kernel,
    hintact.2.2.2.2.1⟩

end EliotSearch.Client
