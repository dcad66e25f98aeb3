import EliotSearch.Session.Exchange

/-!
# Effects of exchange operations

What a Cancel, an accepted frame, a reply, a timeout and a flush can do to the
state of an exchange, one case for each way they succeed.
-/

namespace EliotSearch.Session

open EliotSearch.Library
open EliotSearch.Library.Results
open EliotSearch.Library.Words

namespace Exchange

variable {wire : Wire}

/-! ## Refusals -/

/-- The output that answers a frame without the worker. -/
structure Refusal (now : Instant) (id : UInt64) (data : Bool) (output : Output wire) :
    Prop where
  id_eq : output.id = id
  reply_id : output.ready.reply.requestId = id
  failed : output.ready.IsFailure
  cursor : output.cursor = 0
  deadline : output.deadline = now + cleanupAllowance
  data : output.data = data
  since : output.since = now
  answer : output.answer = output.ready

theorem refuseWith_eq_ok {now : Instant} {id : UInt64} {reason : QueryFailure} {data : Bool}
    {state next : Exchange wire} (hrefuse : state.refuseWith now id reason data = .ok next) :
    ∃ output, Refusal now id data output ∧ next = { state with output := some output } := by
  simp only [refuseWith, bind_eq_ok, mapError_eq_ok, pure_eq_ok, Except.ok.injEq] at hrefuse
  obtain ⟨ready, hready, rfl⟩ := hrefuse
  obtain ⟨hfailed, hid⟩ := failure_eq_ok hready
  exact ⟨_, ⟨rfl, hid, hfailed, rfl, rfl, rfl, rfl, rfl⟩, rfl⟩

/-! ## Cancel -/

/-- What a Cancel of an identity can do. -/
inductive Cancelling (now : Instant) (id : UInt64) (state : Exchange wire) :
    Exchange wire → Prop where
  | late {completed : UInt64} (hcompleted : state.completedId = some completed)
      (hle : id ≤ completed) : Cancelling now id state state
  | deferred {deferred : Deferred wire} (hdeferred : state.deferred = some deferred)
      (hid : deferred.message.requestId = id) (hdata : deferred.message.isClose = false) :
      Cancelling now id state
        { state with deferred := some { deferred with cancelled := true } }
  | active {active : Active} (hactive : state.active = some active) (hid : active.id = id) :
      Cancelling now id state { state with
        active := some { active with
          cancel := true
          stopped := some (active.stopped.getD .cancelled)
          cleanup := some (active.cleanup.getD (now + cleanupAllowance)) } }
  | output {output : Output wire} {ready : Ready wire}
      (hnew : ∀ completed ∈ state.completedId, completed < id) (hactive : state.active = none)
      (houtput : state.output = some output) (hid : output.id = id) (hcursor : output.cursor = 0)
      (hready : ready.IsFailure) (hreply : ready.reply.requestId = id) :
      Cancelling now id state { state with output := some { output with ready } }
  | idle {output : Output wire} (hnew : ∀ completed ∈ state.completedId, completed < id)
      (hactive : state.active = none) (houtput : state.output = none)
      (hrefusal : Refusal now id false output) :
      Cancelling now id state { state with output := some output }

theorem cancel_eq_ok {now : Instant} {id : UInt64} {state next : Exchange wire}
    (hcancel : state.cancel now id = .ok next) : Cancelling now id state next := by
  unfold cancel at hcancel
  split at hcancel
  · rename_i hlate
    obtain ⟨completed, hcompleted, hle⟩ := hlate
    obtain rfl := Except.ok.inj hcancel
    exact .late hcompleted hle
  · rename_i hlate
    have hnew : ∀ completed ∈ state.completedId, completed < id := by
      intro completed hcompleted
      exact UInt64.not_le.mp fun hle => hlate ⟨completed, hcompleted, hle⟩
    split at hcancel
    · rename_i deferred hfilter
      obtain ⟨hdeferred, hmatches⟩ := Option.filter_eq_some_iff.mp hfilter
      obtain rfl := Except.ok.inj hcancel
      simp only [Bool.and_eq_true, beq_iff_eq, Bool.not_eq_true'] at hmatches
      exact .deferred hdeferred hmatches.1 hmatches.2
    · split at hcancel
      · rename_i active hactive
        simp only [bind_eq_ok, refuse_eq_ok, pure_eq_ok, Except.ok.injEq] at hcancel
        obtain ⟨_, hid, rfl⟩ := hcancel
        exact .active hactive (not_not.mp hid)
      · rename_i output hactive houtput
        simp only [bind_eq_ok, refuse_eq_ok, mapError_eq_ok, pure_eq_ok, Except.ok.injEq]
          at hcancel
        obtain ⟨_, hid, _, hcursor, ready, hready, rfl⟩ := hcancel
        obtain ⟨hfailed, hreply⟩ := failure_eq_ok hready
        exact .output hnew hactive houtput (not_not.mp hid) (not_not.mp hcursor) hfailed hreply
      · rename_i hactive houtput
        obtain ⟨output, hrefusal, rfl⟩ := refuseWith_eq_ok hcancel
        exact .idle hnew hactive houtput hrefusal

/-! ## Accept -/

/-- What accepting a message for the worker does to the window: an Open opens
it, and everything but a Close needs it open. -/
inductive Opening (now : Instant) (state : Exchange wire) :
    wire.Frame → Bool → Option Instant → Option Instant → Prop where
  | opens {requestId remainingMs ttlMs : UInt64} {query : wire.Query} {pageSize : UInt8}
      (hclosed : state.opened = false) :
      Opening now state (.openWindow requestId remainingMs query pageSize ttlMs) true
        (some (now + millis ttlMs)) (some (now + millis ttlMs))
  | uses {message : wire.Frame} (hdata : message.isData = true) (hkind : message.isOpen = false)
      (hopened : state.opened = true) :
      Opening now state message state.opened state.expires none
  | closes {requestId : UInt64} :
      Opening now state (.close requestId) state.opened state.expires none

/-- What accepting a frame can do: the next state and the job for the worker. -/
inductive Accepting (now : Instant) (message : wire.Frame) (started : Instant)
    (state : Exchange wire) : Exchange wire → Option (Job wire) → Prop where
  | cancelled {next : Exchange wire} (hkind : message.isCancel = true)
      (hcancel : Cancelling now message.requestId state next) :
      Accepting now message started state next none
  | duplicate {output : Output wire} (hkind : message.isCancel = false)
      (hle : message.requestId ≤ state.lastId) (hactive : state.active = none)
      (houtput : state.output = none)
      (hrefusal : Refusal now message.requestId message.isData output) :
      Accepting now message started state { state with output := some output } none
  | deferred {output : Output wire} (hkind : message.isCancel = false)
      (hnew : state.lastId < message.requestId) (houtput : state.output = some output)
      (hcursor : message.isClose = true →
        output.cursor ≠ 0 ∧ output.cursor = output.ready.bytes.length)
      (hfree : state.deferred = none ∨ message.isClose = true) :
      Accepting now message started state
        { state with deferred := some ⟨message, started, false⟩ } none
  | refused {output : Output wire} (hdata : message.isData = true)
      (hnew : state.lastId < message.requestId) (hactive : state.active = none)
      (houtput : state.output = none) (hrefusal : Refusal now message.requestId true output) :
      Accepting now message started state
        { state with active := none, lastId := message.requestId, output := some output } none
  | sent {deferred : Option (Deferred wire)} {opened : Bool} {expires jobExpires : Option Instant}
      {deadline : Instant} (hkind : message.isCancel = false)
      (hnew : state.lastId < message.requestId)
      (hactive : state.active = none ∨ message.isClose = true)
      (hfree : (state.output = none ∧ deferred = state.deferred) ∨
        (message.isClose = true ∧ deferred = none ∧
          ∃ output, state.output = some output ∧ output.cursor = 0))
      (hopening : Opening now state message opened expires jobExpires)
      (hdeadline : ∀ expiry ∈ expires, deadline ≤ expiry) :
      Accepting now message started state
        { state with
          opened
          lastId := message.requestId
          expires
          active := some {
            id := message.requestId, data := message.isData, deadline, cancel := false
            serial := state.issued, stopped := none, cleanup := none }
          output := none
          deferred
          issued := state.issued + 1 }
        (some { message, deadline, expires := jobExpires, serial := state.issued })

theorem send_eq_ok {alive : Bool} {message : wire.Frame} {started : Instant} {remaining : UInt64}
    {jobExpiry : Option Instant} {state next : Exchange wire} {job : Option (Job wire)}
    (hsend : state.send alive message started remaining jobExpiry = .ok (next, job)) :
    alive = true ∧ ∃ deadline : Instant, (∀ expiry ∈ state.expires, deadline ≤ expiry) ∧
      next = { state with
        active := some {
          id := message.requestId, data := message.isData, deadline, cancel := false
          serial := state.issued, stopped := none, cleanup := none }
        issued := state.issued + 1 } ∧
      job = some { message, deadline, expires := jobExpiry, serial := state.issued } := by
  simp only [send, bind_eq_ok, refuse_eq_ok, pure_eq_ok, Except.ok.injEq, Prod.mk.injEq] at hsend
  obtain ⟨_, halive, rfl, rfl⟩ := hsend
  refine ⟨Bool.eq_true_of_not_eq_false halive, _, ?_, rfl, rfl⟩
  intro expiry hexpiry
  rw [Option.mem_def.mp hexpiry]
  exact Nat.min_le_right _ _

/-- A dispatched frame is refused or sent; `state` is what a superseding Close
leaves of the accepting state `base`. -/
theorem dispatch_eq_ok {now : Instant} {alive : Bool} {message : wire.Frame} {started : Instant}
    {state base next : Exchange wire} {job : Option (Job wire)}
    (hbase : state = { base with output := none, deferred := state.deferred })
    (hfree : (base.output = none ∧ state.deferred = base.deferred) ∨
      (message.isClose = true ∧ state.deferred = none ∧
        ∃ output, base.output = some output ∧ output.cursor = 0))
    (hkind : message.isCancel = false) (hnew : base.lastId < message.requestId)
    (hdispatch : state.dispatch now alive message started = .ok (next, job)) :
    Accepting now message started base next job ∧ (job.isSome = true → alive = true) := by
  rw [hbase] at hdispatch
  simp only [dispatch, bind_eq_ok, refuse_eq_ok] at hdispatch
  obtain ⟨_, hidle, hdispatch⟩ := hdispatch
  have hactive : base.active = none ∨ message.isClose = true := by
    cases hbaseActive : base.active with
    | none => exact Or.inl rfl
    | some active =>
        simp only [hbaseActive, Option.isSome_some, true_and, Bool.not_eq_false] at hidle
        exact Or.inr hidle
  have hunlessClose (hdata : message.isData = true) : base.active = none ∧ base.output = none ∧
      state.deferred = base.deferred := by
    have hclose : message.isClose = false := by
      cases message <;> first | rfl | cases hdata
    rcases hfree with ⟨houtput, hdeferred⟩ | ⟨hcloses, -⟩
    · exact ⟨hactive.resolve_right (by simp [hclose]), houtput, hdeferred⟩
    · rw [hclose] at hcloses
      cases hcloses
  have hrefused (hdata : message.isData = true) {code : String} {refused : Exchange wire}
      (hreject : { base with
        output := none, deferred := state.deferred, active := none
        lastId := message.requestId }.reject now message.requestId code true = .ok refused) :
      Accepting now message started base refused none := by
    obtain ⟨output, hrefusal, rfl⟩ := refuseWith_eq_ok hreject
    obtain ⟨hidle, houtput, hdeferred⟩ := hunlessClose hdata
    rw [hdeferred]
    exact .refused hdata hnew hidle houtput hrefusal
  cases message with
  | openWindow id remainingMs query pageSize ttlMs =>
      dsimp only at hdispatch
      split at hdispatch
      · simp only [bind_eq_ok, pure_eq_ok, Except.ok.injEq, Prod.mk.injEq] at hdispatch
        obtain ⟨refused, hreject, rfl, rfl⟩ := hdispatch
        exact ⟨hrefused rfl hreject, fun hsome => by cases hsome⟩
      · rename_i hopened
        obtain ⟨halive, deadline, hdeadline, rfl, rfl⟩ := send_eq_ok hdispatch
        exact ⟨.sent hkind hnew hactive hfree (.opens (Bool.eq_false_of_not_eq_true hopened))
          hdeadline, fun _ => halive⟩
  | continuePage id remainingMs windowId pageSize =>
      dsimp only at hdispatch
      split at hdispatch
      · rename_i hopened
        obtain ⟨halive, deadline, hdeadline, rfl, rfl⟩ := send_eq_ok hdispatch
        exact ⟨.sent hkind hnew hactive hfree (.uses rfl rfl hopened) hdeadline, fun _ => halive⟩
      · simp only [bind_eq_ok, pure_eq_ok, Except.ok.injEq, Prod.mk.injEq] at hdispatch
        obtain ⟨refused, hreject, rfl, rfl⟩ := hdispatch
        exact ⟨hrefused rfl hreject, fun hsome => by cases hsome⟩
  | expand id remainingMs windowId itemIndex beforeBytes afterBytes =>
      dsimp only at hdispatch
      split at hdispatch
      · rename_i hopened
        obtain ⟨halive, deadline, hdeadline, rfl, rfl⟩ := send_eq_ok hdispatch
        exact ⟨.sent hkind hnew hactive hfree (.uses rfl rfl hopened) hdeadline, fun _ => halive⟩
      · simp only [bind_eq_ok, pure_eq_ok, Except.ok.injEq, Prod.mk.injEq] at hdispatch
        obtain ⟨refused, hreject, rfl, rfl⟩ := hdispatch
        exact ⟨hrefused rfl hreject, fun hsome => by cases hsome⟩
  | close id =>
      obtain ⟨halive, deadline, hdeadline, rfl, rfl⟩ := send_eq_ok hdispatch
      exact ⟨.sent hkind hnew hactive hfree .closes hdeadline, fun _ => halive⟩
  | cancel id => cases hkind

theorem accept_eq_ok {now : Instant} {alive : Bool} {message : wire.Frame} {started : Instant}
    {state next : Exchange wire} {job : Option (Job wire)}
    (haccept : state.accept now alive message started = .ok (next, job)) :
    Accepting now message started state next job ∧ (job.isSome = true → alive = true) := by
  unfold accept at haccept
  dsimp only at haccept
  split at haccept
  · rename_i hkind
    simp only [bind_eq_ok, pure_eq_ok, Except.ok.injEq, Prod.mk.injEq] at haccept
    obtain ⟨cancelled, hcancel, rfl, rfl⟩ := haccept
    exact ⟨.cancelled hkind (cancel_eq_ok hcancel), fun hsome => by cases hsome⟩
  rename_i hkind
  replace hkind := Bool.eq_false_of_not_eq_true hkind
  split at haccept
  · rename_i hle
    simp only [bind_eq_ok, refuse_eq_ok, pure_eq_ok, Except.ok.injEq, Prod.mk.injEq] at haccept
    obtain ⟨_, hidle, refused, hreject, rfl, rfl⟩ := haccept
    obtain ⟨output, hrefusal, rfl⟩ := refuseWith_eq_ok hreject
    simp only [not_or, Option.not_isSome_iff_eq_none] at hidle
    exact ⟨.duplicate hkind hle hidle.1 hidle.2 hrefusal, fun hsome => by cases hsome⟩
  rename_i hle
  have hnew := UInt64.not_le.mp hle
  split at haccept
  · rename_i houtput
    exact dispatch_eq_ok (by rw [← houtput]) (Or.inl ⟨houtput, rfl⟩) hkind hnew haccept
  · rename_i output houtput
    split at haccept
    · rename_i hclose
      exact dispatch_eq_ok rfl (Or.inr ⟨hclose.1, rfl, output, houtput, hclose.2⟩) hkind hnew
        haccept
    · rename_i hclose
      simp only [bind_eq_ok, refuse_eq_ok, pure_eq_ok, Except.ok.injEq, Prod.mk.injEq] at haccept
      obtain ⟨_, hwhole, _, hfree, rfl, rfl⟩ := haccept
      refine ⟨.deferred hkind hnew houtput ?_ ?_, fun hsome => by cases hsome⟩
      · intro hcloses
        exact ⟨fun hcursor => hclose ⟨hcloses, hcursor⟩,
          not_not.mp fun hcursor => hwhole ⟨hcloses, hcursor⟩⟩
      · cases hdeferred : state.deferred with
        | none => exact Or.inl rfl
        | some deferred =>
            simp only [hdeferred, Option.isSome_some, true_and, Bool.not_eq_false] at hfree
            exact Or.inr hfree

/-! ## Fragments -/

/-- What one round of `consume` can do: keep a fragment, or accept the frame it
completes. -/
inductive Consuming (now : Instant) (bytes : Bytes) (state : Exchange wire) :
    Exchange wire → Option (Job wire) → Bytes → Prop where
  | fragment {input : FrameBuffer} {count : Nat} (hpush : state.input.push bytes = .ok (input, count))
      (hcount : count ≠ 0) (hframe : input.frame = none) :
      Consuming now bytes state
        { state with
          input
          frameStarted := if state.input.isEmpty then some now else state.frameStarted }
        none (bytes.drop count)
  | frame {input : FrameBuffer} {count : Nat} {frame : Bytes} {message : wire.Frame}
      {started : Instant} {next : Exchange wire} {job : Option (Job wire)}
      (hpush : state.input.push bytes = .ok (input, count)) (hcount : count ≠ 0)
      (hframe : input.frame = some frame) (hmessage : wire.decodeSessionFrame frame = .ok message)
      (hstarted : (if state.input.isEmpty then some now else state.frameStarted) = some started)
      (haccept : Accepting now message started
        { state with input := FrameBuffer.client, frameStarted := none } next job) :
      Consuming now bytes state next job (bytes.drop count)

theorem consume_eq_ok {now : Instant} {alive : Bool} {bytes rest : Bytes}
    {state next : Exchange wire} {job : Option (Job wire)}
    (hconsume : state.consume now alive bytes = .ok (next, job, rest)) :
    Consuming now bytes state next job rest ∧ (job.isSome = true → alive = true) := by
  simp only [consume, bind_eq_ok, mapError_eq_ok, refuse_eq_ok] at hconsume
  obtain ⟨⟨input, count⟩, hpush, _, hcount, hconsume⟩ := hconsume
  dsimp only at hpush hcount hconsume
  split at hconsume
  · rename_i hframe
    simp only [pure_eq_ok, Except.ok.injEq, Prod.mk.injEq] at hconsume
    obtain ⟨rfl, rfl, rfl⟩ := hconsume
    exact ⟨.fragment hpush hcount hframe, fun hsome => by cases hsome⟩
  · rename_i frame hframe
    simp only [bind_eq_ok, mapError_eq_ok, okOr_eq_ok, pure_eq_ok, Except.ok.injEq,
      Prod.mk.injEq] at hconsume
    obtain ⟨message, hmessage, started, hstarted, ⟨after, sent⟩, haccept, rfl, rfl, rfl⟩ := hconsume
    obtain ⟨haccepting, halive⟩ := accept_eq_ok haccept
    exact ⟨.frame hpush hcount hframe hmessage hstarted haccepting, halive⟩

/-! ## Replies, timeouts and flushes -/

/-- The reply put into the output slot for the operation it answers. -/
inductive Answering (active : Active) (ready : Ready wire) : Ready wire → Prop where
  | kept (hkept : active.stopped = none ∨ ready.ends = true) : Answering active ready ready
  | stopped {failed : Ready wire} (hstopped : active.stopped ≠ none) (hends : ready.ends = false)
      (hfailed : failed.IsFailure) (hreply : failed.reply.requestId = active.id) :
      Answering active ready failed

theorem answer_eq_ok {active : Active} {ready answer : Ready wire}
    (hanswer : active.answer ready = .ok answer) : Answering active ready answer := by
  unfold Active.answer at hanswer
  split at hanswer
  · rename_i reason hstopped
    split at hanswer
    · rename_i hends
      obtain rfl := Except.ok.inj hanswer
      exact .kept (Or.inr hends)
    · rename_i hends
      obtain ⟨hfailed, hreply⟩ := failure_eq_ok (mapError_eq_ok.mp hanswer)
      exact .stopped (by simp [hstopped]) (Bool.eq_false_of_not_eq_true hends) hfailed hreply
  · rename_i hstopped
    obtain rfl := Except.ok.inj hanswer
    exact .kept (Or.inl hstopped)

theorem received_eq_ok {now : Instant} {result : Except Bytes (Ready wire)}
    {state next : Exchange wire} (hreceived : state.received now result = .ok next) :
    ∃ active ready answer, state.active = some active ∧ result = .ok ready ∧
      Answering active ready answer ∧
      next = { state with
        active := none
        output := some {
          id := active.id, ready := answer, cursor := 0
          deadline := active.cleanup.getD active.deadline, data := active.data
          since := now, answer } } := by
  simp only [received, bind_eq_ok, okOr_eq_ok, mapError_eq_ok, pure_eq_ok, Except.ok.injEq]
    at hreceived
  obtain ⟨active, hactive, ready, hready, answer, hanswer, rfl⟩ := hreceived
  exact ⟨active, ready, answer, hactive, hready, answer_eq_ok hanswer, rfl⟩

theorem timedOut_eq_ok {now : Instant} {state next : Exchange wire}
    (htimedOut : state.timedOut now = .ok next) :
    ∃ active, state.active = some active ∧ active.cleanup = none ∧
      next = { state with
        active := some { active with
          cancel := true
          stopped := some .deadline
          cleanup := some (now + cleanupAllowance) } } := by
  unfold timedOut at htimedOut
  split at htimedOut
  · rename_i active hactive
    simp only [bind_eq_ok, refuse_eq_ok, pure_eq_ok, Except.ok.injEq] at htimedOut
    obtain ⟨_, hcleanup, rfl⟩ := htimedOut
    exact ⟨active, hactive, Option.not_isSome_iff_eq_none.mp hcleanup, rfl⟩
  · cases htimedOut

theorem commitFlushed_eq_ok {alive : Bool} {state next : Exchange wire}
    {commit : Option (UInt8 × UInt8)} {deferred : Option (Deferred wire)} {ends : Bool}
    (hcommit : state.commitFlushed alive = .ok (next, commit, deferred, ends)) :
    ∃ output, state.output = some output ∧ commit = output.ready.commit ∧
      (commit.isSome = true → alive = true) ∧ ends = output.ready.ends ∧
      ((ends = true ∧ deferred = none ∧
          next = { state with output := none, completedId := some output.id }) ∨
        (ends = false ∧ deferred = state.deferred ∧
          next = { state with
            output := none, completedId := some output.id, deferred := none })) := by
  simp only [commitFlushed, bind_eq_ok, okOr_eq_ok, refuse_eq_ok, pure_eq_ok] at hcommit
  obtain ⟨output, houtput, _, halive, hcommit⟩ := hcommit
  refine ⟨output, houtput, ?_⟩
  have halive (hsome : output.ready.commit.isSome = true) : alive = true :=
    Bool.eq_true_of_not_eq_false fun hgone => halive ⟨hsome, hgone⟩
  cases hends : output.ready.ends with
  | true =>
      simp only [hends, if_true, Except.ok.injEq, Prod.mk.injEq] at hcommit
      obtain ⟨rfl, rfl, rfl, rfl⟩ := hcommit
      exact ⟨rfl, halive, rfl, Or.inl ⟨rfl, rfl, rfl⟩⟩
  | false =>
      simp only [hends, Bool.false_eq_true, if_false, Except.ok.injEq, Prod.mk.injEq] at hcommit
      obtain ⟨rfl, rfl, rfl, rfl⟩ := hcommit
      exact ⟨rfl, halive, rfl, Or.inr ⟨rfl, rfl, rfl⟩⟩

/-- What taking a deferred request can do: answer it when it was cancelled in
the meantime, or accept it. -/
inductive Resuming (now : Instant) (deferred : Deferred wire) (state : Exchange wire) :
    Exchange wire → Option (Job wire) → Prop where
  | cancelled {output : Output wire} (hcancelled : deferred.cancelled = true)
      (hrefusal : Refusal now deferred.message.requestId deferred.message.isData output) :
      Resuming now deferred state
        { state with lastId := deferred.message.requestId, output := some output } none
  | accepted {next : Exchange wire} {job : Option (Job wire)}
      (hcancelled : deferred.cancelled = false)
      (haccept : Accepting now deferred.message deferred.started state next job) :
      Resuming now deferred state next job

theorem takeDeferred_eq_ok {now : Instant} {alive : Bool} {deferred : Deferred wire}
    {state next : Exchange wire} {job : Option (Job wire)}
    (htake : state.takeDeferred now alive deferred = .ok (next, job)) :
    Resuming now deferred state next job ∧ (job.isSome = true → alive = true) := by
  unfold takeDeferred at htake
  split at htake
  · rename_i hcancelled
    simp only [bind_eq_ok, pure_eq_ok, Except.ok.injEq, Prod.mk.injEq] at htake
    obtain ⟨refused, hrefuse, rfl, rfl⟩ := htake
    obtain ⟨output, hrefusal, rfl⟩ := refuseWith_eq_ok hrefuse
    exact ⟨.cancelled hcancelled hrefusal, fun hsome => by cases hsome⟩
  · rename_i hcancelled
    obtain ⟨haccepting, halive⟩ := accept_eq_ok htake
    exact ⟨.accepted (Bool.eq_false_of_not_eq_true hcancelled) haccepting, halive⟩

end Exchange

end EliotSearch.Session
