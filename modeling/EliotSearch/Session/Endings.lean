import EliotSearch.Session.Expiry

/-!
# Replies that end a session

A reply that ends the session comes from a worker that has left.  It stays in
its channel or in the slot until the session has ended with it, unless a Cancel
replaces it before its first byte, a Close supersedes it or the lifetime of the
window passes before the reply to a Close is flushed.
-/

namespace EliotSearch.Session

open EliotSearch.Library
open EliotSearch.Library.Results

variable {wire : Wire}

namespace Exchange

/-! ## Frames behind a last reply -/

/-- The frame is a Cancel that replaces a pending reply that ends the session. -/
def Replaces (message : wire.Frame) (state : Exchange wire) : Prop :=
  message.isCancel = true ∧ (∀ completed ∈ state.completedId, completed < message.requestId) ∧
    ∃ output ∈ state.output,
      output.id = message.requestId ∧ output.cursor = 0 ∧ output.ready.ends = true

instance (message : wire.Frame) (state : Exchange wire) : Decidable (state.Replaces message) :=
  inferInstanceAs (Decidable (_ ∧ (∀ _ ∈ _, _) ∧ ∃ _ ∈ _, _ ∧ _ ∧ _))

/-- The frame leaves a last reply alone. -/
def Spares (message : wire.Frame) (state : Exchange wire) : Prop :=
  ¬ state.Needs message ∧ ¬ state.Replaces message

instance (message : wire.Frame) (state : Exchange wire) : Decidable (state.Spares message) :=
  inferInstanceAs (Decidable (¬ _ ∧ ¬ _))

/-- Only a frame that needs the worker is sent to it. -/
theorem Accepting.needs {now started : Instant} {message : wire.Frame}
    {state next : Exchange wire} {job : Job wire}
    (haccept : Accepting now message started state next (some job)) : state.Needs message := by
  cases haccept with
  | sent hkind hnew hactive hfree hopening hdeadline =>
      refine ⟨hkind, hnew, ?_, ?_⟩
      · intro output houtput
        rcases hfree with ⟨hnone, -⟩ | ⟨hclose, -, found, hfound, hcursor⟩
        · rw [hnone] at houtput
          cases houtput
        · obtain rfl := Option.some.inj (hfound.symm.trans houtput)
          exact ⟨hclose, hcursor⟩
      · cases hopening with
        | opens hclosed =>
            rw [hclosed]
            exact Or.inr nofun
        | uses hdata hkind hopened =>
            rw [hopened, hkind]
            exact Or.inr nofun
        | closes => exact Or.inl rfl

/-- A frame that spares a last reply changes neither it nor the active operation,
but for the flag that cancels it. -/
theorem Accepting.spared {now started : Instant} {message : wire.Frame}
    {state next : Exchange wire} {job : Option (Job wire)}
    (haccept : Accepting now message started state next job) (hspares : state.Spares message) :
    job = none ∧
      (∀ output, state.output = some output → output.ready.ends = true →
        next.output = some output) ∧
      ∀ active, state.active = some active →
        ∃ after, next.active = some after ∧ active.Same after := by
  obtain ⟨hneeds, hreplaces⟩ := hspares
  have hunsent : job = none := by
    cases job with
    | none => rfl
    | some job => exact absurd haccept.needs hneeds
  have hsame (houtput : next.output = state.output) (hactive : next.active = state.active) :
      (∀ output, state.output = some output → output.ready.ends = true →
        next.output = some output) ∧
      ∀ active, state.active = some active →
        ∃ after, next.active = some after ∧ active.Same after :=
    ⟨fun _ hfound _ => houtput.trans hfound,
      fun active hfound => ⟨active, hactive.trans hfound, .refl active⟩⟩
  have hidle (houtput : state.output = none) (hactive : state.active = none) :
      (∀ output, state.output = some output → output.ready.ends = true →
        next.output = some output) ∧
      ∀ active, state.active = some active →
        ∃ after, next.active = some after ∧ active.Same after := by
    rw [houtput, hactive]
    exact ⟨by rintro _ ⟨⟩, by rintro _ ⟨⟩⟩
  cases haccept with
  | cancelled hkind hcancel =>
      refine ⟨rfl, ?_⟩
      cases hcancel with
      | late => exact hsame rfl rfl
      | deferred => exact hsame rfl rfl
      | @active active hactive hid =>
          refine ⟨fun _ hfound _ => hfound, ?_⟩
          intro found hfound
          obtain rfl := Option.some.inj (hactive.symm.trans hfound)
          exact ⟨_, rfl, rfl, rfl, rfl⟩
      | @output output ready hnew hactive houtput hid hcursor hready hreply =>
          refine ⟨?_, by rw [hactive]; rintro _ ⟨⟩⟩
          intro found hfound hends
          obtain rfl := Option.some.inj (houtput.symm.trans hfound)
          exact absurd ⟨hkind, hnew, output, houtput, hid, hcursor, hends⟩ hreplaces
      | idle hnew hactive houtput hrefusal => exact hidle houtput hactive
  | duplicate hkind hle hactive houtput hrefusal => exact ⟨rfl, hidle houtput hactive⟩
  | deferred => exact ⟨rfl, hsame rfl rfl⟩
  | refused hdata hnew hactive houtput hrefusal => exact ⟨rfl, hidle houtput hactive⟩
  | sent => cases hunsent

theorem Consuming.spared {now : Instant} {bytes rest : Bytes} {state next : Exchange wire}
    {job : Option (Job wire)} (hconsume : Consuming now bytes state next job rest)
    (hspares : ∀ message ∈ state.incoming bytes, state.Spares message) :
    job = none ∧
      (∀ output, state.output = some output → output.ready.ends = true →
        next.output = some output) ∧
      ∀ active, state.active = some active →
        ∃ after, next.active = some after ∧ active.Same after := by
  cases hconsume with
  | fragment =>
      exact ⟨rfl, fun _ hfound _ => hfound, fun active hfound => ⟨active, hfound, .refl active⟩⟩
  | @frame input count frame message started _ _ hpush hcount hframe hmessage hstarted haccept =>
      have hincoming : state.incoming bytes = some message :=
        incoming_eq_some.mpr ⟨input, count, frame, hpush, hframe, hmessage⟩
      exact haccept.spared (by exact hspares message hincoming)

end Exchange

/-! ## Custody of the last reply -/

/-- An answered job has one answer. -/
theorem Daemon.Ordered.answer_unique {daemon : Daemon wire} (hdaemon : daemon.Ordered)
    {first second : Job wire} {one other : Answer wire} (hfirst : (first, one) ∈ daemon.answers)
    (hsecond : (second, other) ∈ daemon.answers) (hserial : first.serial = second.serial) :
    one = other := by
  have hnodup : (daemon.answers.map fun answered => answered.1.serial).Nodup := by
    have hall : (daemon.jobs.map Job.serial).Nodup := by
      rw [hdaemon.serials]
      exact List.nodup_range
    rw [jobs, List.append_assoc, List.map_append, List.map_map] at hall
    exact (List.nodup_append.mp hall).1
  have hsame := Lists.eq_of_key_eq hnodup hfirst hsecond hserial
  exact congrArg Prod.snd hsame

namespace Daemon

/-- Answers are only added. -/
theorem Stepping.answers_mono {daemon next : Daemon wire} {action : Action wire}
    (hstep : Stepping daemon action next) :
    ∀ answered ∈ daemon.answers, answered ∈ next.answers := by
  intro answered hmem
  cases hstep with
  | loop =>
      rw [send_answers]
      exact hmem
  | taken => exact List.mem_append_left _ hmem
  | finished => exact List.mem_append_left _ hmem
  | dropped => exact List.mem_append_left _ hmem
  | _ => exact hmem

/-- Where a reply that ends the session is: in the channel of the active operation,
in the slot, or written whole at the end. -/
inductive Carries (ready : Ready wire) (daemon : Daemon wire) : Prop where
  | answered {active : Active} {job : Job wire} (hlive : daemon.loop.Live)
      (hactive : daemon.loop.exchange.active = some active)
      (hmem : (job, some (.ok ready)) ∈ daemon.answers) (hserial : job.serial = active.serial)
  | pending {output : Output wire} (hlive : daemon.loop.Live)
      (houtput : daemon.loop.exchange.output = some output) (hready : output.ready = ready)
      (hid : ready.reply.requestId = output.id)
      (hcursor : ready.reply.outcome.isExpired = true → output.cursor = 0)
  | emitted {earlier : List (Output wire)} (hphase : daemon.loop.phase = .ended (.ok ()))
      (hstdout : daemon.loop.stdout =
        earlier.flatMap (fun output => output.ready.bytes) ++ ready.bytes)

/-- The step leaves the last reply alone: it is calm, a frame neither needs the
worker nor replaces the reply, and the loop does not find the lifetime of the
window passed once the worker has closed it. -/
def Spares (daemon : Daemon wire) (move : Move wire) : Prop :=
  ∀ event ∈ (daemon.advance move).event move.action,
    (daemon.advance move).loop.Calm event ∧
    (event.isFrame = true → ∀ message ∈ daemon.loop.incoming,
      daemon.loop.exchange.Spares message) ∧
    (event.looks = true → daemon.worker.departure = some .ending →
      ¬ (daemon.advance move).loop.Expired)

instance (daemon : Daemon wire) (move : Move wire) : Decidable (daemon.Spares move) :=
  inferInstanceAs (Decidable (∀ _ ∈ _, _ ∧ (_ → ∀ _ ∈ _, _) ∧ (_ → _ → ¬ _)))

/-- The session keeps the reply that ends it. -/
structure Keeping (ready : Ready wire) (daemon : Daemon wire) : Prop where
  lifetime : daemon.Lifetime
  timely : daemon.loop.Timely
  receiving : daemon.loop.Receiving
  parting : daemon.loop.Parting
  ends : ready.ends = true
  standing : ready.Standing daemon.worker.departure
  closing : daemon.worker.departure = some .ending → daemon.loop.limit = none
  carries : daemon.Carries ready

/-- Until the session has ended the last reply is asked for or in the slot. -/
theorem Carries.busy {ready : Ready wire} {daemon : Daemon wire} (hcarries : daemon.Carries ready)
    (hlive : daemon.loop.Live) (hidle : daemon.loop.exchange.active = none) :
    daemon.loop.exchange.output ≠ none := by
  intro hnone
  cases hcarries with
  | answered _ hactive =>
      rw [hidle] at hactive
      cases hactive
  | pending _ houtput =>
      rw [hnone] at houtput
      cases houtput
  | emitted hended => exact hlive _ hended

theorem Keeping.commit {ready : Ready wire} {daemon : Daemon wire}
    (hdaemon : daemon.Keeping ready) : ready.commit = none := by
  cases hdaemon.standing with
  | lasting hgoes =>
      rw [hdaemon.ends] at hgoes
      cases hgoes
  | closed _ hcommit => exact hcommit
  | expired _ hcommit => exact hcommit

/-- The worker has left because the window was closed or expired. -/
theorem Keeping.left {ready : Ready wire} {daemon : Daemon wire} (hdaemon : daemon.Keeping ready) :
    (daemon.worker.departure = some .ending ∧ ready.reply.outcome.isExpired = false) ∨
      (daemon.worker.departure = some .lifetime ∧ ready.reply.outcome = .expired) := by
  cases hdaemon.standing with
  | lasting hgoes =>
      rw [hdaemon.ends] at hgoes
      cases hgoes
  | closed _ _ houtcome hleft => exact Or.inl ⟨hleft, by rw [houtcome]; rfl⟩
  | expired _ _ houtcome hleft => exact Or.inr ⟨hleft, houtcome⟩

theorem Keeping.advance {ready : Ready wire} {daemon : Daemon wire}
    (hdaemon : daemon.Keeping ready) (move : Move wire) : (daemon.advance move).Keeping ready where
  lifetime := hdaemon.lifetime.advance move
  timely := ⟨hdaemon.timely.exchange, hdaemon.timely.resuming, hdaemon.timely.selecting⟩
  receiving := ⟨hdaemon.receiving.exchange, hdaemon.receiving.consuming⟩
  parting := hdaemon.parting.advance ⟨move.elapsed, .look⟩
  ends := hdaemon.ends
  standing := hdaemon.standing
  closing := hdaemon.closing
  carries := by
    cases hdaemon.carries with
    | answered hlive hactive hmem hserial => exact .answered hlive hactive hmem hserial
    | pending hlive houtput hready hid hcursor => exact .pending hlive houtput hready hid hcursor
    | emitted hphase hstdout => exact .emitted hphase hstdout

/-- While the reply is in its channel or in the slot, calm steps use no channel
that the worker has dropped, and nothing is done too early. -/
theorem Keeping.connected {ready : Ready wire} {daemon : Daemon wire}
    (hdaemon : daemon.Keeping ready) {action : Action wire} {event : Event wire}
    (hevent : daemon.event action = some event) (hlive : daemon.loop.Live)
    (hframe : event.isFrame = true → ∀ message ∈ daemon.loop.incoming,
      daemon.loop.exchange.Spares message) : daemon.loop.Connected event := by
  have hintegral := hdaemon.lifetime.ordered.integral
  have hexclusive := hintegral.exclusive hlive
  cases event with
  | frame alive => exact fun _ message hmessage => (hframe rfl message hmessage).1
  | reply result =>
      obtain ⟨active, job, hactive, hmem, hserial⟩ := event_reply hevent
      cases hdaemon.carries with
      | answered _ hfound hknown hsame =>
          obtain rfl := Option.some.inj (hactive.symm.trans hfound)
          have hunique := hdaemon.lifetime.ordered.answer_unique hmem hknown
            (hserial.trans hsame.symm)
          rw [Loop.Connected, hunique]
          rfl
      | pending _ houtput =>
          rw [hexclusive.active_of_output houtput] at hactive
          cases hactive
      | emitted hphase => exact absurd hphase (hlive _)
  | commit alive =>
      intro _ output hcommitting
      unfold Loop.committing at hcommitting
      split at hcommitting
      · cases hdaemon.carries with
        | answered _ hactive =>
            rw [hexclusive.output_of_active hactive] at hcommitting
            cases hcommitting
        | pending _ houtput hready =>
            obtain rfl := Option.some.inj (houtput.symm.trans hcommitting)
            rw [hready]
            exact hdaemon.commit
        | emitted hphase => exact absurd hphase (hlive _)
      · cases hcommitting
  | resume alive =>
      intro _ deferred hresumed
      unfold Loop.resumed at hresumed
      split at hresumed
      · rename_i hphase
        obtain ⟨hidle, hnone⟩ := hintegral.resuming _ hphase
        exact absurd hnone (hdaemon.carries.busy hlive hidle)
      · cases hresumed
  | _ => trivial

end Daemon

/-- A session that has ended does nothing more. -/
theorem Loop.Reaction.of_ended {loop next : Loop wire} {event : Event wire}
    {command : Option (Command wire)} (hreaction : Reaction loop event next command)
    {result : Except SessionError Unit} (hended : loop.phase = .ended result) : next = loop := by
  have hcontra {phase : Phase wire} (hphase : loop.phase = phase)
      (hlive : ∀ result, phase ≠ .ended result) : False :=
    hlive result (hphase.symm.trans hended)
  cases hreaction with
  | ignored => rfl
  | failed hfailing => exact absurd hended (hfailing.live _)
  | expiring hlive => exact absurd hended (hlive _)
  | selecting hphase => exact (hcontra hphase (by simp)).elim
  | stopped hphase => exact (hcontra hphase (by simp)).elim
  | read hphase => exact (hcontra hphase (by simp)).elim
  | frame hphase => exact (hcontra hphase (by simp)).elim
  | reply hphase => exact (hcontra hphase (by simp)).elim
  | wrote hphase => exact (hcontra hphase (by simp)).elim
  | flushing hphase => exact (hcontra hphase (by simp)).elim
  | delivered hphase => exact (hcontra hphase (by simp)).elim
  | committed hphase => exact (hcontra hphase (by simp)).elim
  | resumed hphase => exact (hcontra hphase (by simp)).elim
  | unasked hphase => exact (hcontra hphase (by simp)).elim
  | timedOut hphase => exact (hcontra hphase (by simp)).elim
  | joined hphase => exact (hcontra hphase (by simp)).elim
  | drained hphase => exact (hcontra hphase (by simp)).elim
  | farewell hphase => exact (hcontra hphase (by simp)).elim

/-- A reaction keeps the active operation and a pending reply that ends the
session. -/
structure Loop.Holding (loop next : Loop wire) : Prop where
  live : next.Live
  active : ∀ active, loop.exchange.active = some active →
    ∃ after, next.exchange.active = some after ∧ active.Same after
  output : ∀ output, loop.exchange.output = some output → output.ready.ends = true →
    ∃ after, next.exchange.output = some after ∧ after.id = output.id ∧
      after.ready = output.ready ∧ (output.ready.reply.outcome.isExpired = true →
        after.cursor = output.cursor)

theorem Loop.Holding.of_same {loop next : Loop wire} (hlive : next.Live)
    (hactive : next.exchange.active = loop.exchange.active)
    (houtput : next.exchange.output = loop.exchange.output) : loop.Holding next where
  live := hlive
  active active hfound := ⟨active, hactive.trans hfound, .refl active⟩
  output output hfound _ := ⟨output, houtput.trans hfound, rfl, rfl, fun _ => rfl⟩

namespace Daemon

theorem Carries.held {ready : Ready wire} {daemon next : Daemon wire}
    (hdaemon : daemon.Keeping ready) (hlive : daemon.loop.Live)
    (hholding : daemon.loop.Holding next.loop)
    (hanswers : ∀ answered ∈ daemon.answers, answered ∈ next.answers) : next.Carries ready := by
  cases hdaemon.carries with
  | answered _ hactive hmem hserial =>
      obtain ⟨after, hafter, hsame⟩ := hholding.active _ hactive
      exact .answered hholding.live hafter (hanswers _ hmem) (hserial.trans hsame.serial_eq)
  | pending _ houtput hready hid hcursor =>
      obtain ⟨after, hafter, hsameId, hsame, hsameCursor⟩ :=
        hholding.output _ houtput (by rw [hready]; exact hdaemon.ends)
      refine .pending hholding.live hafter (hsame.trans hready) (hid.trans hsameId.symm) ?_
      intro hexpired
      rw [hsameCursor (by rw [hready]; exact hexpired)]
      exact hcursor hexpired
  | emitted hphase => exact absurd hphase (hlive _)

/-- The reply that the loop takes is the last one, and goes into the slot as it is. -/
theorem Keeping.taken {ready : Ready wire} {daemon : Daemon wire} (hdaemon : daemon.Keeping ready)
    {action : Action wire} {found answer : Ready wire} {active : Active}
    (hevent : daemon.event action = some (.reply (some (.ok found))))
    (hactive : daemon.loop.exchange.active = some active)
    (houtput : daemon.loop.exchange.output = none) (hlive : daemon.loop.Live)
    (hanswer : Exchange.Answering active found answer) :
    answer = ready ∧ ready.reply.requestId = active.id := by
  obtain ⟨asked, job, hasked, hmem, hserial⟩ := event_reply hevent
  obtain rfl := Option.some.inj (hactive.symm.trans hasked)
  have hfound : found = ready := by
    cases hdaemon.carries with
    | answered _ hknown hanswered hsame =>
        obtain rfl := Option.some.inj (hactive.symm.trans hknown)
        have hunique := hdaemon.lifetime.ordered.answer_unique hmem hanswered
          (hserial.trans hsame.symm)
        exact Except.ok.inj (Option.some.inj hunique)
    | pending _ hpending =>
        rw [houtput] at hpending
        cases hpending
    | emitted hphase => exact absurd hphase (hlive _)
  subst hfound
  have hid : found.reply.requestId = active.id := by
    rw [(hdaemon.lifetime.answers job found hmem).1]
    exact (hdaemon.lifetime.started active hactive job (answered_mem_jobs hmem) hserial).id_eq
  refine ⟨?_, hid⟩
  cases hanswer with
  | kept => rfl
  | stopped _ hgoes =>
      rw [hdaemon.ends] at hgoes
      cases hgoes

/-- An expired session ends with the reply of its worker. -/
theorem Keeping.farewell {ready : Ready wire} {daemon : Daemon wire}
    (hdaemon : daemon.Keeping ready) (hlive : daemon.loop.Live) {farewell : Ready wire}
    {cursor : Nat} (hfarewell : daemon.loop.farewell = some (farewell, cursor))
    (hexpired : ready.reply.outcome = .expired) : farewell.bytes = ready.bytes := by
  have hid : Loop.expiredId daemon.loop.exchange = ready.reply.requestId := by
    cases hdaemon.carries with
    | answered _ hactive hmem hserial =>
        rw [(hdaemon.lifetime.answers _ _ hmem).1]
        simp only [Loop.expiredId, hactive]
        exact (hdaemon.lifetime.started _ hactive _ (answered_mem_jobs hmem) hserial).id_eq.symm
    | pending _ houtput hready hid =>
        have hidle := (hdaemon.lifetime.ordered.integral.exclusive hlive).active_of_output houtput
        simp only [Loop.expiredId, hidle, houtput]
        exact hid.symm
    | emitted hphase => exact absurd hphase (hlive _)
  have hreply : farewell.reply = ready.reply := by
    rw [(hdaemon.parting.farewell _ _ hfarewell).1, hid, ← hexpired]
  have hencoded := farewell.encoded
  rw [hreply, ready.encoded] at hencoded
  exact (Except.ok.inj hencoded).symm

theorem Keeping.carries_loop {ready : Ready wire} {daemon : Daemon wire}
    (hdaemon : daemon.Keeping ready) {action : Action wire} {event : Event wire}
    {next : Loop wire} {command : Option (Command wire)}
    (hevent : daemon.event action = some event)
    (hreaction : Loop.Reaction daemon.loop event next command) (hlive : daemon.loop.Live)
    (hcalm : daemon.loop.Calm event)
    (hframe : event.isFrame = true → ∀ message ∈ daemon.loop.incoming,
      daemon.loop.exchange.Spares message) :
    (send command { daemon with loop := next }).Carries ready := by
  have hintegral := hdaemon.lifetime.ordered.integral
  have hexclusive := hintegral.exclusive hlive
  have hkeep (hholding : daemon.loop.Holding next) :
      (send command { daemon with loop := next }).Carries ready := by
    refine .held hdaemon hlive ?_ ?_
    · rw [send_loop]
      exact hholding
    · rw [send_answers]
      exact fun _ => id
  have hbusy : ¬ (daemon.loop.exchange.active = none ∧ daemon.loop.exchange.output = none) := by
    rintro ⟨hidle, hnone⟩
    exact hdaemon.carries.busy hlive hidle hnone
  cases hreaction with
  | ignored => exact hkeep (.of_same hlive rfl rfl)
  | failed hfailing =>
      exfalso
      obtain ⟨-, hdropped | ⟨rfl, -⟩⟩ :=
        hfailing.of_calm hcalm hintegral hdaemon.receiving hdaemon.timely
      · exact hdropped (hdaemon.connected hevent hlive hframe)
      · cases hfailing with
        | done _ hidle hnone => exact hbusy ⟨hidle, hnone⟩
  | selecting hphase => exact hkeep (.of_same (by rintro _ ⟨⟩) rfl rfl)
  | expiring =>
      refine hkeep ⟨by rintro _ ⟨⟩, ?_, ?_⟩
      · intro active hactive
        refine ⟨{ active with cancel := true }, ?_, rfl, rfl, rfl⟩
        simp only [Loop.expire, Exchange.cancelActive, hactive, Option.map_some]
      · exact fun output houtput _ => ⟨output, houtput, rfl, rfl, fun _ => rfl⟩
  | stopped => exact absurd rfl hcalm
  | read => exact hkeep (.of_same (by rintro _ ⟨⟩) rfl rfl)
  | @frame alive bytes rest exchange job hphase hconsume halive =>
      have hspares : ∀ message ∈ daemon.loop.exchange.incoming bytes,
          daemon.loop.exchange.Spares message := by
        rw [← Loop.incoming_of_consume hphase]
        exact hframe rfl
      obtain ⟨-, houtput, hactive⟩ := hconsume.spared hspares
      refine hkeep ⟨?_, hactive, ?_⟩
      · intro result hended
        dsimp only at hended
        split at hended <;> cases hended
      · exact fun output hfound hends =>
          ⟨output, houtput output hfound hends, rfl, rfl, fun _ => rfl⟩
  | reply hphase hactive houtput hanswer =>
      obtain ⟨rfl, hid⟩ := hdaemon.taken hevent hactive houtput hlive hanswer
      exact .pending (by rw [send_loop]; rintro _ ⟨⟩) (by rw [send_loop]) rfl hid fun _ => rfl
  | @wrote deadline count output hphase houtput hcount hbound =>
      refine hkeep ⟨by rintro _ ⟨⟩, ?_, ?_⟩
      · intro active hactive
        rw [hexclusive.active_of_output houtput] at hactive
        cases hactive
      · intro found hfound _
        obtain rfl := Option.some.inj (houtput.symm.trans hfound)
        refine ⟨_, rfl, rfl, rfl, fun hexpired => ?_⟩
        have hshows := hdaemon.lifetime.shows ⟨output, houtput, hexpired⟩
        rw [hphase] at hshows
        cases hshows
  | flushing => exact hkeep (.of_same (by rintro _ ⟨⟩) rfl rfl)
  | @delivered alive output hphase houtput halive hends =>
      cases hdaemon.carries with
      | answered _ hactive =>
          rw [hexclusive.output_of_active hactive] at houtput
          cases houtput
      | pending _ hfound hready =>
          obtain rfl := Option.some.inj (houtput.symm.trans hfound)
          refine @Carries.emitted _ _ _ daemon.loop.delivered (by rw [send_loop]) ?_
          have hstdout := hintegral.delivers hphase houtput (by
            rw [hintegral.stdout, Loop.unfinished_of_none
              (hintegral.farewell_eq_none hlive (by simp [hphase]))])
          rw [send_loop, ← hready]
          simpa using hstdout
      | emitted hended => exact absurd hended (hlive _)
  | @committed alive output hphase houtput halive hends =>
      exfalso
      cases hdaemon.carries with
      | answered _ hactive =>
          rw [hexclusive.output_of_active hactive] at houtput
          cases houtput
      | pending _ hfound hready =>
          obtain rfl := Option.some.inj (houtput.symm.trans hfound)
          rw [hready, hdaemon.ends] at hends
          cases hends
      | emitted hended => exact hlive _ hended
  | resumed hphase => exact absurd (hintegral.resuming _ hphase) hbusy
  | unasked hphase hactive houtput => exact absurd ⟨hactive, houtput⟩ hbusy
  | @timedOut deadline active hphase htimer hexpired hactive hcleanup =>
      refine hkeep ⟨by rintro _ ⟨⟩, ?_, ?_⟩
      · intro found hfound
        obtain rfl := Option.some.inj (hactive.symm.trans hfound)
        exact ⟨_, rfl, rfl, rfl, rfl⟩
      · exact fun output houtput _ => ⟨output, houtput, rfl, rfl, fun _ => rfl⟩
  | joined hphase hwhole hdrain =>
      obtain ⟨farewell, -, rfl⟩ := hdrain
      exact hkeep (.of_same (by rintro _ ⟨⟩) rfl rfl)
  | drained hphase => exact hkeep (.of_same (Loop.Live.of_phase hphase (by simp)) rfl rfl)
  | @farewell limit cursor farewell hphase hfarewell hcursor =>
      rcases hdaemon.left with ⟨hleft, -⟩ | ⟨-, hexpired⟩
      · have hlimit := hdaemon.closing hleft
        simp only [Loop.limit, hphase] at hlimit
        cases hlimit
      · have hbytes := hdaemon.farewell hlive hfarewell hexpired
        refine @Carries.emitted _ _ _ daemon.loop.delivered (by rw [send_loop]; rfl) ?_
        have hstdout := hintegral.stdout
        simp only [Loop.unfinished, hfarewell, hcursor, List.take_length, hbytes] at hstdout
        rw [send_loop]
        exact hstdout

end Daemon

/-- The loop begins to expire only where it finds the lifetime passed, or when
nothing is under way. -/
theorem Loop.Reaction.limit_cases {loop next : Loop wire} {event : Event wire}
    {command : Option (Command wire)} (hreaction : Reaction loop event next command)
    (hnone : loop.limit = none) : next.limit = none ∨ (event.looks = true ∧ loop.Expired) ∨
      (loop.exchange.active = none ∧ loop.exchange.output = none) := by
  cases hreaction with
  | ignored => exact Or.inl hnone
  | expiring _ _ hexpired hlooks => exact Or.inr (Or.inl ⟨hlooks, hexpired⟩)
  | @frame alive bytes rest exchange job hphase =>
      left
      by_cases hrest : rest = []
      · simp only [Loop.limit, if_pos hrest]
      · simp only [Loop.limit, if_neg hrest]
  | committed hphase =>
      left
      cases hdeferred : loop.exchange.deferred with
      | some deferred => simp only [Loop.limit]
      | none => simp only [Loop.limit]
  | unasked _ hactive houtput => exact Or.inr (Or.inr ⟨hactive, houtput⟩)
  | joined hphase =>
      simp only [Loop.limit, hphase] at hnone
      cases hnone
  | drained hphase =>
      simp only [Loop.limit, hphase] at hnone
      cases hnone
  | _ => exact Or.inl rfl

namespace Daemon

theorem Keeping.after {ready : Ready wire} {daemon : Daemon wire} (hdaemon : daemon.Keeping ready)
    {move : Move wire} (hspares : daemon.Spares move) : (daemon.after move).Keeping ready := by
  have hadvanced := hdaemon.advance move
  have hstep := (daemon.advance move).perform_stepping move.action
  have hsome : (daemon.advance move).worker.departure.isSome = true := by
    rcases hadvanced.left with ⟨hleft, -⟩ | ⟨hleft, -⟩
    · rw [hleft]
      rfl
    · rw [hleft]
      rfl
  have hleft : (daemon.after move).worker.departure = (daemon.advance move).worker.departure :=
    hstep.departure hsome
  have hlifetime : (daemon.after move).Lifetime := hdaemon.lifetime.after move
  have hstanding : ready.Standing (daemon.after move).worker.departure := by
    rw [hleft]
    exact hadvanced.standing
  cases hevent : (daemon.advance move).event move.action with
  | none =>
      have hloop : (daemon.after move).loop = (daemon.advance move).loop := by
        rcases hstep.loop_cases with hsame | ⟨event, command, hfound, -⟩
        · exact hsame
        · rw [hevent] at hfound
          cases hfound
      have hanswers := hstep.answers_mono
      refine ⟨hlifetime, ?_, ?_, ?_, hdaemon.ends, hstanding, ?_, ?_⟩
      · rw [hloop]
        exact hadvanced.timely
      · rw [hloop]
        exact hadvanced.receiving
      · rw [hloop]
        exact hadvanced.parting
      · rw [hleft, hloop]
        exact hadvanced.closing
      · cases hadvanced.carries with
        | answered hlive hactive hmem hserial =>
            rw [← hloop] at hlive hactive
            exact .answered hlive hactive (hanswers _ hmem) hserial
        | pending hlive houtput hready hid hcursor =>
            rw [← hloop] at hlive houtput
            exact .pending hlive houtput hready hid hcursor
        | emitted hphase hstdout =>
            rw [← hloop] at hphase hstdout
            exact .emitted hphase hstdout
  | some event =>
      obtain ⟨hcalm, hframe, hlooks⟩ := hspares event hevent
      have hreaction := Loop.react_reaction (daemon.advance move).loop event
      have hafter : daemon.after move = send ((daemon.advance move).loop.react event).2
          { daemon.advance move with loop := ((daemon.advance move).loop.react event).1 } := by
        simp only [Daemon.after, perform, hevent]
      have hloop : (daemon.after move).loop = ((daemon.advance move).loop.react event).1 := by
        rw [hafter, send_loop]
      have hcarries : (daemon.after move).Carries ready ∧
          ((daemon.after move).worker.departure = some .ending →
            (daemon.after move).loop.limit = none) := by
        by_cases hlive : (daemon.advance move).loop.Live
        · refine ⟨?_, fun hending => ?_⟩
          · rw [hafter]
            exact hadvanced.carries_loop hevent hreaction hlive hcalm hframe
          · rw [hleft] at hending
            rw [hloop]
            rcases hreaction.limit_cases (hadvanced.closing hending) with
              hnone | ⟨hlook, hexpired⟩ | ⟨hidle, hnone⟩
            · exact hnone
            · exact absurd hexpired (hlooks hlook hending)
            · exact absurd hnone (hadvanced.carries.busy hlive hidle)
        · cases hadvanced.carries with
          | answered hstill => exact absurd hstill hlive
          | pending hstill => exact absurd hstill hlive
          | emitted hphase hstdout =>
              have hsame : (daemon.after move).loop = (daemon.advance move).loop :=
                hloop.trans (hreaction.of_ended hphase)
              refine ⟨.emitted (by rw [hsame]; exact hphase) (by rw [hsame]; exact hstdout), ?_⟩
              rw [hleft, hsame]
              exact hadvanced.closing
      refine ⟨hlifetime, ?_, ?_, ?_, hdaemon.ends, hstanding, hcarries.2, hcarries.1⟩
      · rw [hloop]
        exact hreaction.timely hadvanced.timely
      · rw [hloop]
        exact hreaction.receiving hadvanced.receiving
      · rw [hloop]
        exact hreaction.parting hadvanced.parting hadvanced.lifetime.ordered.integral

/-! ## The way to the end -/

theorem admits_spares : Admits (Spares : Daemon wire → Move wire → Prop) := by
  intro daemon action hleft hclosing hcalm event hevent
  refine ⟨hcalm event hevent, ?_, ?_⟩
  · intro hframe
    cases action with
    | look | wrote | flush | timer =>
        cases hevent
        cases hframe
    | signal => cases hevent
    | joined =>
        change daemon.event .joined = some event at hevent
        simp only [Daemon.event] at hevent
        split at hevent
        · cases hevent
          cases hframe
        · cases hevent
    | _ => cases hclosing
  · intro _ hending
    rw [hleft] at hending
    cases hending

/-- A reply that ends the session and lies in the slot. -/
structure Shows (daemon : Daemon wire) (output : Output wire) : Prop where
  output_eq : daemon.loop.exchange.output = some output
  commit : output.ready.commit = none
  ends : output.ready.ends = true
  bounded : output.cursor ≤ output.ready.bytes.length
  lasting : ¬ daemon.loop.Expired

theorem Shows.flushing {daemon : Daemon wire} {output : Output wire} (hshows : daemon.Shows output)
    (hphase : daemon.loop.phase = .flushing) : daemon.Settles Spares := by
  refine .step .commit ?_ (.ended ?_)
  · rintro _ ⟨⟩
    exact ⟨trivial, nofun, nofun⟩
  · have hcommitted : daemon.loop.exchange.commitFlushed daemon.worker.alive =
        .ok ({ daemon.loop.exchange with output := none, completedId := some output.id },
          none, none, true) := by
      simp [Exchange.commitFlushed, hshows.output_eq, hshows.commit, hshows.ends, refuse]
    rw [perform_loop rfl]
    simp only [Loop.react, hphase, Loop.commit, hcommitted, if_true]

theorem Shows.written {daemon : Daemon wire} {output : Output wire} {deadline : Instant}
    (hshows : daemon.Shows output) (hphase : daemon.loop.phase = .selecting deadline)
    (hwhole : output.cursor = output.ready.bytes.length) : daemon.Settles Spares := by
  have hfound : ∃ output ∈ daemon.loop.exchange.output,
      output.cursor = output.ready.bytes.length := ⟨output, hshows.output_eq, hwhole⟩
  have hloop : (daemon.perform .flush).loop = { daemon.loop with phase := .flushing } := by
    rw [perform_loop rfl]
    simp only [Loop.react, hphase, if_pos hfound, Loop.flush, if_neg hshows.lasting]
  refine .step .flush ?_ (@flushing _ _ output ?_ (by rw [hloop]))
  · rintro _ ⟨⟩
    exact ⟨trivial, by rintro ⟨⟩, fun _ _ => hshows.lasting⟩
  · constructor
    · rw [hloop]
      exact hshows.output_eq
    · exact hshows.commit
    · exact hshows.ends
    · exact hshows.bounded
    · rw [hloop]
      exact hshows.lasting

/-- The loop looks at the lifetime and waits. -/
theorem perform_look {daemon : Daemon wire} (hphase : daemon.loop.phase = .top)
    (hlasting : ¬ daemon.loop.Expired) : (daemon.perform .look).loop =
      { daemon.loop with phase := .selecting (daemon.loop.exchange.deadline daemon.loop.idle) } := by
  rw [perform_loop rfl]
  simp only [Loop.react, hphase, Loop.look, if_neg hlasting]

theorem spares_look {daemon : Daemon wire} (hlasting : ¬ daemon.loop.Expired) :
    daemon.Spares ⟨0, .look⟩ := by
  rintro _ ⟨⟩
  exact ⟨trivial, nofun, fun _ _ => hlasting⟩

theorem Shows.top {daemon : Daemon wire} {output : Output wire} (hshows : daemon.Shows output)
    (hphase : daemon.loop.phase = .top)
    (hnext : ∀ (next : Daemon wire) (deadline : Instant), next.Shows output →
      next.loop.phase = .selecting deadline → next.Settles Spares) : daemon.Settles Spares := by
  have hloop := perform_look hphase hshows.lasting
  refine .step .look (spares_look hshows.lasting) (hnext _ _ ?_ (by rw [hloop]))
  constructor
  · rw [hloop]
    exact hshows.output_eq
  · exact hshows.commit
  · exact hshows.ends
  · exact hshows.bounded
  · rw [hloop]
    exact hshows.lasting

theorem Shows.selecting {daemon : Daemon wire} {output : Output wire} {deadline : Instant}
    (hshows : daemon.Shows output) (hphase : daemon.loop.phase = .selecting deadline) :
    daemon.Settles Spares := by
  rcases hshows.bounded.lt_or_eq with hlt | hwhole
  · have hcount : output.ready.bytes.length - output.cursor ≠ 0 := Nat.sub_ne_zero_of_lt hlt
    have htotal : output.cursor + (output.ready.bytes.length - output.cursor) =
        output.ready.bytes.length := Nat.add_sub_cancel' hshows.bounded
    have hloop : (daemon.perform (.wrote (output.ready.bytes.length - output.cursor))).loop =
        daemon.loop.wrote (output.ready.bytes.length - output.cursor) output := by
      rw [perform_loop rfl]
      simp only [Loop.react, hphase, hshows.output_eq, if_pos (And.intro hlt htotal.le)]
    rw [Loop.wrote, if_neg hcount] at hloop
    refine .step (.wrote (output.ready.bytes.length - output.cursor)) ?_ ?_
    · rintro _ ⟨⟩
      exact ⟨hcount, by rintro ⟨⟩, by rintro ⟨⟩⟩
    · refine @top _ _ { output with
          cursor := output.cursor + (output.ready.bytes.length - output.cursor) } ?_ (by rw [hloop])
        fun next deadline hnext hselecting => hnext.written hselecting htotal
      constructor
      · rw [hloop]
      · exact hshows.commit
      · exact hshows.ends
      · exact htotal.le
      · rw [hloop]
        exact hshows.lasting
  · exact hshows.written hphase hwhole

theorem Keeping.answer {ready : Ready wire} {daemon : Daemon wire} (hdaemon : daemon.Keeping ready)
    {active : Active} {job : Job wire} (hactive : daemon.loop.exchange.active = some active)
    (hmem : (job, some (.ok ready)) ∈ daemon.answers) (hserial : job.serial = active.serial) :
    daemon.answer = some (some (.ok ready)) := by
  have hanswer : daemon.answer =
      (daemon.answers.find? fun entry => entry.1.serial == active.serial).map Prod.snd := by
    rw [Daemon.answer, hactive]
    change (daemon.answers.find? fun entry => entry.1.serial == active.serial).bind
      (fun entry => some entry.2) = _
    cases daemon.answers.find? fun entry => entry.1.serial == active.serial <;> rfl
  have hfound : (daemon.answers.find? fun entry => entry.1.serial == active.serial).isSome =
      true := by
    rw [List.find?_isSome]
    exact ⟨_, hmem, beq_iff_eq.mpr hserial⟩
  obtain ⟨⟨found, answer⟩, hfind⟩ := Option.isSome_iff_exists.mp hfound
  have hmatches := List.find?_some hfind
  have hsame := hdaemon.lifetime.ordered.answer_unique hmem (List.mem_of_find?_eq_some hfind)
    (hserial.trans (by exact (eq_of_beq hmatches).symm))
  rw [hanswer, hfind, Option.map_some, ← hsame]

/-- The reply in the channel of the active operation is taken into the slot. -/
theorem Keeping.answered_selecting {ready : Ready wire} {daemon : Daemon wire}
    (hdaemon : daemon.Keeping ready) (hlasting : ¬ daemon.loop.Expired) {active : Active}
    {job : Job wire} {deadline : Instant} (hphase : daemon.loop.phase = .selecting deadline)
    (hactive : daemon.loop.exchange.active = some active)
    (hmem : (job, some (.ok ready)) ∈ daemon.answers) (hserial : job.serial = active.serial) :
    daemon.Settles Spares := by
  have hlive := Loop.Live.of_phase hphase (by simp)
  have houtput :=
    (hdaemon.lifetime.ordered.integral.exclusive hlive).output_of_active hactive
  have hevent : daemon.event .reply = some (.reply (some (.ok ready))) := by
    rw [Daemon.event, hdaemon.answer hactive hmem hserial]
    rfl
  have hanswer : active.answer ready = .ok ready := by
    rw [Active.answer]
    split
    · rw [if_pos hdaemon.ends]
    · rfl
  have hloop : (daemon.perform .reply).loop = { daemon.loop with
      exchange := { daemon.loop.exchange with
        active := none
        output := some {
          id := active.id, ready, cursor := 0
          deadline := active.cleanup.getD active.deadline, data := active.data
          since := daemon.loop.clock, answer := ready } }
      phase := .top } := by
    rw [perform_loop hevent]
    simp only [Loop.react, hphase, houtput, hactive, Loop.reply, Exchange.received, okOr_some,
      ok_bind, Except.mapError, hanswer, pure_eq_ok]
  refine .step .reply ?_ (@Shows.top _ _ {
      id := active.id, ready, cursor := 0
      deadline := active.cleanup.getD active.deadline, data := active.data
      since := daemon.loop.clock, answer := ready } ?_ (by rw [hloop])
    fun next deadline hnext hselecting => hnext.selecting hselecting)
  · intro event hfound
    obtain rfl := Option.some.inj (hevent.symm.trans hfound)
    refine ⟨?_, by rintro ⟨⟩, by rintro ⟨⟩⟩
    rintro _ ⟨⟩
    rfl
  · constructor
    · rw [hloop]
    · exact hdaemon.commit
    · exact hdaemon.ends
    · exact Nat.zero_le _
    · rw [hloop]
      exact hlasting

theorem Keeping.settles {ready : Ready wire} {daemon : Daemon wire}
    (hdaemon : daemon.Keeping ready) (hchunk : daemon.loop.chunk = none)
    (hlasting : daemon.worker.departure = some .ending → ¬ daemon.loop.Expired) :
    daemon.Settles Spares := by
  have hintegral := hdaemon.lifetime.ordered.integral
  have hunresumed (hlive : daemon.loop.Live) : daemon.loop.resumed = none := by
    unfold Loop.resumed
    split
    · rename_i hphase
      obtain ⟨hidle, hnone⟩ := hintegral.resuming _ hphase
      exact absurd hnone (hdaemon.carries.busy hlive hidle)
    · rfl
  have hunconsumed {rest : Bytes} (hphase : daemon.loop.phase = .consuming rest) : False := by
    simp only [Loop.chunk, hphase] at hchunk
    cases hchunk
  rcases hdaemon.left with ⟨hleft, hunexpired⟩ | ⟨hleft, hexpired⟩
  · have hlast := hlasting hleft
    have hlimit := hdaemon.closing hleft
    cases hdaemon.carries with
    | @answered active job hlive hactive hmem hserial =>
        cases hphase : daemon.loop.phase with
        | top =>
            have hloop := perform_look hphase hlast
            have hnext : (daemon.perform .look).Keeping ready := hdaemon.after (spares_look hlast)
            refine .step .look (spares_look hlast)
              (hnext.answered_selecting ?_ (by rw [hloop]) ?_
                ((daemon.perform_stepping .look).answers_mono _ hmem) hserial)
            · rw [hloop]
              exact hlast
            · rw [hloop]
              exact hactive
        | selecting deadline => exact hdaemon.answered_selecting hlast hphase hactive hmem hserial
        | consuming rest => exact (hunconsumed hphase).elim
        | flushing =>
            obtain ⟨output, houtput, -⟩ := hintegral.flushing hphase
            rw [(hintegral.exclusive hlive).output_of_active hactive] at houtput
            cases houtput
        | resuming deferred =>
            have hnone := hunresumed hlive
            simp only [Loop.resumed, hphase] at hnone
            cases hnone
        | expiring limit =>
            simp only [Loop.limit, hphase] at hlimit
            cases hlimit
        | draining limit =>
            simp only [Loop.limit, hphase] at hlimit
            cases hlimit
        | ended result => exact absurd hphase (hlive result)
    | @pending output hlive houtput hready hid hcursor =>
        have hshows : daemon.Shows output := by
          refine ⟨houtput, ?_, ?_, (hintegral.exclusive hlive).bounded output houtput, hlast⟩
          · rw [hready]
            exact hdaemon.commit
          · rw [hready]
            exact hdaemon.ends
        cases hphase : daemon.loop.phase with
        | top => exact hshows.top hphase fun next deadline hnext hselecting =>
            hnext.selecting hselecting
        | selecting deadline => exact hshows.selecting hphase
        | consuming rest => exact (hunconsumed hphase).elim
        | flushing => exact hshows.flushing hphase
        | resuming deferred =>
            have hnone := hunresumed hlive
            simp only [Loop.resumed, hphase] at hnone
            cases hnone
        | expiring limit =>
            simp only [Loop.limit, hphase] at hlimit
            cases hlimit
        | draining limit =>
            simp only [Loop.limit, hphase] at hlimit
            cases hlimit
        | ended result => exact absurd hphase (hlive result)
    | emitted hphase => exact .ended hphase
  · -- the loop finds the lifetime passed and ends with the reply of its own
    by_cases hlive : daemon.loop.Live
    · have hparted : daemon.Parted := ⟨hdaemon.lifetime, hdaemon.timely, hdaemon.receiving,
        hdaemon.parting, hleft, fun _ => hlive _, fun hended => absurd hended (hlive _)⟩
      refine hparted.settles admits_spares ⟨⟨hchunk, hunresumed hlive, ?_⟩, ?_⟩
      · unfold Loop.committing
        split
        · rename_i hphase
          cases houtput : daemon.loop.exchange.output with
          | none => rfl
          | some output =>
              exfalso
              cases hdaemon.carries with
              | answered _ hactive =>
                  rw [(hintegral.exclusive hlive).output_of_active hactive] at houtput
                  cases houtput
              | pending _ hfound hready =>
                  have hshows := hdaemon.lifetime.shows
                    ⟨_, hfound, by rw [hready, hexpired]; rfl⟩
                  rw [hphase] at hshows
                  cases hshows
              | emitted hended => exact hlive _ hended
        · rfl
      · intro output houtput
        cases hdaemon.carries with
        | answered _ hactive =>
            rw [(hintegral.exclusive hlive).output_of_active hactive] at houtput
            cases houtput
        | pending _ hfound hready _ hcursor =>
            obtain rfl := Option.some.inj (hfound.symm.trans houtput)
            exact hcursor (by rw [hexpired]; rfl)
        | emitted hended => exact absurd hended (hlive _)
    · cases hdaemon.carries with
      | answered hstill => exact absurd hstill hlive
      | pending hstill => exact absurd hstill hlive
      | emitted hphase => exact .ended hphase

/-! ## Producing it -/

/-- When the worker closes the window for the active operation, the loop has not
seen its lifetime pass. -/
theorem Stepping.produced {daemon next : Daemon wire} {action : Action wire}
    (hstep : Stepping daemon action next) (hdaemon : daemon.Lifetime) (hordered : next.Ordered)
    {job : Job wire} {ready : Ready wire} {active : Active}
    (hnew : (job, some (.ok ready)) ∉ daemon.answers)
    (hproduced : (job, some (.ok ready)) ∈ next.answers)
    (hactive : next.loop.exchange.active = some active) (hserial : job.serial = active.serial)
    (hleft : next.worker.departure = some .ending) : ¬ next.loop.Expired := by
  cases hstep with
  | idle => exact absurd hproduced hnew
  | loop =>
      rw [send_answers] at hproduced
      exact absurd hproduced hnew
  | @taken limit command queue hstage hqueue =>
      exfalso
      cases command with
      | shutdown => cases hleft
      | commit expected later =>
          simp only [Worker.take] at hleft
          split at hleft
          · cases hleft
          · split at hleft
            · cases hleft
            · split at hleft <;> cases hleft
      | execute job =>
          simp only [Worker.take] at hleft
          split at hleft <;> cases hleft
  | @finished performed verdict worker result hstage hsound hfinishing =>
      have hstays : daemon.worker.departure = none := by rw [Worker.departure, hstage]
      have hlast := hordered.active active hactive
      obtain ⟨-, hqueue⟩ := hordered.answered_last hproduced (by rw [hserial]; exact hlast)
      have hlasting : ¬ (daemon.worker.performed performed verdict).Expired daemon.loop.clock := by
        cases hfinishing with
        | lifetime => cases hleft
        | ending hlasting => exact hlasting
        | replied hlasting => exact hlasting
        | unreported hlasting => exact hlasting
      rintro ⟨expires, hexpires, hpassed⟩
      rcases hdaemon.informed hstays expires hexpires with hknown | ⟨later, hlater, -⟩
      · exact hlasting ⟨expires, hknown, hpassed⟩
      · have hempty : jobsOf daemon.queue = [] := hqueue
        rw [hempty] at hlater
        cases hlater
  | timedOut => exact absurd hproduced hnew
  | signalled => exact absurd hproduced hnew
  | dropped =>
      rcases List.mem_append.mp hproduced with hbefore | hclosed
      · exact absurd hbefore hnew
      · obtain ⟨closed, -, hpair⟩ := List.mem_map.mp hclosed
        cases hpair

theorem keeping_run (clock : Instant) (moves : List (Move wire)) (move : Move wire)
    {job : Job wire} {ready : Ready wire} {active : Active}
    (hnew : (job, some (.ok ready)) ∉ (run clock moves).answers)
    (hproduced : (job, some (.ok ready)) ∈ (run clock (moves ++ [move])).answers)
    (hends : ready.ends = true) (hlive : (run clock (moves ++ [move])).loop.Live)
    (hactive : (run clock (moves ++ [move])).loop.exchange.active = some active)
    (hserial : job.serial = active.serial) : (run clock (moves ++ [move])).Keeping ready := by
  have hlifetime := lifetime_run clock (moves ++ [move])
  have hparting := parting_run clock (moves ++ [move])
  have hlast : run clock (moves ++ [move]) = (run clock moves).after move :=
    run_append clock moves [move]
  refine ⟨hlifetime, timely_run clock _, receiving_run clock _, hparting, hends,
    (hlifetime.answers job ready hproduced).2, fun hending => ?_,
    .answered hlive hactive hproduced hserial⟩
  have hlasting : ¬ (run clock (moves ++ [move])).loop.Expired := by
    rw [hlast] at hproduced hactive hending ⊢
    exact (((run clock moves).advance move).perform_stepping move.action).produced
      ((lifetime_run clock moves).advance move) ((lifetime_run clock moves).after move).ordered
      hnew hproduced hactive hserial hending
  cases hlimit : (run clock (moves ++ [move])).loop.limit with
  | none => rfl
  | some limit => exact absurd (hparting.expired (by rw [hlimit]; rfl)) hlasting

/-- Once the worker has produced a reply that ends the session for the active
operation, in every later run whose steps leave that reply alone: it is in its
channel, in the slot or emitted; the session does not fail, and when it has ended
the reply is its last frame.  It can end from every state in which no chunk is
being taken and a closed window has not expired. -/
theorem ending_reply_final (clock : Instant) (moves : List (Move wire)) (move : Move wire)
    (later : List (Move wire)) {job : Job wire} {ready : Ready wire} {active : Active}
    (hnew : (job, some (.ok ready)) ∉ (run clock moves).answers)
    (hproduced : (job, some (.ok ready)) ∈ (run clock (moves ++ [move])).answers)
    (hends : ready.ends = true) (hlive : (run clock (moves ++ [move])).loop.Live)
    (hactive : (run clock (moves ++ [move])).loop.exchange.active = some active)
    (hserial : job.serial = active.serial)
    (hspares : Runs.Throughout after Spares (run clock (moves ++ [move])) later) :
    (run clock (moves ++ [move] ++ later)).Carries ready ∧
    (∀ error, (run clock (moves ++ [move] ++ later)).loop.phase ≠ .ended (.error error)) ∧
    ((run clock (moves ++ [move] ++ later)).loop.phase = .ended (.ok ()) →
      ∃ earlier : List (Output wire), (run clock (moves ++ [move] ++ later)).loop.stdout =
        earlier.flatMap (fun output => output.ready.bytes) ++ ready.bytes) ∧
    ((run clock (moves ++ [move] ++ later)).loop.chunk = none →
      ((run clock (moves ++ [move] ++ later)).worker.departure = some .ending →
        ¬ (run clock (moves ++ [move] ++ later)).loop.Expired) →
      (run clock (moves ++ [move] ++ later)).Settles Spares) := by
  have hkeeping : (run clock (moves ++ [move] ++ later)).Keeping ready := by
    rw [run_append]
    exact Runs.run_invariant_throughout (Keeping ready)
      (keeping_run clock moves move hnew hproduced hends hlive hactive hserial)
      (fun _ _ hdaemon hmeets => hdaemon.after hmeets) hspares
  refine ⟨hkeeping.carries, fun error hended => ?_, fun hended => ?_, hkeeping.settles⟩
  · cases hkeeping.carries with
    | answered hstill => exact hstill _ hended
    | pending hstill => exact hstill _ hended
    | emitted hphase =>
        rw [hended] at hphase
        cases hphase
  · cases hkeeping.carries with
    | answered hstill => exact absurd hended (hstill _)
    | pending hstill => exact absurd hended (hstill _)
    | emitted hphase hstdout => exact ⟨_, hstdout⟩

end Daemon

namespace Sample

/-- The worker performs a Close without anything in its way. -/
def closes : List (Move (wireOf [.close 1, .cancel 1])) :=
  [⟨0, .look⟩, ⟨0, .read (bytes (.close 1))⟩, ⟨0, .frame⟩, ⟨0, .take⟩]

/-- The reply to the Close is in the slot when its Cancel arrives. -/
def closedThenCancelled : List (Move (wireOf [.close 1, .cancel 1])) :=
  closes ++ [⟨0, .finish unserved⟩, ⟨0, .look⟩, ⟨0, .reply⟩, ⟨0, .look⟩,
    ⟨0, .read (bytes (.cancel 1))⟩, ⟨0, .frame⟩]

/-- The identities and the kinds of the replies written so far. -/
def replies {wire : Wire} (daemon : Daemon wire) : List (UInt64 × Bool) :=
  daemon.loop.delivered.map fun output => (output.id, output.ready.ends)

end Sample

namespace Daemon

/-- A Cancel of the Close that the worker has answered takes the place of the
reply, and the session goes on after it with a worker that has left. -/
theorem ending_reply_replaced :
    ((run 0 (Sample.closes ++ [⟨0, .finish Sample.unserved⟩])).answers.map fun (job, answer) =>
      (job.message.requestId, answer.any fun result => result.toOption.any Ready.ends)) =
        [(1, true)] ∧
    Sample.replies (run 0 (Sample.closedThenCancelled ++ [⟨0, .look⟩, ⟨0, .wrote 53⟩, ⟨0, .look⟩,
      ⟨0, .flush⟩, ⟨0, .commit⟩, ⟨0, .look⟩])) = [(1, false)] ∧
    (run 0 (Sample.closedThenCancelled ++ [⟨0, .look⟩, ⟨0, .wrote 53⟩, ⟨0, .look⟩, ⟨0, .flush⟩,
      ⟨0, .commit⟩, ⟨0, .look⟩])).loop.Live ∧
    (run 0 (Sample.closedThenCancelled ++ [⟨0, .look⟩, ⟨0, .wrote 53⟩, ⟨0, .look⟩, ⟨0, .flush⟩,
      ⟨0, .commit⟩, ⟨0, .look⟩])).worker.departure = some .ending := by
  decide +kernel

theorem ending_reply_final_sample :
    (run 0 (Sample.closes ++ [⟨0, .finish Sample.unserved⟩] ++ [⟨0, .look⟩, ⟨0, .reply⟩,
      ⟨0, .look⟩, ⟨0, .wrote 50⟩, ⟨0, .look⟩, ⟨0, .flush⟩, ⟨0, .commit⟩])).loop.phase.isEnded =
        true ∧
    ∃ ready : Ready (Sample.wireOf [.close 1, .cancel 1]), ready.ends = true ∧
      (run 0 (Sample.closes ++ [⟨0, .finish Sample.unserved⟩] ++ [⟨0, .look⟩, ⟨0, .reply⟩,
        ⟨0, .look⟩, ⟨0, .wrote 50⟩, ⟨0, .look⟩, ⟨0, .flush⟩, ⟨0, .commit⟩])).Carries ready := by
  refine ⟨by decide +kernel, ?_⟩
  have hanswered : ((run 0 (Sample.closes ++ [⟨0, .finish Sample.unserved⟩])).answers.any
      fun (job, answer) => job.serial == 0 && answer.any fun result =>
        result.toOption.any Ready.ends) = true := by decide +kernel
  obtain ⟨⟨job, answer⟩, hmem, hfound⟩ := List.any_eq_true.mp hanswered
  simp only [Bool.and_eq_true, beq_iff_eq] at hfound
  obtain ⟨hserial, hends⟩ := hfound
  have hactive : ∃ active ∈ (run 0 (Sample.closes ++
      [⟨0, .finish Sample.unserved⟩])).loop.exchange.active, active.serial = 0 := by
    decide +kernel
  obtain ⟨active, hactive, hzero⟩ := hactive
  have hempty : (run 0 Sample.closes).answers.isEmpty = true := by decide +kernel
  cases answer with
  | none => cases hends
  | some result =>
      cases result with
      | error code => cases hends
      | ok ready =>
          refine ⟨ready, hends, (ending_reply_final 0 Sample.closes ⟨0, .finish Sample.unserved⟩ _
            ?_ hmem hends (by decide +kernel) hactive (hserial.trans hzero.symm)
            (by decide +kernel)).1⟩
          rw [List.isEmpty_iff.mp hempty]
          exact List.not_mem_nil

end Daemon

end EliotSearch.Session
