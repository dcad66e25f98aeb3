import Mathlib.Data.Prod.Lex
import EliotSearch.Session.Calm
import EliotSearch.Session.Lifetime

/-!
# The expiry of a window

A session whose worker has left because the lifetime of the window has passed.
If nothing else disturbs it and it uses no end of a channel that the worker has
dropped, it ends with one reply about the expiry, and with success.
-/

namespace EliotSearch.Session

open EliotSearch.Library

variable {wire : Wire}

theorem Exchange.Consuming.shorter {now : Instant} {bytes rest : Bytes}
    {state next : Exchange wire} {job : Option (Job wire)}
    (hconsume : Consuming now bytes state next job rest) (hbytes : bytes ≠ []) :
    rest.length < bytes.length := by
  have hpositive : 0 < bytes.length := List.length_pos_iff.mpr hbytes
  cases hconsume with
  | fragment hpush hcount =>
      rw [List.length_drop]
      omega
  | frame hpush hcount =>
      rw [List.length_drop]
      omega

/-- The loop waits no longer than the lifetime of the window. -/
theorem Exchange.deadline_le {state : Exchange wire} {expires : Instant}
    (hexpires : state.expires = some expires) (idle : Instant) :
    state.deadline idle ≤ expires := by
  unfold Exchange.deadline
  rw [hexpires, Option.getD_some]
  dsimp only
  cases state.active with
  | none =>
      cases state.output <;> cases state.frameStarted <;>
        simp only [min_le_iff, le_refl, true_or]
  | some active =>
      cases state.output <;> cases state.frameStarted <;>
        simp only [min_le_iff, le_refl, true_or]

namespace Loop

theorem Failing.live {loop : Loop wire} {event : Event wire} {error : SessionError}
    (hfailing : Failing loop event error) : loop.Live := by
  cases hfailing with
  | writeFailed hlive => exact hlive
  | cleanup hphase =>
      rcases hphase with hphase | hphase
      · exact Live.of_phase hphase (by simp)
      · exact Live.of_phase hphase (by simp)
  | readFailed hphase => exact Live.of_phase hphase (by simp)
  | truncated hphase => exact Live.of_phase hphase (by simp)
  | frame hphase => exact Live.of_phase hphase (by simp)
  | unanswered hphase => exact Live.of_phase hphase (by simp)
  | reply hphase => exact Live.of_phase hphase (by simp)
  | closed hphase => exact Live.of_phase hphase (by simp)
  | commit hphase => exact Live.of_phase hphase (by simp)
  | resume hphase => exact Live.of_phase hphase (by simp)
  | done hphase => exact Live.of_phase hphase (by simp)
  | timer hphase => exact Live.of_phase hphase (by simp)
  | partialOutput hphase => exact Live.of_phase hphase (by simp)
  | unjoined hphase => exact Live.of_phase hphase (by simp)
  | undrained hphase => exact Live.of_phase hphase (by simp)

/-! ## The last reply -/

/-- The reply of an expired window names what was under way. -/
structure Parting (loop : Loop wire) : Prop where
  expired : loop.limit.isSome = true → loop.Expired
  draining : ∀ limit, loop.phase = .draining limit → loop.farewell.isSome = true
  farewell : ∀ ready cursor, loop.farewell = some (ready, cursor) →
    ready.reply = ⟨expiredId loop.exchange, .expired⟩ ∧ cursor ≤ ready.bytes.length

theorem Parting.none {loop : Loop wire} (hfarewell : loop.farewell = none)
    (hlimit : loop.limit = none) : loop.Parting where
  expired hsome := by
    rw [hlimit] at hsome
    cases hsome
  draining limit hdraining := by
    simp only [Loop.limit, hdraining] at hlimit
    cases hlimit
  farewell _ _ hsome := by
    rw [hfarewell] at hsome
    cases hsome

theorem Parting.advance {loop : Loop wire} (hloop : loop.Parting) (tick : Tick wire) :
    (loop.advance tick).Parting where
  expired hsome := by
    obtain ⟨expires, hexpires, hpassed⟩ := hloop.expired hsome
    exact ⟨expires, hexpires, hpassed.trans (Nat.le_add_right _ _)⟩
  draining := hloop.draining
  farewell := hloop.farewell

theorem Drains.parting {loop next : Loop wire} {id : UInt64} (hdrain : Drains id loop next)
    (hid : id = expiredId loop.exchange) (hexpired : loop.Expired) : next.Parting := by
  obtain ⟨ready, hreply, rfl⟩ := hdrain
  refine ⟨fun _ => hexpired, fun _ _ => rfl, ?_⟩
  rintro _ _ ⟨⟩
  exact ⟨hid ▸ hreply, Nat.zero_le _⟩

theorem Reaction.parting {loop next : Loop wire} {event : Event wire}
    {command : Option (Command wire)} (hreaction : Reaction loop event next command)
    (hloop : loop.Parting) (hintegral : loop.Integral) : next.Parting := by
  have hnone {phase : Phase wire} (hphase : loop.phase = phase)
      (hlive : ∀ result, phase ≠ .ended result) (hbefore : ∀ limit, phase ≠ .draining limit) :
      loop.farewell = none :=
    hintegral.farewell_eq_none (Live.of_phase hphase hlive) (hphase ▸ hbefore)
  have hends {result : Except SessionError Unit} : (loop.finish result).Parting :=
    ⟨by rintro ⟨⟩, by rintro _ ⟨⟩, hloop.farewell⟩
  cases hreaction with
  | ignored => exact hloop
  | failed => exact hends
  | selecting hphase => exact .none (hnone hphase (by simp) (by simp)) rfl
  | expiring hlive hphase hexpired =>
      have hbefore : ∀ limit, loop.phase ≠ .draining limit := by
        intro limit hdraining
        rcases hphase with htop | ⟨deadline, hselecting⟩
        · rw [htop] at hdraining
          cases hdraining
        · rw [hselecting] at hdraining
          cases hdraining
      have hfarewell : loop.farewell = Option.none := hintegral.farewell_eq_none hlive hbefore
      refine ⟨fun _ => hexpired, by rintro _ ⟨⟩, fun ready cursor hsome => ?_⟩
      have hcontra : loop.farewell = some (ready, cursor) := hsome
      rw [hfarewell] at hcontra
      cases hcontra
  | stopped => exact hends
  | read hphase => exact .none (hnone hphase (by simp) (by simp)) rfl
  | @frame alive bytes rest exchange job hphase =>
      refine .none (hnone hphase (by simp) (by simp)) ?_
      by_cases hrest : rest = []
      · simp only [Loop.limit, if_pos hrest]
      · simp only [Loop.limit, if_neg hrest]
  | reply hphase => exact .none (hnone hphase (by simp) (by simp)) rfl
  | wrote hphase => exact .none (hnone hphase (by simp) (by simp)) rfl
  | flushing hphase => exact .none (hnone hphase (by simp) (by simp)) rfl
  | delivered hphase => exact .none (hnone hphase (by simp) (by simp)) rfl
  | committed hphase =>
      refine .none (hnone hphase (by simp) (by simp)) ?_
      cases hdeferred : loop.exchange.deferred with
      | some deferred => simp only [Loop.limit]
      | none => simp only [Loop.limit]
  | resumed hphase => exact .none (hnone hphase (by simp) (by simp)) rfl
  | unasked hphase hactive houtput hexpired hdrain =>
      exact hdrain.parting (by simp only [expiredId, hactive, houtput]) hexpired
  | timedOut hphase => exact .none (hnone hphase (by simp) (by simp)) rfl
  | joined hphase hwhole hdrain =>
      exact hdrain.parting rfl (hloop.expired (by simp only [Loop.limit, hphase, Option.isSome_some]))
  | drained hphase hfarewell hcount hbound =>
      refine ⟨hloop.expired, fun _ _ => rfl, ?_⟩
      rintro _ _ ⟨⟩
      exact ⟨(hloop.farewell _ _ hfarewell).1, hbound⟩
  | farewell => exact hends

/-! ## The way to the end -/

/-- How many phases of an expired window come after this one. -/
def rank (phase : Phase wire) : Nat :=
  match phase with
  | .selecting _ => 6
  | .consuming _ => 5
  | .flushing => 5
  | .resuming _ => 4
  | .top => 3
  | .expiring _ => 2
  | .draining _ => 1
  | .ended _ => 0

/-- The bytes to take or to write before the phase is left. -/
def remainder (loop : Loop wire) : Nat :=
  match loop.phase with
  | .consuming rest => rest.length
  | .draining _ => loop.farewell.elim 0 fun (ready, cursor) => ready.bytes.length - cursor
  | _ => 0

/-- How far the loop of an expired window is from its end. -/
def distance (loop : Loop wire) : Nat ×ₗ Nat := toLex (rank loop.phase, loop.remainder)

theorem distance_of_rank {loop next : Loop wire} {phase : Phase wire} (hphase : loop.phase = phase)
    (hlt : rank next.phase < rank phase) : next.distance < loop.distance :=
  Prod.Lex.toLex_lt_toLex.mpr (Or.inl (hphase ▸ hlt))

theorem distance_of_remainder {loop next : Loop wire} (hrank : rank next.phase = rank loop.phase)
    (hlt : next.remainder < loop.remainder) : next.distance < loop.distance :=
  Prod.Lex.toLex_lt_toLex.mpr (Or.inr ⟨hrank, hlt⟩)

/-- Every event that the loop of an expired window takes brings it closer to its
end. -/
theorem Reaction.distance {loop next : Loop wire} {event : Event wire}
    {command : Option (Command wire)} (hreaction : Reaction loop event next command)
    (hexpired : loop.Expired) (hreceiving : loop.Receiving) :
    next = loop ∨ next.distance < loop.distance := by
  have hends {result : Except SessionError Unit} (hlive : loop.Live) :
      (loop.finish result).distance < loop.distance := by
    cases hphase : loop.phase with
    | ended result => exact absurd hphase (hlive result)
    | _ => exact distance_of_rank hphase (of_decide_eq_true rfl)
  cases hreaction with
  | ignored => exact Or.inl rfl
  | failed hfailing => exact Or.inr (hends hfailing.live)
  | selecting hphase hlasting => exact absurd hexpired hlasting
  | expiring hlive hphase hpassed =>
      right
      rcases hphase with hphase | ⟨deadline, hphase⟩
      · exact distance_of_rank hphase (of_decide_eq_true rfl)
      · exact distance_of_rank hphase (of_decide_eq_true rfl)
  | stopped hphase => exact Or.inr (hends (Live.of_phase hphase (by simp)))
  | read hphase => exact Or.inr (distance_of_rank hphase (of_decide_eq_true rfl))
  | @frame alive bytes rest exchange job hphase hconsume halive =>
      right
      by_cases hrest : rest = []
      · refine distance_of_rank hphase ?_
        rw [if_pos hrest]
        exact of_decide_eq_true rfl
      · have hshorter := hconsume.shorter (hreceiving.consuming bytes hphase)
        refine distance_of_remainder ?_ ?_
        · rw [if_neg hrest, hphase]
          rfl
        · simp only [remainder, if_neg hrest, hphase]
          exact hshorter
  | reply hphase => exact Or.inr (distance_of_rank hphase (of_decide_eq_true rfl))
  | wrote hphase => exact Or.inr (distance_of_rank hphase (of_decide_eq_true rfl))
  | flushing hphase houtput hcursor hlasting => exact absurd hexpired hlasting
  | delivered hphase => exact Or.inr (distance_of_rank hphase (of_decide_eq_true rfl))
  | committed hphase =>
      right
      refine distance_of_rank hphase ?_
      dsimp only
      split <;> exact of_decide_eq_true rfl
  | resumed hphase => exact Or.inr (distance_of_rank hphase (of_decide_eq_true rfl))
  | unasked hphase hactive houtput hpassed hdrain =>
      obtain ⟨ready, -, rfl⟩ := hdrain
      exact Or.inr (distance_of_rank hphase (of_decide_eq_true rfl))
  | timedOut hphase htimer hlasting => exact absurd hexpired hlasting
  | joined hphase hwhole hdrain =>
      obtain ⟨ready, -, rfl⟩ := hdrain
      exact Or.inr (distance_of_rank hphase (of_decide_eq_true rfl))
  | drained hphase hfarewell hcount hbound =>
      right
      refine distance_of_remainder (by rfl) ?_
      simp only [remainder, hphase, hfarewell, Option.elim_some]
      omega
  | farewell hphase => exact Or.inr (hends (Live.of_phase hphase (by simp)))

end Loop

namespace Daemon

/-! ## Undisturbed steps -/

/-- The step disturbs the session in no way, and does not use a channel whose
other end the worker has dropped. -/
def Undisturbed (daemon : Daemon wire) (move : Move wire) : Prop :=
  ∀ event ∈ (daemon.advance move).event move.action,
    (daemon.advance move).loop.Calm event ∧ (daemon.advance move).loop.Connected event

instance (daemon : Daemon wire) (move : Move wire) : Decidable (daemon.Undisturbed move) :=
  inferInstanceAs (Decidable (∀ _ ∈ _, _))

/-- The session of a worker that has left because the lifetime of its window has
passed has not failed, and ends only with the reply of an expired window. -/
structure Parted (daemon : Daemon wire) : Prop where
  lifetime : daemon.Lifetime
  timely : daemon.loop.Timely
  receiving : daemon.loop.Receiving
  parting : daemon.loop.Parting
  left : daemon.worker.departure = some .lifetime
  unfailed : ∀ error, daemon.loop.phase ≠ .ended (.error error)
  final : daemon.loop.phase = .ended (.ok ()) →
    ∃ ready, daemon.loop.farewell = some (ready, ready.bytes.length)

theorem Parted.advance {daemon : Daemon wire} (hdaemon : daemon.Parted) (move : Move wire) :
    (daemon.advance move).Parted where
  lifetime := hdaemon.lifetime.advance move
  timely := ⟨hdaemon.timely.exchange, hdaemon.timely.resuming, hdaemon.timely.selecting⟩
  receiving := ⟨hdaemon.receiving.exchange, hdaemon.receiving.consuming⟩
  parting := hdaemon.parting.advance ⟨move.elapsed, .look⟩
  left := hdaemon.left
  unfailed := hdaemon.unfailed
  final := hdaemon.final

/-- A worker that has left stays away. -/
theorem Stepping.departure {daemon next : Daemon wire} {action : Action wire}
    (hstep : Stepping daemon action next) (hleft : daemon.worker.departure.isSome = true) :
    next.worker.departure = daemon.worker.departure := by
  have hstays (hnone : daemon.worker.departure = none) : False := by
    rw [hnone] at hleft
    cases hleft
  cases hstep with
  | idle => rfl
  | loop => rw [send_worker]
  | taken hstage => exact (hstays (by rw [Worker.departure, hstage])).elim
  | finished hstage => exact (hstays (by rw [Worker.departure, hstage])).elim
  | timedOut hstage => exact (hstays (by rw [Worker.departure, hstage])).elim
  | signalled hstage =>
      simp only [Worker.departure, hstage]
  | dropped hstage =>
      simp only [Worker.departure, hstage]

/-- How an undisturbed session of a departed worker can end. -/
theorem Parted.ends {daemon : Daemon wire} (hdaemon : daemon.Parted) {event : Event wire}
    {next : Loop wire} {command : Option (Command wire)}
    (hreaction : Loop.Reaction daemon.loop event next command)
    (hcalm : daemon.loop.Calm event) (hconnected : daemon.loop.Connected event) :
    (∀ error, next.phase ≠ .ended (.error error)) ∧
      (next.phase = .ended (.ok ()) →
        ∃ ready, next.farewell = some (ready, ready.bytes.length)) := by
  have hexpired := hdaemon.lifetime.departed hdaemon.left
  have hlives {phase : Phase wire} (hphase : next.phase = phase)
      (hlive : ∀ result, phase ≠ .ended result) :
      (∀ error, next.phase ≠ .ended (.error error)) ∧ (next.phase = .ended (.ok ()) →
        ∃ ready, next.farewell = some (ready, ready.bytes.length)) := by
    rw [hphase]
    exact ⟨fun error => hlive _, fun hended => absurd hended (hlive _)⟩
  cases hreaction with
  | ignored => exact ⟨hdaemon.unfailed, hdaemon.final⟩
  | failed hfailing =>
      obtain ⟨-, hdropped | ⟨-, hearly⟩⟩ :=
        hfailing.of_calm hcalm hdaemon.lifetime.ordered.integral hdaemon.receiving hdaemon.timely
      · exact absurd hconnected hdropped
      · exact absurd hexpired hearly
  | stopped => exact absurd rfl hcalm
  | @frame alive bytes rest exchange job hphase hconsume halive =>
      by_cases hrest : rest = []
      · exact hlives (by rw [if_pos hrest]) (by simp)
      · exact hlives (by rw [if_neg hrest]) (by simp)
  | @delivered alive output hphase houtput halive hends =>
      -- a reply that ends the session is no flushed one while the worker has left for the lifetime
      exfalso
      cases hdaemon.lifetime.slot output houtput with
      | lasting hgoes =>
          rw [hends] at hgoes
          cases hgoes
      | closed _ _ _ hleft =>
          rw [hdaemon.left] at hleft
          cases hleft
      | expired _ _ houtcome =>
          have hshows := hdaemon.lifetime.shows ⟨output, houtput, by rw [houtcome]; rfl⟩
          rw [hphase] at hshows
          cases hshows
  | committed hphase houtput halive hends =>
      refine ⟨fun error hended => ?_, fun hended => ?_⟩
      · dsimp only at hended
        split at hended <;> cases hended
      · dsimp only at hended
        split at hended <;> cases hended
  | unasked hphase hactive houtput hpassed hdrain =>
      obtain ⟨ready, -, rfl⟩ := hdrain
      exact hlives rfl (by simp)
  | joined hphase hwhole hdrain =>
      obtain ⟨ready, -, rfl⟩ := hdrain
      exact hlives rfl (by simp)
  | drained hphase => exact hlives hphase (by simp)
  | @farewell limit cursor ready hphase hfarewell hcursor =>
      subst hcursor
      exact ⟨by rintro error ⟨⟩, fun _ => ⟨ready, hfarewell⟩⟩
  | expiring => exact hlives rfl (by simp [Loop.expire])
  | _ => exact hlives rfl (by simp)

theorem Parted.after {daemon : Daemon wire} (hdaemon : daemon.Parted) {move : Move wire}
    (hmeets : daemon.Undisturbed move) : (daemon.after move).Parted := by
  have hadvanced := hdaemon.advance move
  have hstep := (daemon.advance move).perform_stepping move.action
  have hlifetime : (daemon.after move).Lifetime := hdaemon.lifetime.after move
  have hleft : (daemon.after move).worker.departure = some .lifetime :=
    (hstep.departure (by rw [hadvanced.left]; rfl)).trans hadvanced.left
  rcases hstep.loop_cases with hsame | ⟨event, command, hevent, hreaction⟩
  · have hloop : (daemon.after move).loop = (daemon.advance move).loop := hsame
    refine ⟨hlifetime, ?_, ?_, ?_, hleft, ?_, ?_⟩
    · rw [hloop]
      exact hadvanced.timely
    · rw [hloop]
      exact hadvanced.receiving
    · rw [hloop]
      exact hadvanced.parting
    · rw [hloop]
      exact hadvanced.unfailed
    · rw [hloop]
      exact hadvanced.final
  · obtain ⟨hcalm, hconnected⟩ := hmeets event hevent
    obtain ⟨hunfailed, hfinal⟩ := hadvanced.ends hreaction hcalm hconnected
    exact ⟨hlifetime, hreaction.timely hadvanced.timely, hreaction.receiving hadvanced.receiving,
      hreaction.parting hadvanced.parting hadvanced.lifetime.ordered.integral, hleft, hunfailed,
      hfinal⟩

/-! ## The end -/

/-- The session can end with success by steps that meet a condition. -/
def Settles (Meets : Daemon wire → Move wire → Prop) (daemon : Daemon wire) : Prop :=
  ∃ more, Runs.Throughout after Meets daemon more ∧
    (Runs.run after daemon more).loop.phase = .ended (.ok ())

/-- The condition is met by the calm steps that end an expired session. -/
def Admits (Meets : Daemon wire → Move wire → Prop) : Prop :=
  ∀ (daemon : Daemon wire) (action : Action wire), daemon.worker.departure = some .lifetime →
    action.isClosing = true →
    (∀ event, daemon.event action = some event → daemon.loop.Calm event) → Meets daemon ⟨0, action⟩

theorem perform_loop {daemon : Daemon wire} {action : Action wire} {event : Event wire}
    (hevent : daemon.event action = some event) :
    (daemon.perform action).loop = (daemon.loop.react event).1 := by
  simp only [perform, hevent, send_loop]

section Settles

variable {Meets : Daemon wire → Move wire → Prop}

theorem Settles.ended {daemon : Daemon wire} (hphase : daemon.loop.phase = .ended (.ok ())) :
    daemon.Settles Meets :=
  ⟨[], trivial, hphase⟩

/-- A step that takes no time. -/
theorem Settles.step {daemon : Daemon wire} (action : Action wire)
    (hmeets : Meets daemon ⟨0, action⟩) (hnext : (daemon.perform action).Settles Meets) :
    daemon.Settles Meets := by
  obtain ⟨more, hmore, hended⟩ := hnext
  exact ⟨⟨0, action⟩ :: more, ⟨hmeets, hmore⟩, hended⟩

theorem left_perform {daemon : Daemon wire} (action : Action wire) {departure : Departure}
    (hleft : daemon.worker.departure = some departure) :
    (daemon.perform action).worker.departure = some departure :=
  ((daemon.perform_stepping action).departure (by rw [hleft]; rfl)).trans hleft

theorem settles_of_written (hadmits : Admits Meets) {daemon : Daemon wire}
    (hleft : daemon.worker.departure = some .lifetime) {limit : Instant} {ready : Ready wire}
    (hphase : daemon.loop.phase = .draining limit)
    (hfarewell : daemon.loop.farewell = some (ready, ready.bytes.length)) :
    daemon.Settles Meets := by
  refine .step .flush (hadmits daemon _ hleft rfl (by rintro _ ⟨⟩; trivial)) (.ended ?_)
  have hwhole : ∃ farewell ∈ daemon.loop.farewell, farewell.2 = farewell.1.bytes.length :=
    ⟨_, hfarewell, rfl⟩
  rw [perform_loop rfl]
  simp only [Loop.react, hphase, if_pos hwhole]
  rfl

theorem settles_of_draining (hadmits : Admits Meets) {daemon : Daemon wire}
    (hleft : daemon.worker.departure = some .lifetime) {limit : Instant} {ready : Ready wire}
    {cursor : Nat} (hphase : daemon.loop.phase = .draining limit)
    (hfarewell : daemon.loop.farewell = some (ready, cursor))
    (hbound : cursor ≤ ready.bytes.length) : daemon.Settles Meets := by
  rcases hbound.lt_or_eq with hlt | rfl
  · have hcount : ready.bytes.length - cursor ≠ 0 := Nat.sub_ne_zero_of_lt hlt
    have htotal : cursor + (ready.bytes.length - cursor) = ready.bytes.length :=
      Nat.add_sub_cancel' hbound
    refine .step (.wrote (ready.bytes.length - cursor)) (hadmits daemon _ hleft rfl ?_) ?_
    · rintro _ ⟨⟩
      exact hcount
    · have hloop : (daemon.perform (.wrote (ready.bytes.length - cursor))).loop =
          daemon.loop.drained (ready.bytes.length - cursor) ready cursor := by
        rw [perform_loop rfl]
        simp only [Loop.react, hphase, hfarewell, if_pos (And.intro hlt htotal.le)]
      refine @settles_of_written _ _ hadmits _ (left_perform _ hleft) limit ready ?_ ?_
      · rw [hloop, Loop.drained, if_neg hcount]
        exact hphase
      · rw [hloop, Loop.drained, if_neg hcount, htotal]
  · exact settles_of_written hadmits hleft hphase hfarewell

/-- The worker of an expired window is joined. -/
theorem settles_of_done (hadmits : Admits Meets) {daemon : Daemon wire}
    (hleft : daemon.worker.departure = some .lifetime) {limit : Instant}
    (hphase : daemon.loop.phase = .expiring limit) (hdone : daemon.worker.done = true)
    (hwhole : ∀ output ∈ daemon.loop.exchange.output, output.cursor = 0) :
    daemon.Settles Meets := by
  have hevent : daemon.event .joined = some (.joined true) := by
    simp only [Daemon.event, hdone, if_true]
  refine .step .joined (hadmits daemon _ hleft rfl ?_) ?_
  · intro event hfound
    obtain rfl := Option.some.inj (hevent.symm.trans hfound)
    exact ⟨rfl, hwhole⟩
  · have hnone : ¬ ∃ output ∈ daemon.loop.exchange.output, output.cursor ≠ 0 := by
      rintro ⟨output, houtput, hcursor⟩
      exact hcursor (hwhole output houtput)
    have hloop : (daemon.perform .joined).loop =
        daemon.loop.drain (Loop.expiredId daemon.loop.exchange) := by
      rw [perform_loop hevent]
      simp only [Loop.react, hphase, Loop.joined, if_true, if_neg hnone]
    obtain ⟨ready, -, hdrained⟩ :=
      Loop.drain_drains (Loop.expiredId daemon.loop.exchange) daemon.loop
    rw [hdrained] at hloop
    refine @settles_of_draining _ _ hadmits _ (left_perform _ hleft)
      (daemon.loop.clock + cleanupAllowance) ready 0 ?_ ?_ (Nat.zero_le _)
    · rw [hloop]
    · rw [hloop]

theorem settles_of_expiring (hadmits : Admits Meets) {daemon : Daemon wire}
    (hleft : daemon.worker.departure = some .lifetime) {limit : Instant}
    (hphase : daemon.loop.phase = .expiring limit)
    (hwhole : ∀ output ∈ daemon.loop.exchange.output, output.cursor = 0) :
    daemon.Settles Meets := by
  cases hstage : daemon.worker.stage with
  | waiting limit =>
      rw [Worker.departure, hstage] at hleft
      cases hleft
  | running job =>
      rw [Worker.departure, hstage] at hleft
      cases hleft
  | left departure =>
      refine .step .signal (hadmits daemon _ hleft rfl (by rintro _ ⟨⟩)) ?_
      have hsignals : daemon.perform .signal =
          { daemon with worker := { daemon.worker with stage := .signalled departure } } := by
        simp only [perform, Daemon.event, signal, hstage]
      have hkept := left_perform .signal hleft
      rw [hsignals] at hkept ⊢
      exact settles_of_done hadmits hkept hphase rfl hwhole
  | signalled departure =>
      exact settles_of_done hadmits hleft hphase (by rw [Worker.done, hstage]) hwhole
  | gone departure =>
      exact settles_of_done hadmits hleft hphase (by rw [Worker.done, hstage]) hwhole

end Settles

end Daemon

/-- The loop takes no frame, flush or deferred request, and no reply is begun. -/
def Loop.AtRest (loop : Loop wire) : Prop :=
  (loop.chunk = none ∧ loop.resumed = none ∧ loop.committing = none) ∧
    ∀ output ∈ loop.exchange.output, output.cursor = 0

namespace Daemon

theorem Parted.settles {Meets : Daemon wire → Move wire → Prop} {daemon : Daemon wire}
    (hdaemon : daemon.Parted) (hadmits : Admits Meets) (hrest : daemon.loop.AtRest) :
    daemon.Settles Meets := by
  obtain ⟨⟨hchunk, hresumed, hcommitting⟩, hwhole⟩ := hrest
  have hexpired := hdaemon.lifetime.departed hdaemon.left
  have hexpires (action : Action wire) (event : Event wire) (hclosing : action.isClosing = true)
      (hevent : daemon.event action = some event) (hcalm : daemon.loop.Calm event)
      (hreact : (daemon.loop.react event).1 = daemon.loop.expire.1) : daemon.Settles Meets := by
    refine .step action (hadmits daemon _ hdaemon.left hclosing ?_) ?_
    · intro found hfound
      obtain rfl := Option.some.inj (hevent.symm.trans hfound)
      exact hcalm
    · have hloop := (perform_loop hevent).trans hreact
      refine @settles_of_expiring _ _ hadmits _ (left_perform _ hdaemon.left)
        (daemon.loop.clock + cleanupAllowance) ?_ ?_
      · rw [hloop]
        rfl
      · rw [hloop]
        exact hwhole
  cases hphase : daemon.loop.phase with
  | top =>
      refine hexpires .look .look rfl rfl trivial ?_
      simp only [Loop.react, hphase, Loop.look, if_pos hexpired]
  | selecting deadline =>
      have hpassed : deadline ≤ daemon.loop.clock := by
        obtain ⟨expires, hfound, hpassed⟩ := hexpired
        rw [hdaemon.timely.selecting deadline hphase]
        exact (Exchange.deadline_le hfound _).trans hpassed
      refine hexpires .timer .timer rfl rfl ⟨?_, ?_⟩ ?_
      · exact fun _ _ _ hlasting => absurd hexpired hlasting
      · simp only [Loop.limit, hphase]
        rintro _ ⟨⟩
      · simp only [Loop.react, hphase, if_pos hpassed, Loop.timer, if_pos hexpired]
  | consuming rest =>
      simp only [Loop.chunk, hphase] at hchunk
      cases hchunk
  | flushing =>
      obtain ⟨output, houtput, -⟩ := hdaemon.lifetime.ordered.integral.flushing hphase
      simp only [Loop.committing, hphase, houtput] at hcommitting
      cases hcommitting
  | resuming deferred =>
      simp only [Loop.resumed, hphase] at hresumed
      cases hresumed
  | expiring limit => exact settles_of_expiring hadmits hdaemon.left hphase hwhole
  | draining limit =>
      obtain ⟨⟨ready, cursor⟩, hfarewell⟩ :=
        Option.isSome_iff_exists.mp (hdaemon.parting.draining limit hphase)
      exact settles_of_draining hadmits hdaemon.left hphase hfarewell
        (hdaemon.parting.farewell _ _ hfarewell).2
  | ended result =>
      cases result with
      | ok value => exact .ended hphase
      | error error => exact absurd hphase (hdaemon.unfailed error)

theorem admits_undisturbed : Admits (Undisturbed : Daemon wire → Move wire → Prop) := by
  intro daemon action hleft hclosing hcalm event hevent
  refine ⟨hcalm event hevent, ?_⟩
  cases action with
  | look | wrote | flush | timer =>
      cases hevent
      trivial
  | signal => cases hevent
  | joined =>
      change daemon.event .joined = some event at hevent
      simp only [Daemon.event] at hevent
      split at hevent
      · cases hevent
        trivial
      · cases hevent
  | _ => cases hclosing

theorem parting_run (clock : Instant) (moves : List (Move wire)) :
    (run clock moves).loop.Parting := by
  have hboth : (run clock moves).loop.Integral ∧ (run clock moves).loop.Parting := by
    refine @loop_invariant _ (fun loop => loop.Integral ∧ loop.Parting) clock
      ⟨Loop.integral_start clock, .none rfl rfl⟩ ?_ ?_ moves
    · rintro loop elapsed ⟨hintegral, hparting⟩
      exact ⟨hintegral.advance ⟨elapsed, .look⟩, hparting.advance ⟨elapsed, .look⟩⟩
    · rintro loop event next command hreaction ⟨hintegral, hparting⟩
      exact ⟨hreaction.integral hintegral, hreaction.parting hparting hintegral⟩
  exact hboth.2

theorem timely_run (clock : Instant) (moves : List (Move wire)) :
    (run clock moves).loop.Timely := by
  refine @loop_invariant _ Loop.Timely clock
    (.next Exchange.timed_new (by simp [Loop.start]) (by simp [Loop.start])) ?_ ?_ moves
  · intro loop elapsed hloop
    exact ⟨hloop.exchange, hloop.resuming, hloop.selecting⟩
  · exact fun loop event next command hreaction hloop => hreaction.timely hloop

theorem receiving_run (clock : Instant) (moves : List (Move wire)) :
    (run clock moves).loop.Receiving := by
  refine @loop_invariant _ Loop.Receiving clock
    ⟨Exchange.receiving_client rfl, by simp [Loop.start]⟩ ?_ ?_ moves
  · intro loop elapsed hloop
    exact ⟨hloop.exchange, hloop.consuming⟩
  · exact fun loop event next command hreaction hloop => hreaction.receiving hloop

theorem parted_run (clock : Instant) (moves : List (Move wire))
    (hlifetime : (run clock moves).worker.departure = some .lifetime)
    (hlive : (run clock moves).loop.Live) : (run clock moves).Parted where
  lifetime := lifetime_run clock moves
  timely := timely_run clock moves
  receiving := receiving_run clock moves
  parting := parting_run clock moves
  left := hlifetime
  unfailed _ := hlive _
  final hended := absurd hended (hlive _)

/-- In every run after the worker of a live session has left because the lifetime
of its window has passed, and in which no step disturbs the session or uses a
channel that the worker has dropped: the session does not fail, no reply of an
expired window goes out before its end, and it ends with one as its last bytes.
It can end from every state in which the loop is at rest, and every event that
the loop takes brings it closer to its end. -/
theorem expiry_reported (clock : Instant) (moves later : List (Move wire))
    (hlifetime : (run clock moves).worker.departure = some .lifetime)
    (hlive : (run clock moves).loop.Live)
    (hundisturbed : Runs.Throughout after Undisturbed (run clock moves) later) :
    ((∀ error, (run clock (moves ++ later)).loop.phase ≠ .ended (.error error)) ∧
      (∀ output ∈ (run clock (moves ++ later)).loop.delivered,
        output.ready.reply.outcome.isExpired = false) ∧
      ((run clock (moves ++ later)).loop.phase = .ended (.ok ()) →
        ∃ ready : Ready wire,
          ready.reply = ⟨Loop.expiredId (run clock (moves ++ later)).loop.exchange, .expired⟩ ∧
          (run clock (moves ++ later)).loop.stdout =
            (run clock (moves ++ later)).loop.whole ++ ready.bytes)) ∧
    ((run clock (moves ++ later)).loop.AtRest →
      (run clock (moves ++ later)).Settles Undisturbed) ∧
    ∀ move, (run clock (moves ++ later)).Undisturbed move →
      (run clock (moves ++ later ++ [move])).loop =
          ((run clock (moves ++ later)).advance move).loop ∨
        (run clock (moves ++ later ++ [move])).loop.distance <
          ((run clock (moves ++ later)).advance move).loop.distance := by
  have hstart := parted_run clock moves hlifetime hlive
  have hparted : (run clock (moves ++ later)).Parted := by
    rw [run_append]
    exact Runs.run_invariant_throughout Parted hstart
      (fun _ _ hdaemon hmeets => hdaemon.after hmeets) hundisturbed
  refine ⟨⟨hparted.unfailed, hparted.lifetime.delivered, fun hended => ?_⟩,
    hparted.settles admits_undisturbed, ?_⟩
  · obtain ⟨ready, hfarewell⟩ := hparted.final hended
    refine ⟨ready, (hparted.parting.farewell _ _ hfarewell).1, ?_⟩
    rw [hparted.lifetime.ordered.integral.stdout, Loop.unfinished, hfarewell]
    simp only [List.take_length]
  · intro move hmeets
    have hadvanced := hparted.advance move
    rw [run_append]
    have hstep := ((run clock (moves ++ later)).advance move).perform_stepping move.action
    rcases hstep.loop_cases with hsame | ⟨event, command, -, hreaction⟩
    · exact Or.inl hsame
    · exact hreaction.distance (hadvanced.lifetime.departed hadvanced.left) hadvanced.receiving

end Daemon

namespace Sample

/-- What a query finds when no endpoint is given. -/
def unserved {wire : Wire} : Verdict wire :=
  let failure := QueryFailure.code (Json.ascii "QUERY_ENDPOINT_REQUIRED")
  ⟨.ok (), .error failure, .ok (), .error failure⟩

def later : SessionClientFrame Unit := .continuePage 6 5000 1 1

/-- Request 5 is answered with a failure, and the worker leaves when the lifetime
of the window, one minute, has passed; the loop waits. -/
def lapsed : List (Move (wireOf [openFifth, later])) :=
  [⟨0, .look⟩, ⟨0, .read (bytes openFifth)⟩, ⟨0, .frame⟩, ⟨0, .take⟩, ⟨0, .finish unserved⟩,
    ⟨0, .look⟩, ⟨0, .reply⟩, ⟨0, .look⟩, ⟨0, .wrote 83⟩, ⟨0, .look⟩, ⟨0, .flush⟩, ⟨0, .commit⟩,
    ⟨0, .look⟩, ⟨60000000000, .timeOut⟩]

end Sample

namespace Daemon

/-- A request that arrives just after the worker has left finds its end of the
queue dropped, and the session ends as if the worker had panicked. -/
theorem expiry_reported_as_panic :
    (run 0 Sample.lapsed).worker.departure = some .lifetime ∧
      (run 0 Sample.lapsed).loop.Live ∧
      (run 0 Sample.lapsed).loop.exchange.output.isNone = true ∧
      Sample.endedWith (run 0 (Sample.lapsed ++ [⟨0, .signal⟩, ⟨0, .drop⟩,
        ⟨0, .read (Sample.bytes Sample.later)⟩, ⟨0, .frame⟩])).loop = some .workerPanicked := by
  decide +kernel

theorem expiry_reported_sample :
    (run 0 (Sample.lapsed ++ [⟨0, .timer⟩, ⟨0, .signal⟩, ⟨0, .joined⟩, ⟨0, .wrote 51⟩,
      ⟨0, .flush⟩])).loop.phase.isEnded = true ∧
    ∀ error, (run 0 (Sample.lapsed ++ [⟨0, .timer⟩, ⟨0, .signal⟩, ⟨0, .joined⟩, ⟨0, .wrote 51⟩,
      ⟨0, .flush⟩])).loop.phase ≠ .ended (.error error) :=
  ⟨by decide +kernel,
    (expiry_reported 0 Sample.lapsed _ (by decide +kernel) (by decide +kernel)
      (by decide +kernel)).1.1⟩

end Daemon

end EliotSearch.Session
