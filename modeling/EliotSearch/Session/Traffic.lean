import EliotSearch.Session.Daemon

/-!
# Traffic with the worker

What a reaction of the loop exchanges with the worker: nothing, the reply of the
active operation, the job of a new one, or the cursor update of a flushed reply.
-/

namespace EliotSearch.Session

open EliotSearch.Library

variable {wire : Wire}

/-- The reply in the slot is the one before, or a failure that needed no
worker. -/
def Exchange.KeepsSlot (state next : Exchange wire) : Prop :=
  ∀ output, next.output = some output →
    (∃ before, state.output = some before ∧ before.Continues output) ∨
      (state.output = none ∧ output.ready.IsFailure)

/-- The active operation is the one before. -/
structure Exchange.KeepsActive (state next : Exchange wire) : Prop where
  active : ∀ active, next.active = some active →
    ∃ before, state.active = some before ∧ before.Same active
  idle : next.active = none → state.active = none

theorem Exchange.KeepsActive.of_eq {state next : Exchange wire}
    (hsame : next.active = state.active) : KeepsActive state next where
  active active hactive := ⟨active, hsame.symm.trans hactive, .refl active⟩
  idle hnone := hsame.symm.trans hnone

theorem Exchange.KeepsSlot.of_eq {state next : Exchange wire}
    (hsame : next.output = state.output) : KeepsSlot state next := by
  intro output houtput
  exact Or.inl ⟨output, hsame.symm.trans houtput, .refl output⟩

theorem Exchange.KeepsSlot.of_refusal {now : Instant} {id : UInt64} {data : Bool}
    {state next : Exchange wire} {output : Output wire} (hnone : state.output = none)
    (houtput : next.output = some output) (hrefusal : Refusal now id data output) :
    KeepsSlot state next := by
  intro found hfound
  obtain rfl := Option.some.inj (houtput.symm.trans hfound)
  exact Or.inr ⟨hnone, hrefusal.failed⟩

/-- The state after a job is sent for a new operation. -/
structure Exchange.Sends (state next : Exchange wire) (job : Job wire) : Prop where
  serial : job.serial = state.issued
  issued : next.issued = state.issued + 1
  output : next.output = none
  active : ∃ active, next.active = some active ∧ job.Starts active
  opened : next.opened = (state.opened || job.message.isOpen)
  fresh : job.message.isOpen = true → state.opened = false
  expires : (job.message.isOpen = true ∧ job.expires = next.expires) ∨
    (job.expires = none ∧ next.expires = state.expires)

/-- What an operation of the exchange does to the state that it shares with the
worker. -/
inductive Exchange.Trading (state next : Exchange wire) : Option (Job wire) → Prop where
  | quiet (hactive : KeepsActive state next) (houtput : KeepsSlot state next)
      (hissued : next.issued = state.issued) (hopened : next.opened = state.opened)
      (hexpires : next.expires = state.expires) : Trading state next none
  | sent {job : Job wire} (hsends : Sends state next job) : Trading state next (some job)

namespace Exchange

theorem Cancelling.trading {now : Instant} {id : UInt64} {state next : Exchange wire}
    (hcancel : Cancelling now id state next) : Trading state next none := by
  cases hcancel with
  | late => exact .quiet (.of_eq rfl) (.of_eq rfl) rfl rfl rfl
  | deferred => exact .quiet (.of_eq rfl) (.of_eq rfl) rfl rfl rfl
  | @active active hactive hid =>
      refine .quiet ⟨?_, nofun⟩ (.of_eq rfl) rfl rfl rfl
      rintro _ ⟨⟩
      exact ⟨active, hactive, rfl, rfl, rfl⟩
  | @output output ready hnew hactive houtput hid hcursor hready hreply =>
      refine .quiet (.of_eq rfl) ?_ rfl rfl rfl
      rintro _ ⟨⟩
      exact Or.inl ⟨output, houtput, rfl, rfl, rfl, rfl, rfl, le_rfl,
        Or.inr ⟨hcursor, hready, hreply.trans hid.symm⟩⟩
  | idle hnew hactive houtput hrefusal =>
      exact .quiet (.of_eq rfl) (.of_refusal houtput rfl hrefusal) rfl rfl rfl

theorem Accepting.trading {now started : Instant} {message : wire.Frame}
    {state next : Exchange wire} {job : Option (Job wire)}
    (haccept : Accepting now message started state next job) : Trading state next job := by
  cases haccept with
  | cancelled hkind hcancel => exact hcancel.trading
  | duplicate hkind hle hactive houtput hrefusal =>
      exact .quiet (.of_eq rfl) (.of_refusal houtput rfl hrefusal) rfl rfl rfl
  | deferred => exact .quiet (.of_eq rfl) (.of_eq rfl) rfl rfl rfl
  | refused hdata hnew hactive houtput hrefusal =>
      exact .quiet (.of_eq hactive.symm) (.of_refusal houtput rfl hrefusal) rfl rfl rfl
  | sent hkind hnew hactive hfree hopening hdeadline =>
      cases hopening with
      | opens hclosed =>
          exact .sent ⟨rfl, rfl, rfl, ⟨_, rfl, rfl, rfl, rfl⟩, (Bool.or_true _).symm,
            fun _ => hclosed, Or.inl ⟨rfl, rfl⟩⟩
      | uses hdata hdataOnly hopened =>
          refine .sent ⟨rfl, rfl, rfl, ⟨_, rfl, rfl, rfl, rfl⟩, ?_, ?_, Or.inr ⟨rfl, rfl⟩⟩
          · rw [hdataOnly, Bool.or_false]
          · intro hopen
            rw [hdataOnly] at hopen
            cases hopen
      | closes =>
          exact .sent ⟨rfl, rfl, rfl, ⟨_, rfl, rfl, rfl, rfl⟩, (Bool.or_false _).symm, nofun,
            Or.inr ⟨rfl, rfl⟩⟩

theorem Consuming.trading {now : Instant} {bytes rest : Bytes} {state next : Exchange wire}
    {job : Option (Job wire)} (hconsume : Consuming now bytes state next job rest) :
    Trading state next job := by
  cases hconsume with
  | fragment => exact .quiet (.of_eq rfl) (.of_eq rfl) rfl rfl rfl
  | frame hpush hcount hframe hmessage hstarted haccept =>
      cases haccept.trading with
      | quiet hactive houtput hissued hopened hexpires =>
          exact .quiet ⟨hactive.active, hactive.idle⟩ houtput hissued hopened hexpires
      | sent hsends =>
          exact .sent ⟨hsends.serial, hsends.issued, hsends.output, hsends.active, hsends.opened,
            hsends.fresh, hsends.expires⟩

theorem Resuming.trading {now : Instant} {deferred : Deferred wire} {state next : Exchange wire}
    {job : Option (Job wire)} (hresume : Resuming now deferred state next job)
    (houtput : state.output = none) : Trading state next job := by
  cases hresume with
  | cancelled hcancelled hrefusal =>
      exact .quiet (.of_eq rfl) (.of_refusal houtput rfl hrefusal) rfl rfl rfl
  | accepted hcancelled haccept => exact haccept.trading

end Exchange

/-- What the event tells about the receiving end of the command channel. -/
def Event.alive : Event wire → Option Bool
  | .frame alive => some alive
  | .commit alive => some alive
  | .resume alive => some alive
  | _ => none

namespace Loop

/-- What a reaction of the loop exchanges with the worker. -/
inductive Traffic (loop : Loop wire) : Event wire → Loop wire → Option (Command wire) → Prop where
  | quiet {event : Event wire} {next : Loop wire} {command : Option (Command wire)}
      (htrading : Exchange.Trading loop.exchange next.exchange none)
      (hdelivered : next.delivered = loop.delivered)
      (hcommand : command = none ∨ command = some .shutdown) : Traffic loop event next command
  | sent {event : Event wire} {next : Loop wire} {job : Job wire}
      (hsends : loop.exchange.Sends next.exchange job) (halive : event.alive = some true)
      (hdelivered : next.delivered = loop.delivered) :
      Traffic loop event next (some (.execute job))
  | answered {next : Loop wire} {active : Active} {ready answer : Ready wire}
      {output : Output wire} (hactive : loop.exchange.active = some active)
      (hanswer : Exchange.Answering active ready answer)
      (hidle : next.exchange.active = none) (houtput : next.exchange.output = some output)
      (hready : output.ready = answer) (hissued : next.exchange.issued = loop.exchange.issued)
      (hopened : next.exchange.opened = loop.exchange.opened)
      (hexpires : next.exchange.expires = loop.exchange.expires)
      (hdelivered : next.delivered = loop.delivered) :
      Traffic loop (.reply (some (.ok ready))) next none
  | flushed {alive : Bool} {next : Loop wire} {output : Output wire} (hlive : loop.Live)
      (houtput : loop.exchange.output = some output)
      (halive : output.ready.commit.isSome = true → alive = true)
      (hactive : loop.exchange.active = none ∧ next.exchange.active = none)
      (hnone : next.exchange.output = none)
      (hissued : next.exchange.issued = loop.exchange.issued)
      (hopened : next.exchange.opened = loop.exchange.opened)
      (hexpires : next.exchange.expires = loop.exchange.expires)
      (hdelivered : next.delivered = loop.delivered ++ [output]) :
      Traffic loop (.commit alive) next
        (output.ready.commit.map fun (expected, next) => .commit expected next)

theorem Traffic.same {loop next : Loop wire} {event : Event wire}
    {command : Option (Command wire)} (hactive : next.exchange.active = loop.exchange.active)
    (houtput : next.exchange.output = loop.exchange.output)
    (hissued : next.exchange.issued = loop.exchange.issued)
    (hopened : next.exchange.opened = loop.exchange.opened)
    (hexpires : next.exchange.expires = loop.exchange.expires)
    (hdelivered : next.delivered = loop.delivered)
    (hcommand : command = none ∨ command = some .shutdown) : Traffic loop event next command :=
  .quiet (.quiet (.of_eq hactive) (.of_eq houtput) hissued hopened hexpires) hdelivered hcommand

theorem Traffic.traded {loop next : Loop wire} {event : Event wire} {job : Option (Job wire)}
    (htrading : Exchange.Trading loop.exchange next.exchange job)
    (halive : job.isSome = true → event.alive = some true)
    (hdelivered : next.delivered = loop.delivered) :
    Traffic loop event next (job.map .execute) := by
  cases job with
  | none => exact .quiet htrading hdelivered (Or.inl rfl)
  | some job =>
      cases htrading with
      | sent hsends => exact .sent hsends (halive rfl) hdelivered

/-- An ended session stays ended. -/
theorem Reaction.live {loop next : Loop wire} {event : Event wire}
    {command : Option (Command wire)} (hreaction : Reaction loop event next command)
    (hnext : next.Live) : loop.Live := by
  cases hreaction with
  | ignored => exact hnext
  | failed => exact absurd rfl (hnext _)
  | stopped => exact absurd rfl (hnext _)
  | delivered => exact absurd rfl (hnext _)
  | farewell => exact absurd rfl (hnext _)
  | expiring hlive => exact hlive
  | selecting hphase => exact Live.of_phase hphase (by simp)
  | read hphase => exact Live.of_phase hphase (by simp)
  | frame hphase => exact Live.of_phase hphase (by simp)
  | reply hphase => exact Live.of_phase hphase (by simp)
  | wrote hphase => exact Live.of_phase hphase (by simp)
  | flushing hphase => exact Live.of_phase hphase (by simp)
  | committed hphase => exact Live.of_phase hphase (by simp)
  | resumed hphase => exact Live.of_phase hphase (by simp)
  | unasked hphase => exact Live.of_phase hphase (by simp)
  | timedOut hphase => exact Live.of_phase hphase (by simp)
  | joined hphase => exact Live.of_phase hphase (by simp)
  | drained hphase => exact Live.of_phase hphase (by simp)

theorem Reaction.traffic {loop next : Loop wire} {event : Event wire}
    {command : Option (Command wire)} (hreaction : Reaction loop event next command)
    (hloop : loop.Integral) : Traffic loop event next command := by
  cases hreaction with
  | expiring hlive hphase hexpired =>
      refine .quiet (.quiet ⟨?_, ?_⟩ (.of_eq rfl) rfl rfl rfl) rfl (Or.inr rfl)
      · intro active hactive
        obtain ⟨before, hbefore, rfl⟩ := Option.map_eq_some_iff.mp hactive
        exact ⟨before, hbefore, rfl, rfl, rfl⟩
      · exact Option.map_eq_none_iff.mp
  | frame hphase hconsume halive => exact .traded hconsume.trading (fun hsent => congrArg some (halive hsent)) rfl
  | reply hphase hactive houtput hanswer => exact .answered hactive hanswer rfl rfl rfl rfl rfl rfl rfl
  | wrote hphase houtput hcount hbound =>
      refine .quiet (.quiet (.of_eq rfl) ?_ rfl rfl rfl) rfl (Or.inl rfl)
      rintro _ ⟨⟩
      exact Or.inl ⟨_, houtput, rfl, rfl, rfl, rfl, rfl, Nat.le_add_right _ _, Or.inl rfl⟩
  | delivered hphase houtput halive hends =>
      have hlive := Live.of_phase hphase (by simp)
      have hidle := (hloop.exclusive hlive).active_of_output houtput
      exact .flushed hlive houtput halive ⟨hidle, hidle⟩ rfl rfl rfl rfl rfl
  | committed hphase houtput halive hends =>
      have hlive := Live.of_phase hphase (by simp)
      have hidle := (hloop.exclusive hlive).active_of_output houtput
      exact .flushed hlive houtput halive ⟨hidle, hidle⟩ rfl rfl rfl rfl rfl
  | resumed hphase hresume halive =>
      exact .traded (hresume.trading (hloop.resuming _ hphase).2)
        (fun hsent => congrArg some (halive hsent)) rfl
  | unasked hphase hactive houtput hexpired hdrain =>
      obtain ⟨ready, -, rfl⟩ := hdrain
      exact .same rfl rfl rfl rfl rfl rfl (Or.inl rfl)
  | timedOut hphase htimer hexpired hactive hcleanup =>
      refine .quiet (.quiet ⟨?_, nofun⟩ (.of_eq rfl) rfl rfl rfl) rfl (Or.inl rfl)
      rintro _ ⟨⟩
      exact ⟨_, hactive, rfl, rfl, rfl⟩
  | joined hphase hwhole hdrain =>
      obtain ⟨ready, -, rfl⟩ := hdrain
      exact .same rfl rfl rfl rfl rfl rfl (Or.inl rfl)
  | _ => exact .same rfl rfl rfl rfl rfl rfl (Or.inl rfl)

end Loop

end EliotSearch.Session
