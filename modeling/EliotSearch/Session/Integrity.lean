import EliotSearch.Session.Reactions

/-!
# Output integrity

The output slot and the bytes written.  An active operation and a pending output
never exist together, a request is deferred only behind an output, and the bytes
written are whole replies followed by the written part of the current one.
-/

namespace EliotSearch.Session

open EliotSearch.Library

variable {wire : Wire}

/-- The bytes of a reply that are written. -/
def Output.written (output : Output wire) : Bytes := output.ready.bytes.take output.cursor

namespace Exchange

/-- At most one of the active operation and the output exists, a request is
deferred only behind an output, and no more is written than there is. -/
structure Exclusive (state : Exchange wire) : Prop where
  slot : state.active = none ∨ state.output = none
  deferred : state.output = none → state.deferred = none
  bounded : ∀ output ∈ state.output, output.cursor ≤ output.ready.bytes.length

/-- The written part of the pending reply. -/
def written (state : Exchange wire) : Bytes := (state.output.map Output.written).getD []

theorem written_of_cursor {state : Exchange wire}
    (hcursor : ∀ output ∈ state.output, output.cursor = 0) : state.written = [] := by
  unfold written
  cases houtput : state.output with
  | none => rfl
  | some output =>
      have hzero := hcursor output houtput
      simp [Output.written, hzero]

/-- A change of the exchange that keeps what is written: a reply that is partly
written stays. -/
structure Keeps (state next : Exchange wire) : Prop where
  written : next.written = state.written
  output : ∀ output ∈ state.output, output.cursor ≠ 0 → next.output = some output

theorem Keeps.of_output {state next : Exchange wire} (hsame : next.output = state.output) :
    Keeps state next where
  written := congrArg (fun output => (output.map Output.written).getD []) hsame
  output _ houtput _ := hsame.trans houtput

theorem Keeps.of_cursor {state next : Exchange wire}
    (hstate : ∀ output ∈ state.output, output.cursor = 0)
    (hnext : ∀ output ∈ next.output, output.cursor = 0) : Keeps state next where
  written := (written_of_cursor hnext).trans (written_of_cursor hstate).symm
  output output houtput hcursor := absurd (hstate output houtput) hcursor

/-- A reply that takes the slot of an idle exchange. -/
theorem Exclusive.of_fresh {next : Exchange wire} {output : Output wire}
    (hactive : next.active = none) (houtput : next.output = some output)
    (hcursor : output.cursor = 0) : next.Exclusive where
  slot := Or.inl hactive
  deferred hnone := by
    rw [houtput] at hnone
    cases hnone
  bounded found hfound := by
    obtain rfl := Option.some.inj (houtput.symm.trans hfound)
    exact hcursor.trans_le (Nat.zero_le _)

theorem Keeps.of_fresh {state next : Exchange wire} {output : Output wire}
    (hstate : ∀ output ∈ state.output, output.cursor = 0)
    (houtput : next.output = some output) (hcursor : output.cursor = 0) : Keeps state next :=
  .of_cursor hstate fun found hfound => by
    obtain rfl := Option.some.inj (houtput.symm.trans hfound)
    exact hcursor

theorem cursor_of_none {state : Exchange wire} (houtput : state.output = none) :
    ∀ output ∈ state.output, output.cursor = 0 := by
  simp [houtput]

theorem Exclusive.output_of_active {state : Exchange wire} (hstate : state.Exclusive)
    {active : Active} (hactive : state.active = some active) : state.output = none := by
  rcases hstate.slot with hnone | hnone
  · rw [hactive] at hnone
    cases hnone
  · exact hnone

theorem exclusive_new : (new : Exchange wire).Exclusive where
  slot := Or.inl rfl
  deferred _ := rfl
  bounded _ hmem := by cases hmem

/-! ## Operations -/

theorem Cancelling.exclusive {now : Instant} {id : UInt64} {state next : Exchange wire}
    (hcancel : Cancelling now id state next) (hstate : state.Exclusive) :
    next.Exclusive ∧ Keeps state next := by
  cases hcancel with
  | late hcompleted hle => exact ⟨hstate, .of_output rfl⟩
  | deferred hdeferred hid hdata =>
      refine ⟨⟨hstate.slot, fun houtput => ?_, hstate.bounded⟩, .of_output rfl⟩
      rw [hstate.deferred houtput] at hdeferred
      cases hdeferred
  | active hactive hid =>
      have houtput := hstate.output_of_active hactive
      exact ⟨⟨Or.inr houtput, hstate.deferred, hstate.bounded⟩, .of_output rfl⟩
  | output hnew hactive houtput hid hcursor hready hreply =>
      refine ⟨.of_fresh hactive rfl hcursor, .of_fresh ?_ rfl hcursor⟩
      intro found hfound
      obtain rfl := Option.some.inj (houtput.symm.trans hfound)
      exact hcursor
  | idle hnew hactive houtput hrefusal =>
      exact ⟨.of_fresh hactive rfl hrefusal.cursor,
        .of_fresh (cursor_of_none houtput) rfl hrefusal.cursor⟩

theorem Accepting.exclusive {now started : Instant} {message : wire.Frame}
    {state next : Exchange wire} {job : Option (Job wire)}
    (haccept : Accepting now message started state next job) (hstate : state.Exclusive) :
    next.Exclusive ∧ Keeps state next := by
  cases haccept with
  | cancelled hkind hcancel => exact hcancel.exclusive hstate
  | duplicate hkind hle hactive houtput hrefusal =>
      exact ⟨.of_fresh hactive rfl hrefusal.cursor,
        .of_fresh (cursor_of_none houtput) rfl hrefusal.cursor⟩
  | deferred hkind hnew houtput hcursor hfree =>
      refine ⟨⟨hstate.slot, fun hnone => ?_, hstate.bounded⟩, .of_output rfl⟩
      rw [houtput] at hnone
      cases hnone
  | refused hdata hnew hactive houtput hrefusal =>
      exact ⟨.of_fresh rfl rfl hrefusal.cursor,
        .of_fresh (cursor_of_none houtput) rfl hrefusal.cursor⟩
  | @sent deferred _ _ _ _ hkind hnew hactive hfree hopening hdeadline =>
      have hcursor : ∀ output ∈ state.output, output.cursor = 0 := by
        rcases hfree with ⟨hnone, -⟩ | ⟨-, -, found, hfound, hcursor⟩
        · exact cursor_of_none hnone
        · intro output houtput
          obtain rfl := Option.some.inj (hfound.symm.trans houtput)
          exact hcursor
      have hdeferred : deferred = none := by
        rcases hfree with ⟨houtput, hsame⟩ | ⟨-, hnone, -⟩
        · exact hsame.trans (hstate.deferred houtput)
        · exact hnone
      exact ⟨⟨Or.inr rfl, fun _ => hdeferred, fun _ hmem => absurd hmem (Option.not_mem_none _)⟩,
        .of_cursor hcursor (cursor_of_none rfl)⟩

theorem Consuming.exclusive {now : Instant} {bytes rest : Bytes} {state next : Exchange wire}
    {job : Option (Job wire)} (hconsume : Consuming now bytes state next job rest)
    (hstate : state.Exclusive) : next.Exclusive ∧ Keeps state next := by
  cases hconsume with
  | fragment hpush hcount hframe =>
      exact ⟨⟨hstate.slot, hstate.deferred, hstate.bounded⟩, .of_output rfl⟩
  | frame hpush hcount hframe hmessage hstarted haccept =>
      obtain ⟨hnext, hkeeps⟩ := haccept.exclusive
        ⟨hstate.slot, hstate.deferred, hstate.bounded⟩
      exact ⟨hnext, hkeeps.written, hkeeps.output⟩

theorem Resuming.exclusive {now : Instant} {deferred : Deferred wire}
    {state next : Exchange wire} {job : Option (Job wire)}
    (hresume : Resuming now deferred state next job) (hstate : state.Exclusive)
    (hactive : state.active = none) (houtput : state.output = none) :
    next.Exclusive ∧ Keeps state next := by
  cases hresume with
  | cancelled hcancelled hrefusal =>
      exact ⟨.of_fresh hactive rfl hrefusal.cursor,
        .of_fresh (cursor_of_none houtput) rfl hrefusal.cursor⟩
  | accepted hcancelled haccept => exact haccept.exclusive hstate

theorem Exclusive.cancelActive {state : Exchange wire} (hstate : state.Exclusive) :
    state.cancelActive.Exclusive where
  slot := by
    rcases hstate.slot with hnone | hnone
    · exact Or.inl (by simp [Exchange.cancelActive, hnone])
    · exact Or.inr hnone
  deferred := hstate.deferred
  bounded := hstate.bounded

end Exchange

/-! ## The loop -/

namespace Loop

/-- The written part of the reply that is not written whole. -/
def unfinished (loop : Loop wire) : Bytes :=
  match loop.farewell with
  | some (ready, cursor) => ready.bytes.take cursor
  | none => loop.exchange.written

/-- The bytes of the replies flushed so far. -/
def whole (loop : Loop wire) : Bytes :=
  loop.delivered.flatMap fun output => output.ready.bytes

/-- The invariant of the output: the exchange of a live session is exclusive, a
reply is committed when it is written, a farewell follows no partial reply, and
the bytes written are accounted for. -/
structure Integral (loop : Loop wire) : Prop where
  exclusive : loop.Live → loop.exchange.Exclusive
  flushing : loop.phase = .flushing → ∃ output, loop.exchange.output = some output ∧
    output.cursor = output.ready.bytes.length
  resuming : ∀ deferred, loop.phase = .resuming deferred →
    loop.exchange.active = none ∧ loop.exchange.output = none
  farewell : ∀ ready cursor, loop.farewell = some (ready, cursor) →
    loop.exchange.written = [] ∧ ((∃ limit, loop.phase = .draining limit) ∨ ¬ loop.Live)
  stdout : loop.stdout = loop.whole ++ loop.unfinished

theorem not_live_finish (loop : Loop wire) (result : Except SessionError Unit) :
    ¬ (loop.finish result).Live :=
  fun hlive => hlive result rfl

theorem Integral.finish {loop : Loop wire} (hloop : loop.Integral)
    (result : Except SessionError Unit) : (loop.finish result).Integral where
  exclusive hlive := absurd hlive (loop.not_live_finish result)
  flushing hphase := by cases hphase
  resuming _ hphase := by cases hphase
  farewell ready cursor hfarewell :=
    ⟨(hloop.farewell ready cursor hfarewell).1, Or.inr (loop.not_live_finish result)⟩
  stdout := hloop.stdout

/-- A session that is live and not draining has written no farewell. -/
theorem Integral.farewell_eq_none {loop : Loop wire} (hloop : loop.Integral) (hlive : loop.Live)
    (hphase : ∀ limit, loop.phase ≠ .draining limit) : loop.farewell = none := by
  cases hfarewell : loop.farewell with
  | none => rfl
  | some farewell =>
      obtain ⟨-, ⟨limit, hdraining⟩ | hended⟩ := hloop.farewell farewell.1 farewell.2 hfarewell
      · exact absurd hdraining (hphase limit)
      · exact absurd hlive hended

theorem unfinished_of_none {loop : Loop wire} (hfarewell : loop.farewell = none) :
    loop.unfinished = loop.exchange.written := by
  simp only [unfinished, hfarewell]

/-- A step between two live states before any farewell, which only has to keep
the exchange exclusive and account for what it wrote. -/
theorem Integral.next {loop next : Loop wire} (hloop : loop.Integral) (hlive : loop.Live)
    (hbefore : ∀ limit, loop.phase ≠ .draining limit) (hfarewell : next.farewell = loop.farewell)
    (hexclusive : next.exchange.Exclusive)
    (hflushing : next.phase = .flushing → ∃ output, next.exchange.output = some output ∧
      output.cursor = output.ready.bytes.length)
    (hresuming : ∀ deferred, next.phase = .resuming deferred →
      next.exchange.active = none ∧ next.exchange.output = none)
    (hstdout : loop.stdout = loop.whole ++ loop.exchange.written →
      next.stdout = next.whole ++ next.exchange.written) : next.Integral := by
  have hnone := hloop.farewell_eq_none hlive hbefore
  refine ⟨fun _ => hexclusive, hflushing, hresuming, ?_, ?_⟩
  · intro ready cursor hsome
    rw [hfarewell, hnone] at hsome
    cases hsome
  · rw [unfinished_of_none (hfarewell.trans hnone)]
    apply hstdout
    rw [hloop.stdout, unfinished_of_none hnone]

/-- An output that is flushed is written whole. -/
theorem Integral.delivers {loop : Loop wire} (hloop : loop.Integral)
    (hphase : loop.phase = .flushing) {output : Output wire}
    (houtput : loop.exchange.output = some output)
    (hstdout : loop.stdout = loop.whole ++ loop.exchange.written) :
    loop.stdout =
      (loop.delivered ++ [output]).flatMap (fun output => output.ready.bytes) ++ [] := by
  obtain ⟨found, hfound, hcursor⟩ := hloop.flushing hphase
  obtain rfl := Option.some.inj (houtput.symm.trans hfound)
  have hwritten : loop.exchange.written = output.ready.bytes := by
    simp only [Exchange.written, houtput, Option.map_some, Option.getD_some, Output.written,
      hcursor, List.take_length]
  rw [hstdout, hwritten, List.flatMap_append, List.append_nil]
  simp [whole]

theorem Integral.drains {loop next : Loop wire} (hloop : loop.Integral) {id : UInt64}
    (hlive : loop.Live) (hbefore : ∀ limit, loop.phase ≠ .draining limit)
    (hwritten : loop.exchange.written = []) (hdrain : Drains id loop next) : next.Integral := by
  obtain ⟨ready, -, rfl⟩ := hdrain
  refine ⟨fun _ => hloop.exclusive hlive, nofun, nofun, ?_, ?_⟩
  · intro _ _ _
    exact ⟨hwritten, Or.inl ⟨_, rfl⟩⟩
  · have hstdout := hloop.stdout
    rw [unfinished_of_none (hloop.farewell_eq_none hlive hbefore), hwritten] at hstdout
    exact hstdout

/-- Every reaction keeps the output integral. -/
theorem Reaction.integral {loop next : Loop wire} {event : Event wire}
    {command : Option (Command wire)} (hreaction : Reaction loop event next command)
    (hloop : loop.Integral) : next.Integral := by
  cases hreaction with
  | ignored => exact hloop
  | failed hfailing => exact hloop.finish _
  | selecting hphase =>
      have hlive := Live.of_phase hphase (by simp)
      exact hloop.next hlive (by simp [hphase]) rfl (hloop.exclusive hlive)
        nofun nofun id
  | expiring hlive hphase hexpired =>
      refine hloop.next hlive ?_ rfl (hloop.exclusive hlive).cancelActive
        nofun nofun id
      intro limit hdraining
      rcases hphase with htop | ⟨deadline, hselecting⟩
      · rw [htop] at hdraining
        cases hdraining
      · rw [hselecting] at hdraining
        cases hdraining
  | stopped hphase => exact hloop.finish _
  | read hphase hchunk =>
      have hlive := Live.of_phase hphase (by simp)
      exact hloop.next hlive (by simp [hphase]) rfl (hloop.exclusive hlive)
        nofun nofun id
  | frame hphase hconsume halive =>
      have hlive := Live.of_phase hphase (by simp)
      obtain ⟨hexclusive, hkeeps⟩ := hconsume.exclusive (hloop.exclusive hlive)
      refine hloop.next hlive (by simp [hphase]) rfl hexclusive ?_ ?_ ?_
      · intro hflushing
        dsimp only at hflushing
        split at hflushing <;> cases hflushing
      · intro deferred hresuming
        dsimp only at hresuming
        split at hresuming <;> cases hresuming
      · intro hstdout
        exact hstdout.trans (congrArg _ hkeeps.written.symm)
  | reply hphase hactive houtput hanswer =>
      have hlive := Live.of_phase hphase (by simp)
      refine hloop.next hlive (by simp [hphase]) rfl (.of_fresh rfl rfl rfl)
        nofun nofun ?_
      intro hstdout
      rw [Exchange.written_of_cursor (Exchange.cursor_of_none houtput)] at hstdout
      exact hstdout
  | @wrote _ _ output hphase houtput hcount hbound =>
      have hlive := Live.of_phase hphase (by simp)
      have hexclusive := hloop.exclusive hlive
      refine hloop.next hlive (by simp [hphase]) rfl ⟨?_, nofun, ?_⟩
        nofun nofun ?_
      · refine Or.inl (hexclusive.slot.resolve_right ?_)
        rw [houtput]
        exact fun h => by cases h
      · rintro _ ⟨⟩
        exact hbound
      · intro hstdout
        have hwritten : loop.exchange.written = output.written := by
          simp only [Exchange.written, houtput, Option.map_some, Option.getD_some]
        change loop.stdout ++ _ = loop.whole ++ _
        rw [hstdout, hwritten, List.append_assoc]
        exact congrArg _ List.take_add.symm
  | flushing hphase houtput hcursor hexpired =>
      have hlive := Live.of_phase hphase (by simp)
      exact hloop.next hlive (by simp [hphase]) rfl (hloop.exclusive hlive)
        (fun _ => ⟨_, houtput, hcursor⟩) nofun id
  | delivered hphase houtput halive hends =>
      have hlive := Live.of_phase hphase (by simp)
      have hstdout := hloop.stdout
      have hnone := hloop.farewell_eq_none hlive (by simp [hphase])
      rw [unfinished_of_none hnone] at hstdout
      refine ⟨fun h => absurd rfl (h _), nofun, nofun, ?_, ?_⟩
      · intro ready cursor hsome
        change loop.farewell = _ at hsome
        rw [hnone] at hsome
        cases hsome
      · refine (hloop.delivers hphase houtput hstdout).trans (congrArg _ ?_)
        have hempty : unfinished { loop with
            exchange := { loop.exchange with output := none } } = [] := unfinished_of_none hnone
        exact hempty.symm
  | committed hphase houtput halive hends =>
      have hlive := Live.of_phase hphase (by simp)
      have hexclusive := hloop.exclusive hlive
      have hactive : loop.exchange.active = none := by
        refine hexclusive.slot.resolve_right ?_
        rw [houtput]
        exact fun h => by cases h
      refine hloop.next hlive (by simp [hphase]) rfl
        ⟨Or.inr rfl, fun _ => rfl, fun _ hmem => absurd hmem (Option.not_mem_none _)⟩ ?_ ?_
        (hloop.delivers hphase houtput)
      · intro hflushing
        dsimp only at hflushing
        split at hflushing <;> cases hflushing
      · exact fun _ _ => ⟨hactive, rfl⟩
  | resumed hphase hresume halive =>
      have hlive := Live.of_phase hphase (by simp)
      obtain ⟨hactive, houtput⟩ := hloop.resuming _ hphase
      obtain ⟨hexclusive, hkeeps⟩ := hresume.exclusive (hloop.exclusive hlive) hactive houtput
      refine hloop.next hlive (by simp [hphase]) rfl hexclusive nofun
        nofun ?_
      intro hstdout
      exact hstdout.trans (congrArg _ hkeeps.written.symm)
  | unasked hphase hactive houtput hexpired hdrain =>
      exact hloop.drains (Live.of_phase hphase (by simp)) (by simp [hphase])
        (Exchange.written_of_cursor (Exchange.cursor_of_none houtput)) hdrain
  | timedOut hphase htimer hexpired hactive hcleanup =>
      have hlive := Live.of_phase hphase (by simp)
      have hexclusive := hloop.exclusive hlive
      have houtput := hexclusive.output_of_active hactive
      exact hloop.next hlive (by simp [hphase]) rfl
        ⟨Or.inr houtput, hexclusive.deferred, hexclusive.bounded⟩
        nofun nofun id
  | joined hphase hwhole hdrain =>
      exact hloop.drains (Live.of_phase hphase (by simp)) (by simp [hphase])
        (Exchange.written_of_cursor hwhole) hdrain
  | drained hphase hfarewell hcount hbound =>
      have hlive := Live.of_phase hphase (by simp)
      obtain ⟨hwritten, -⟩ := hloop.farewell _ _ hfarewell
      refine ⟨fun _ => hloop.exclusive hlive, fun h => ?_, fun _ h => ?_, ?_, ?_⟩
      · rw [hphase] at h
        cases h
      · rw [hphase] at h
        cases h
      · exact fun _ _ _ => ⟨hwritten, Or.inl ⟨_, hphase⟩⟩
      · have hstdout := hloop.stdout
        simp only [unfinished, hfarewell] at hstdout
        change loop.stdout ++ _ = loop.whole ++ _
        rw [hstdout, List.append_assoc]
        exact congrArg _ List.take_add.symm
  | farewell hphase hfarewell hcursor => exact hloop.finish _

theorem integral_start (clock : Instant) : (start clock : Loop wire).Integral where
  exclusive _ := Exchange.exclusive_new
  flushing hphase := by cases hphase
  resuming _ hphase := by cases hphase
  farewell _ _ hfarewell := by cases hfarewell
  stdout := rfl

theorem Integral.advance {loop : Loop wire} (hloop : loop.Integral) (tick : Tick wire) :
    (loop.advance tick).Integral :=
  ⟨hloop.exclusive, hloop.flushing, hloop.resuming, hloop.farewell, hloop.stdout⟩

theorem Integral.after {loop : Loop wire} (hloop : loop.Integral) (tick : Tick wire) :
    (loop.after tick).Integral :=
  (react_reaction (loop.advance tick) tick.event).integral (hloop.advance tick)

theorem integral_run (clock : Instant) (ticks : List (Tick wire)) :
    (run clock ticks).Integral :=
  Runs.run_invariant (integral_start clock) (fun _ tick hloop => hloop.after tick) ticks

/-! ## Partial replies -/

/-- A reply of which something is written stays in its slot, or is written whole
after the given bytes before anything else is. -/
def Holds (before : Bytes) (output : Output wire) (loop : Loop wire) : Prop :=
  (∃ cursor, output.cursor ≤ cursor ∧ cursor < output.ready.bytes.length ∧
    loop.exchange.output = some { output with cursor } ∧
    loop.stdout = before ++ output.ready.bytes.take cursor) ∨
  before ++ output.ready.bytes <+: loop.stdout

theorem Reaction.stdout {loop next : Loop wire} {event : Event wire}
    {command : Option (Command wire)} (hreaction : Reaction loop event next command) :
    loop.stdout <+: next.stdout := by
  cases hreaction with
  | wrote => exact List.prefix_append _ _
  | drained => exact List.prefix_append _ _
  | unasked hphase hactive houtput hexpired hdrain =>
      obtain ⟨ready, -, rfl⟩ := hdrain
      exact List.prefix_rfl
  | joined hphase hwhole hdrain =>
      obtain ⟨ready, -, rfl⟩ := hdrain
      exact List.prefix_rfl
  | _ => exact List.prefix_rfl

/-- A reaction keeps a partly written reply, or completes it. -/
theorem Reaction.holds {loop next : Loop wire} {event : Event wire}
    {command : Option (Command wire)} {before : Bytes} {output : Output wire}
    (hreaction : Reaction loop event next command) (hloop : loop.Integral)
    (hcursor : 0 < output.cursor) (hholds : loop.Holds before output) :
    next.Holds before output := by
  rcases hholds with ⟨cursor, hle, hshort, houtput, hstdout⟩ | hwhole
  swap
  · exact Or.inr (hwhole.trans hreaction.stdout)
  have hpositive : cursor ≠ 0 := (hcursor.trans_le hle).ne'
  have hstays {exchange : Exchange wire} (hkeeps : Exchange.Keeps loop.exchange exchange) :
      exchange.output = some { output with cursor } :=
    hkeeps.output _ houtput hpositive
  have hunflushed (hphase : loop.phase = .flushing) : False := by
    obtain ⟨found, hfound, hwhole⟩ := hloop.flushing hphase
    obtain rfl := Option.some.inj (houtput.symm.trans hfound)
    exact hshort.ne hwhole
  cases hreaction with
  | frame hphase hconsume halive =>
      obtain ⟨-, hkeeps⟩ := hconsume.exclusive
        (hloop.exclusive (Live.of_phase hphase (by simp)))
      exact Or.inl ⟨cursor, hle, hshort, hstays hkeeps, hstdout⟩
  | reply hphase hactive hnone hanswer =>
      rw [hnone] at houtput
      cases houtput
  | @wrote _ count _ hphase hfound hcount hbound =>
      obtain rfl := Option.some.inj (hfound.symm.trans houtput)
      have hwritten : loop.stdout ++ (output.ready.bytes.drop cursor).take count =
          before ++ output.ready.bytes.take (cursor + count) := by
        rw [hstdout, List.append_assoc, List.take_add]
      rcases hbound.lt_or_eq with hlt | heq
      · exact Or.inl ⟨cursor + count, hle.trans (Nat.le_add_right _ _), hlt, rfl, hwritten⟩
      · rw [heq, List.take_length] at hwritten
        exact Or.inr ⟨[], by rw [List.append_nil, ← hwritten]⟩
  | delivered hphase hfound halive hends => exact (hunflushed hphase).elim
  | committed hphase hfound halive hends => exact (hunflushed hphase).elim
  | resumed hphase hresume halive =>
      rw [(hloop.resuming _ hphase).2] at houtput
      cases houtput
  | unasked hphase hactive hnone hexpired hdrain =>
      rw [hnone] at houtput
      cases houtput
  | joined hphase hwhole hdrain =>
      exact absurd (hwhole _ houtput) hpositive
  | drained hphase hfarewell hcount hbound =>
      obtain ⟨hwritten, -⟩ := hloop.farewell _ _ hfarewell
      simp only [Exchange.written, houtput, Option.map_some, Option.getD_some, Output.written,
        List.take_eq_nil_iff] at hwritten
      rcases hwritten with hzero | hempty
      · exact absurd hzero hpositive
      · rw [hempty] at hshort
        cases hshort
  | _ => exact Or.inl ⟨cursor, hle, hshort, houtput, hstdout⟩

theorem Integral.holds {loop : Loop wire} (hloop : loop.Integral) {output : Output wire}
    (houtput : loop.exchange.output = some output) (hcursor : 0 < output.cursor)
    (hshort : output.cursor < output.ready.bytes.length) : loop.Holds loop.whole output := by
  have hwritten : loop.exchange.written = output.written := by
    simp only [Exchange.written, houtput, Option.map_some, Option.getD_some]
  have hnone : loop.farewell = none := by
    cases hfarewell : loop.farewell with
    | none => rfl
    | some farewell =>
        obtain ⟨hempty, -⟩ := hloop.farewell farewell.1 farewell.2 hfarewell
        rw [hwritten, Output.written, List.take_eq_nil_iff] at hempty
        rcases hempty with hzero | hbytes
        · exact absurd hzero hcursor.ne'
        · rw [hbytes] at hshort
          cases hshort
  refine Or.inl ⟨output.cursor, le_rfl, hshort, houtput, ?_⟩
  rw [hloop.stdout, unfinished_of_none hnone, hwritten, Output.written]

/-- The output of a session over every run: while it is live an operation is
active only when nothing is pending and a request is deferred only behind a
pending reply; the bytes written are whole replies and the written part of the
current one; and a partly written reply stays until it is written whole. -/
theorem output_integrity (clock : Instant) (ticks : List (Tick wire)) :
    ((run clock ticks).Live →
      ((run clock ticks).exchange.active = none ∨ (run clock ticks).exchange.output = none) ∧
      ((run clock ticks).exchange.output = none → (run clock ticks).exchange.deferred = none)) ∧
    (run clock ticks).stdout = (run clock ticks).whole ++ (run clock ticks).unfinished ∧
    ∀ output, (run clock ticks).exchange.output = some output → 0 < output.cursor →
      output.cursor < output.ready.bytes.length → ∀ later : List (Tick wire),
        (run clock (ticks ++ later)).Holds (run clock ticks).whole output := by
  have hloop : (run clock ticks : Loop wire).Integral := integral_run clock ticks
  refine ⟨fun hlive => ?_, hloop.stdout, ?_⟩
  · have hexclusive := hloop.exclusive hlive
    exact ⟨hexclusive.slot, hexclusive.deferred⟩
  · intro output houtput hcursor hshort later
    rw [run_append]
    have hboth : ∀ (loop : Loop wire) (tick : Tick wire),
        loop.Integral ∧ loop.Holds (run clock ticks).whole output →
          (loop.after tick).Integral ∧ (loop.after tick).Holds (run clock ticks).whole output := by
      rintro loop tick ⟨hintegral, hholds⟩
      exact ⟨hintegral.after tick,
        (react_reaction (loop.advance tick) tick.event).holds (hintegral.advance tick) hcursor
          hholds⟩
    exact (Runs.run_invariant ⟨hloop, hloop.holds houtput hcursor hshort⟩ hboth later).2

end Loop

end EliotSearch.Session
