import EliotSearch.Library.SerialDispatch

/-!
# Calls to a remote target

A step that is in flight is carried out by one call, which sends the requests of
its step one after the other.  The target applies a request or refuses it and
answers; a call may be lost at any time, and what it had sent stays underway and
may still arrive.  A call is concluded as applied when every request was answered
as applied, and as refused when none was.

Under serial dispatch a target with nothing in flight has applied the requests of
its applied steps, in order and nothing else, and nothing is underway to it.
-/

namespace EliotSearch.Library

namespace RemoteCalls

open SerialDispatch

/-- How far a call got: `done` requests were answered as applied, and the next one
is not yet sent, underway, or handled and not yet answered. -/
inductive Stage where
  | ready (done : ℕ)
  | sent (done : ℕ)
  | handled (done : ℕ) (applied : Bool)
  deriving DecidableEq

namespace Stage

/-- The number of requests that the target applied. -/
def landed : Stage → ℕ
  | ready done => done
  | sent done => done
  | handled done applied => if applied then done + 1 else done

/-- The stage of a call with so many requests. -/
def Within (count : ℕ) : Stage → Prop
  | ready done => done ≤ count
  | sent done => done < count
  | handled done _ => done < count

/-- What a call with so many requests may be concluded with. -/
def Concludes (count : ℕ) (stage : Stage) : Bool → Prop
  | true => stage = .ready count
  | false => stage = .ready 0 ∨ stage = .handled 0 false

instance (count : ℕ) (stage : Stage) (applied : Bool) :
    Decidable (stage.Concludes count applied) := by
  cases applied <;> unfold Concludes <;> infer_instance

theorem landed_of_concludes {count : ℕ} {stage : Stage} {applied : Bool}
    (hconcludes : stage.Concludes count applied) :
    stage.landed = if applied then count else 0 := by
  cases applied with
  | true =>
      have hready : stage = .ready count := hconcludes
      rw [hready]
      rfl
  | false =>
      rcases hconcludes with hready | hrefused
      · rw [hready]
        rfl
      · rw [hrefused]
        rfl

end Stage

variable {ρ : Type}

/-- A call that carries out one step. -/
structure Call (ρ : Type) where
  step : ℕ
  revision : ℕ
  requests : List ρ
  stage : Stage

/-- The request that a call has underway. -/
def Call.underway (call : Call ρ) : Option ρ :=
  match call.stage with
  | .sent done => call.requests[done]?
  | _ => none

theorem Call.underway_of_concludes {call : Call ρ} {count : ℕ} {applied : Bool}
    (hconcludes : call.stage.Concludes count applied) : call.underway = none := by
  cases applied with
  | true =>
      have hready : call.stage = .ready count := hconcludes
      rw [Call.underway, hready]
  | false =>
      rcases hconcludes with hready | hrefused
      · rw [Call.underway, hready]
      · rw [Call.underway, hrefused]

/-- One target: the steps recorded for it, the calls to it, the requests that lost
calls left underway, and what it applied. -/
structure Target (ρ : Type) where
  progress : Progress
  calls : List (Call ρ)
  stray : List ρ
  log : List ρ

/-- What the target adds to its log when it handles a request. -/
def effect (request : ρ) (applied : Bool) : List ρ := if applied then [request] else []

/-- The requests of the first steps. -/
def planned (plan : ℕ → List ρ) (count : ℕ) : List ρ := (List.range count).flatMap plan

theorem planned_succ (plan : ℕ → List ρ) (count : ℕ) :
    planned plan (count + 1) = planned plan count ++ plan count := by
  rw [planned, List.range_succ, List.flatMap_append, List.flatMap_singleton, planned]

/-- One step of the protocol of a target. -/
inductive Step (target : Target ρ) : Target ρ → Prop
  | begin {step revision : ℕ} {after : Progress} (requests : List ρ)
      (next : target.progress.next (.recorded step revision) = some after) :
      Step target { target with
        progress := after, calls := target.calls ++ [⟨step, revision, requests, .ready 0⟩] }
  | record {step revision : ℕ} {after : Progress}
      (next : target.progress.next (.recorded step revision) = some after) :
      Step target { target with progress := after }
  | send {index done : ℕ} {call : Call ρ} (found : target.calls[index]? = some call)
      (stage : call.stage = .ready done) (more : done < call.requests.length) :
      Step target { target with
        calls := target.calls.set index { call with stage := .sent done } }
  | handle {index done : ℕ} {call : Call ρ} {request : ρ} (applied : Bool)
      (found : target.calls[index]? = some call) (stage : call.stage = .sent done)
      (underway : call.requests[done]? = some request) :
      Step target { target with
        calls := target.calls.set index { call with stage := .handled done applied }
        log := target.log ++ effect request applied }
  | answer {index done : ℕ} {call : Call ρ} (found : target.calls[index]? = some call)
      (stage : call.stage = .handled done true) :
      Step target { target with
        calls := target.calls.set index { call with stage := .ready (done + 1) } }
  | settle {index : ℕ} {call : Call ρ} {applied : Bool} {after : Progress}
      (found : target.calls[index]? = some call)
      (concludes : call.stage.Concludes call.requests.length applied)
      (next : target.progress.next (.settled call.step call.revision applied) = some after) :
      Step target { target with progress := after, calls := target.calls.eraseIdx index }
  | lose {index : ℕ} {call : Call ρ} (found : target.calls[index]? = some call) :
      Step target { target with
        calls := target.calls.eraseIdx index, stray := target.stray ++ call.underway.toList }
  | arrive {index : ℕ} {request : ρ} (applied : Bool)
      (found : target.stray[index]? = some request) :
      Step target { target with
        stray := target.stray.eraseIdx index, log := target.log ++ effect request applied }

/-! ## One call at a time -/

/-- The step in flight has at most one call, and without a step in flight nothing is
underway. -/
structure Serial (target : Target ρ) : Prop where
  single : target.calls.length ≤ 1
  calling : ∀ call ∈ target.calls, target.progress.inFlight = some (call.step, call.revision) ∧
    call.stage.Within call.requests.length ∧ target.stray = []
  stray : target.stray ≠ [] → target.progress.inFlight ≠ none
  counted : ∀ step revision, target.progress.inFlight = some (step, revision) →
    step = target.progress.applied ∧ target.progress.revision ≠ 0
  untouched : target.progress.revision = 0 → target.log = []

/-- What holds while nothing is in flight. -/
theorem Serial.idle {target : Target ρ} (hserial : Serial target)
    (hidle : target.progress.inFlight = none) : target.calls = [] ∧ target.stray = [] := by
  constructor
  · rw [List.eq_nil_iff_forall_not_mem]
    intro call hmem
    have hcalling := (hserial.calling call hmem).1
    rw [hidle] at hcalling
    cases hcalling
  · by_contra hstray
    exact hserial.stray hstray hidle

theorem only_call {calls : List (Call ρ)} (hsingle : calls.length ≤ 1) {index : ℕ} {call : Call ρ}
    (hfound : calls[index]? = some call) : calls = [call] ∧ index = 0 := by
  obtain ⟨hindex, hcall⟩ := List.getElem?_eq_some_iff.mp hfound
  obtain ⟨only, rfl⟩ := List.length_eq_one_iff.mp (by omega : calls.length = 1)
  have hzero : index = 0 := by
    rw [List.length_singleton] at hindex
    omega
  subst hzero
  exact ⟨congrArg (fun call => [call]) hcall, rfl⟩

/-- A call in progress at the target. -/
structure InProgress (target : Target ρ) (index : ℕ) (call : Call ρ) : Prop where
  only : target.calls = [call]
  index_eq : index = 0
  inFlight : target.progress.inFlight = some (call.step, call.revision)
  within : call.stage.Within call.requests.length
  stray : target.stray = []
  step_eq : call.step = target.progress.applied
  counted : target.progress.revision ≠ 0

theorem Serial.inProgress {target : Target ρ} (hserial : Serial target) {index : ℕ} {call : Call ρ}
    (hfound : target.calls[index]? = some call) : InProgress target index call := by
  obtain ⟨honly, hindex⟩ := only_call hserial.single hfound
  have hmem : call ∈ target.calls := List.mem_of_getElem? hfound
  obtain ⟨hinFlight, hwithin, hstray⟩ := hserial.calling call hmem
  obtain ⟨hstep, hcounted⟩ := hserial.counted _ _ hinFlight
  exact ⟨honly, hindex, hinFlight, hwithin, hstray, hstep, hcounted⟩

/-- Behind a request that a lost call left there is no call. -/
theorem Serial.of_stray {target : Target ρ} (hserial : Serial target) (hsome : target.stray ≠ []) :
    target.calls = [] ∧ target.progress.inFlight ≠ none ∧ target.progress.revision ≠ 0 := by
  have hinFlight := hserial.stray hsome
  refine ⟨?_, hinFlight, ?_⟩
  · rw [List.eq_nil_iff_forall_not_mem]
    exact fun call hmem => hsome (hserial.calling call hmem).2.2
  · obtain ⟨entry, hentry⟩ := Option.ne_none_iff_exists'.mp hinFlight
    exact (hserial.counted _ _ hentry).2

/-- A call goes on to another stage. -/
theorem Serial.advance {target : Target ρ} {index : ℕ} {call : Call ρ} (hserial : Serial target)
    (hcall : InProgress target index call) (stage : Stage)
    (hwithin : stage.Within call.requests.length) (log : List ρ) :
    Serial { target with calls := target.calls.set index { call with stage }, log } := by
  obtain ⟨honly, rfl, hinFlight, -, hstray, -, hcounted⟩ := hcall
  refine ⟨?_, ?_, ?_, hserial.counted, ?_⟩
  · simp [honly]
  · intro found hmem
    rw [honly] at hmem
    obtain rfl : found = { call with stage } := by simpa using hmem
    exact ⟨hinFlight, hwithin, hstray⟩
  · exact fun hsome => absurd hstray hsome
  · exact fun hzero => absurd hzero hcounted

/-- The log of a touched target may be anything. -/
theorem Serial.relog {target : Target ρ} (hserial : Serial target) {log : List ρ}
    (hlog : target.progress.revision = 0 → log = []) : Serial { target with log } :=
  ⟨hserial.single, hserial.calling, hserial.stray, hserial.counted, hlog⟩

variable {plan : ℕ → List ρ} {target next : Target ρ}

theorem Serial.step (hserial : Serial target) (hstep : Step target next) : Serial next := by
  cases hstep with
  | begin requests hnext =>
      obtain ⟨hidle, hstep, hrevision, rfl⟩ := next_recorded.mp hnext
      obtain ⟨hcalls, hstray⟩ := hserial.idle hidle
      refine ⟨?_, ?_, ?_, ?_, ?_⟩
      · simp [hcalls]
      · intro call hmem
        rw [hcalls] at hmem
        obtain rfl := List.mem_singleton.mp hmem
        exact ⟨rfl, Nat.zero_le _, hstray⟩
      · exact fun _ => Option.some_ne_none _
      · rintro _ _ ⟨⟩
        exact ⟨hstep, by simp [hrevision]⟩
      · exact fun hzero => absurd hzero (by simp [hrevision])
  | record hnext =>
      obtain ⟨hidle, hstep, hrevision, rfl⟩ := next_recorded.mp hnext
      obtain ⟨hcalls, -⟩ := hserial.idle hidle
      refine ⟨hserial.single, ?_, ?_, ?_, ?_⟩
      · intro call hmem
        rw [hcalls] at hmem
        cases hmem
      · exact fun _ => Option.some_ne_none _
      · rintro _ _ ⟨⟩
        exact ⟨hstep, by simp [hrevision]⟩
      · exact fun hzero => absurd hzero (by simp [hrevision])
  | send found stage more =>
      exact hserial.advance (hserial.inProgress found) (.sent _) more target.log
  | handle applied found stage underway =>
      exact hserial.advance (hserial.inProgress found) (.handled _ applied)
        (List.getElem?_eq_some_iff.mp underway).1 _
  | answer found stage =>
      have hcall := hserial.inProgress found
      refine hserial.advance hcall (.ready _) ?_ target.log
      have hwithin := hcall.within
      rw [stage] at hwithin
      exact hwithin
  | settle found concludes hnext =>
      obtain ⟨honly, rfl, -, -, hstray, -, hcounted⟩ := hserial.inProgress found
      obtain ⟨-, rfl⟩ := next_settled.mp hnext
      refine ⟨?_, ?_, ?_, ?_, ?_⟩
      · simp [honly]
      · intro call hmem
        simp [honly] at hmem
      · exact fun hsome => absurd hstray hsome
      · rintro _ _ ⟨⟩
      · exact fun hzero => absurd hzero hcounted
  | lose found =>
      obtain ⟨honly, rfl, hinFlight, -, -, -, hcounted⟩ := hserial.inProgress found
      refine ⟨?_, ?_, ?_, hserial.counted, ?_⟩
      · simp [honly]
      · intro call hmem
        simp [honly] at hmem
      · intro _ hidle
        rw [hinFlight] at hidle
        cases hidle
      · exact fun hzero => absurd hzero hcounted
  | arrive applied found =>
      have hsome : target.stray ≠ [] := List.ne_nil_of_mem (List.mem_of_getElem? found)
      obtain ⟨hcalls, hinFlight, hcounted⟩ := hserial.of_stray hsome
      refine ⟨hserial.single, ?_, ?_, hserial.counted, ?_⟩
      · intro call hmem
        rw [hcalls] at hmem
        cases hmem
      · exact fun _ => hinFlight
      · exact fun hzero => absurd hzero hcounted

/-- A target with nothing in flight begins a step or does nothing. -/
theorem Serial.step_of_idle (hserial : Serial target) (hidle : target.progress.inFlight = none)
    (hstep : Step target next) : next.log = target.log := by
  obtain ⟨hcalls, hstray⟩ := hserial.idle hidle
  have hnone : ∀ {index : ℕ} {call : Call ρ}, target.calls[index]? ≠ some call := by
    intro index call hfound
    rw [hcalls] at hfound
    cases hfound
  cases hstep with
  | begin => rfl
  | record => rfl
  | send found => exact absurd found hnone
  | handle applied found => exact absurd found hnone
  | answer found => exact absurd found hnone
  | settle found => exact absurd found hnone
  | lose found => exact absurd found hnone
  | arrive applied found =>
      rw [hstray] at found
      cases found

/-- Only a step in flight adds to the log. -/
theorem Serial.log_step (hserial : Serial target) (hstep : Step target next) :
    next.log = target.log ∨ target.progress.inFlight ≠ none := by
  by_cases hidle : target.progress.inFlight = none
  · exact Or.inl (hserial.step_of_idle hidle hstep)
  · exact Or.inr hidle

/-! ## What the target applied -/

/-- The calls send what the plan has for their steps. -/
def Follows (plan : ℕ → List ρ) (target : Target ρ) : Prop :=
  ∀ call ∈ target.calls, call.requests = plan call.step

/-- Unless the call of a step in flight was lost, the target applied the requests of
the applied steps and, behind them, those of the call that already landed. -/
structure Landed (plan : ℕ → List ρ) (target : Target ρ) : Prop where
  idle : target.progress.inFlight = none → target.log = planned plan target.progress.applied
  calling : ∀ call ∈ target.calls,
    target.log = planned plan target.progress.applied ++ call.requests.take call.stage.landed

/-- An untouched target has landed under every plan. -/
theorem Landed.untouched (hserial : Serial target) (hstart : target.progress = Progress.start) :
    Landed plan target := by
  have hidle : target.progress.inFlight = none := by rw [hstart]; rfl
  refine ⟨?_, ?_⟩
  · intro _
    rw [hserial.untouched (by rw [hstart]; rfl), hstart]
    rfl
  · intro call hmem
    rw [(hserial.idle hidle).1] at hmem
    cases hmem

/-- A call goes on to a stage that accounts for what the target applied. -/
theorem Landed.advance {index : ℕ} {call : Call ρ} (hcall : InProgress target index call)
    {stage : Stage} {log : List ρ}
    (hlog : log = planned plan target.progress.applied ++ call.requests.take stage.landed) :
    Landed plan { target with calls := target.calls.set index { call with stage }, log } := by
  obtain ⟨honly, rfl, hinFlight, -⟩ := hcall
  refine ⟨?_, ?_⟩
  · intro hidle
    rw [hinFlight] at hidle
    cases hidle
  · intro found hmem
    rw [honly] at hmem
    obtain rfl : found = { call with stage } := by simpa using hmem
    exact hlog

/-- A target with a step in flight and no call has landed under every plan. -/
theorem Landed.unknown (hinFlight : target.progress.inFlight ≠ none) (hcalls : target.calls = []) :
    Landed plan target := by
  refine ⟨fun hidle => absurd hidle hinFlight, ?_⟩
  intro call hmem
  rw [hcalls] at hmem
  cases hmem

theorem Landed.step (hserial : Serial target) (hfollows : Follows plan target)
    (hlanded : Landed plan target) (hstep : Step target next) : Landed plan next := by
  cases hstep with
  | begin requests hnext =>
      obtain ⟨hidle, rfl, -, rfl⟩ := next_recorded.mp hnext
      obtain ⟨hcalls, -⟩ := hserial.idle hidle
      refine ⟨fun hnone => absurd hnone (Option.some_ne_none _), ?_⟩
      intro call hmem
      rw [hcalls] at hmem
      obtain rfl := List.mem_singleton.mp hmem
      rw [Stage.landed, List.take_zero, List.append_nil]
      exact hlanded.idle hidle
  | record hnext =>
      obtain ⟨hidle, -, -, rfl⟩ := next_recorded.mp hnext
      exact Landed.unknown (Option.some_ne_none _) (hserial.idle hidle).1
  | send found stage more =>
      have hlog := hlanded.calling _ (List.mem_of_getElem? found)
      rw [stage] at hlog
      exact Landed.advance (hserial.inProgress found) hlog
  | @handle index done call request applied found stage underway =>
      have hlog := hlanded.calling _ (List.mem_of_getElem? found)
      rw [stage] at hlog
      refine Landed.advance (hserial.inProgress found) ?_
      rw [hlog, List.append_assoc, Stage.landed, Stage.landed, effect]
      cases applied with
      | false => simp
      | true => simp [List.take_add_one, underway]
  | answer found stage =>
      have hlog := hlanded.calling _ (List.mem_of_getElem? found)
      rw [stage] at hlog
      exact Landed.advance (hserial.inProgress found) hlog
  | @settle index call applied after found concludes hnext =>
      obtain ⟨honly, rfl, -, -, -, hstep, -⟩ := hserial.inProgress found
      have hmem := List.mem_of_getElem? found
      have hlog := hlanded.calling _ hmem
      obtain ⟨-, rfl⟩ := next_settled.mp hnext
      refine ⟨fun _ => ?_, ?_⟩
      · rw [hlog, Stage.landed_of_concludes concludes]
        cases applied with
        | false => simp
        | true =>
            simp only [if_true, List.take_length]
            rw [planned_succ, hfollows _ hmem, hstep]
      · intro found hmem
        simp [honly] at hmem
  | lose found =>
      obtain ⟨honly, rfl, hinFlight, -⟩ := hserial.inProgress found
      refine Landed.unknown ?_ ?_
      · simp [hinFlight]
      · simp [honly]
  | arrive applied found =>
      have hsome : target.stray ≠ [] := List.ne_nil_of_mem (List.mem_of_getElem? found)
      obtain ⟨hcalls, hinFlight, -⟩ := hserial.of_stray hsome
      exact Landed.unknown hinFlight hcalls

end RemoteCalls

end EliotSearch.Library
