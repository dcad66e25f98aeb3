import EliotSearch.Control.Dispatching

/-!
# Settling a dispatch

A recorded mutation is sent to the backend and its result is settled in a
second transaction.  The call and the settlement are governed by one deadline
and one cancellation flag, so a call that was stopped before it was sent leaves
a settlement that is stopped as well.
-/

namespace EliotSearch.Control

open EliotSearch.Library
open EliotSearch.Library.Results
open EliotSearch.Library.Words

/-! ## Errors -/

/-- Failures of the vectorless backend. -/
inductive BackendError where
  | invalidEndpoint
  | invalidLimits
  | invalidInput
  | requestTooLarge
  | responseTooLarge
  | allocationFailed
  | authentication
  | unsupportedServer
  | schemaMismatch
  | pointMismatch
  | malformedResponse
  | readinessNotProven
  | cancelled
  | deadline
  | transport
  | backendRefused
  | unknownDispatch
  deriving DecidableEq, Repr

def BackendError.code : BackendError → String
  | invalidEndpoint => "BACKEND_ENDPOINT_INVALID"
  | invalidLimits => "BACKEND_LIMITS_INVALID"
  | invalidInput => "BACKEND_INPUT_INVALID"
  | requestTooLarge => "BACKEND_REQUEST_TOO_LARGE"
  | responseTooLarge => "BACKEND_RESPONSE_TOO_LARGE"
  | allocationFailed => "BACKEND_ALLOCATION_FAILED"
  | authentication => "BACKEND_AUTHENTICATION_FAILED"
  | unsupportedServer => "BACKEND_VERSION_UNSUPPORTED"
  | schemaMismatch => "BACKEND_SCHEMA_MISMATCH"
  | pointMismatch => "BACKEND_POINT_MISMATCH"
  | malformedResponse => "BACKEND_RESPONSE_MALFORMED"
  | readinessNotProven => "BACKEND_READINESS_NOT_PROVEN"
  | cancelled => "BACKEND_CANCELLED"
  | deadline => "BACKEND_DEADLINE"
  | transport => "BACKEND_TRANSPORT_FAILED"
  | backendRefused => "BACKEND_REFUSED"
  | unknownDispatch => "BACKEND_UNKNOWN_DISPATCH"

def PublicationError.code : PublicationError → String
  | unprepared => "PUBLICATION_SOURCE_NOT_PREPARED"
  | notPublished => "PUBLICATION_NOT_PUBLISHED"
  | stale => "PUBLICATION_STALE"
  | unresolved => "PUBLICATION_EFFECT_UNRESOLVED"
  | corrupt => "PUBLICATION_CORRUPT"
  | unsupportedSchema => "PUBLICATION_SCHEMA_UNSUPPORTED"
  | limit => "PUBLICATION_LIMIT"
  | allocation => "PUBLICATION_ALLOCATION_FAILED"
  | database => "PUBLICATION_CONTROL_IO"
  | random => "PUBLICATION_RANDOM_UNAVAILABLE"
  | cancelled => "PUBLICATION_CANCELLED"
  | deadline => "PUBLICATION_DEADLINE"

/-! ## The deadline and the flag -/

/-- What a check of the deadline and the flag may find. -/
inductive Stop where
  | cancelled
  | deadline
  deriving DecidableEq, Repr

def Stop.interruption : Stop → Interruption
  | cancelled => .cancelled
  | deadline => .deadline

def Stop.backend : Stop → BackendError
  | cancelled => .cancelled
  | deadline => .deadline

/-- One deadline and one flag over the instants of an operation.  The flag is
never cleared. -/
structure Watch where
  deadline : Nat
  cancelledAt : Option Nat
  deriving DecidableEq

namespace Watch

/-- A check of the flag and then of the deadline at one instant. -/
def check (watch : Watch) (now : Nat) : Option Stop :=
  if ∃ since ∈ watch.cancelledAt, since ≤ now then some .cancelled
  else if watch.deadline ≤ now then some .deadline else none

/-- What a check finds, every later check finds as well. -/
theorem check_later {watch : Watch} {earlier later : Nat} (hlater : earlier ≤ later)
    (hstopped : watch.check earlier ≠ none) : watch.check later ≠ none := by
  unfold check at hstopped ⊢
  split at hstopped
  · rename_i hcancelled
    obtain ⟨since, hmem, hsince⟩ := hcancelled
    rw [if_pos ⟨since, hmem, le_trans hsince hlater⟩]
    simp
  · split at hstopped
    · rename_i hexpired
      split
      · simp
      · rw [if_pos (le_trans hexpired hlater)]
        simp
    · exact absurd rfl hstopped

/-- A write transaction that the database accepts: its two checks are the only
ones that may stop it, and its commit is acknowledged. -/
def transaction (watch : Watch) (entry commit : Nat) : Env where
  probe := fun site =>
    if site = 0 then (watch.check entry).map Stop.interruption
    else (watch.check commit).map Stop.interruption
  fate := .acknowledged

end Watch

/-! ## The backend call -/

/-- One turn of the call loop: the instants of its two clock reads and what the
call answered within its slice. -/
structure Poll (α : Type) where
  checkedAt : Nat
  remainingAt : Nat
  answer : Option (Except BackendError α)

def stopped (error : BackendError) (mutation dispatched : Bool) : BackendError :=
  if mutation ∧ dispatched then .unknownDispatch else error

/-- The loop of a call; it does not end while nothing stops or answers it. -/
def runPolls {α : Type} (watch : Watch) (mutation : Bool) :
    Bool → List (Poll α) → Option (Except BackendError α)
  | _, [] => none
  | dispatched, poll :: polls =>
      match watch.check poll.checkedAt with
      | some stop => some (.error (stopped stop.backend mutation dispatched))
      | none =>
          if watch.deadline < poll.remainingAt then
            some (.error (stopped .deadline mutation dispatched))
          else
            match poll.answer with
            | some (.ok value) => some (.ok value)
            | some (.error error) => some (.error (stopped error mutation true))
            | none => runPolls watch mutation true polls

/-- Run one call under the deadline and the flag. -/
def runCall {α : Type} (watch : Watch) (mutation : Bool) (start : Nat) (polls : List (Poll α)) :
    Option (Except BackendError α) :=
  match watch.check start with
  | some stop => some (.error stop.backend)
  | none => runPolls watch mutation false polls

/-- Once a mutation was handed to the transport only its own success is
reported as anything but unknown. -/
theorem runPolls_dispatched {α : Type} {watch : Watch} {polls : List (Poll α)}
    {error : BackendError} (hrun : runPolls watch true true polls = some (.error error)) :
    error = .unknownDispatch := by
  induction polls with
  | nil => cases hrun
  | cons poll polls ih =>
      unfold runPolls at hrun
      split at hrun
      · cases hrun
        rfl
      · split at hrun
        · cases hrun
          rfl
        · split at hrun
          · cases hrun
          · cases hrun
            rfl
          · exact ih hrun

/-- A mutation is refused definitely only by a stop found before it was sent. -/
theorem runCall_refused {α : Type} {watch : Watch} {start : Nat} {polls : List (Poll α)}
    {error : BackendError} (hrun : runCall watch true start polls = some (.error error))
    (hdefinite : error ≠ .unknownDispatch) {last : Nat} (hstart : start ≤ last)
    (hpolls : ∀ poll ∈ polls, poll.checkedAt ≤ last ∧ poll.remainingAt ≤ last) :
    watch.check last ≠ none := by
  unfold runCall at hrun
  split at hrun
  · rename_i stop hstop
    apply Watch.check_later hstart
    rw [hstop]
    simp
  · cases polls with
    | nil => cases hrun
    | cons poll polls =>
        obtain ⟨hchecked, hremaining⟩ := hpolls poll List.mem_cons_self
        unfold runPolls at hrun
        split at hrun
        · rename_i stop hstop
          apply Watch.check_later hchecked
          rw [hstop]
          simp
        · split at hrun
          · rename_i hpassed
            apply Watch.check_later hremaining
            unfold Watch.check
            split
            · simp
            · rw [if_pos (Nat.le_of_lt hpassed)]
              simp
          · split at hrun
            · cases hrun
            · cases hrun
              exact absurd rfl hdefinite
            · exact absurd (runPolls_dispatched hrun) hdefinite

/-! ## Settling -/

namespace PublishedCorpus

/-- Settle a recorded operation with the result of its call.  A result that may
hide an applied mutation leaves the record as it is. -/
def settle (env : Env) (db : Db) (pending : PendingGeneration) (operation : PendingOperation)
    (operationRevision : UInt64) (result : Except BackendError Unit) : Outcome String Unit :=
  if result = .error .unknownDispatch then
    ⟨db, none, .error BackendError.unknownDispatch.code⟩
  else
    let finished := finishDispatch env db pending operation operationRevision result.isOk
    match finished.reply with
    | .error error => ⟨finished.db, finished.written, .error error.code⟩
    | .ok () => ⟨finished.db, finished.written, result.mapError BackendError.code⟩

end PublishedCorpus

/-- The operation is settled: nothing is in flight, exactly this operation is
counted as applied or not, and the rest of the header stays. -/
structure SettledIn (db next : Db) (operation : PendingOperation) (applied : Bool) : Prop where
  settled : ∃ state before after, readState db = .ok state ∧ state.pending = some before ∧
    before.inFlight = some operation ∧
    readState next = .ok { state with pending := some after } ∧
    after.inFlight = none ∧
    after.created = (before.created || (applied && decide (operation = .create))) ∧
    after.uploadedPages.toNat = before.uploadedPages.toNat +
      (if applied = true ∧ operation ≠ .create then 1 else 0) ∧
    { after with
      inFlight := before.inFlight, created := before.created
      uploadedPages := before.uploadedPages } = before

/-- The header left by a recorded dispatch. -/
structure InFlight (db : Db) (pending : PendingGeneration) (operation : PendingOperation)
    (revision : UInt64) (state : State) (build : PendingGeneration) : Prop where
  header : readState db = .ok state
  pendingMut : pendingMut state pending = .ok build
  inFlight : build.inFlight = some operation
  revision : build.operationRevision = revision
  next : NextOperation build operation

theorem readable_of_pending {db : Db} {state : State} (hstate : readState db = .ok state)
    (hpending : state.pending.isSome = true) : state.Readable := by
  unfold readState at hstate
  split at hstate
  · obtain rfl := Except.ok.inj hstate
    cases hpending
  · rw [bind_eq_ok] at hstate
    obtain ⟨bytes, -, hdecode⟩ := hstate
    exact decodeState_readable hdecode

/-- A header stays readable when its build keeps its generation and its pages
stay within it. -/
theorem State.Readable.withBuild {state : State} {before : PendingGeneration}
    (hreadable : state.Readable) (after : PendingGeneration) (hpending : state.pending = some before)
    (hgeneration : after.generation = before.generation)
    (hpages : after.uploadedPages ≤ before.generation.pageCount)
    (hcompleted : after.completedSources = before.completedSources)
    (hstaged : after.stagedBytes = before.stagedBytes)
    (hsealed : after.captureComplete = before.captureComplete) :
    { state with pending := some after }.Readable := by
  obtain ⟨haccepted, hsources, -, hbytes, hcurrent, hcomplete⟩ :=
    hreadable.pending_accepted before hpending
  refine ⟨hreadable.version_eq, hreadable.namespace_isSome, hreadable.sequence_ne_zero,
    hreadable.current_accepted, ?_, hreadable.current_iff⟩
  intro found hfound
  obtain rfl := Option.some.inj hfound
  refine ⟨hgeneration ▸ haccepted, ?_, ?_, ?_, ?_, ?_⟩
  · rw [hcompleted, hgeneration]
    exact hsources
  · rw [hgeneration]
    exact hpages
  · rw [hstaged]
    exact hbytes
  · rw [hgeneration]
    exact hcurrent
  · rw [hcompleted, hgeneration, hsealed]
    exact hcomplete

theorem recordDispatch_inFlight {env : Env} {db : Db} {pending : PendingGeneration}
    {operation : PendingOperation} {revision : UInt64}
    (hrecorded : (recordDispatch env db pending operation).reply = .ok revision) :
    ∃ state build, InFlight (recordDispatch env db pending operation).db pending operation revision
      state build := by
  rcases editDatabase_cases env db (recordDispatchEdit pending operation) with
    ⟨-, -, error, herror⟩ | ⟨state, left, after, value, hstate, hedit, hdb, -, hreply⟩
  · rw [recordDispatch, herror] at hrecorded
    cases hrecorded
  · have hvalue : value = revision := by
      rcases hreply with hreply | hreply
      · rw [recordDispatch, hreply] at hrecorded
        exact Except.ok.inj hrecorded
      · rw [recordDispatch, hreply] at hrecorded
        cases hrecorded
    subst hvalue
    simp only [recordDispatchEdit, bind_eq_ok, pendingMut_eq_ok, refuse_eq_ok, okOr_eq_ok, not_or,
      not_not, Bool.not_eq_true, Bool.not_eq_false, pure_eq_ok, Except.ok.injEq,
      Prod.mk.injEq] at hedit
    obtain ⟨p, ⟨hpending, hnamespace, hsequence⟩, _, -, _, -, _, -, _, ⟨-, hnext⟩, found, -, rfl,
      rfl, rfl⟩ := hedit
    have hreadable := readable_of_pending hstate (by rw [hpending]; rfl)
    let build := { p with operationRevision := found, inFlight := some operation }
    have hafter := hreadable.withBuild build hpending rfl
      (hreadable.pending_accepted p hpending).2.2.1 rfl rfl rfl
    refine ⟨{ state with pending := some build }, build, ?_,
      pendingMut_eq_ok.mpr ⟨rfl, hnamespace, hsequence⟩, rfl, rfl, ?_⟩
    · rw [recordDispatch, hdb]
      exact readState_withState _ hafter
    · cases operation with
      | create => exact hnext
      | insert page => exact hnext

/-- A write transaction whose two checks pass and whose edit succeeds. -/
theorem editDatabase_acknowledged {α : Type} {env : Env} {db : Db} {write : Edit α} {state : State}
    {left : Db} {after : State} {value : α} (hstate : readState db = .ok state)
    (hwrite : write db.openPublication state = .ok (left, after, value))
    (hentry : env.probe 0 = none) (hcommit : env.probe 1 = none)
    (hfate : env.fate = .acknowledged) :
    (editDatabase env db write).db = left.withState after ∧
      (editDatabase env db write).reply = .ok value := by
  have hfirst : env.check publicationFault 0 = .ok () := Env.check_eq_ok.mpr hentry
  have hlast : env.check publicationFault 1 = .ok () := Env.check_eq_ok.mpr hcommit
  have hattempt : editTransaction env db write = .ok (some (left.withState after), value) := by
    simp only [editTransaction, hfirst, loadState_eq, hstate, hwrite, stateBytes_eq_ok, hlast,
      ok_bind]
    rfl
  simp only [editDatabase, hattempt, Control.settle, hfate, and_self]

theorem editDatabase_stopped {α : Type} {env : Env} {db : Db} {write : Edit α}
    (hstopped : env.probe 0 ≠ none ∨ env.probe 1 ≠ none) :
    (editDatabase env db write).db = db := by
  rcases settle_cases env db PublicationError.database (editTransaction env db write) with
    ⟨-, hdb, -⟩ | ⟨next, value, hattempt, -⟩
  · exact hdb
  · simp only [editTransaction, bind_eq_ok, Env.check_eq_ok] at hattempt
    obtain ⟨_, hentry, _, _, _, _, _, _, _, hcommit, -⟩ := hattempt
    rcases hstopped with hstopped | hstopped
    · exact absurd hentry hstopped
    · exact absurd hcommit hstopped

/-- The progress that settles the operation in flight. -/
theorem InFlight.settles {db : Db} {pending : PendingGeneration} {operation : PendingOperation}
    {revision : UInt64} {state : State} {build : PendingGeneration}
    (hflight : InFlight db pending operation revision state build) (applied : Bool) :
    ∃ after, finishDispatchEdit pending operation revision applied db.openPublication state =
        .ok (db.openPublication, { state with pending := some after }, ()) ∧
      { state with pending := some after }.Readable ∧ after.inFlight = none ∧
      after.created = (build.created || (applied && decide (operation = .create))) ∧
      after.uploadedPages.toNat = build.uploadedPages.toNat +
        (if applied = true ∧ operation ≠ .create then 1 else 0) ∧
      { after with
        inFlight := build.inFlight, created := build.created
        uploadedPages := build.uploadedPages } = build := by
  obtain ⟨hstate, hmut, hinFlight, hrevision, hnext⟩ := hflight
  have hpending := (pendingMut_eq_ok.mp hmut).1
  have hreadable := readable_of_pending hstate (by rw [hpending]; rfl)
  have haccepted := (hreadable.pending_accepted build hpending).2.2.1
  have hguard : ¬ (build.inFlight ≠ some operation ∨ build.operationRevision ≠ revision) := by
    simp [hinFlight, hrevision]
  cases applied with
  | false =>
      refine ⟨{ build with inFlight := none }, ?_,
        hreadable.withBuild _ hpending rfl haccepted rfl rfl rfl, rfl, by simp, by simp, rfl⟩
      simp only [finishDispatchEdit, hmut, ok_bind, refuse_of_not hguard]
      cases operation <;> rfl
  | true =>
      cases operation with
      | create =>
          refine ⟨{ build with created := true, inFlight := none }, ?_,
            hreadable.withBuild _ hpending rfl haccepted rfl rfl rfl, rfl, by simp, by simp, rfl⟩
          simp only [finishDispatchEdit, hmut, ok_bind, refuse_of_not hguard]
          rfl
      | insert page =>
          obtain ⟨hcreated, rfl, hlast⟩ := hnext
          have hlastNat : build.uploadedPages.toNat < build.generation.pageCount.toNat := hlast
          have hbound := build.generation.pageCount.toNat_lt
          have hsum : (build.uploadedPages + 1).toNat = build.uploadedPages.toNat + 1 := by
            rw [UInt64.toNat_add]
            exact Nat.mod_eq_of_lt (by simp only [UInt64.reduceToNat]; omega)
          have hadd : checkedAdd build.uploadedPages 1 = some (build.uploadedPages + 1) :=
            checkedAdd_eq_some.mpr hsum
          have hpages : build.uploadedPages + 1 ≤ build.generation.pageCount := by
            rw [UInt64.le_iff_toNat_le, hsum]
            exact hlastNat
          refine ⟨{ build with uploadedPages := build.uploadedPages + 1, inFlight := none }, ?_,
            hreadable.withBuild _ hpending rfl hpages rfl rfl rfl, rfl, by simp, by simp [hsum], rfl⟩
          simp only [finishDispatchEdit, hmut, ok_bind, refuse_of_not hguard, settled, hadd,
            okOr_some]
          rfl

namespace PublishedCorpus

variable {db : Db} {pending build : PendingGeneration} {operation : PendingOperation}
  {revision : UInt64} {state : State} {result : Except BackendError Unit}

theorem settle_definite (env : Env) (hdefinite : result ≠ .error .unknownDispatch) :
    (settle env db pending operation revision result).db =
      (finishDispatch env db pending operation revision result.isOk).db := by
  simp only [settle, if_neg hdefinite]
  split
  · rfl
  · rfl

/-- A definite result is settled by a transaction whose checks pass. -/
theorem settle_settles {env : Env} (hflight : InFlight db pending operation revision state build)
    (hdefinite : result ≠ .error .unknownDispatch) (hentry : env.probe 0 = none)
    (hcommit : env.probe 1 = none) (hfate : env.fate = .acknowledged) :
    SettledIn db (settle env db pending operation revision result).db operation result.isOk := by
  obtain ⟨after, hedit, hreadable, hidle, hcreated, hpages, hrest⟩ := hflight.settles result.isOk
  obtain ⟨hdb, -⟩ := editDatabase_acknowledged hflight.header hedit hentry hcommit hfate
  refine ⟨state, build, after, hflight.header, (pendingMut_eq_ok.mp hflight.pendingMut).1,
    hflight.inFlight, ?_, hidle, hcreated, hpages, hrest⟩
  rw [settle_definite env hdefinite, finishDispatch, hdb]
  exact readState_withState _ hreadable

/-- What stays as it is is not settled. -/
theorem not_settledIn_self (applied : Bool) : ¬ SettledIn db db operation applied := by
  rintro ⟨state, before, after, hstate, hpending, hflight, hnext, hidle, -⟩
  rw [hstate] at hnext
  have hsame := congrArg State.pending (Except.ok.inj hnext)
  rw [hpending] at hsame
  obtain rfl := Option.some.inj hsame
  rw [hflight] at hidle
  cases hidle

/-- A recorded operation with a definite result is settled exactly when neither
the flag nor the deadline stops the settlement before its commit.  A result that
reports an earlier stop is therefore never settled, and an unknown one leaves
the operation in flight. -/
theorem definite_dispatch_settled_iff (recording : Env) (watch : Watch) {entry commit : Nat}
    (hlater : entry ≤ commit)
    (hrecorded : (recordDispatch recording db pending operation).reply = .ok revision) :
    let recorded := (recordDispatch recording db pending operation).db
    let settling := watch.transaction entry commit
    (∀ result, result ≠ .error .unknownDispatch →
      (SettledIn recorded (settle settling recorded pending operation revision result).db operation
        result.isOk ↔ watch.check commit = none)) ∧
    (∀ (start : Nat) (polls : List (Poll Unit)) error,
      runCall watch true start polls = some (.error error) → error ≠ .unknownDispatch →
      start ≤ entry → (∀ poll ∈ polls, poll.checkedAt ≤ entry ∧ poll.remainingAt ≤ entry) →
      (settle settling recorded pending operation revision (.error error)).db = recorded) ∧
    (settle settling recorded pending operation revision (.error .unknownDispatch)).db = recorded ∧
    ∃ state build, InFlight recorded pending operation revision state build := by
  intro recorded settling
  obtain ⟨state, build, hflight⟩ := recordDispatch_inFlight hrecorded
  have hkept : ∀ result : Except BackendError Unit, result ≠ .error .unknownDispatch →
      watch.check commit ≠ none →
      (settle settling recorded pending operation revision result).db = recorded := by
    intro result hdefinite hstopped
    rw [settle_definite settling hdefinite]
    apply editDatabase_stopped
    right
    simpa [settling, Watch.transaction] using hstopped
  refine ⟨?_, ?_, rfl, state, build, hflight⟩
  · intro result hdefinite
    constructor
    · intro hsettled
      by_contra hstopped
      rw [hkept result hdefinite hstopped] at hsettled
      exact not_settledIn_self _ hsettled
    · intro hpassed
      have hentry : watch.check entry = none := by
        by_contra hstopped
        exact Watch.check_later hlater hstopped hpassed
      apply settle_settles hflight hdefinite
      · simp [settling, Watch.transaction, hentry]
      · simp [settling, Watch.transaction, hpassed]
      · rfl
  · intro start polls error hrun hdefinite hstart hpolls
    have hstopped := runCall_refused hrun hdefinite hstart hpolls
    apply hkept
    · simpa using hdefinite
    · exact Watch.check_later hlater hstopped

namespace Sample

/-- The flag is set while the call is prepared. -/
def cancelledWatch : Watch := ⟨100, some 5⟩

def openWatch : Watch := ⟨100, none⟩

/-- The root of the sample build, sealed and before any dispatch. -/
def sealedDb : Db := ((World.init Db.empty).run Control.Sample.sealed).db

def reserved : PendingGeneration := Control.Sample.reserved

end Sample

/-- An accepted creation is settled by a transaction that nothing stops. -/
theorem definite_dispatch_settled_iff_sample :
    SettledIn (recordDispatch Env.quiet Sample.sealedDb Sample.reserved .create).db
      (settle (Sample.openWatch.transaction 6 7)
        (recordDispatch Env.quiet Sample.sealedDb Sample.reserved .create).db Sample.reserved
        .create 1 (.ok ())).db .create true :=
  ((definite_dispatch_settled_iff Env.quiet Sample.openWatch (by decide : 6 ≤ 7)
    (by decide +kernel)).1 (.ok ()) (by decide)).mpr (by decide)

/-- The flag is set before the creation is sent: the call is refused without
being sent, and its settlement is refused by the same flag, so the creation
stays in flight. -/
theorem cancelled_dispatch_unsettled :
    (recordDispatch Env.quiet Sample.sealedDb Sample.reserved .create).reply = .ok 1 ∧
      runCall Sample.cancelledWatch true 5 ([] : List (Poll Unit)) = some (.error .cancelled) ∧
      (settle (Sample.cancelledWatch.transaction 6 7)
        (recordDispatch Env.quiet Sample.sealedDb Sample.reserved .create).db Sample.reserved
        .create 1 (.error .cancelled)).reply = .error "PUBLICATION_CANCELLED" ∧
      (readState (settle (Sample.cancelledWatch.transaction 6 7)
        (recordDispatch Env.quiet Sample.sealedDb Sample.reserved .create).db Sample.reserved
        .create 1 (.error .cancelled)).db).map (fun state => state.pending.map (·.inFlight)) =
        .ok (some (some .create)) := by
  decide +kernel

end PublishedCorpus

end EliotSearch.Control
