import EliotSearch.Control.Registry
import EliotSearch.Control.Settlement

/-!
# Ambiguous commits

A commit that reports failure may have been applied or not.  Publishing a
generation, committing a source and committing a preparation then open the
database once more and infer their answer from what they read there, after
other writers may have changed anything.
-/

namespace EliotSearch.Control

open EliotSearch.Library
open EliotSearch.Library.Results
open EliotSearch.Library.Words

/-! ## What a success reports -/

/-- The generation of the build is current, nothing is pending, and the current
revision is the one after the revision the build expected. -/
structure Published (db : Db) (pending : PendingGeneration) (generation : Generation) : Prop where
  own : generation = pending.generation
  stored : ∃ state, readState db = .ok state ∧ state.current = some generation ∧
    state.pending = none ∧
    state.currentRevision.toNat = pending.expectedCurrentRevision.toNat + 1

/-- Exactly this row is stored under its identity, and its locator names it. -/
structure SourceHeld (db : Db) (record : CurrentSourceRecord) : Prop where
  row : (openTable db.sourceRows)[record.sourceId.bytes]? = some (recordBytes record)
  indexed : (openTable db.sourceLocators)[record.locator]? = some record.sourceId.bytes

/-- The row is the head the caller asked to commit, at the revision after the
captured one, or at the captured one where nothing had to change. -/
structure SourceAsked (capture : SourceCapture) (fileKey : NativeFileKey) (objectRef : ObjectRef)
    (record : CurrentSourceRecord) : Prop where
  namespaceId : record.sourceNamespaceId = capture.sourceNamespaceId
  sourceId : record.sourceId = capture.sourceId
  locator : record.locator = capture.locator
  fileKey_eq : record.fileKey = fileKey
  objectRef_eq : record.objectRef = objectRef
  revision : capture.expectedRowRevision = some record.rowRevision ∨
    record.rowRevision.toNat = (capture.expectedRowRevision.elim 0 UInt64.toNat) + 1

/-- Exactly this row is stored under its identity. -/
def PreparationHeld (db : Db) (row : CurrentPreparation) : Prop :=
  storedPreparation db row.sourceId = .ok (some row)

/-- The row is the captured one, with the caller's outcome at the next revision
or, where the outcome is not to be written, as it was. -/
structure OutcomeAsked (capture : PreparationCapture) (result : PreparationOutcome)
    (row : CurrentPreparation) : Prop where
  namespaceId : row.sourceNamespaceId = capture.source.sourceNamespaceId
  sourceId : row.sourceId = capture.source.sourceId
  settings : row.settings = capture.settings
  settingsRevision : row.settingsRevision = capture.settingsRevision
  outcome : (row.outcome = some (boundOutcome capture result) ∧
      row.outcomeRevision.toNat = capture.expectedOutcomeRevision.toNat + 1) ∨
    (row.outcome = capture.expectedOutcome ∧
      row.outcomeRevision = capture.expectedOutcomeRevision ∧
      (keepsArtifact row capture.source capture.settings result = true ∨
        row.outcome = some (boundOutcome capture result)))

/-! ## Calls on a path -/

/-- A call as its caller sees it return: the tables its write transaction left,
the tables in place at its last transaction, and the reply. -/
structure Returned (ε α : Type) where
  left : Db
  seen : Db
  reply : Except ε α

/-- `commit_generation` on a database that other writers turn into another one
before it is observed again. -/
def commitGenerationCall (first second : Env) (others : Db → Db) (db : Db)
    (pending : PendingGeneration) : Returned PublicationError Generation :=
  let outcome := commitGeneration first db pending
  match outcome.reply with
  | .error .database =>
      let seen := others outcome.db
      ⟨outcome.db, seen, confirmCommit second seen pending⟩
  | reply => ⟨outcome.db, outcome.db, reply⟩

/-- `commit_current_source`, observed again under the same conditions. -/
def commitCurrentSourceCall (first second : Env) (others : Db → Db) (db : Db)
    (capture : SourceCapture) (fileKey : NativeFileKey) (objectRef : ObjectRef) :
    Returned SourceControlError CurrentSourceRecord :=
  let attempt := commitSourceTransaction first db capture fileKey objectRef
  let outcome := settle first db SourceControlError.database attempt
  match Registry.unacknowledged first attempt with
  | some record =>
      let seen := others outcome.db
      ⟨outcome.db, seen, resolveSourceCommit record (loadCurrentSource second seen record.locator)⟩
  | none => ⟨outcome.db, outcome.db, outcome.reply⟩

/-- `commit_preparation`, observed again under the same conditions. -/
def commitPreparationCall (first second : Env) (others : Db → Db) (db : Db)
    (capture : PreparationCapture) (result : PreparationOutcome) :
    Returned PreparationControlError CurrentPreparation :=
  let attempt := commitPreparationTransaction first db capture result
  let outcome := settle first db PreparationControlError.database attempt
  match Registry.unacknowledged first attempt with
  | some proposed =>
      let seen := others outcome.db
      ⟨outcome.db, seen,
        Registry.resolvePreparation proposed (readPreparation second seen proposed.sourceId)⟩
  | none => ⟨outcome.db, outcome.db, outcome.reply⟩

/-! ## Transactions that report failure -/

section Settling

variable {ε α : Type} {env : Env} {db : Db} {lost : ε} {attempt : Except ε (Option Db × α)}

/-- A transaction that fails before its commit leaves the tables alone. -/
theorem settle_error {error : ε} (hattempt : attempt = .error error) :
    (settle env db lost attempt).db = db := by
  rw [hattempt, settle]

theorem unacknowledged_eq_some {value : α}
    (hvalue : Registry.unacknowledged env attempt = some value) :
    ∃ next, attempt = .ok (some next, value) := by
  unfold Registry.unacknowledged at hvalue
  split at hvalue
  · rename_i next found
    split at hvalue
    · cases hvalue
    · obtain rfl := Option.some.inj hvalue
      exact ⟨next, rfl⟩
  · cases hvalue

/-- A success that needs no second look left what its transaction computed. -/
theorem settle_acknowledged {value : α} (hreply : (settle env db lost attempt).reply = .ok value) :
    ∃ next, attempt = .ok (next, value) ∧ (settle env db lost attempt).db = next.getD db := by
  rcases settle_cases env db lost attempt with ⟨-, hdb, hkept⟩ | ⟨next, found, hattempt, hdb, -, hok⟩
  · exact ⟨none, hkept value hreply, hdb⟩
  · rcases hok with hok | hfailed
    · rw [hreply] at hok
      obtain rfl := Except.ok.inj hok
      exact ⟨some next, hattempt, hdb⟩
    · rw [hreply] at hfailed
      cases hfailed

end Settling

/-! ## Generations -/

/-- A header stays readable when its build becomes current. -/
theorem State.Readable.published {state : State} {pending : PendingGeneration} {revision : UInt64}
    (hreadable : state.Readable) (hpending : state.pending = some pending)
    (hrevision : revision ≠ 0) :
    { state with
      currentRevision := revision
      current := some pending.generation
      pending := none }.Readable := by
  obtain ⟨haccepted, -⟩ := hreadable.pending_accepted pending hpending
  refine ⟨hreadable.version_eq, hreadable.namespace_isSome, hreadable.sequence_ne_zero, ?_, ?_, ?_⟩
  · intro current hcurrent
    obtain rfl := Option.some.inj hcurrent
    exact haccepted
  · intro found hfound
    cases hfound
  · simp [hrevision]

/-- A durable commit publishes the build it was given. -/
theorem commitEdit_published {db left : Db} {state after : State} {pending : PendingGeneration}
    {generation : Generation} (hstate : readState db = .ok state)
    (hedit : commitEdit pending db.openPublication state = .ok (left, after, generation)) :
    Published (left.withState after) pending generation := by
  simp only [commitEdit, bind_eq_ok, pendingMut_eq_ok, refuse_eq_ok, okOr_eq_ok, not_or, not_not,
    Bool.not_eq_true, Bool.not_eq_false] at hedit
  obtain ⟨p, ⟨hpending, _, _⟩, _, rfl, _, _, _, _, _, ⟨_, _, _, hrevision, _⟩, next, hnext, hedit⟩ :=
    hedit
  simp only [pure_eq_ok, Except.ok.injEq, Prod.mk.injEq] at hedit
  obtain ⟨-, rfl, rfl⟩ := hedit
  have hadvanced : next.toNat = state.currentRevision.toNat + 1 := by
    simpa using checkedAdd_eq_some.mp hnext
  have hpositive : next ≠ 0 := by
    rintro rfl
    simp at hadvanced
  have hreadable := (readable_of_pending hstate (by simp [hpending])).published hpending hpositive
  refine ⟨rfl, _, readState_withState left hreadable, rfl, rfl, ?_⟩
  rw [← hrevision]
  exact hadvanced

theorem commitGeneration_published {env : Env} {db : Db} {pending : PendingGeneration}
    {generation : Generation} (hreply : (commitGeneration env db pending).reply = .ok generation) :
    Published (commitGeneration env db pending).db pending generation := by
  rcases editDatabase_cases env db (commitEdit pending) with
    ⟨-, -, error, hfailed⟩ | ⟨state, left, after, found, hstate, hedit, hdb, -, hok | hlost⟩
  · rw [commitGeneration, hfailed] at hreply
    cases hreply
  · rw [commitGeneration, hok] at hreply
    obtain rfl := Except.ok.inj hreply
    rw [commitGeneration, hdb]
    exact commitEdit_published hstate hedit
  · rw [commitGeneration, hlost] at hreply
    cases hreply

/-- The observation succeeds only on the published build. -/
theorem confirmCommit_published {env : Env} {db : Db} {pending : PendingGeneration}
    {generation : Generation} (hconfirmed : confirmCommit env db pending = .ok generation) :
    Published db pending generation := by
  simp only [confirmCommit, observeDatabase, bind_eq_ok, refuse_eq_ok, not_not, pure_eq_ok,
    Except.ok.injEq] at hconfirmed
  obtain ⟨_, _, found, ⟨state, hstate, _, ⟨hcurrent, hpending, hrevision⟩, rfl⟩, _, _, rfl⟩ :=
    hconfirmed
  refine ⟨rfl, state, hstate, hcurrent, hpending, ?_⟩
  simpa using checkedAdd_eq_some.mp hrevision

/-! ## Sources -/

/-- A row that is read is stored as its own encoding. -/
theorem recordAt_bytes {rows : Table} {key : Bytes} {record : CurrentSourceRecord}
    (hrecord : recordAt rows key = some record) : rows[key]? = some (recordBytes record) := by
  obtain ⟨bytes, hbytes, hdecode⟩ := recordAt_eq_some.mp hrecord
  rw [hbytes, (decodeRecord_eq_ok hdecode).1]

/-- The row a source commit writes is stored and indexed afterwards. -/
theorem SourceWrite.sourceHeld {db next : Db} {capture : SourceCapture} {fileKey : NativeFileKey}
    {objectRef : ObjectRef} {record : CurrentSourceRecord}
    (hwrite : SourceWrite db next capture fileKey objectRef record) : SourceHeld next record := by
  obtain ⟨revision, rfl⟩ := hwrite.tables
  constructor
  · simp [Db.advanced, Db.withSource]
  · simp [Db.advanced, Db.withSource]

theorem SourceWrite.asked {db next : Db} {capture : SourceCapture} {fileKey : NativeFileKey}
    {objectRef : ObjectRef} {record : CurrentSourceRecord}
    (hwrite : SourceWrite db next capture fileKey objectRef record) :
    SourceAsked capture fileKey objectRef record := by
  have hfields := hwrite.record_eq
  have hrevision : record.rowRevision.toNat =
      (capture.expectedRowRevision.elim 0 UInt64.toNat) + 1 := by
    rcases hwrite.held.split with ⟨hrow, _, hexpected, -⟩ | ⟨current, hrow, _, hexpected, -⟩
    · rw [hrow, hexpected]
      rfl
    · rw [hrow, hexpected]
      rfl
  rw [hfields] at hrevision ⊢
  exact ⟨rfl, rfl, rfl, rfl, rfl, Or.inr hrevision⟩

/-- A commit that changes nothing reports the stored row it was asked for. -/
theorem commitSourceTransaction_unchanged {env : Env} {db : Db} {capture : SourceCapture}
    {fileKey : NativeFileKey} {objectRef : ObjectRef} {record : CurrentSourceRecord}
    (hattempt : commitSourceTransaction env db capture fileKey objectRef = .ok (none, record)) :
    SourceHeld db record ∧ SourceAsked capture fileKey objectRef record := by
  obtain ⟨-, ⟨next, registration, hheld⟩, hrecord, hobject, hfile⟩ :=
    commitSourceTransaction_kept hattempt
  cases hheld with
  | absent _ _ _ hid => simp [recordAt, hid] at hrecord
  | present hrow _ hlocator hcurrent hnamespace hid hname _ =>
      rw [hrecord] at hcurrent
      obtain rfl := Option.some.inj hcurrent
      refine ⟨⟨?_, ?_⟩, hnamespace, hid, hname, hfile, hobject, Or.inl hrow⟩
      · rw [hid]
        exact recordAt_bytes hrecord
      · rw [hname, hid]
        exact hlocator

/-- Both ways in which a source commit computes its answer report a row that
was asked for. -/
theorem commitSourceTransaction_asked {env : Env} {db : Db} {capture : SourceCapture}
    {fileKey : NativeFileKey} {objectRef : ObjectRef} {next : Option Db}
    {record : CurrentSourceRecord}
    (hattempt : commitSourceTransaction env db capture fileKey objectRef = .ok (next, record)) :
    SourceHeld (next.getD db) record ∧ SourceAsked capture fileKey objectRef record := by
  cases next with
  | none => exact commitSourceTransaction_unchanged hattempt
  | some next =>
      have hwrite := commitSourceTransaction_wrote hattempt
      exact ⟨hwrite.sourceHeld, hwrite.asked⟩

theorem loadLocatorRow_held {db : Db} {locator : Bytes} {record : CurrentSourceRecord}
    (hload : loadLocatorRow db locator = .ok (some record)) :
    SourceHeld db record ∧ record.locator = locator := by
  simp only [loadLocatorRow, bind_eq_ok, okOr_eq_ok] at hload
  obtain ⟨locators, hlocators, hload⟩ := hload
  split at hload
  · cases hload
  · rename_i stored hstored
    simp only [bind_eq_ok, okOr_eq_ok, refuse_eq_ok, not_or, not_not, pure_eq_ok, Except.ok.injEq,
      Option.some.injEq] at hload
    obtain ⟨sourceId, hid, rows, hrows, row, hrow, found, hfound, _, ⟨hsame, hname⟩, rfl⟩ := hload
    rw [Octets.ofBytes?_eq_some] at hid
    refine ⟨⟨?_, ?_⟩, hname⟩
    · rw [hrows, openTable_some, hsame, hrow, (decodeRecord_eq_ok hfound).1]
    · rw [hlocators, openTable_some, hname, hsame, hstored, hid]

/-- The second look succeeds only on the proposed row, as it is stored. -/
theorem resolveSourceCommit_held {env : Env} {db : Db} {proposed record : CurrentSourceRecord}
    (hresolved : resolveSourceCommit proposed (loadCurrentSource env db proposed.locator) =
      .ok record) : record = proposed ∧ SourceHeld db record := by
  cases hload : loadCurrentSource env db proposed.locator with
  | error error =>
      rw [hload] at hresolved
      cases hresolved
  | ok observed =>
      rw [hload] at hresolved
      cases observed with
      | none => cases hresolved
      | some observed =>
          rw [resolveSourceCommit] at hresolved
          split at hresolved
          · rename_i hsame
            obtain rfl := Except.ok.inj hresolved
            subst hsame
            refine ⟨rfl, ?_⟩
            simp only [loadCurrentSource, bind_eq_ok] at hload
            obtain ⟨_, _, retained, _, hload⟩ := hload
            split at hload
            · simp only [bind_eq_ok, pure_eq_ok, Except.ok.injEq] at hload
              obtain ⟨found, hfound, _, _, rfl⟩ := hload
              exact (loadLocatorRow_held hfound).1
            · cases hload
          · cases hresolved

/-! ## Preparations -/

theorem preparationAt_held {db : Db} {row : CurrentPreparation}
    (hrow : preparationAt (openTable db.preparations) row.sourceId.bytes = some row) :
    PreparationHeld db row := by
  obtain ⟨bytes, hbytes, hdecode⟩ := preparationAt_eq_some.mp hrow
  simp only [PreparationHeld, storedPreparation, hbytes, hdecode, ok_bind, pure_eq_ok]

theorem OutcomeWrite.sourceId_eq {db next : Db} {capture : PreparationCapture}
    {result : PreparationOutcome} {old row : CurrentPreparation}
    (hwrite : OutcomeWrite db next capture result old row) :
    row.sourceId = capture.source.sourceId := by
  rw [hwrite.row_eq]
  exact hwrite.held.id_eq

/-- The row an outcome commit writes is stored afterwards. -/
theorem OutcomeWrite.preparationHeld {db next : Db} {capture : PreparationCapture}
    {result : PreparationOutcome} {old row : CurrentPreparation}
    (hwrite : OutcomeWrite db next capture result old row) : PreparationHeld next row := by
  obtain ⟨revision, htables⟩ := hwrite.tables
  refine preparationAt_held (preparationAt_eq_some.mpr ⟨preparationBytes row, ?_, ?_⟩)
  · rw [htables, hwrite.sourceId_eq]
    simp [Db.advanced, Db.withPreparation]
  · exact CurrentPreparation.decode_preparationBytes hwrite.valid

theorem OutcomeWrite.asked {db next : Db} {capture : PreparationCapture}
    {result : PreparationOutcome} {old row : CurrentPreparation}
    (hwrite : OutcomeWrite db next capture result old row) : OutcomeAsked capture result row := by
  have hheld := hwrite.held
  have hrevision := checkedAdd_eq_some.mp hwrite.revision
  rw [hheld.outcomeRevision_eq] at hrevision
  have hfields := hwrite.row_eq
  refine ⟨?_, hwrite.sourceId_eq, ?_, ?_, Or.inl ⟨?_, by simpa using hrevision⟩⟩
  · rw [hfields]
    exact hheld.namespace_eq
  · rw [hfields]
    exact hheld.settings_eq
  · rw [hfields]
    exact hheld.settingsRevision_eq
  · rw [hfields]

/-- An outcome that is not written was reported from the stored row. -/
theorem commitPreparationTransaction_unchanged {env : Env} {db : Db} {capture : PreparationCapture}
    {result : PreparationOutcome} {row : CurrentPreparation}
    (hattempt : commitPreparationTransaction env db capture result = .ok (none, row)) :
    PreparationHeld db row ∧ OutcomeAsked capture result row := by
  simp only [commitPreparationTransaction, bind_eq_ok] at hattempt
  obtain ⟨_, _, old, hguarded, hattempt⟩ := hattempt
  split at hattempt
  · rename_i hkept
    obtain rfl := (Prod.mk.inj (Except.ok.inj hattempt)).2
    have hheld := guardedRow_eq_ok hguarded
    have hstored := hheld.stored
    rw [← hheld.id_eq] at hstored
    exact ⟨preparationAt_held hstored, hheld.namespace_eq, hheld.id_eq, hheld.settings_eq,
      hheld.settingsRevision_eq, Or.inr ⟨hheld.outcome_eq, hheld.outcomeRevision_eq, hkept⟩⟩
  · simp only [bind_eq_ok] at hattempt
    obtain ⟨_, _, _, _, _, _, hattempt⟩ := hattempt
    cases hattempt

theorem commitPreparationTransaction_asked {env : Env} {db : Db} {capture : PreparationCapture}
    {result : PreparationOutcome} {next : Option Db} {row : CurrentPreparation}
    (hattempt : commitPreparationTransaction env db capture result = .ok (next, row)) :
    PreparationHeld (next.getD db) row ∧ OutcomeAsked capture result row := by
  cases next with
  | none => exact commitPreparationTransaction_unchanged hattempt
  | some next =>
      obtain ⟨old, hwrite⟩ := commitPreparationTransaction_wrote hattempt
      exact ⟨hwrite.preparationHeld, hwrite.asked⟩

/-- The second look succeeds only on the proposed row, as it is stored. -/
theorem resolvePreparation_held {env : Env} {db : Db} {proposed row : CurrentPreparation}
    (hresolved : Registry.resolvePreparation proposed (readPreparation env db proposed.sourceId) =
      .ok row) : row = proposed ∧ PreparationHeld db row := by
  cases hread : readPreparation env db proposed.sourceId with
  | error error =>
      rw [hread] at hresolved
      cases hresolved
  | ok read =>
      obtain ⟨source, observed⟩ := read
      rw [hread, Registry.resolvePreparation] at hresolved
      split at hresolved
      · rename_i hsame
        obtain rfl := Except.ok.inj hresolved
        subst hsame
        refine ⟨rfl, ?_⟩
        simp only [readPreparation, bind_eq_ok] at hread
        obtain ⟨_, _, _, _, _, _, _, _, _, _, _, _, _, _, _, _, found, hfound, _, _, _, _, hread⟩ :=
          hread
        obtain ⟨-, hobserved⟩ := Prod.mk.inj (Except.ok.inj hread)
        rw [PreparationHeld, hfound, hobserved]
      · cases hresolved

/-! ## Calls -/

/-- A publication answers from its own transaction, or looks again after a
database error. -/
theorem commitGenerationCall_cases (first second : Env) (others : Db → Db) (db : Db)
    (pending : PendingGeneration) :
    let outcome := commitGeneration first db pending
    let call := commitGenerationCall first second others db pending
    call.left = outcome.db ∧
      ((call.seen = outcome.db ∧ call.reply = outcome.reply) ∨
        (outcome.reply = .error .database ∧ call.seen = others outcome.db ∧
          call.reply = confirmCommit second (others outcome.db) pending)) := by
  simp only [commitGenerationCall]
  cases (commitGeneration first db pending).reply with
  | ok found => simp
  | error error => cases error <;> simp

theorem commitGenerationCall_published {first second : Env} {others : Db → Db} {db : Db}
    {pending : PendingGeneration} {generation : Generation}
    (hreply : (commitGenerationCall first second others db pending).reply = .ok generation) :
    Published (commitGenerationCall first second others db pending).seen pending generation := by
  obtain ⟨-, ⟨hseen, hown⟩ | ⟨-, hseen, hagain⟩⟩ :=
    commitGenerationCall_cases first second others db pending
  · rw [hown] at hreply
    rw [hseen]
    exact commitGeneration_published hreply
  · rw [hagain] at hreply
    rw [hseen]
    exact confirmCommit_published hreply

/-- A source commit answers from its own transaction, or looks again for the
row of a commit that reported failure. -/
theorem commitCurrentSourceCall_cases (first second : Env) (others : Db → Db) (db : Db)
    (capture : SourceCapture) (fileKey : NativeFileKey) (objectRef : ObjectRef) :
    let attempt := commitSourceTransaction first db capture fileKey objectRef
    let outcome := settle first db SourceControlError.database attempt
    let call := commitCurrentSourceCall first second others db capture fileKey objectRef
    call.left = outcome.db ∧
      ((call.seen = outcome.db ∧ call.reply = outcome.reply) ∨
        ∃ next record, attempt = .ok (some next, record) ∧ call.seen = others outcome.db ∧
          call.reply = resolveSourceCommit record
            (loadCurrentSource second (others outcome.db) record.locator)) := by
  simp only [commitCurrentSourceCall]
  cases hfailed : Registry.unacknowledged first
      (commitSourceTransaction first db capture fileKey objectRef) with
  | none => simp
  | some record =>
      obtain ⟨next, hattempt⟩ := unacknowledged_eq_some hfailed
      exact ⟨rfl, Or.inr ⟨next, record, hattempt, rfl, rfl⟩⟩

theorem commitCurrentSourceCall_held {first second : Env} {others : Db → Db} {db : Db}
    {capture : SourceCapture} {fileKey : NativeFileKey} {objectRef : ObjectRef}
    {record : CurrentSourceRecord}
    (hreply : (commitCurrentSourceCall first second others db capture fileKey objectRef).reply =
      .ok record) :
    SourceHeld (commitCurrentSourceCall first second others db capture fileKey objectRef).seen
      record ∧ SourceAsked capture fileKey objectRef record := by
  obtain ⟨-, ⟨hseen, hown⟩ | ⟨next, proposed, hattempt, hseen, hagain⟩⟩ :=
    commitCurrentSourceCall_cases first second others db capture fileKey objectRef
  · rw [hown] at hreply
    rw [hseen]
    obtain ⟨next, hattempt, hdb⟩ := settle_acknowledged hreply
    rw [hdb]
    exact commitSourceTransaction_asked hattempt
  · rw [hagain] at hreply
    rw [hseen]
    obtain ⟨rfl, hheld⟩ := resolveSourceCommit_held hreply
    exact ⟨hheld, (commitSourceTransaction_asked hattempt).2⟩

/-- A preparation commit answers from its own transaction, or looks again for
the row of a commit that reported failure. -/
theorem commitPreparationCall_cases (first second : Env) (others : Db → Db) (db : Db)
    (capture : PreparationCapture) (result : PreparationOutcome) :
    let attempt := commitPreparationTransaction first db capture result
    let outcome := settle first db PreparationControlError.database attempt
    let call := commitPreparationCall first second others db capture result
    call.left = outcome.db ∧
      ((call.seen = outcome.db ∧ call.reply = outcome.reply) ∨
        ∃ next proposed, attempt = .ok (some next, proposed) ∧ call.seen = others outcome.db ∧
          call.reply = Registry.resolvePreparation proposed
            (readPreparation second (others outcome.db) proposed.sourceId)) := by
  simp only [commitPreparationCall]
  cases hfailed : Registry.unacknowledged first
      (commitPreparationTransaction first db capture result) with
  | none => simp
  | some proposed =>
      obtain ⟨next, hattempt⟩ := unacknowledged_eq_some hfailed
      exact ⟨rfl, Or.inr ⟨next, proposed, hattempt, rfl, rfl⟩⟩

theorem commitPreparationCall_held {first second : Env} {others : Db → Db} {db : Db}
    {capture : PreparationCapture} {result : PreparationOutcome} {row : CurrentPreparation}
    (hreply : (commitPreparationCall first second others db capture result).reply = .ok row) :
    PreparationHeld (commitPreparationCall first second others db capture result).seen row ∧
      OutcomeAsked capture result row := by
  obtain ⟨-, ⟨hseen, hown⟩ | ⟨next, proposed, hattempt, hseen, hagain⟩⟩ :=
    commitPreparationCall_cases first second others db capture result
  · rw [hown] at hreply
    rw [hseen]
    obtain ⟨next, hattempt, hdb⟩ := settle_acknowledged hreply
    rw [hdb]
    exact commitPreparationTransaction_asked hattempt
  · rw [hagain] at hreply
    rw [hseen]
    obtain ⟨rfl, hheld⟩ := resolvePreparation_held hreply
    exact ⟨hheld, (commitPreparationTransaction_asked hattempt).2⟩

/-! ## Interleaved runs -/

/-- The build a reply about a commit is for: the one the action commits, or the
one whose ambiguous commit it observes. -/
inductive World.Publishing (world : World) : Command → PendingGeneration → Prop where
  | committing (pending : PendingGeneration) :
      World.Publishing world (.commitGeneration pending) pending
  | confirming {call : Nat} {pending : PendingGeneration}
      (hcall : world.calls[call]? = some (.confirming pending)) :
      World.Publishing world (.advance call) pending

/-- In every world, whatever the writers before it did, a reported generation
is the published build of its caller. -/
theorem World.reply_published {world : World} {action : Action} {pending : PendingGeneration}
    {generation : Generation} (hpublishing : world.Publishing action.command pending)
    (hreply : world.reply action = .committed (.ok generation)) :
    Published (world.step action).db pending generation := by
  obtain ⟨env, command⟩ := action
  cases hpublishing with
  | committing pending =>
      simp only [World.reply, World.step, World.execute, World.commitGeneration] at hreply ⊢
      cases hdirect : (Control.commitGeneration env world.db pending).reply with
      | ok found =>
          simp only [hdirect] at hreply ⊢
          obtain rfl := Except.ok.inj (Reply.committed.inj hreply)
          exact commitGeneration_published hdirect
      | error error =>
          simp only [hdirect] at hreply
          cases error <;> cases hreply
  | confirming hcall =>
      simp only [World.reply, World.step, World.execute, hcall, World.advance] at hreply ⊢
      exact confirmCommit_published (Reply.committed.inj hreply)

namespace Registry

variable {registry : Registry}

theorem finishPreparation_reply {env : Env} {owned : Bool} {row : CurrentPreparation}
    {attempt : Except PreparationControlError (Option Db × CurrentPreparation)}
    (hreply : (registry.finishPreparation env owned attempt).2 = .preparation (.ok row)) :
    ∃ next, attempt = .ok (next, row) ∧
      (registry.finishPreparation env owned attempt).1.db = next.getD registry.db := by
  rw [(finishPreparation_frame registry env owned attempt).1]
  unfold finishPreparation at hreply
  dsimp only at hreply
  split at hreply
  · cases hreply
  · exact settle_acknowledged (Reply.preparation.inj hreply)

theorem commitSource_reply {env : Env} {slot : Nat} {fileKey : NativeFileKey}
    {object : RetainedObject} {owned : Bool} {record : CurrentSourceRecord}
    (hreply : (registry.commitSource env slot fileKey object owned).2 = .source (.ok record)) :
    ∃ capture next, commitSourceTransaction env registry.db capture fileKey object.reference =
        .ok (next, record) ∧
      (registry.commitSource env slot fileKey object owned).1.db = next.getD registry.db := by
  cases hslot : registry.sources[slot]?.join with
  | none =>
      simp only [commitSource, hslot] at hreply
      cases hreply
  | some capture =>
      rw [(commitSource_frame env (Option.join_eq_some_iff.mp hslot) fileKey object owned).1]
      simp only [commitSource, hslot] at hreply
      split at hreply
      · cases hreply
      · exact ⟨capture, settle_acknowledged (Reply.source.inj hreply)⟩

/-- What a reported row means in the tables of its reply. -/
def Reported (db : Db) (reply : Reply) : Prop :=
  (∀ record, reply = .source (.ok record) → SourceHeld db record) ∧
    ∀ row, reply = .preparation (.ok row) → PreparationHeld db row

/-- An action that can end a source or a preparation commit: the commit itself,
or the second look at an ambiguous one. -/
inductive Committing (registry : Registry) : Command → Prop where
  | source (slot : Nat) (fileKey : NativeFileKey) (object : RetainedObject) (owned : Bool) :
      Committing registry (.commitCurrentSource slot fileKey object owned)
  | resolvingSource {call : Nat} {proposed : CurrentSourceRecord}
      (hcall : registry.calls[call]? = some (.resolvingSource proposed)) :
      Committing registry (.advance call)
  | preparation (capture : Nat) (result : PreparationOutcome) (owned : Bool) :
      Committing registry (.commitPreparation capture result owned)
  | resolvingPreparation {call : Nat} {proposed : CurrentPreparation}
      (hcall : registry.calls[call]? = some (.resolvingPreparation proposed)) :
      Committing registry (.advance call)

theorem commitSource_reported (env : Env) (slot : Nat) (fileKey : NativeFileKey)
    (object : RetainedObject) (owned : Bool) :
    Reported (registry.commitSource env slot fileKey object owned).1.db
      (registry.commitSource env slot fileKey object owned).2 := by
  constructor
  · intro record hreply
    obtain ⟨capture, next, hattempt, hdb⟩ := commitSource_reply hreply
    rw [hdb]
    exact (commitSourceTransaction_asked hattempt).1
  · intro row hreply
    unfold commitSource at hreply
    split at hreply
    · cases hreply
    · dsimp only at hreply
      split at hreply
      · cases hreply
      · cases hreply

theorem finishPreparation_source {env : Env} {owned : Bool} {record : CurrentSourceRecord}
    {attempt : Except PreparationControlError (Option Db × CurrentPreparation)} :
    (registry.finishPreparation env owned attempt).2 ≠ .source (.ok record) := by
  unfold finishPreparation
  dsimp only
  split
  · simp
  · simp

theorem commitPreparation_reported (env : Env) (index : Nat) (result : PreparationOutcome)
    (owned : Bool) :
    Reported (registry.commitPreparation env index result owned).1.db
      (registry.commitPreparation env index result owned).2 := by
  unfold commitPreparation
  split
  · constructor
    · intro record hreply
      cases hreply
    · intro row hreply
      cases hreply
  · constructor
    · intro record hreply
      exact absurd hreply finishPreparation_source
    · intro row hreply
      obtain ⟨next, hattempt, hdb⟩ := finishPreparation_reply hreply
      rw [hdb]
      exact (commitPreparationTransaction_asked hattempt).1

/-- In every registry, whatever its writers did before, a row reported by a
commit is stored when it is reported. -/
theorem reply_reported {action : Action} (hcommitting : registry.Committing action.command) :
    Reported (registry.step action).db (registry.reply action) := by
  obtain ⟨env, command⟩ := action
  cases hcommitting with
  | source slot fileKey object owned => exact commitSource_reported env slot fileKey object owned
  | preparation index result owned => exact commitPreparation_reported env index result owned
  | resolvingSource hcall =>
      simp only [reply, step, execute, hcall, advance]
      constructor
      · intro record hreply
        exact (resolveSourceCommit_held (Reply.source.inj hreply)).2
      · intro row hreply
        cases hreply
  | resolvingPreparation hcall =>
      simp only [reply, step, execute, hcall, advance]
      constructor
      · intro record hreply
        cases hreply
      · intro row hreply
        exact (resolvePreparation_held (Reply.preparation.inj hreply)).2

end Registry

/-! ## Every outcome and every interleaving -/

/-- Whatever becomes of the commit and whatever other writers do before the
second look, a success reports exactly what is stored then, and an error raised
before the commit changed nothing. -/
theorem ambiguous_commits (first second : Env) (others : Db → Db) (db : Db) :
    (∀ pending : PendingGeneration,
      (∀ generation, (commitGenerationCall first second others db pending).reply = .ok generation →
        Published (commitGenerationCall first second others db pending).seen pending generation) ∧
      ∀ error, editTransaction first db (commitEdit pending) = .error error →
        (commitGenerationCall first second others db pending).left = db) ∧
    (∀ capture fileKey objectRef,
      (∀ record,
        (commitCurrentSourceCall first second others db capture fileKey objectRef).reply =
          .ok record →
        SourceHeld (commitCurrentSourceCall first second others db capture fileKey objectRef).seen
          record ∧ SourceAsked capture fileKey objectRef record) ∧
      ∀ error, commitSourceTransaction first db capture fileKey objectRef = .error error →
        (commitCurrentSourceCall first second others db capture fileKey objectRef).left = db) ∧
    (∀ capture result,
      (∀ row, (commitPreparationCall first second others db capture result).reply = .ok row →
        PreparationHeld (commitPreparationCall first second others db capture result).seen row ∧
          OutcomeAsked capture result row) ∧
      ∀ error, commitPreparationTransaction first db capture result = .error error →
        (commitPreparationCall first second others db capture result).left = db) ∧
    (∀ (world : World) action pending generation, world.Publishing action.command pending →
      world.reply action = .committed (.ok generation) →
      Published (world.step action).db pending generation) ∧
    ∀ (registry : Registry) action, registry.Committing action.command →
      Registry.Reported (registry.step action).db (registry.reply action) := by
  refine ⟨fun pending => ⟨?_, ?_⟩, fun capture fileKey objectRef => ⟨?_, ?_⟩,
    fun capture result => ⟨?_, ?_⟩, ?_, ?_⟩
  · intro generation hreply
    exact commitGenerationCall_published hreply
  · intro error hattempt
    rw [(commitGenerationCall_cases first second others db pending).1]
    exact settle_error hattempt
  · intro record hreply
    exact commitCurrentSourceCall_held hreply
  · intro error hattempt
    rw [(commitCurrentSourceCall_cases first second others db capture fileKey objectRef).1]
    exact settle_error hattempt
  · intro row hreply
    exact commitPreparationCall_held hreply
  · intro error hattempt
    rw [(commitPreparationCall_cases first second others db capture result).1]
    exact settle_error hattempt
  · intro world action pending generation hpublishing hreply
    exact World.reply_published hpublishing hreply
  · intro registry action hcommitting
    exact Registry.reply_reported hcommitting

namespace Sample

/-- A commit that takes effect without being acknowledged. -/
def unacknowledged : Env := { Env.quiet with fate := .unacknowledged }

/-- The tables of a build that is ready to be published. -/
def ready : Db := ((World.init Db.empty).run uploaded).db

/-- The tables in which the only source has settings and no outcome. -/
def selected : Db := ((World.init Db.empty).run (captured.take 2)).db

def firstCapture : SourceCapture := ⟨namespaceId, sourceId, Json.ascii "/a", none, none, none⟩

def firstPreparation : PreparationCapture := ⟨source, .default, 1, 0, none⟩

end Sample

theorem ambiguous_commits_sample :
    Published (commitGenerationCall Sample.unacknowledged Env.quiet id Sample.ready
      Sample.created).seen Sample.created Sample.created.generation ∧
    SourceHeld (commitCurrentSourceCall Sample.unacknowledged Env.quiet id Db.empty
      Sample.firstCapture (.unix 1 2) Sample.object).seen Sample.source ∧
    (∃ row, PreparationHeld (commitPreparationCall Sample.unacknowledged Env.quiet id
      Sample.selected Sample.firstPreparation (.gap .binaryContent)).seen row) ∧
    (commitGenerationCall Sample.unacknowledged Env.quiet id Db.empty Sample.created).left =
      Db.empty := by
  refine ⟨?_, ?_, ?_, ?_⟩
  · exact ((ambiguous_commits Sample.unacknowledged Env.quiet id Sample.ready).1
      Sample.created).1 _ (by decide +kernel)
  · exact (((ambiguous_commits Sample.unacknowledged Env.quiet id Db.empty).2.1
      Sample.firstCapture (.unix 1 2) Sample.object).1 Sample.source (by decide +kernel)).1
  · exact ⟨_, (((ambiguous_commits Sample.unacknowledged Env.quiet id Sample.selected).2.2.1
      Sample.firstPreparation (.gap .binaryContent)).1
      ⟨Sample.namespaceId, Sample.sourceId, 1, .default, 1,
        some (boundOutcome Sample.firstPreparation (.gap .binaryContent))⟩ (by decide +kernel)).1⟩
  · exact ((ambiguous_commits Sample.unacknowledged Env.quiet id Db.empty).1
      Sample.created).2 .stale (by decide +kernel)

end EliotSearch.Control
