import EliotSearch.Control.World
import Mathlib.Data.List.TakeWhile

/-!
# Publication transitions

`Transition` says once what a durable publication transaction can do to the
generation rows and the header: one constructor per transaction, with the
guards it passed and the exact rows and header it leaves.  `step_stepOk` shows
that a step of the world either leaves rows, header and log alone or performs
one transition, so every invariant is proved by cases on transitions.
-/

namespace EliotSearch.Control

open EliotSearch.Library
open EliotSearch.Library.Results
open EliotSearch.Library.Words

/-- The contents of the generation tables, empty where a table is absent. -/
structure Rows where
  sources : Table
  pages : Table
  evidence : Table
  retired : Table

def Db.rows (db : Db) : Rows where
  sources := openTable db.generationSources
  pages := openTable db.generationPages
  evidence := openTable db.generationEvidence
  retired := openTable db.retiredGenerations

namespace Rows

def get (rows : Rows) : GenerationTable → Table
  | .sources => rows.sources
  | .pages => rows.pages
  | .evidence => rows.evidence

def set (rows : Rows) (table : Table) : GenerationTable → Rows
  | .sources => { rows with sources := table }
  | .pages => { rows with pages := table }
  | .evidence => { rows with evidence := table }

def retire (rows : Rows) (retired : RetiredGeneration) : Rows :=
  { rows with
    retired := rows.retired.insert (be64 retired.generation.sequence)
      (retiredFormat.print retired) }

def retireCurrent (rows : Rows) : Option Generation → Rows
  | none => rows
  | some old => rows.retire ⟨old, true, none⟩

end Rows

/-- A retired generation that no live header names and whose exact row is
stored without an unresolved build. -/
structure Removable (rows : Rows) (state : State) (retired : RetiredGeneration) : Prop where
  settled : retired.unresolvedBuild = none
  namespace_eq : state.namespaceId = some retired.generation.namespaceId
  not_current : ∀ current ∈ state.current, current.sequence ≠ retired.generation.sequence
  not_pending : ∀ pending ∈ state.pending,
    pending.generation.sequence ≠ retired.generation.sequence
  stored : ∃ value, rows.retired[be64 retired.generation.sequence]? = some value ∧
    retiredFormat.decode value = some retired

/-- One durable publication transaction, given the wanted version of the
corpus, the captures taken so far and the log so far. -/
inductive Transition (wanted : Option ℕ) (captures : List CorpusCapture) (history : List Event)
    (rows : Rows) (state : State) : Option Event → Rows → State → Prop
  | reserve {capture : CorpusCapture} {namespaceId : Octets 16} {sequence : UInt64}
      (captured : capture ∈ captures)
      (fresh : wanted = some capture.wantedRevision.toNat)
      (idle : state.pending = none)
      (named : ∀ stored ∈ state.namespaceId, stored = namespaceId)
      (next : sequence.toNat = state.nextSequence.toNat + 1)
      (room : rows.retired.size < maxRetired) :
      Transition wanted captures history rows state
        (some (.reserved (reservedBuild capture state namespaceId sequence) capture.sources))
        rows { state with
          namespaceId := some namespaceId
          nextSequence := sequence
          pending := some (reservedBuild capture state namespaceId sequence) }
  | persist {p reserved : PendingGeneration} {sources chunk : List CapturedSource}
      {inputs : List (Bytes × Bytes)} {table : Table}
      (pending : state.pending = some p)
      (logged : Event.reserved reserved sources ∈ history)
      (same : p.build = reserved.build)
      (subset : ∀ captured ∈ chunk, captured ∈ sources)
      (encoded : chunk.mapM (capturedRow p.generation.sequence) = .ok inputs)
      (inserted : insertFresh rows.sources inputs = .ok table) :
      Transition wanted captures history rows state none { rows with sources := table } state
  | stage {p : PendingGeneration} {env : Env} {page : UploadPage} {bytes : Bytes}
      {stagedBytes pageCount : UInt64} {staging : Staging}
      (pending : state.pending = some p)
      (unsealed : p.captureComplete = false)
      (idle : p.inFlight = none)
      (encoded : encodePage page = .ok bytes)
      (charged : stagedBytes ≤ maxStagedBytes)
      (staged : stagePoints env p.generation.sequence 2
        ⟨rows.sources, rows.evidence, p.generation.pointCount⟩ page.points = .ok staging)
      (counted : pageCount.toNat = p.generation.pageCount.toNat + 1) :
      Transition wanted captures history rows state none
        { rows with
          sources := staging.sources
          evidence := staging.evidence
          pages := rows.pages.insert
            (key p.generation.sequence (be64 p.generation.pageCount)) bytes }
        { state with pending := some { p with
          generation := { p.generation with pointCount := staging.pointCount, pageCount }
          stagedBytes } }
  | finish {p : PendingGeneration} {id : SourceId} {value bytes : Bytes} {entry : SourceEntry}
      {completedSources : UInt64}
      (pending : state.pending = some p)
      (unsealed : p.captureComplete = false)
      (found : rows.sources[key p.generation.sequence id.bytes]? = some value)
      (decoded : decodeSource value = .ok entry)
      (incomplete : entry.complete = false)
      (encoded : encodeSource { entry with complete := true } = .ok bytes)
      (counted : completedSources.toNat = p.completedSources.toNat + 1) :
      Transition wanted captures history rows state none
        { rows with
          sources := rows.sources.insert (key p.generation.sequence id.bytes) bytes }
        { state with pending := some { p with completedSources } }
  | complete {p : PendingGeneration}
      (pending : state.pending = some p)
      (fresh : wanted = some p.generation.wantedRevision.toNat)
      (finished : p.completedSources = p.generation.sourceCount) :
      Transition wanted captures history rows state none rows
        { state with pending := some { p with captureComplete := true } }
  | record {p : PendingGeneration} {operation : PendingOperation} {revision : UInt64}
      (pending : state.pending = some p)
      (fresh : wanted = some p.generation.wantedRevision.toNat)
      (idle : p.inFlight = none)
      (sealed : p.captureComplete = true)
      (next : NextOperation p operation)
      (counted : revision.toNat = p.operationRevision.toNat + 1) :
      Transition wanted captures history rows state
        (some (.recorded p.build operation revision)) rows
        { state with pending := some { p with
          operationRevision := revision, inFlight := some operation } }
  | settle {p after : PendingGeneration} {operation : PendingOperation} {applied : Bool}
      (pending : state.pending = some p)
      (inFlight : p.inFlight = some operation)
      (result : settled p operation applied = .ok after) :
      Transition wanted captures history rows state
        (some (.settled p.build operation p.operationRevision applied)) rows
        { state with pending := some after }
  | commit {p : PendingGeneration} {revision : UInt64}
      (pending : state.pending = some p)
      (fresh : wanted = some p.generation.wantedRevision.toNat)
      (idle : p.inFlight = none)
      (sealed : p.captureComplete = true)
      (created : p.created = true)
      (uploaded : p.uploadedPages = p.generation.pageCount)
      (same : state.current = p.expectedCurrent)
      (counted : revision.toNat = state.currentRevision.toNat + 1) :
      Transition wanted captures history rows state (some (.committed p.generation))
        (rows.retireCurrent state.current)
        { state with
          currentRevision := revision, current := some p.generation, pending := none }
  | abandon {p : PendingGeneration}
      (pending : state.pending = some p)
      (idle : p.inFlight = none) :
      Transition wanted captures history rows state (some (.abandoned p.build))
        (rows.retire ⟨p.generation, p.created, none⟩) { state with pending := none }
  | supersede {p : PendingGeneration}
      (pending : state.pending = some p)
      (unresolved : UnresolvedBuild p)
      (room : rows.retired.size < maxRetired)
      (free : rows.retired[be64 p.generation.sequence]? = none) :
      Transition wanted captures history rows state (some (.superseded p))
        (rows.retire ⟨p.generation, p.created, some p⟩) { state with pending := none }
  | remove {retired : RetiredGeneration} (definition : GenerationTable) (keys : List Bytes)
      (removable : Removable rows state retired)
      (owned : ∀ key ∈ keys, be64 retired.generation.sequence <+: key) :
      Transition wanted captures history rows state none
        (rows.set (keys.foldl (fun table key => table.erase key) (rows.get definition)) definition)
        state
  | forget {retired : RetiredGeneration}
      (removable : Removable rows state retired) :
      Transition wanted captures history rows state none
        { rows with retired := rows.retired.erase (be64 retired.generation.sequence) } state

/-! ## Frames -/

/-- The tables a corpus is read from are untouched. -/
structure KeepsSources (before after : Db) : Prop where
  state : after.sourceState = before.sourceState
  rows : after.sourceRows = before.sourceRows
  locators : after.sourceLocators = before.sourceLocators
  preparations : after.preparations = before.preparations

theorem KeepsPublication.rows_eq {before after : Db} (hkeeps : KeepsPublication before after) :
    after.rows = before.rows := by
  simp only [Db.rows, hkeeps.sources, hkeeps.pages, hkeeps.evidence, hkeeps.retired]

theorem KeepsPublication.readState_eq {before after : Db}
    (hkeeps : KeepsPublication before after) : readState after = readState before := by
  simp only [readState, hkeeps.header]

theorem KeepsSources.evolves {before after : Db} (hkeeps : KeepsSources before after) :
    corpusStore.Evolves before after :=
  corpusStore_unchanged (by simp only [writeWantedRevision, hkeeps.state])
    (by rw [hkeeps.rows]) (by rw [hkeeps.preparations])

/-! ## Edits are transitions -/

/-- Every generation table exists. -/
structure Db.Opened (db : Db) : Prop where
  sources : db.generationSources.isSome = true
  pages : db.generationPages.isSome = true
  evidence : db.generationEvidence.isSome = true
  retired : db.retiredGenerations.isSome = true

/-- What the closure of a publication transaction did to the tables. -/
structure Effect (captures : List CorpusCapture) (history : List Event) (db : Db) (state : State)
    (event : Option Event) (left : Db) (after : State) : Prop where
  transition : Transition (corpusStore.version db) captures history db.rows state event
    left.rows after
  sources : KeepsSources db left
  opened : left.Opened

variable {captures : List CorpusCapture} {history : List Event} {db left : Db}
  {state after : State}

theorem openPublication_opened (db : Db) : db.openPublication.Opened :=
  ⟨rfl, rfl, rfl, rfl⟩

theorem openPublication_keepsSources (db : Db) : KeepsSources db db.openPublication :=
  ⟨rfl, rfl, rfl, rfl⟩

theorem checkWanted_fresh {namespaceId : Option (Octets 16)} {revision : UInt64} {result : Unit}
    (hguard : checkWanted db.openPublication namespaceId revision = .ok result) :
    corpusStore.version db = some revision.toNat :=
  corpusStore_version (checkWanted_revision hguard)

theorem buildNamespace_named {capture : CorpusCapture} {random : Option (Octets 16)}
    {namespaceId stored : Octets 16} (hbuild : buildNamespace capture random = .ok namespaceId)
    (hstored : stored ∈ capture.state.namespaceId) : stored = namespaceId := by
  rw [Option.mem_def] at hstored
  rw [buildNamespace, hstored] at hbuild
  exact Except.ok.inj hbuild

theorem reserveEdit_effect {capture : CorpusCapture} {random : Option (Octets 16)}
    {namespaceId : Octets 16} {pending : PendingGeneration} (hcapture : capture ∈ captures)
    (hbuild : buildNamespace capture random = .ok namespaceId)
    (hedit : reserveEdit capture namespaceId db.openPublication state =
      .ok (left, after, pending)) :
    Effect captures history db state (some (.reserved pending capture.sources)) left after := by
  simp only [reserveEdit, bind_eq_ok, refuse_eq_ok, okOr_eq_ok, not_or, not_not, Nat.not_le]
    at hedit
  obtain ⟨_, hwanted, _, ⟨_, _, hidle, _, hnamespace, _⟩, _, hroom, sequence, hsequence, hedit⟩ :=
    hedit
  simp only [pure_eq_ok, Except.ok.injEq, Prod.mk.injEq] at hedit
  obtain ⟨rfl, rfl, rfl⟩ := hedit
  refine ⟨Transition.reserve hcapture (checkWanted_fresh hwanted) (by simpa using hidle) ?_ ?_
    hroom, openPublication_keepsSources db, openPublication_opened db⟩
  · intro stored hstored
    rw [hnamespace] at hstored
    exact buildNamespace_named hbuild hstored
  · simpa using checkedAdd_eq_some.mp hsequence

theorem persistEdit_effect {reserved : PendingGeneration} {sources chunk : List CapturedSource}
    {inputs : List (Bytes × Bytes)} {result : Unit}
    (hlogged : Event.reserved reserved sources ∈ history)
    (hsubset : ∀ captured ∈ chunk, captured ∈ sources)
    (hencoded : chunk.mapM (capturedRow reserved.generation.sequence) = .ok inputs)
    (hedit : persistEdit reserved inputs db.openPublication state = .ok (left, after, result)) :
    Effect captures history db state none left after := by
  simp only [persistEdit, bind_eq_ok, pendingMut_eq_ok] at hedit
  obtain ⟨p, ⟨hpending, hnamespace, hsequence⟩, table, htable, hedit⟩ := hedit
  simp only [pure_eq_ok, Except.ok.injEq, Prod.mk.injEq] at hedit
  obtain ⟨rfl, rfl, -⟩ := hedit
  have hbuild : p.build = reserved.build := by
    rw [PendingGeneration.build, Generation.build, hnamespace, hsequence]
    rfl
  rw [← hsequence] at hencoded
  exact ⟨Transition.persist hpending hlogged hbuild hsubset hencoded htable, ⟨rfl, rfl, rfl, rfl⟩,
    ⟨rfl, rfl, rfl, rfl⟩⟩

theorem stagePageEdit_effect {env : Env} {expected : PendingGeneration} {page : UploadPage}
    {bytes : Bytes} {result : Unit} (hencoded : encodePage page = .ok bytes)
    (hedit : stagePageEdit env expected page bytes db.openPublication state =
      .ok (left, after, result)) :
    Effect captures history db state none left after := by
  simp only [stagePageEdit, bind_eq_ok, pendingMut_eq_ok, refuse_eq_ok, okOr_eq_ok, not_or,
    Bool.not_eq_true, Option.filter_eq_some_iff, decide_eq_true_eq] at hedit
  obtain ⟨p, ⟨hpending, _, _⟩, _, ⟨hunsealed, hidle⟩, stagedBytes, ⟨_, hcharged⟩, staging,
    hstaged, pageCount, hcount, hedit⟩ := hedit
  simp only [pure_eq_ok, Except.ok.injEq, Prod.mk.injEq] at hedit
  obtain ⟨rfl, rfl, -⟩ := hedit
  refine ⟨Transition.stage hpending hunsealed (by simpa using hidle) hencoded hcharged hstaged ?_,
    ⟨rfl, rfl, rfl, rfl⟩, ⟨rfl, rfl, rfl, rfl⟩⟩
  simpa using checkedAdd_eq_some.mp hcount

theorem finishSourceEdit_effect {expected : PendingGeneration} {id : SourceId} {units : UInt64}
    {result : Unit}
    (hedit : finishSourceEdit expected id units db.openPublication state =
      .ok (left, after, result)) :
    Effect captures history db state none left after := by
  simp only [finishSourceEdit, bind_eq_ok, pendingMut_eq_ok, refuse_eq_ok, okOr_eq_ok, not_or,
    Bool.not_eq_true] at hedit
  obtain ⟨p, ⟨hpending, _, _⟩, _, hunsealed, value, hvalue, entry, hentry, _, ⟨hincomplete, _⟩,
    bytes, hbytes, completedSources, hcount, hedit⟩ := hedit
  simp only [pure_eq_ok, Except.ok.injEq, Prod.mk.injEq] at hedit
  obtain ⟨rfl, rfl, -⟩ := hedit
  refine ⟨Transition.finish hpending hunsealed hvalue hentry hincomplete hbytes ?_,
    ⟨rfl, rfl, rfl, rfl⟩, ⟨rfl, rfl, rfl, rfl⟩⟩
  simpa using checkedAdd_eq_some.mp hcount

theorem completeCaptureEdit_effect {expected result : PendingGeneration}
    (hedit : completeCaptureEdit expected db.openPublication state = .ok (left, after, result)) :
    Effect captures history db state none left after := by
  simp only [completeCaptureEdit, bind_eq_ok, pendingMut_eq_ok, refuse_eq_ok, not_not] at hedit
  obtain ⟨p, ⟨hpending, _, _⟩, _, hwanted, _, hcomplete, hedit⟩ := hedit
  simp only [pure_eq_ok, Except.ok.injEq, Prod.mk.injEq] at hedit
  obtain ⟨rfl, rfl, -⟩ := hedit
  exact ⟨Transition.complete hpending (checkWanted_fresh hwanted) hcomplete,
    openPublication_keepsSources db, openPublication_opened db⟩

theorem recordDispatchEdit_effect {expected : PendingGeneration} {operation : PendingOperation}
    {revision : UInt64}
    (hedit : recordDispatchEdit expected operation db.openPublication state =
      .ok (left, after, revision)) :
    Effect captures history db state (some (.recorded expected.build operation revision))
      left after := by
  simp only [recordDispatchEdit, bind_eq_ok, pendingMut_eq_ok, refuse_eq_ok, okOr_eq_ok, not_or,
    not_not, Bool.not_eq_true, Bool.not_eq_false] at hedit
  obtain ⟨p, ⟨hpending, hnamespace, hsequence⟩, _, hwanted, _, hidle, _, _, _, ⟨hsealed, hnext⟩,
    found, hcount, hedit⟩ := hedit
  simp only [pure_eq_ok, Except.ok.injEq, Prod.mk.injEq] at hedit
  obtain ⟨rfl, rfl, rfl⟩ := hedit
  have hbuild : expected.build = p.build := by
    simp only [PendingGeneration.build, Generation.build, hnamespace, hsequence]
  rw [hbuild]
  refine ⟨Transition.record hpending (checkWanted_fresh hwanted) (by simpa using hidle) hsealed
    hnext ?_, openPublication_keepsSources db, openPublication_opened db⟩
  simpa using checkedAdd_eq_some.mp hcount

theorem finishDispatchEdit_effect {expected : PendingGeneration} {operation : PendingOperation}
    {revision : UInt64} {applied : Bool} {result : Unit}
    (hedit : finishDispatchEdit expected operation revision applied db.openPublication state =
      .ok (left, after, result)) :
    Effect captures history db state (some (.settled expected.build operation revision applied))
      left after := by
  simp only [finishDispatchEdit, bind_eq_ok, pendingMut_eq_ok, refuse_eq_ok, not_or, not_not]
    at hedit
  obtain ⟨p, ⟨hpending, hnamespace, hsequence⟩, _, ⟨hinFlight, rfl⟩, found, hsettled, hedit⟩ :=
    hedit
  simp only [pure_eq_ok, Except.ok.injEq, Prod.mk.injEq] at hedit
  obtain ⟨rfl, rfl, -⟩ := hedit
  have hbuild : expected.build = p.build := by
    simp only [PendingGeneration.build, Generation.build, hnamespace, hsequence]
  rw [hbuild]
  exact ⟨Transition.settle hpending hinFlight hsettled, openPublication_keepsSources db,
    openPublication_opened db⟩

theorem retireCurrent_rows (db : Db) (current : Option Generation) :
    (retireCurrent db current).rows = db.rows.retireCurrent current := by
  cases current <;> rfl

theorem retireCurrent_frame (db : Db) (current : Option Generation) :
    KeepsSources db (retireCurrent db.openPublication current) ∧
      (retireCurrent db.openPublication current).Opened := by
  cases current with
  | none => exact ⟨openPublication_keepsSources db, openPublication_opened db⟩
  | some old => exact ⟨⟨rfl, rfl, rfl, rfl⟩, ⟨rfl, rfl, rfl, rfl⟩⟩

theorem commitEdit_effect {expected : PendingGeneration} {generation : Generation}
    (hedit : commitEdit expected db.openPublication state = .ok (left, after, generation)) :
    Effect captures history db state (some (.committed generation)) left after := by
  simp only [commitEdit, bind_eq_ok, pendingMut_eq_ok, refuse_eq_ok, okOr_eq_ok, not_or, not_not,
    Bool.not_eq_true, Bool.not_eq_false] at hedit
  obtain ⟨p, ⟨hpending, _, _⟩, _, rfl, _, hwanted, _, hidle, _,
    ⟨hsealed, hcreated, huploaded, _, hsame⟩, revision, hcount, hedit⟩ := hedit
  simp only [pure_eq_ok, Except.ok.injEq, Prod.mk.injEq] at hedit
  obtain ⟨rfl, rfl, rfl⟩ := hedit
  obtain ⟨hsources, hopened⟩ := retireCurrent_frame db state.current
  refine ⟨?_, hsources, hopened⟩
  rw [retireCurrent_rows]
  refine Transition.commit hpending (checkWanted_fresh hwanted) (by simpa using hidle) hsealed
    hcreated huploaded hsame ?_
  simpa using checkedAdd_eq_some.mp hcount

theorem abandonEdit_effect {expected : PendingGeneration} {result : Unit}
    (hedit : abandonEdit expected db.openPublication state = .ok (left, after, result)) :
    Effect captures history db state (some (.abandoned expected.build)) left after := by
  simp only [abandonEdit, bind_eq_ok, pendingMut_eq_ok, refuse_eq_ok, not_not, Bool.not_eq_true]
    at hedit
  obtain ⟨p, ⟨hpending, _, _⟩, _, rfl, _, hidle, hedit⟩ := hedit
  simp only [pure_eq_ok, Except.ok.injEq, Prod.mk.injEq] at hedit
  obtain ⟨rfl, rfl, -⟩ := hedit
  exact ⟨Transition.abandon hpending (by simpa using hidle), ⟨rfl, rfl, rfl, rfl⟩,
    ⟨rfl, rfl, rfl, rfl⟩⟩

theorem supersedeEdit_effect {expected : PendingGeneration} {result : Unit}
    (hedit : supersedeEdit expected db.openPublication state = .ok (left, after, result)) :
    Effect captures history db state (some (.superseded expected)) left after := by
  simp only [supersedeEdit, bind_eq_ok, pendingMut_eq_ok, refuse_eq_ok, not_not, Nat.not_le]
    at hedit
  obtain ⟨p, ⟨hpending, _, _⟩, _, rfl, _, hunresolved, _, _, _, hroom, _, hfree, hedit⟩ := hedit
  simp only [pure_eq_ok, Except.ok.injEq, Prod.mk.injEq] at hedit
  obtain ⟨rfl, rfl, -⟩ := hedit
  exact ⟨Transition.supersede hpending hunresolved hroom
    (Option.not_isSome_iff_eq_none.mp hfree),
    ⟨rfl, rfl, rfl, rfl⟩, ⟨rfl, rfl, rfl, rfl⟩⟩

theorem checkRetired_removable {retired : RetiredGeneration} {result : Unit}
    (hsettled : retired.unresolvedBuild = none)
    (hguard : checkRetired db.openPublication state retired = .ok result) :
    Removable db.rows state retired := by
  simp only [checkRetired, bind_eq_ok, refuse_eq_ok, okOr_eq_ok, not_or, not_not] at hguard
  obtain ⟨_, ⟨hnamespace, hcurrent, hpending⟩, value, hvalue, actual, hactual, rfl⟩ := hguard
  refine ⟨hsettled, hnamespace, ?_, ?_, value, hvalue, hactual⟩
  · exact fun current hmem heq => hcurrent ⟨current, hmem, heq⟩
  · exact fun pending hmem heq => hpending ⟨pending, hmem, heq⟩

theorem removeKeysEdit_effect {retired : RetiredGeneration} {definition : GenerationTable}
    {keys : List Bytes} {result : Unit} (hsettled : retired.unresolvedBuild = none)
    (howned : ∀ key ∈ keys, be64 retired.generation.sequence <+: key)
    (hedit : removeKeysEdit retired definition keys db.openPublication state =
      .ok (left, after, result)) :
    Effect captures history db state none left after := by
  simp only [removeKeysEdit, bind_eq_ok] at hedit
  obtain ⟨_, hguard, hedit⟩ := hedit
  simp only [pure_eq_ok, Except.ok.injEq, Prod.mk.injEq] at hedit
  obtain ⟨rfl, rfl, -⟩ := hedit
  have htransition : Transition (corpusStore.version db) captures history db.rows state none _ state :=
    Transition.remove definition keys (checkRetired_removable hsettled hguard) howned
  cases definition with
  | sources => exact ⟨htransition, ⟨rfl, rfl, rfl, rfl⟩, ⟨rfl, rfl, rfl, rfl⟩⟩
  | pages => exact ⟨htransition, ⟨rfl, rfl, rfl, rfl⟩, ⟨rfl, rfl, rfl, rfl⟩⟩
  | evidence => exact ⟨htransition, ⟨rfl, rfl, rfl, rfl⟩, ⟨rfl, rfl, rfl, rfl⟩⟩

theorem forgetRetiredEdit_effect {retired : RetiredGeneration} {result : Unit}
    (hsettled : retired.unresolvedBuild = none)
    (hedit : forgetRetiredEdit retired db.openPublication state = .ok (left, after, result)) :
    Effect captures history db state none left after := by
  simp only [forgetRetiredEdit, bind_eq_ok] at hedit
  obtain ⟨_, hguard, hedit⟩ := hedit
  simp only [pure_eq_ok, Except.ok.injEq, Prod.mk.injEq] at hedit
  obtain ⟨rfl, rfl, -⟩ := hedit
  exact ⟨Transition.forget (checkRetired_removable hsettled hguard), ⟨rfl, rfl, rfl, rfl⟩,
    ⟨rfl, rfl, rfl, rfl⟩⟩

/-! ## Steps of the world -/

/-- What is known about a call in flight. -/
def CallOk (history : List Event) : Call → Prop
  | .persisting pending chunks => ∃ sources, Event.reserved pending sources ∈ history ∧
      ∀ chunk ∈ chunks, ∀ captured ∈ chunk, captured ∈ sources
  | .confirming _ => True
  | .scanning retired _ => retired.unresolvedBuild = none
  | .removing retired _ _ keys => retired.unresolvedBuild = none ∧
      ∀ key ∈ keys, be64 retired.generation.sequence <+: key

/-- A durable publication transaction of the world: a transition from the
stored header whose result is stored in turn. -/
structure Moves (world : World) (event : Option Event) (next : Db) : Prop where
  moved : ∃ state after, readState world.db = .ok state ∧
    Transition (corpusStore.version world.db) world.captures world.history world.db.rows state
      event next.rows after ∧
    (after.Readable → readState next = .ok after)
  sources : KeepsSources world.db next
  opened : next.Opened ∧ next.publicationState.isSome = true

/-- A durable edit with a known effect moves the world. -/
theorem Effect.moves {world : World} {state after : State} {event : Option Event} {left : Db}
    (heffect : Effect world.captures world.history world.db state event left after)
    (hstate : readState world.db = .ok state) : Moves world event (left.withState after) where
  moved := ⟨state, after, hstate, heffect.transition, readState_withState left⟩
  sources := ⟨heffect.sources.state, heffect.sources.rows, heffect.sources.locators,
    heffect.sources.preparations⟩
  opened := ⟨⟨heffect.opened.sources, heffect.opened.pages, heffect.opened.evidence,
    heffect.opened.retired⟩, rfl⟩

/-- Each edit either changes nothing or moves the world with its event. -/
theorem editDatabase_moves {α : Type} {world : World} {env : Env} {write : Edit α}
    (event : α → Option Event)
    (heffect : ∀ state left after value,
      write world.db.openPublication state = .ok (left, after, value) →
        Effect world.captures world.history world.db state (event value) left after) :
    ((editDatabase env world.db write).written = none ∧
      (editDatabase env world.db write).db = world.db ∧
      ∃ error, (editDatabase env world.db write).reply = .error error) ∨
    ∃ value, (editDatabase env world.db write).written = some value ∧
      Moves world (event value) (editDatabase env world.db write).db ∧
      ((editDatabase env world.db write).reply = .ok value ∨
        (editDatabase env world.db write).reply = .error .database) := by
  rcases editDatabase_cases env world.db write with hdropped | hdurable
  · exact Or.inl hdropped
  · obtain ⟨state, left, after, value, hstate, hwrite, hdb, hwritten, hreply⟩ := hdurable
    refine Or.inr ⟨value, hwritten, ?_, hreply⟩
    rw [hdb]
    exact (heffect state left after value hwrite).moves hstate

/-- A step that performs no publication transaction. -/
structure Quiet (world next : World) : Prop where
  corpus : CorpusStep world.db next.db
  history : next.history = world.history
  captures : next.captures = world.captures ∨ ∃ env capture,
    captureCorpus env world.db = .ok capture ∧ next.db = world.db ∧
      next.captures = world.captures ++ [capture]

/-- A step that performs one publication transaction. -/
structure Publishes (world next : World) (event : Option Event) : Prop where
  moves : Moves world event next.db
  history : next.history = world.history ++ event.toList
  captures : next.captures = world.captures

theorem Quiet.of_db {world next : World} (hdb : next.db = world.db)
    (hhistory : next.history = world.history) (hcaptures : next.captures = world.captures) :
    Quiet world next :=
  ⟨hdb ▸ CorpusStep.refl world.db, hhistory, Or.inl hcaptures⟩

/-! ## Calls in flight -/

theorem CallOk.mono {earlier later : List Event} {call : Call}
    (hsubset : ∀ event ∈ earlier, event ∈ later) (hcall : CallOk earlier call) :
    CallOk later call := by
  cases call with
  | persisting pending chunks =>
      obtain ⟨sources, hlogged, hchunks⟩ := hcall
      exact ⟨sources, hsubset _ hlogged, hchunks⟩
  | confirming pending => trivial
  | scanning retired tables => exact hcall
  | removing retired definition tables keys => exact hcall

def CallsOk (world : World) : Prop := ∀ call ∈ world.calls, CallOk world.history call

theorem CallsOk.withDb {ε α : Type} {world : World} (hcalls : CallsOk world)
    (outcome : Outcome ε α) : CallsOk (world.withDb outcome) :=
  hcalls

theorem CallsOk.logged {ε α : Type} {world : World} (hcalls : CallsOk world)
    (outcome : Outcome ε α) (event : α → Event) : CallsOk (world.logged outcome event) :=
  fun call hmem => (hcalls call hmem).mono fun _ hevent => List.mem_append_left _ hevent

theorem CallsOk.push {world : World} {call : Call} (hcalls : CallsOk world)
    (hcall : CallOk world.history call) : CallsOk (world.push call) := by
  intro other hmem
  rcases List.mem_append.mp hmem with hold | hnew
  · exact hcalls other hold
  · obtain rfl := List.mem_singleton.mp hnew
    exact hcall

theorem CallsOk.drop {world : World} (hcalls : CallsOk world) (index : Nat) :
    CallsOk (world.drop index) :=
  fun call hmem => hcalls call (List.mem_of_mem_eraseIdx hmem)

theorem CallsOk.replace {world : World} {call : Call} (hcalls : CallsOk world) (index : Nat)
    (hcall : CallOk world.history call) : CallsOk (world.replace index call) := by
  intro other hmem
  rcases List.mem_or_eq_of_mem_set hmem with hold | rfl
  · exact hcalls other hold
  · exact hcall

/-! ## Every step is quiet or publishes -/

/-- One step: quiet or one transition, with the calls in flight accounted for. -/
structure StepOk (world next : World) : Prop where
  cases : Quiet world next ∨ ∃ event, Publishes world next event
  calls : CallsOk next

section Steps

variable {world : World} {ε α : Type}

theorem Quiet.stepOk {next : World} (hquiet : Quiet world next) (hcalls : CallsOk next) :
    StepOk world next :=
  ⟨Or.inl hquiet, hcalls⟩

theorem corpusStep_stepOk (hcalls : CallsOk world) {outcome : Outcome ε α}
    (hstep : CorpusStep world.db outcome.db) : StepOk world (world.withDb outcome) :=
  ⟨Or.inl ⟨hstep, rfl, Or.inl rfl⟩, hcalls⟩

/-- An edit that the log does not record. -/
theorem withDb_stepOk (hcalls : CallsOk world) {env : Env} {write : Edit α}
    (heffect : ∀ state left after value,
      write world.db.openPublication state = .ok (left, after, value) →
        Effect world.captures world.history world.db state none left after) :
    StepOk world (world.withDb (editDatabase env world.db write)) := by
  refine ⟨?_, hcalls⟩
  rcases editDatabase_moves (fun _ => none) heffect with ⟨-, hdb, -⟩ | hmoved
  · exact Or.inl (Quiet.of_db hdb rfl rfl)
  · obtain ⟨value, -, hmoves, -⟩ := hmoved
    exact Or.inr ⟨none, hmoves, (List.append_nil _).symm, rfl⟩

/-- An edit that the log records. -/
theorem logged_stepOk (hcalls : CallsOk world) {env : Env} {write : Edit α} {event : α → Event}
    (heffect : ∀ state left after value,
      write world.db.openPublication state = .ok (left, after, value) →
        Effect world.captures world.history world.db state (some (event value)) left after) :
    StepOk world (world.logged (editDatabase env world.db write) event) := by
  refine ⟨?_, hcalls.logged _ _⟩
  rcases editDatabase_moves (fun value => some (event value)) heffect with
    ⟨hwritten, hdb, -⟩ | hmoved
  · refine Or.inl (Quiet.of_db hdb ?_ rfl)
    simp [World.logged, hwritten]
  · obtain ⟨value, hwritten, hmoves, -⟩ := hmoved
    refine Or.inr ⟨some (event value), hmoves, ?_, rfl⟩
    simp [World.logged, hwritten]

/-- A reply that succeeds was logged. -/
theorem mem_logged_of_reply {env : Env} {write : Edit α} (event : α → Event) {value : α}
    (hreply : (editDatabase env world.db write).reply = .ok value) :
    event value ∈ (world.logged (editDatabase env world.db write) event).history := by
  rcases editDatabase_cases env world.db write with ⟨-, -, error, herror⟩ | hdurable
  · rw [hreply] at herror
    cases herror
  · obtain ⟨_, _, _, found, _, _, _, hwritten, hfound⟩ := hdurable
    have hvalue : found = value := by
      rcases hfound with hfound | hfound
      · rw [hreply] at hfound
        exact (Except.ok.inj hfound).symm
      · rw [hreply] at hfound
        cases hfound
    subst hvalue
    simp [World.logged, hwritten]

/-- The list of calls is no part of a step's effect. -/
theorem StepOk.of_calls {next other : World} (hstep : StepOk world next)
    (hdb : other.db = next.db) (hhistory : other.history = next.history)
    (hcaptures : other.captures = next.captures) (hcalls : CallsOk other) :
    StepOk world other := by
  refine ⟨?_, hcalls⟩
  rcases hstep.cases with hquiet | ⟨event, hpublishes⟩
  · refine Or.inl ⟨hdb ▸ hquiet.corpus, hhistory.trans hquiet.history, ?_⟩
    rcases hquiet.captures with hsame | ⟨env, capture, hcapture, hnext, hadded⟩
    · exact Or.inl (hcaptures.trans hsame)
    · exact Or.inr ⟨env, capture, hcapture, hdb.trans hnext, hcaptures.trans hadded⟩
  · exact Or.inr ⟨event, hdb ▸ hpublishes.moves, hhistory.trans hpublishes.history,
      hcaptures.trans hpublishes.captures⟩

theorem StepOk.push {next : World} {call : Call} (hstep : StepOk world next)
    (hcall : CallOk next.history call) : StepOk world (next.push call) :=
  hstep.of_calls rfl rfl rfl (hstep.calls.push hcall)

theorem StepOk.drop {next : World} (hstep : StepOk world next) (index : Nat) :
    StepOk world (next.drop index) :=
  hstep.of_calls rfl rfl rfl (hstep.calls.drop index)

theorem StepOk.replace {next : World} {call : Call} (hstep : StepOk world next) (index : Nat)
    (hcall : CallOk next.history call) : StepOk world (next.replace index call) :=
  hstep.of_calls rfl rfl rfl (hstep.calls.replace index hcall)

theorem StepOk.refl (hcalls : CallsOk world) : StepOk world world :=
  (Quiet.of_db rfl rfl rfl).stepOk hcalls

theorem captureCorpus_stepOk (hcalls : CallsOk world) (env : Env) :
    StepOk world (world.captureCorpus env).1 := by
  unfold World.captureCorpus
  cases hcapture : captureCorpus env world.db with
  | error error => exact StepOk.refl hcalls
  | ok capture =>
      exact Quiet.stepOk ⟨CorpusStep.refl world.db, rfl,
        Or.inr ⟨env, capture, hcapture, rfl, rfl⟩⟩ hcalls

theorem startBuild_stepOk (hcalls : CallsOk world) (env : Env) {capture : CorpusCapture}
    (hcapture : capture ∈ world.captures) (random : Option (Octets 16)) :
    StepOk world (world.startBuild env capture random).1 := by
  unfold World.startBuild
  cases hbuild : buildNamespace capture random with
  | error error => exact StepOk.refl hcalls
  | ok namespaceId =>
      have hlogged : StepOk world (world.logged
          (editDatabase env world.db (reserveEdit capture namespaceId))
          fun pending => .reserved pending capture.sources) :=
        logged_stepOk hcalls fun _ _ _ _ hedit => reserveEdit_effect hcapture hbuild hedit
      cases hreply : (editDatabase env world.db (reserveEdit capture namespaceId)).reply with
      | error error =>
          simp only [hreply]
          exact hlogged
      | ok pending =>
          simp only [hreply]
          have hmem := mem_logged_of_reply (fun pending =>
            Event.reserved pending capture.sources) hreply
          cases hchunks : chunks capture.sources with
          | nil => exact hlogged
          | cons chunk rest =>
              refine hlogged.push ⟨capture.sources, hmem, ?_⟩
              intro group hgroup captured hcaptured
              rw [← chunks_flatten capture.sources, hchunks]
              exact List.mem_flatten.mpr ⟨group, hgroup, hcaptured⟩

theorem commitGeneration_stepOk (hcalls : CallsOk world) (env : Env)
    (pending : PendingGeneration) :
    StepOk world (world.commitGeneration env pending).1 := by
  have hlogged : StepOk world
      (world.logged (commitGeneration env world.db pending) .committed) :=
    logged_stepOk hcalls fun _ _ _ _ hedit => commitEdit_effect hedit
  simp only [World.commitGeneration]
  cases (commitGeneration env world.db pending).reply with
  | ok generation => exact hlogged
  | error error =>
      cases error with
      | database => exact hlogged.push trivial
      | _ => exact hlogged

theorem retirementKeys_owned {env : Env} {db : Db} {definition : GenerationTable}
    {sequence : UInt64} {keys : List Bytes}
    (hkeys : retirementKeys env db definition sequence = .ok keys) :
    ∀ key ∈ keys, be64 sequence <+: key := by
  simp only [retirementKeys, observeDatabase, bind_eq_ok, okOr_eq_ok] at hkeys
  obtain ⟨_, _, found, ⟨table, _, hfound⟩, _, _, hresult⟩ := hkeys
  obtain rfl := Except.ok.inj hfound
  obtain rfl := Except.ok.inj hresult
  intro key hkey
  obtain ⟨row, hrow, rfl⟩ := List.mem_map.mp hkey
  have howned : (be64 sequence).isPrefixOf row.1 = true :=
    by simpa using List.mem_takeWhile_imp hrow
  exact List.isPrefixOf_iff_prefix.mp howned

theorem persistChunk_stepOk (hcalls : CallsOk world) (env : Env) {pending : PendingGeneration}
    {sources chunk : List CapturedSource} (hlogged : Event.reserved pending sources ∈ world.history)
    (hsubset : ∀ captured ∈ chunk, captured ∈ sources) :
    StepOk world (world.withDb (persistChunk env world.db pending chunk)) := by
  unfold persistChunk
  cases hinputs : chunk.mapM (capturedRow pending.generation.sequence) with
  | error error => exact (Quiet.of_db rfl rfl rfl).stepOk hcalls
  | ok inputs =>
      exact withDb_stepOk hcalls fun _ _ _ _ hedit =>
        persistEdit_effect hlogged hsubset hinputs hedit

theorem advance_stepOk (hcalls : CallsOk world) (env : Env) (index : Nat) {call : Call}
    (hcall : CallOk world.history call) : StepOk world (world.advance env index call).1 := by
  cases call with
  | persisting pending groups =>
      obtain ⟨sources, hlogged, hsubset⟩ := hcall
      cases groups with
      | nil => exact (StepOk.refl hcalls).drop index
      | cons chunk rest =>
          have hchunk := persistChunk_stepOk hcalls env hlogged
            (hsubset chunk List.mem_cons_self)
          have hhistory : (world.withDb (persistChunk env world.db pending chunk)).history =
              world.history := rfl
          simp only [World.advance]
          cases (persistChunk env world.db pending chunk).reply with
          | error error => exact hchunk.drop index
          | ok value =>
              cases rest with
              | nil => exact hchunk.drop index
              | cons next rest =>
                  refine hchunk.replace index ⟨sources, hlogged, ?_⟩
                  exact fun group hgroup => hsubset group (List.mem_cons_of_mem _ hgroup)
  | confirming pending => exact (StepOk.refl hcalls).drop index
  | scanning retired tables =>
      cases tables with
      | nil =>
          have hforget : StepOk world (world.withDb
              (editDatabase env world.db (forgetRetiredEdit retired))) :=
            withDb_stepOk hcalls fun _ _ _ _ hedit => forgetRetiredEdit_effect hcall hedit
          exact hforget.drop index
      | cons definition tables =>
          simp only [World.advance]
          cases hkeys : retirementKeys env world.db definition retired.generation.sequence with
          | error error => exact (StepOk.refl hcalls).drop index
          | ok keys =>
              cases keys with
              | nil => exact (StepOk.refl hcalls).replace index hcall
              | cons key keys =>
                  exact (StepOk.refl hcalls).replace index ⟨hcall, retirementKeys_owned hkeys⟩
  | removing retired definition tables keys =>
      have hremove : StepOk world (world.withDb
          (editDatabase env world.db (removeKeysEdit retired definition keys))) :=
        withDb_stepOk hcalls fun _ _ _ _ hedit => removeKeysEdit_effect hcall.1 hcall.2 hedit
      simp only [World.advance]
      cases (editDatabase env world.db (removeKeysEdit retired definition keys)).reply with
      | error error => exact hremove.drop index
      | ok value => exact hremove.replace index hcall.1

theorem stagePage_stepOk (hcalls : CallsOk world) (env : Env) (pending : PendingGeneration)
    (page : UploadPage) : StepOk world (world.withDb (stagePage env world.db pending page)) := by
  unfold stagePage
  cases hbytes : encodePage page with
  | error error => exact (Quiet.of_db rfl rfl rfl).stepOk hcalls
  | ok bytes =>
      exact withDb_stepOk hcalls fun _ _ _ _ hedit => stagePageEdit_effect hbytes hedit

/-- Every step is quiet or performs exactly one publication transition. -/
theorem step_stepOk (hcalls : CallsOk world) (action : Action) :
    StepOk world (world.step action) := by
  obtain ⟨env, command⟩ := action
  cases command with
  | captureCorpus => exact captureCorpus_stepOk hcalls env
  | startBuild index random =>
      simp only [World.step, World.execute]
      cases hcapture : world.captures[index]? with
      | none => exact StepOk.refl hcalls
      | some capture =>
          exact startBuild_stepOk hcalls env (List.mem_of_getElem? hcapture) random
  | stagePage pending page => exact stagePage_stepOk hcalls env pending page
  | finishSource pending id units =>
      exact withDb_stepOk hcalls fun _ _ _ _ hedit => finishSourceEdit_effect hedit
  | completeCapture pending =>
      exact withDb_stepOk hcalls fun _ _ _ _ hedit => completeCaptureEdit_effect hedit
  | recordDispatch pending operation =>
      exact logged_stepOk hcalls fun _ _ _ _ hedit => recordDispatchEdit_effect hedit
  | finishDispatch pending operation revision applied =>
      exact logged_stepOk hcalls fun _ _ _ _ hedit => finishDispatchEdit_effect hedit
  | commitGeneration pending => exact commitGeneration_stepOk hcalls env pending
  | abandonBuild pending =>
      exact logged_stepOk hcalls fun _ _ _ _ hedit => abandonEdit_effect hedit
  | supersedeUnknownBuild expected =>
      exact logged_stepOk hcalls fun _ _ _ _ hedit => supersedeEdit_effect hedit
  | finishRetirement retired =>
      simp only [World.step, World.execute, World.finishRetirement]
      split
      · exact StepOk.refl hcalls
      · rename_i hsettled
        exact (StepOk.refl hcalls).push (Option.not_isSome_iff_eq_none.mp hsettled)
  | advance index =>
      simp only [World.step, World.execute]
      cases hcall : world.calls[index]? with
      | none => exact StepOk.refl hcalls
      | some call =>
          exact advance_stepOk hcalls env index (hcalls call (List.mem_of_getElem? hcall))
  | abort index => exact (StepOk.refl hcalls).drop index
  | crash =>
      have hquiet : Quiet world (world.step ⟨env, .crash⟩) := Quiet.of_db rfl rfl rfl
      refine hquiet.stepOk ?_
      intro call hmem
      cases hmem
  | commitCurrentSource capture fileKey objectRef =>
      exact corpusStep_stepOk hcalls (commitCurrentSource_step env world.db capture fileKey objectRef)
  | removeCurrentSources expected =>
      exact corpusStep_stepOk hcalls (removeCurrentSources_step env world.db expected)
  | admitSelection selection randomId =>
      exact corpusStep_stepOk hcalls (admitSelection_step env world.db selection randomId)
  | writeSettings id settings source previous =>
      exact corpusStep_stepOk hcalls (writeSettings_step env world.db id settings source previous)
  | commitPreparation capture result =>
      exact corpusStep_stepOk hcalls (commitPreparation_step env world.db capture result)

end Steps

end EliotSearch.Control
