import EliotSearch.Control.Corpus

/-!
# Publication transactions

The write transactions that reserve, stage, seal, dispatch, commit, abandon,
supersede and clean up generations.  Each operation is an edit of the opened
tables and of the header; the header fields of a build are changed only through
`pendingMut`, which compares the caller's copy with the stored build by
namespace and sequence.
-/

namespace EliotSearch.Control

open EliotSearch.Library
open EliotSearch.Library.Results
open EliotSearch.Library.Words

/-- An edit of the opened tables and the header inside one transaction. -/
abbrev Edit (α : Type) := Db → State → Except PublicationError (Db × State × α)

/-- The stored pending build, if the caller's copy names the same build. -/
def pendingMut (state : State) (expected : PendingGeneration) :
    Except PublicationError PendingGeneration := do
  let pending ← okOr state.pending .stale
  refuse (pending.generation.namespaceId ≠ expected.generation.namespaceId ∨
    pending.generation.sequence ≠ expected.generation.sequence) .stale
  return pending

theorem pendingMut_eq_ok {state : State} {expected pending : PendingGeneration} :
    pendingMut state expected = .ok pending ↔
      state.pending = some pending ∧
        pending.generation.namespaceId = expected.generation.namespaceId ∧
        pending.generation.sequence = expected.generation.sequence := by
  simp only [pendingMut, bind_eq_ok, okOr_eq_ok, refuse_eq_ok, not_or, not_not, pure_eq_ok,
    Except.ok.injEq]
  constructor
  · rintro ⟨found, hfound, _, hsame, rfl⟩
    exact ⟨hfound, hsame⟩
  · rintro ⟨hfound, hsame⟩
    exact ⟨pending, hfound, (), hsame, rfl⟩

/-! ## Reserving a build -/

def CapturedSource.isGap (captured : CapturedSource) : Bool :=
  captured.preparation.outcome.any fun outcome => !outcome.result.isReady

/-- The header of a build that was just reserved. -/
def reservedBuild (capture : CorpusCapture) (state : State) (namespaceId : Octets 16)
    (sequence : UInt64) : PendingGeneration where
  generation := {
    namespaceId
    sequence
    wantedRevision := capture.wantedRevision
    sourceCount := UInt64.ofNat capture.sources.length
    gapCount := UInt64.ofNat (capture.sources.countP CapturedSource.isGap)
    pointCount := 0
    pageCount := 0
  }
  captureComplete := false
  created := false
  uploadedPages := 0
  inFlight := none
  operationRevision := 0
  completedSources := 0
  stagedBytes := 0
  sourceNamespace := capture.sourceNamespace
  expectedCurrentRevision := state.currentRevision
  expectedCurrent := state.current

/-- Reserve the next sequence under the guards of the capture. -/
def reserveEdit (capture : CorpusCapture) (namespaceId : Octets 16) : Edit PendingGeneration :=
  fun db state => do
    checkWanted db capture.sourceNamespace capture.wantedRevision
    refuse (state.currentRevision ≠ capture.state.currentRevision ∨
      state.current ≠ capture.current ∨ state.pending.isSome = true ∨
      capture.pending.isSome = true ∨ state.namespaceId ≠ capture.state.namespaceId ∨
      state.nextSequence ≠ capture.state.nextSequence) .stale
    refuse ((openTable db.retiredGenerations).size ≥ maxRetired) .limit
    let sequence ← okOr (checkedAdd state.nextSequence 1) .limit
    let pending := reservedBuild capture state namespaceId sequence
    return (db, { state with
      namespaceId := some namespaceId
      nextSequence := sequence
      pending := some pending }, pending)

/-- The namespace of a reservation; a first one draws it from the operating
system, which may fail. -/
def buildNamespace (capture : CorpusCapture) (random : Option (Octets 16)) :
    Except PublicationError (Octets 16) :=
  match capture.state.namespaceId with
  | some namespaceId => .ok namespaceId
  | none => okOr random .random

/-- The row of a captured source before any of its units is staged. -/
def capturedRow (sequence : UInt64) (captured : CapturedSource) :
    Except PublicationError (Bytes × Bytes) := do
  let bytes ← encodeSource { captured, stagedUnits := 0, complete := false }
  return (key sequence captured.source.sourceId.bytes, bytes)

/-- Insert rows under keys that must be free. -/
def insertFresh : Table → List (Bytes × Bytes) → Except PublicationError Table
  | table, [] => .ok table
  | table, (key, bytes) :: rows => do
      refuse (table[key]?.isSome = true) .corrupt
      insertFresh (table.insert key bytes) rows

/-- Save one chunk of captured inputs under the build that reserved it. -/
def persistEdit (pending : PendingGeneration) (rows : List (Bytes × Bytes)) : Edit Unit :=
  fun db state => do
    let _p ← pendingMut state pending
    let table ← insertFresh (openTable db.generationSources) rows
    return ({ db with generationSources := some table }, state, ())

/-- One chunk of `persist_captured_inputs`. -/
def persistChunk (env : Env) (db : Db) (pending : PendingGeneration)
    (chunk : List CapturedSource) : Outcome PublicationError Unit :=
  match chunk.mapM (capturedRow pending.generation.sequence) with
  | .error error => ⟨db, none, .error error⟩
  | .ok rows => editDatabase env db (persistEdit pending rows)

/-! ## Staging -/

/-- The tables and the ordinal one page of points advances. -/
structure Staging where
  sources : Table
  evidence : Table
  pointCount : UInt64

/-- The captured row accepts the point as its next unit. -/
def AcceptsPoint (entry : SourceEntry) (evidence : PointEvidence) : Prop :=
  entry.complete = false ∧
    evidence.sourceNamespaceId = entry.captured.source.sourceNamespaceId ∧
    evidence.input = entry.captured.source.objectRef ∧ evidence.unit = entry.stagedUnits ∧
    entry.captured.preparation.outcome.map (·.result) = some (.ready evidence.prepared)

instance (entry : SourceEntry) (evidence : PointEvidence) : Decidable (AcceptsPoint entry evidence) :=
  inferInstanceAs (Decidable (_ ∧ _))

def stagePoint (sequence : UInt64) (staging : Staging) (point : UploadPoint) :
    Except PublicationError Staging := do
  let index := staging.pointCount
  refuse (point.id.bytes ≠ be64 sequence ++ be64 index) .corrupt
  let sourceKey := key sequence point.evidence.sourceId.bytes
  let value ← okOr staging.sources[sourceKey]? .corrupt
  let entry ← decodeSource value
  refuse (¬ AcceptsPoint entry point.evidence) .corrupt
  let stagedUnits ← okOr (checkedAdd entry.stagedUnits 1) .limit
  let encodedSource ← encodeSource { entry with stagedUnits }
  let evidenceKey := key sequence point.id.bytes
  refuse (staging.evidence[evidenceKey]?.isSome = true) .corrupt
  let pointCount ← okOr ((checkedAdd index 1).filter fun count => count ≤ maxPoints) .limit
  return {
    sources := staging.sources.insert sourceKey encodedSource
    evidence := staging.evidence.insert evidenceKey (encodeEvidence point.evidence)
    pointCount
  }

def stagePoints (env : Env) (sequence : UInt64) :
    Nat → Staging → List UploadPoint → Except PublicationError Staging
  | _, staging, [] => .ok staging
  | site, staging, point :: points => do
      env.check publicationFault site
      let staging ← stagePoint sequence staging point
      stagePoints env sequence (site + 1) staging points

def stagePageEdit (env : Env) (expected : PendingGeneration) (page : UploadPage) (bytes : Bytes) :
    Edit Unit := fun db state => do
  let p ← pendingMut state expected
  refuse (p.captureComplete = true ∨ p.inFlight.isSome = true) .stale
  let stagedBytes ← okOr ((checkedAdd p.stagedBytes (UInt64.ofNat bytes.length)).filter
    fun total => total ≤ maxStagedBytes) .limit
  let sequence := p.generation.sequence
  let staging ← stagePoints env sequence 2
    ⟨openTable db.generationSources, openTable db.generationEvidence, p.generation.pointCount⟩
    page.points
  let pageCount ← okOr (checkedAdd p.generation.pageCount 1) .limit
  let pageKey := key sequence (be64 p.generation.pageCount)
  return ({ db with
      generationSources := some staging.sources
      generationEvidence := some staging.evidence
      generationPages := some ((openTable db.generationPages).insert pageKey bytes) },
    { state with pending := some { p with
      generation := { p.generation with pointCount := staging.pointCount, pageCount }
      stagedBytes } }, ())

/-- Persist fixed retained-unit references and matching evidence. -/
def stagePage (env : Env) (db : Db) (pending : PendingGeneration) (page : UploadPage) :
    Outcome PublicationError Unit :=
  match encodePage page with
  | .error error => ⟨db, none, .error error⟩
  | .ok bytes => editDatabase env db (stagePageEdit env pending page bytes)

def finishSourceEdit (expected : PendingGeneration) (id : SourceId) (units : UInt64) :
    Edit Unit := fun db state => do
  let p ← pendingMut state expected
  refuse (p.captureComplete = true) .stale
  let sourceKey := key p.generation.sequence id.bytes
  let table := openTable db.generationSources
  let value ← okOr table[sourceKey]? .corrupt
  let entry ← decodeSource value
  refuse (entry.complete = true ∨ entry.stagedUnits ≠ units) .corrupt
  let bytes ← encodeSource { entry with complete := true }
  let completedSources ← okOr (checkedAdd p.completedSources 1) .limit
  return ({ db with generationSources := some (table.insert sourceKey bytes) },
    { state with pending := some { p with completedSources } }, ())

/-- Complete one captured source after all its units have been staged. -/
def finishSource (env : Env) (db : Db) (pending : PendingGeneration) (id : SourceId)
    (units : UInt64) : Outcome PublicationError Unit :=
  editDatabase env db (finishSourceEdit pending id units)

def completeCaptureEdit (expected : PendingGeneration) : Edit PendingGeneration :=
  fun db state => do
    let p ← pendingMut state expected
    checkWanted db p.sourceNamespace p.generation.wantedRevision
    refuse (p.completedSources ≠ p.generation.sourceCount) .corrupt
    let p := { p with captureComplete := true }
    return (db, { state with pending := some p }, p)

/-- Seal complete durable inputs before any backend mutation. -/
def completeCapture (env : Env) (db : Db) (pending : PendingGeneration) :
    Outcome PublicationError PendingGeneration :=
  editDatabase env db (completeCaptureEdit pending)

/-! ## Dispatching -/

/-- The operation is the next one the sealed build may dispatch. -/
def NextOperation (pending : PendingGeneration) : PendingOperation → Prop
  | .create => pending.created = false
  | .insert page => pending.created = true ∧ page = pending.uploadedPages ∧
      page < pending.generation.pageCount

instance (pending : PendingGeneration) (operation : PendingOperation) :
    Decidable (NextOperation pending operation) := by
  cases operation
  · exact inferInstanceAs (Decidable (_ = _))
  · exact inferInstanceAs (Decidable (_ ∧ _))

def recordDispatchEdit (expected : PendingGeneration) (operation : PendingOperation) :
    Edit UInt64 := fun db state => do
  let p ← pendingMut state expected
  checkWanted db p.sourceNamespace p.generation.wantedRevision
  refuse (p.inFlight.isSome = true) .unresolved
  refuse (p.operationRevision ≠ expected.operationRevision ∨
    p.uploadedPages ≠ expected.uploadedPages ∨ p.created ≠ expected.created) .stale
  refuse (p.captureComplete = false ∨ ¬ NextOperation p operation) .stale
  let operationRevision ← okOr (checkedAdd p.operationRevision 1) .limit
  return (db, { state with
    pending := some { p with operationRevision, inFlight := some operation } }, operationRevision)

/-- Record the single mutation before its dispatch. -/
def recordDispatch (env : Env) (db : Db) (pending : PendingGeneration)
    (operation : PendingOperation) : Outcome PublicationError UInt64 :=
  editDatabase env db (recordDispatchEdit pending operation)

/-- The progress after one settled operation. -/
def settled (p : PendingGeneration) (operation : PendingOperation) (applied : Bool) :
    Except PublicationError PendingGeneration :=
  match applied, operation with
  | false, _ => .ok { p with inFlight := none }
  | true, .create => .ok { p with created := true, inFlight := none }
  | true, .insert _ => do
      let uploadedPages ← okOr (checkedAdd p.uploadedPages 1) .limit
      return { p with uploadedPages, inFlight := none }

def finishDispatchEdit (expected : PendingGeneration) (operation : PendingOperation)
    (operationRevision : UInt64) (applied : Bool) : Edit Unit := fun db state => do
  let p ← pendingMut state expected
  refuse (p.inFlight ≠ some operation ∨ p.operationRevision ≠ operationRevision) .stale
  let p ← settled p operation applied
  return (db, { state with pending := some p }, ())

/-- Record terminal success or definite refusal of the recorded mutation. -/
def finishDispatch (env : Env) (db : Db) (pending : PendingGeneration)
    (operation : PendingOperation) (operationRevision : UInt64) (applied : Bool) :
    Outcome PublicationError Unit :=
  editDatabase env db (finishDispatchEdit pending operation operationRevision applied)

/-! ## Leaving the pending slot -/

/-- Store a retired row under its own sequence. -/
def Db.retire (db : Db) (retired : RetiredGeneration) : Db :=
  { db with
    retiredGenerations := some ((openTable db.retiredGenerations).insert
      (be64 retired.generation.sequence) (retiredFormat.print retired)) }

/-- Keep the previous current generation as an owned cleanup obligation. -/
def retireCurrent (db : Db) : Option Generation → Db
  | none => db
  | some old => db.retire ⟨old, true, none⟩

def commitEdit (expected : PendingGeneration) : Edit Generation := fun db state => do
  let p ← pendingMut state expected
  refuse (p ≠ expected) .stale
  checkWanted db p.sourceNamespace p.generation.wantedRevision
  refuse (p.inFlight.isSome = true) .unresolved
  refuse (p.captureComplete = false ∨ p.created = false ∨
    p.uploadedPages ≠ p.generation.pageCount ∨
    state.currentRevision ≠ p.expectedCurrentRevision ∨ state.current ≠ p.expectedCurrent) .stale
  let currentRevision ← okOr (checkedAdd state.currentRevision 1) .limit
  return (retireCurrent db state.current,
    { state with currentRevision, current := some p.generation, pending := none }, p.generation)

/-- Switch the current pointer, predecessor cleanup and pending header. -/
def commitGeneration (env : Env) (db : Db) (pending : PendingGeneration) :
    Outcome PublicationError Generation :=
  editDatabase env db (commitEdit pending)

/-- The observation that follows an ambiguous commit. -/
def confirmCommit (env : Env) (db : Db) (pending : PendingGeneration) :
    Except PublicationError Generation :=
  observeDatabase env db fun db => do
    let state ← readState db
    refuse (¬ (state.current = some pending.generation ∧ state.pending = none ∧
      checkedAdd pending.expectedCurrentRevision 1 = some state.currentRevision)) .database
    return pending.generation

def abandonEdit (expected : PendingGeneration) : Edit Unit := fun db state => do
  let p ← pendingMut state expected
  refuse (p ≠ expected) .stale
  refuse (p.inFlight.isSome = true) .unresolved
  return (db.retire ⟨p.generation, p.created, none⟩, { state with pending := none }, ())

/-- Abandon only a known unserved target. -/
def abandonBuild (env : Env) (db : Db) (pending : PendingGeneration) :
    Outcome PublicationError Unit :=
  editDatabase env db (abandonEdit pending)

/-- A sealed build whose recorded operation was never settled. -/
def UnresolvedBuild (pending : PendingGeneration) : Prop :=
  pending.captureComplete = true ∧ pending.operationRevision ≠ 0 ∧
    match pending.inFlight with
    | some .create => pending.created = false ∧ pending.uploadedPages = 0
    | some (.insert page) => pending.created = true ∧ page = pending.uploadedPages ∧
        page < pending.generation.pageCount
    | none => False

instance (pending : PendingGeneration) : Decidable (UnresolvedBuild pending) := by
  unfold UnresolvedBuild
  cases pending.inFlight with
  | none => exact inferInstanceAs (Decidable (_ ∧ _ ∧ False))
  | some operation =>
      cases operation
      · exact inferInstanceAs (Decidable (_ ∧ _ ∧ _ ∧ _))
      · exact inferInstanceAs (Decidable (_ ∧ _ ∧ _ ∧ _ ∧ _))

def supersedeEdit (expected : PendingGeneration) : Edit Unit := fun db state => do
  let pending ← pendingMut state expected
  refuse (pending ≠ expected) .stale
  refuse (¬ UnresolvedBuild pending) .unresolved
  let retired : RetiredGeneration := ⟨pending.generation, pending.created, some pending⟩
  refuse ((retiredFormat.print retired).length > maxRetiredBytes) .limit
  let table := openTable db.retiredGenerations
  refuse (table.size ≥ maxRetired) .limit
  refuse (table[be64 pending.generation.sequence]?.isSome = true) .corrupt
  return (db.retire retired, { state with pending := none }, ())

/-- Release the pending slot of an exact unresolved build attempt. -/
def supersedeUnknownBuild (env : Env) (db : Db) (expected : PendingGeneration) :
    Outcome PublicationError Unit :=
  editDatabase env db (supersedeEdit expected)

/-! ## Retired generations -/

/-- The checks of one retired row against the header. -/
def AcceptsRetired (state : State) (id : Bytes) (retired : RetiredGeneration) : Prop :=
  id = be64 retired.generation.sequence ∧
    state.namespaceId = some retired.generation.namespaceId ∧
    retired.generation.sequence ≠ 0 ∧ retired.generation.sequence ≤ state.nextSequence ∧
    (∀ current ∈ state.current, current.sequence ≠ retired.generation.sequence) ∧
    (∀ pending ∈ state.pending, pending.generation.sequence ≠ retired.generation.sequence) ∧
    ∀ pending ∈ retired.unresolvedBuild, retired.remoteOwned = pending.created ∧
      pending.generation = retired.generation ∧ UnresolvedBuild pending

instance (state : State) (id : Bytes) (retired : RetiredGeneration) :
    Decidable (AcceptsRetired state id retired) :=
  inferInstanceAs (Decidable (_ ∧ _))

def readRetiredRow (state : State) (row : Bytes × Bytes) :
    Except PublicationError RetiredGeneration := do
  refuse (row.2.length > maxRetiredBytes) .corrupt
  let retired ← okOr (retiredFormat.decode row.2) .corrupt
  refuse (¬ AcceptsRetired state row.1 retired) .corrupt
  return retired

def readRetirements (db : Db) : Except PublicationError (List RetiredGeneration) := do
  let state ← readState db
  if state.namespaceId = none then return []
  let table ← okOr db.retiredGenerations .corrupt
  refuse (table.size > maxRetired) .limit
  table.toList.mapM (readRetiredRow state)

/-- The retired row still names exactly the generation being cleaned up. -/
def checkRetired (db : Db) (state : State) (retired : RetiredGeneration) :
    Except PublicationError Unit := do
  let generation := retired.generation
  refuse (state.namespaceId ≠ some generation.namespaceId ∨
    (∃ current ∈ state.current, current.sequence = generation.sequence) ∨
    ∃ pending ∈ state.pending, pending.generation.sequence = generation.sequence) .stale
  let value ← okOr (openTable db.retiredGenerations)[be64 generation.sequence]? .stale
  let actual ← okOr (retiredFormat.decode value) .corrupt
  refuse (actual ≠ retired) .stale

/-- The tables that hold the rows of a generation, in cleanup order. -/
inductive GenerationTable where
  | sources
  | pages
  | evidence
  deriving DecidableEq, Repr

namespace GenerationTable

def all : List GenerationTable := [sources, pages, evidence]

def get (db : Db) : GenerationTable → Option Table
  | sources => db.generationSources
  | pages => db.generationPages
  | evidence => db.generationEvidence

def set (db : Db) (table : Table) : GenerationTable → Db
  | sources => { db with generationSources := some table }
  | pages => { db with generationPages := some table }
  | evidence => { db with generationEvidence := some table }

end GenerationTable

/-- One bounded batch of row keys of a retired sequence. -/
def retirementKeys (env : Env) (db : Db) (definition : GenerationTable) (sequence : UInt64) :
    Except PublicationError (List Bytes) :=
  observeDatabase env db fun db => do
    let table ← okOr (definition.get db) .corrupt
    return (((Table.rowsFrom table (be64 sequence)).take 32).takeWhile
      fun row => (be64 sequence).isPrefixOf row.1).map Prod.fst

def removeKeysEdit (retired : RetiredGeneration) (definition : GenerationTable)
    (keys : List Bytes) : Edit Unit := fun db state => do
  checkRetired db state retired
  let table := keys.foldl (fun table key => table.erase key) (openTable (definition.get db))
  return (definition.set db table, state, ())

def forgetRetiredEdit (retired : RetiredGeneration) : Edit Unit := fun db state => do
  checkRetired db state retired
  let table := (openTable db.retiredGenerations).erase (be64 retired.generation.sequence)
  return ({ db with retiredGenerations := some table }, state, ())

end EliotSearch.Control
