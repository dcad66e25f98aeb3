import EliotSearch.Control.Sources

/-!
# Preparation transactions

Selecting settings and installing outcomes.  Both compare everything they read
before with the stored rows and advance the wanted corpus revision when they
write.  An outcome that changes nothing is not written: a gap never replaces a
usable artifact, and an identical outcome is dropped.
-/

namespace EliotSearch.Control

open EliotSearch.Library
open EliotSearch.Library.Results
open EliotSearch.Library.Words

def preparationFault : Interruption → PreparationControlError
  | .cancelled => .cancelled
  | .deadline => .deadline
  | .io => .database

def preparationSourceError : SourceControlError → PreparationControlError
  | .unsupportedSchema => .unsupportedSchema
  | .corrupt => .corrupt
  | _ => .database

/-- Consistent guard captured before retained-object or preparation work. -/
structure PreparationCapture where
  source : CurrentSourceRecord
  settings : PreparationSettings
  settingsRevision : UInt64
  expectedOutcomeRevision : UInt64
  expectedOutcome : Option BoundPreparationOutcome
  deriving DecidableEq

/-! ## Reading -/

def readSourceById (db : Db) (id : SourceId) :
    Except SourceControlError (Option CurrentSourceRecord) := do
  let rows ← okOr db.sourceRows .corrupt
  match rows[id.bytes]? with
  | none => return none
  | some value => do
      let source ← decodeRecord value
      refuse (source.sourceId ≠ id) .corrupt
      return some source

def storedPreparation (db : Db) (id : SourceId) :
    Except PreparationControlError (Option CurrentPreparation) :=
  match (openTable db.preparations)[id.bytes]? with
  | none => return none
  | some value => do
      let row ← CurrentPreparation.decode value
      return some row

/-- One read snapshot of a source and its preparation. -/
def readPreparation (env : Env) (db : Db) (id : SourceId) :
    Except PreparationControlError (CurrentSourceRecord × Option CurrentPreparation) := do
  env.check preparationFault 0
  let retained ← (catalogueNames db.listTables db.hasMultimap).mapError preparationSourceError
  refuse (retained = false) .notRetained
  let found ← (readSourceById db id).mapError preparationSourceError
  let source ← okOr found .notRetained
  let stored ← (readNamespace db).mapError preparationSourceError
  let namespaceId ← okOr stored .corrupt
  refuse (namespaceId ≠ source.sourceNamespaceId) .corrupt
  let row : Option CurrentPreparation ← storedPreparation db id
  refuse (∃ found ∈ row, found.sourceId ≠ id ∨ found.sourceNamespaceId ≠ namespaceId) .corrupt
  env.check preparationFault 1
  return (source, row)

def captureView (source : CurrentSourceRecord) (row : Option CurrentPreparation) :
    Except PreparationControlError PreparationCapture := do
  let row ← okOr row .notSelected
  return {
    source
    settings := row.settings
    settingsRevision := row.settingsRevision
    expectedOutcomeRevision := row.outcomeRevision
    expectedOutcome := row.outcome
  }

/-! ## Writing -/

/-- The source row inside a write transaction. -/
def writeSource (db : Db) (id : SourceId) : Except PreparationControlError CurrentSourceRecord := do
  let state := openTable db.sourceState
  let version ← okOr state[schemaVersionKey]? .corrupt
  refuse (version ≠ sourceSchemaVersion) .unsupportedSchema
  let namespaceId ← okOr state[namespaceKey]? .corrupt
  let value ← okOr (openTable db.sourceRows)[id.bytes]? .notRetained
  let source ← (decodeRecord value).mapError preparationSourceError
  refuse (source.sourceId ≠ id ∨ source.sourceNamespaceId.bytes ≠ namespaceId) .corrupt
  return source

/-- The row after selecting new settings; only a first selection starts without
an outcome. -/
def selectedRow (source : CurrentSourceRecord) (id : SourceId) (settings : PreparationSettings) :
    Option CurrentPreparation → Except PreparationControlError CurrentPreparation
  | some row => do
      let settingsRevision ← okOr (checkedAdd row.settingsRevision 1) .revisionExhausted
      return { row with settingsRevision, settings }
  | none => return {
      sourceNamespaceId := source.sourceNamespaceId
      sourceId := id
      settingsRevision := 1
      settings
      outcomeRevision := 0
      outcome := none
    }

/-- Store a preparation row and advance the wanted corpus revision. -/
def storePreparation (db : Db) (row : CurrentPreparation) (id : SourceId) :
    Except PreparationControlError Db := do
  let bytes ← row.encode
  (advanceWantedRevision { db with
    preparations := some ((openTable db.preparations).insert id.bytes bytes) }).mapError
      preparationSourceError

def writeSettingsTransaction (env : Env) (db : Db) (id : SourceId)
    (settings : PreparationSettings) (source : CurrentSourceRecord)
    (previous : Option CurrentPreparation) :
    Except PreparationControlError (Option Db × CurrentPreparation) := do
  let current ← writeSource db id
  refuse (current.sourceNamespaceId ≠ source.sourceNamespaceId ∨
    current.registrationRevision ≠ source.registrationRevision) .stale
  let found ← storedPreparation db id
  refuse (found ≠ previous) .stale
  let row ← selectedRow source id settings found
  let next ← storePreparation db row id
  env.check preparationFault 1
  return (some next, row)

/-- Select settings under the source and the row read before. -/
def writeSettings (env : Env) (db : Db) (id : SourceId) (settings : PreparationSettings)
    (source : CurrentSourceRecord) (previous : Option CurrentPreparation) :
    Outcome PreparationControlError CurrentPreparation :=
  settle env db .database (writeSettingsTransaction env db id settings source previous)

def checkOutcome (env : Env) (result : PreparationOutcome) :
    Except PreparationControlError Unit := do
  env.check preparationFault 0
  match result with
  | .ready artifact => refuse (¬ ValidObject artifact .prepared) .invalidOutcome
  | .gap _ => return ()

/-- A gap for an input that already has a usable artifact. -/
def keepsArtifact (row : CurrentPreparation) (source : CurrentSourceRecord)
    (settings : PreparationSettings) (result : PreparationOutcome) : Bool :=
  !result.isReady && row.outcome.any fun outcome =>
    decide (outcome.MatchesInput source settings) && outcome.result.isReady

/-- The row inside a write transaction, if every captured guard still holds. -/
def guardedRow (db : Db) (capture : PreparationCapture) :
    Except PreparationControlError CurrentPreparation := do
  let source ← writeSource db capture.source.sourceId
  refuse (source ≠ capture.source) .stale
  let value ← okOr (openTable db.preparations)[source.sourceId.bytes]? .stale
  let row ← CurrentPreparation.decode value
  refuse (row.sourceNamespaceId ≠ source.sourceNamespaceId ∨ row.sourceId ≠ source.sourceId ∨
    row.settingsRevision ≠ capture.settingsRevision ∨ row.settings ≠ capture.settings ∨
    row.outcomeRevision ≠ capture.expectedOutcomeRevision ∨
    row.outcome ≠ capture.expectedOutcome) .stale
  return row

def boundOutcome (capture : PreparationCapture) (result : PreparationOutcome) :
    BoundPreparationOutcome where
  sourceRowRevision := capture.source.rowRevision
  registrationRevision := capture.source.registrationRevision
  input := capture.source.objectRef
  settings := capture.settings
  result := result

def commitPreparationTransaction (env : Env) (db : Db) (capture : PreparationCapture)
    (result : PreparationOutcome) :
    Except PreparationControlError (Option Db × CurrentPreparation) := do
  checkOutcome env result
  let row ← guardedRow db capture
  let outcome := boundOutcome capture result
  if keepsArtifact row capture.source capture.settings result = true ∨
      row.outcome = some outcome then
    return (none, row)
  let outcomeRevision ← okOr (checkedAdd row.outcomeRevision 1) .revisionExhausted
  let row := { row with outcomeRevision, outcome := some outcome }
  let next ← storePreparation db row capture.source.sourceId
  env.check preparationFault 1
  return (some next, row)

/-- Install an outcome only while all captured guards remain exact. -/
def commitPreparation (env : Env) (db : Db) (capture : PreparationCapture)
    (result : PreparationOutcome) : Outcome PreparationControlError CurrentPreparation :=
  settle env db .database (commitPreparationTransaction env db capture result)

/-! ## The corpus version -/

theorem storePreparation_write {db next : Db} {row : CurrentPreparation} {id : SourceId}
    (hstore : storePreparation db row id = .ok next) : CorpusWrite db next := by
  simp only [storePreparation, bind_eq_ok, mapError_eq_ok] at hstore
  obtain ⟨bytes, _, hadvance⟩ := hstore
  refine ⟨_, ?_, ?_, hadvance⟩
  · exact ⟨rfl, rfl, rfl, rfl, rfl⟩
  · rfl

theorem writeSettings_step (env : Env) (db : Db) (id : SourceId)
    (settings : PreparationSettings) (source : CurrentSourceRecord)
    (previous : Option CurrentPreparation) :
    CorpusStep db (writeSettings env db id settings source previous).db := by
  refine settle_corpusStep fun next value hattempt => ?_
  simp only [writeSettingsTransaction, bind_eq_ok] at hattempt
  obtain ⟨_, _, _, _, _, _, _, _, _, _, after, hstore, _, _, hattempt⟩ := hattempt
  obtain ⟨hnext, -⟩ := Prod.mk.inj (Except.ok.inj hattempt)
  obtain rfl := Option.some.inj hnext
  exact (storePreparation_write hstore).step

theorem commitPreparation_step (env : Env) (db : Db) (capture : PreparationCapture)
    (result : PreparationOutcome) :
    CorpusStep db (commitPreparation env db capture result).db := by
  refine settle_corpusStep fun next value hattempt => ?_
  simp only [commitPreparationTransaction, bind_eq_ok] at hattempt
  obtain ⟨_, _, row, _, hattempt⟩ := hattempt
  split at hattempt
  · cases hattempt
  · simp only [bind_eq_ok] at hattempt
    obtain ⟨_, _, after, hstore, _, _, hattempt⟩ := hattempt
    obtain ⟨hnext, -⟩ := Prod.mk.inj (Except.ok.inj hattempt)
    obtain rfl := Option.some.inj hnext
    exact (storePreparation_write hstore).step

end EliotSearch.Control
