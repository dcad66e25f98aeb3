import EliotSearch.Control.Database
import EliotSearch.Library.Versions

/-!
# Current source transactions

Registering and replacing a source row, and removing captured registrations.
Every one of them compares the captured guards with the stored rows inside its
write transaction and advances the wanted corpus revision together with the
rows it changes.
-/

namespace EliotSearch.Control

open EliotSearch.Library
open EliotSearch.Library.Results
open EliotSearch.Library.Words

def maxCurrentSources : Nat := 4096

def maxCurrentSourceBytes : Nat := 16 * 1024 * 1024

def sourceFault : Interruption → SourceControlError
  | .cancelled => .cancelled
  | .deadline => .deadline
  | .io => .database

/-- Read-state guard captured before source acquisition. -/
structure SourceCapture where
  sourceNamespaceId : SourceNamespaceId
  sourceId : SourceId
  locator : Bytes
  expectedNamespace : Option SourceNamespaceId
  expectedRowRevision : Option UInt64
  expectedRegistrationRevision : Option UInt64
  deriving DecidableEq

/-! ## Versioned corpus -/

/-- The wanted revision and the rows a corpus is read from. -/
def corpusStore : Versioned Db (Table × Table) where
  version db := (writeWantedRevision db).toOption.map UInt64.toNat
  content db := (openTable db.sourceRows, openTable db.preparations)

theorem corpusStore_version {db : Db} {revision : UInt64}
    (hrevision : writeWantedRevision db = .ok revision) :
    corpusStore.version db = some revision.toNat := by
  simp [corpusStore, hrevision, Except.toOption]

/-- Transactions that leave the stored revision and the corpus rows alone. -/
theorem corpusStore_unchanged {before after : Db}
    (hrevision : writeWantedRevision after = writeWantedRevision before)
    (hrows : openTable after.sourceRows = openTable before.sourceRows)
    (hpreparations : openTable after.preparations = openTable before.preparations) :
    corpusStore.Evolves before after :=
  Or.inl ⟨by simp [corpusStore, hrevision], by simp [corpusStore, hrows, hpreparations]⟩

/-- What every transaction that changes the corpus has in common: it edits
tables outside the publication, keeps the stored revision, and ends by
advancing it. -/
def CorpusWrite (before after : Db) : Prop :=
  ∃ middle, KeepsPublication before middle ∧
    writeWantedRevision middle = writeWantedRevision before ∧
    advanceWantedRevision middle = .ok after

theorem CorpusWrite.evolves {before after : Db} (hwrite : CorpusWrite before after) :
    corpusStore.Evolves before after := by
  obtain ⟨middle, -, hrevision, hadvance⟩ := hwrite
  obtain ⟨old, new, hold, hnext, hnew, -⟩ := advanceWantedRevision_eq_ok hadvance
  exact Or.inr ⟨old.toNat, new.toNat, corpusStore_version (hrevision ▸ hold),
    corpusStore_version hnew, by omega⟩

theorem CorpusWrite.keeps {before after : Db} (hwrite : CorpusWrite before after) :
    KeepsPublication before after := by
  obtain ⟨middle, hkeeps, -, hadvance⟩ := hwrite
  exact hkeeps.trans (advanceWantedRevision_keeps hadvance)

theorem storedRevision_insert {state : Table} {key value : Bytes} (hkey : key ≠ wantedRevisionKey) :
    storedRevision (state.insert key value) = storedRevision state := by
  rw [storedRevision, storedRevision, Table.get_insert_of_ne state value hkey]

/-- An operation outside the publication: the corpus evolves and the
publication tables stay. -/
structure CorpusStep (before after : Db) : Prop where
  evolves : corpusStore.Evolves before after
  keeps : KeepsPublication before after

theorem CorpusStep.refl (db : Db) : CorpusStep db db :=
  ⟨Versioned.Evolves.refl db, KeepsPublication.refl db⟩

theorem CorpusWrite.step {before after : Db} (hwrite : CorpusWrite before after) :
    CorpusStep before after :=
  ⟨hwrite.evolves, hwrite.keeps⟩

/-- A settled transaction is a corpus step when the tables it computes are. -/
theorem settle_corpusStep {ε α : Type} {env : Env} {db : Db} {lost : ε}
    {attempt : Except ε (Option Db × α)}
    (hstep : ∀ next value, attempt = .ok (some next, value) → CorpusStep db next) :
    CorpusStep db (settle env db lost attempt).db := by
  rcases settle_cases env db lost attempt with ⟨-, hdb, -⟩ | ⟨next, value, hattempt, hdb, -⟩
  · rw [hdb]
    exact CorpusStep.refl db
  · rw [hdb]
    exact hstep next value hattempt

/-! ## Committing a source -/

/-- The revisions of the row to write, if every captured guard still holds. -/
def sourceRevisions (db : Db) (capture : SourceCapture) :
    Except SourceControlError (UInt64 × UInt64) := do
  let state := openTable db.sourceState
  let rows := openTable db.sourceRows
  let locators := openTable db.sourceLocators
  match capture.expectedNamespace, state[schemaVersionKey]?, state[namespaceKey]? with
  | none, none, none => pure ()
  | some expected, some version, some stored =>
      refuse (¬ (version = sourceSchemaVersion ∧ stored = expected.bytes)) .stale
  | _, _, _ => throw .stale
  match capture.expectedRowRevision, capture.expectedRegistrationRevision,
      locators[capture.locator]? with
  | none, none, none => do
      refuse (rows[capture.sourceId.bytes]?.isSome = true) .stale
      return (1, 1)
  | some expectedRow, some expectedRegistration, some sourceId => do
      refuse (sourceId ≠ capture.sourceId.bytes) .stale
      let stored ← okOr rows[capture.sourceId.bytes]? .stale
      let current ← decodeRecord stored
      refuse (current.sourceNamespaceId ≠ capture.sourceNamespaceId ∨
        current.sourceId ≠ capture.sourceId ∨ current.rowRevision ≠ expectedRow ∨
        current.registrationRevision ≠ expectedRegistration ∨
        current.locator ≠ capture.locator) .stale
      let rowRevision ← okOr (checkedAdd expectedRow 1) .revisionExhausted
      return (rowRevision, expectedRegistration)
  | _, _, _ => throw .stale

/-- The stored row when it already holds the observed object and file. -/
def unchangedSource (db : Db) (capture : SourceCapture) (fileKey : NativeFileKey)
    (objectRef : ObjectRef) : Except SourceControlError (Option CurrentSourceRecord) :=
  if capture.expectedRowRevision.isSome then do
    let bytes ← okOr (openTable db.sourceRows)[capture.sourceId.bytes]? .stale
    let current ← decodeRecord bytes
    return if current.objectRef = objectRef ∧ current.fileKey = fileKey then some current else none
  else return none

/-- The first registration stores the schema version and the namespace. -/
def installNamespace (state : Table) (capture : SourceCapture) : Table :=
  if capture.expectedNamespace.isNone then
    (state.insert schemaVersionKey sourceSchemaVersion).insert namespaceKey
      capture.sourceNamespaceId.bytes
  else state

def commitSourceTransaction (env : Env) (db : Db) (capture : SourceCapture)
    (fileKey : NativeFileKey) (objectRef : ObjectRef) :
    Except SourceControlError (Option Db × CurrentSourceRecord) := do
  env.check sourceFault 0
  env.check sourceFault 1
  let (rowRevision, registrationRevision) ← sourceRevisions db capture
  match ← unchangedSource db capture fileKey objectRef with
  | some current => return (none, current)
  | none =>
      let record : CurrentSourceRecord := {
        sourceNamespaceId := capture.sourceNamespaceId
        sourceId := capture.sourceId
        rowRevision, registrationRevision
        locator := capture.locator
        fileKey, objectRef
      }
      let encoded ← encodeRecord record
      let next ← advanceWantedRevision { db with
        sourceState := some (installNamespace (openTable db.sourceState) capture)
        sourceRows := some ((openTable db.sourceRows).insert capture.sourceId.bytes encoded)
        sourceLocators :=
          some ((openTable db.sourceLocators).insert record.locator capture.sourceId.bytes) }
      env.check sourceFault 2
      return (some next, record)

/-- Commit one exact, already-retained source head with an atomic
row/registration guard. -/
def commitCurrentSource (env : Env) (db : Db) (capture : SourceCapture)
    (fileKey : NativeFileKey) (objectRef : ObjectRef) :
    Outcome SourceControlError CurrentSourceRecord :=
  settle env db .database (commitSourceTransaction env db capture fileKey objectRef)

theorem installNamespace_revision (state : Table) (capture : SourceCapture) :
    storedRevision (installNamespace state capture) = storedRevision state := by
  unfold installNamespace
  split
  · have hnamespace : namespaceKey ≠ wantedRevisionKey := by decide
    have hschema : schemaVersionKey ≠ wantedRevisionKey := by decide
    rw [storedRevision_insert hnamespace, storedRevision_insert hschema]
  · rfl

theorem commitSourceTransaction_write {env : Env} {db next : Db} {capture : SourceCapture}
    {fileKey : NativeFileKey} {objectRef : ObjectRef} {record : CurrentSourceRecord}
    (hattempt : commitSourceTransaction env db capture fileKey objectRef =
      .ok (some next, record)) : CorpusWrite db next := by
  simp only [commitSourceTransaction, bind_eq_ok] at hattempt
  obtain ⟨_, _, _, _, ⟨row, registration⟩, _, unchanged, _, hattempt⟩ := hattempt
  cases unchanged with
  | some current => cases hattempt
  | none =>
      simp only [bind_eq_ok] at hattempt
      obtain ⟨encoded, _, after, hadvance, _, _, hattempt⟩ := hattempt
      obtain ⟨hnext, -⟩ := Prod.mk.inj (Except.ok.inj hattempt)
      obtain rfl := Option.some.inj hnext
      refine ⟨_, ?_, ?_, hadvance⟩
      · exact ⟨rfl, rfl, rfl, rfl, rfl⟩
      · exact installNamespace_revision _ capture

theorem commitCurrentSource_step (env : Env) (db : Db) (capture : SourceCapture)
    (fileKey : NativeFileKey) (objectRef : ObjectRef) :
    CorpusStep db (commitCurrentSource env db capture fileKey objectRef).db :=
  settle_corpusStep fun _ _ hattempt => (commitSourceTransaction_write hattempt).step

/-! ## Removing captured sources -/

/-- The stored namespace of a removal. -/
def removalNamespace (state : Table) : Except SourceControlError SourceNamespaceId := do
  let version ← okOr state[schemaVersionKey]? .stale
  let stored ← okOr state[namespaceKey]? .stale
  refuse (version ≠ sourceSchemaVersion) .stale
  okOr (Octets.ofBytes? 16 stored) .corrupt

/-- Every expected row is stored exactly, once, under its locator. -/
def checkExpected (env : Env) (db : Db) (namespaceId : SourceNamespaceId) :
    Nat → List CurrentSourceRecord → List CurrentSourceRecord → Except SourceControlError Unit
  | _, _, [] => .ok ()
  | site, seen, source :: expected => do
      env.check sourceFault site
      refuse (source.sourceNamespaceId ≠ namespaceId ∨ source.sourceId ∈ seen.map (·.sourceId) ∨
        source.locator ∈ seen.map (·.locator)) .stale
      let row ← okOr (openTable db.sourceRows)[source.sourceId.bytes]? .stale
      let stored ← decodeRecord row
      refuse (stored ≠ source) .stale
      let locator ← okOr (openTable db.sourceLocators)[source.locator]? .stale
      refuse (locator ≠ source.sourceId.bytes) .stale
      checkExpected env db namespaceId (site + 1) (source :: seen) expected

/-- Drop the preparation of a removed source, if the table exists. -/
def removeSourcePreparation (db : Db) (sourceId : SourceId) : Db :=
  { db with preparations := db.preparations.map fun table => table.erase sourceId.bytes }

def removeExpected (env : Env) :
    Nat → Db → List CurrentSourceRecord → Except SourceControlError Db
  | _, db, [] => .ok db
  | site, db, source :: expected => do
      env.check sourceFault site
      let rows := openTable db.sourceRows
      let locators := openTable db.sourceLocators
      refuse (rows[source.sourceId.bytes]? = none ∨ locators[source.locator]? = none) .stale
      let next := { db with
        sourceRows := some (rows.erase source.sourceId.bytes)
        sourceLocators := some (locators.erase source.locator) }
      removeExpected env (site + 1) (removeSourcePreparation next source.sourceId) expected

def removeSourcesTransaction (env : Env) (db : Db) (expected : List CurrentSourceRecord) :
    Except SourceControlError (Option Db × Unit) := do
  if expected = [] then return (none, ())
  refuse (expected.length > maxCurrentSources) .inventoryLimit
  env.check sourceFault 0
  env.check sourceFault 1
  let namespaceId ← removalNamespace (openTable db.sourceState)
  checkExpected env db namespaceId 3 [] expected
  let removed ← removeExpected env (3 + expected.length) db expected
  let next ← advanceWantedRevision removed
  env.check sourceFault 2
  return (some next, ())

/-- Remove only exactly captured registrations and their preparation rows. -/
def removeCurrentSources (env : Env) (db : Db) (expected : List CurrentSourceRecord) :
    Outcome SourceControlError Unit :=
  settle env db .database (removeSourcesTransaction env db expected)

/-- The removal loop edits rows, locators and preparations only. -/
theorem removeExpected_frame {env : Env} {site : Nat} {db next : Db}
    {expected : List CurrentSourceRecord}
    (hremove : removeExpected env site db expected = .ok next) :
    next.sourceState = db.sourceState ∧ KeepsPublication db next := by
  induction expected generalizing site db with
  | nil =>
      obtain rfl := Except.ok.inj hremove
      exact ⟨rfl, KeepsPublication.refl db⟩
  | cons source expected ih =>
      simp only [removeExpected, bind_eq_ok] at hremove
      obtain ⟨_, _, _, _, hremove⟩ := hremove
      obtain ⟨hstate, hkeeps⟩ := ih hremove
      exact ⟨hstate.trans rfl,
        ⟨hkeeps.header, hkeeps.sources, hkeeps.pages, hkeeps.evidence, hkeeps.retired⟩⟩

theorem removeSourcesTransaction_write {env : Env} {db next : Db}
    {expected : List CurrentSourceRecord} {value : Unit}
    (hattempt : removeSourcesTransaction env db expected = .ok (some next, value)) :
    CorpusWrite db next := by
  unfold removeSourcesTransaction at hattempt
  split at hattempt
  · cases hattempt
  · simp only [bind_eq_ok] at hattempt
    obtain ⟨_, _, _, _, _, _, _, _, _, _, removed, hremove, after, hadvance, _, _, hattempt⟩ :=
      hattempt
    obtain ⟨hnext, -⟩ := Prod.mk.inj (Except.ok.inj hattempt)
    obtain rfl := Option.some.inj hnext
    obtain ⟨hstate, hkeeps⟩ := removeExpected_frame hremove
    exact ⟨removed, hkeeps, by rw [writeWantedRevision, writeWantedRevision, hstate], hadvance⟩

theorem removeCurrentSources_step (env : Env) (db : Db) (expected : List CurrentSourceRecord) :
    CorpusStep db (removeCurrentSources env db expected).db :=
  settle_corpusStep fun _ _ hattempt => (removeSourcesTransaction_write hattempt).step

end EliotSearch.Control
