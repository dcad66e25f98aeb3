import EliotSearch.Commands.PreparedSource
import EliotSearch.Retention.Scanning
import EliotSearch.Retention.StoredObjects

/-!
# Retaining one file

How an index run registers one listed file: its bytes are acquired, stored as an object and
committed as a source row, and then prepared.  The control database and the object
directory are one store; a run can be cut off behind every change of it.
-/

namespace EliotSearch.Retention

open EliotSearch.Commands.Preparing (controlCode gap limits resultOf reusable)
open EliotSearch.Control
open EliotSearch.Library
open EliotSearch.Library.Crash
open EliotSearch.Library.Json
open EliotSearch.Library.Results
open EliotSearch.Preparation
open EliotSearch.Query

/-! ## Operations on a root -/

/-- The control database of a root and its object directory. -/
structure Disk where
  control : Db
  objects : Store

abbrev DiskOp (α : Type) : Type := Op Disk Bytes α

/-- Look at the database. -/
def consult {ε α : Type} (code : ε → Bytes) (look : Db → Except ε α) : DiskOp α :=
  Op.read fun disk => (look disk.control).mapError code

/-- Run one write transaction. -/
def transact {ε α : Type} (code : ε → Bytes) (write : Db → Outcome ε α) : DiskOp α := fun disk =>
  ⟨(write disk.control).reply.mapError code, { disk with control := (write disk.control).db },
    [{ disk with control := (write disk.control).db }]⟩

def StoreError.code : StoreError → Bytes
  | .refused error => error.code
  | .immutableConflict => ascii "OBJECT_IMMUTABLE_CONFLICT"
  | .publishFailed => ascii "OBJECT_PUBLISH_FAILED"

/-- Store an object in the object directory. -/
def retainObject (staging : Staging) (env : Env) (kind : ObjectKind) (bytes : Bytes)
    (maximumBytes : UInt64) : DiskOp ObjectRef :=
  ((storeObject staging env kind bytes maximumBytes).zoom Disk.objects fun disk objects =>
    { disk with objects }).mapError StoreError.code

def readRetained (env : Env) (reference : ObjectRef) (maximumBytes : UInt64) : DiskOp Bytes :=
  Op.read fun disk =>
    (readObject disk.objects env reference maximumBytes).mapError ObjectStoreError.code

/-! ## Files -/

/-- The exact bytes of a file, with its identity and its length. -/
structure AcquiredFile where
  bytes : Bytes
  fileKey : NativeFileKey
  length : UInt64

/-- What the retention and the preparation of one file meet: the surroundings of their
numbered calls, how stages are handled, the random identities and the file. -/
structure Retaining where
  env : Nat → Env
  staging : Staging
  draws : Draws
  acquired : Except Bytes AcquiredFile

def retainFile (meets : Retaining) (path : Bytes) : DiskOp CurrentSourceRecord := do
  let capture ← consult sourceCode fun db =>
    captureCurrentSource (meets.env 0) db path meets.draws
  let file ← Op.read fun _ => meets.acquired
  let objectRef ← retainObject meets.staging (meets.env 1) .source file.bytes maxSourceObjectBytes
  Op.refuse (objectRef.byteLength ≠ file.length) (ascii "SOURCE_LENGTH_MISMATCH")
  transact sourceCode fun db =>
    commitCurrentSource (meets.env 2) db capture file.fileKey objectRef

/-! ## Preparations -/

/-- Initializes the default only when no selection exists. -/
def ensurePreparationSettings (meets : Retaining) (id : SourceId) : DiskOp Unit := do
  Op.refuse (¬ PreparationSettings.default.IsSupported) (controlCode .invalidSettings)
  let (source, previous) ← consult controlCode fun db => readPreparation (meets.env 3) db id
  match previous with
  | some _ => return ()
  | none => do
      let _ ← transact controlCode fun db => settle (meets.env 4) db .database
        (writeSettingsTransaction (meets.env 4) db id .default source none)
      return ()

def createOutcome (meets : Retaining) (source : CurrentSourceRecord)
    (settings : PreparationSettings) : DiskOp PreparationOutcome :=
  if source.objectRef.byteLength > 8 * 1024 * 1024 then return .gap .inputTooLarge
  else do
    let bytes ← readRetained (meets.env 6) source.objectRef maxSourceObjectBytes
    let prepared ← Op.read fun disk =>
      .ok (prepareUtf8 disk.objects.hash (meets.env 7) source bytes settings limits)
    match prepared with
    | .ok encoded => do
        let artifact ←
          retainObject meets.staging (meets.env 8) .prepared encoded (64 * 1024 * 1024)
        return .ready artifact
    | .error error => do
        let reason ← Op.read fun _ => okOr (gap error) error.code
        return .gap reason

/-- The artifact to reuse, or a new outcome. -/
def chooseOutcome (meets : Retaining) (capture : PreparationCapture) :
    DiskOp PreparationOutcome :=
  match reusable capture with
  | some artifact => return .ready artifact
  | none => createOutcome meets capture.source capture.settings

/-- An artifact is read back and decoded before it is used. -/
def viewArtifact (meets : Retaining) (capture : PreparationCapture) (artifact : ObjectRef) :
    DiskOp Unit := do
  let stored ← readRetained (meets.env 9) artifact (64 * 1024 * 1024)
  let _view ← Op.read fun disk => (decodePreparedUtf8 disk.objects.hash (meets.env 10) stored
    capture.source capture.settings limits).mapError PreparationError.code
  return ()

def commitOutcome (meets : Retaining) (capture : PreparationCapture)
    (result : PreparationOutcome) : DiskOp CurrentPreparation :=
  transact controlCode fun db => commitPreparation (meets.env 11) db capture result

/-- Record a gap; a usable artifact that was there is kept and read instead. -/
def prepareGap (meets : Retaining) (capture : PreparationCapture) (reason : PreparationGap) :
    DiskOp Unit := do
  let current ← commitOutcome meets capture (.gap reason)
  match resultOf current with
  | some (.ready artifact) => viewArtifact meets capture artifact
  | some (.gap actual) => Op.refuse (actual ≠ reason) (ascii "PREPARATION_CONTROL_CORRUPT")
  | none => Op.fail (ascii "PREPARATION_CONTROL_CORRUPT")

/-- Reuses or creates the source's verified preparation. -/
def prepareSource (meets : Retaining) (id : SourceId) : DiskOp Unit := do
  Op.read fun _ => Commands.Preparing.check (meets.env 12) 0
  ensurePreparationSettings meets id
  let capture ← consult controlCode fun db => do
    let (source, row) ← readPreparation (meets.env 5) db id
    captureView source row
  let result ← chooseOutcome meets capture
  match result with
  | .ready artifact => do
      viewArtifact meets capture artifact
      let _ ← commitOutcome meets capture (.ready artifact)
      return ()
  | .gap reason => prepareGap meets capture reason

/-- Retain and prepare one listed file. -/
def registerFile (meets : Retaining) (path : Bytes) : DiskOp Unit := do
  let source ← retainFile meets path
  prepareSource meets source.sourceId

/-! ## Rows are kept -/

/-- Every source row that is there stays there; its content may change. -/
def KeepsSources (before after : Db) : Prop :=
  ∀ id : Bytes, (openTable before.sourceRows)[id]? ≠ none → (openTable after.sourceRows)[id]? ≠ none

theorem KeepsSources.refl (db : Db) : KeepsSources db db :=
  fun _ hthere => hthere

theorem KeepsSources.trans {first second third : Db} (hfirst : KeepsSources first second)
    (hsecond : KeepsSources second third) : KeepsSources first third :=
  fun id hthere => hsecond id (hfirst id hthere)

/-- Tables with the same source rows keep every row. -/
theorem KeepsSources.of_eq {before after : Db}
    (hrows : openTable after.sourceRows = openTable before.sourceRows) :
    KeepsSources before after := by
  intro id hthere
  rw [hrows]
  exact hthere

/-- A settled transaction keeps the rows that its own tables keep. -/
theorem settle_keepsSources {ε α : Type} {env : Env} {db : Db} {lost : ε}
    {attempt : Except ε (Option Db × α)}
    (hattempt : ∀ next value, attempt = .ok (some next, value) → KeepsSources db next) :
    KeepsSources db (settle env db lost attempt).db := by
  rcases settle_cases env db lost attempt with ⟨-, hdb, -⟩ | ⟨next, value, hnext, hdb, -⟩
  · rw [hdb]
    exact KeepsSources.refl db
  · rw [hdb]
    exact hattempt next value hnext

theorem sourceWrite_keepsSources {db next : Db} {capture : SourceCapture}
    {fileKey : NativeFileKey} {objectRef : ObjectRef} {record : CurrentSourceRecord}
    (hwrite : SourceWrite db next capture fileKey objectRef record) : KeepsSources db next := by
  obtain ⟨revision, rfl⟩ := hwrite.tables
  intro id hthere
  change ((openTable db.sourceRows).insert record.sourceId.bytes (recordBytes record))[id]? ≠ none
  rw [Table.get_insert]
  split
  · exact nofun
  · exact hthere

theorem settingsWrite_keepsSources {db next : Db} {id : SourceId}
    {settings : PreparationSettings} {source : CurrentSourceRecord}
    {previous : Option CurrentPreparation} {row : CurrentPreparation}
    (hwrite : SettingsWrite db next id settings source previous row) : KeepsSources db next := by
  cases hwrite with
  | first _ _ _ _ hnext =>
      subst hnext
      exact KeepsSources.of_eq rfl
  | change _ _ _ _ hnext =>
      subst hnext
      exact KeepsSources.of_eq rfl

section Keeping

variable {Inv : Disk → Prop} {disk : Disk}

theorem consult_preserves {ε α : Type} {code : ε → Bytes} {look : Db → Except ε α}
    (hdisk : Inv disk) :
    Preserves Inv (consult code look) disk fun value after =>
      look disk.control = .ok value ∧ after = disk := by
  refine (preserves_read hdisk).mono ?_
  rintro value _ - ⟨hvalue, rfl⟩
  exact ⟨mapError_eq_ok.mp hvalue, rfl⟩

theorem transact_preserves {ε α : Type} {code : ε → Bytes} {write : Db → Outcome ε α}
    (hafter : Inv { disk with control := (write disk.control).db }) :
    Preserves Inv (transact code write) disk fun value after =>
      (write disk.control).reply = .ok value ∧
        after = { disk with control := (write disk.control).db } where
  passed found hmem := by
    rw [List.mem_singleton.mp hmem]
    exact hafter
  left := hafter
  post value hvalue := ⟨mapError_eq_ok.mp hvalue, rfl⟩

/-- Disks whose database keeps the rows of the first one. -/
def Keeping (first : Db) (disk : Disk) : Prop := KeepsSources first disk.control

variable {first : Db}

theorem steady_consult {ε α : Type} (code : ε → Bytes) (look : Db → Except ε α) :
    Steady Inv (consult code look) :=
  steady_read _

/-- A transaction that keeps the rows of every database. -/
theorem transact_steady {ε α : Type} {code : ε → Bytes} {write : Db → Outcome ε α}
    (hwrite : ∀ db, KeepsSources db (write db).db) :
    Steady (Keeping first) (transact code write) := fun disk hdisk =>
  (transact_preserves (hdisk.trans (hwrite disk.control))).mono fun _ _ _ _ => trivial

theorem retainObject_steady (staging : Staging) (env : Env) (kind : ObjectKind) (bytes : Bytes)
    (maximumBytes : UInt64) :
    Steady (Keeping first) (retainObject staging env kind bytes maximumBytes) :=
  fun _ hdisk => (preserves_zoom fun _ => hdisk).mapError

theorem retainFile_steady (meets : Retaining) (path : Bytes) :
    Steady (Keeping first) (retainFile meets path) := by
  refine (steady_consult _ _).bind fun capture => ?_
  refine (steady_read _).bind fun file => ?_
  refine (retainObject_steady _ _ _ _ _).bind fun objectRef => ?_
  refine (steady_refuse _ _).bind fun _ => ?_
  exact transact_steady fun db => settle_keepsSources fun _ _ hattempt =>
    sourceWrite_keepsSources (commitSourceTransaction_wrote hattempt)

theorem ensurePreparationSettings_steady (meets : Retaining) (id : SourceId) :
    Steady (Keeping first) (ensurePreparationSettings meets id) := by
  refine (steady_refuse _ _).bind fun _ => ?_
  refine (steady_consult _ _).bind ?_
  rintro ⟨source, previous⟩
  cases previous with
  | some row => exact steady_pure ()
  | none =>
      refine (transact_steady fun db => settle_keepsSources fun _ _ hattempt =>
        settingsWrite_keepsSources (writeSettingsTransaction_wrote hattempt)).bind fun _ => ?_
      exact steady_pure ()

theorem createOutcome_steady (meets : Retaining) (source : CurrentSourceRecord)
    (settings : PreparationSettings) :
    Steady (Keeping first) (createOutcome meets source settings) := by
  unfold createOutcome
  split
  · exact steady_pure _
  · refine (steady_read _).bind fun bytes => ?_
    refine (steady_read _).bind fun prepared => ?_
    cases prepared with
    | ok encoded => exact (retainObject_steady _ _ _ _ _).bind fun artifact => steady_pure _
    | error error => exact (steady_read _).bind fun reason => steady_pure _

theorem chooseOutcome_steady (meets : Retaining) (capture : PreparationCapture) :
    Steady (Keeping first) (chooseOutcome meets capture) := by
  unfold chooseOutcome
  cases reusable capture with
  | some artifact => exact steady_pure _
  | none => exact createOutcome_steady _ _ _

theorem viewArtifact_steady (meets : Retaining) (capture : PreparationCapture)
    (artifact : ObjectRef) : Steady (Keeping first) (viewArtifact meets capture artifact) := by
  refine (steady_read _).bind fun stored => ?_
  refine (steady_read _).bind fun view => ?_
  exact steady_pure ()

theorem commitOutcome_steady (meets : Retaining) (capture : PreparationCapture)
    (result : PreparationOutcome) :
    Steady (Keeping first) (commitOutcome meets capture result) := by
  refine transact_steady fun db => settle_keepsSources fun next row hattempt => ?_
  obtain ⟨old, hwrite⟩ := commitPreparationTransaction_wrote hattempt
  obtain ⟨revision, rfl⟩ := hwrite.tables
  exact KeepsSources.of_eq rfl

theorem prepareGap_steady (meets : Retaining) (capture : PreparationCapture)
    (reason : PreparationGap) : Steady (Keeping first) (prepareGap meets capture reason) := by
  refine (commitOutcome_steady _ _ _).bind fun current => ?_
  cases resultOf current with
  | none => exact steady_fail _
  | some result =>
      cases result with
      | ready artifact => exact viewArtifact_steady _ _ _
      | gap actual => exact steady_refuse _ _

theorem prepareSource_steady (meets : Retaining) (id : SourceId) :
    Steady (Keeping first) (prepareSource meets id) := by
  refine (steady_read _).bind fun _ => ?_
  refine (ensurePreparationSettings_steady _ _).bind fun _ => ?_
  refine (steady_consult _ _).bind fun capture => ?_
  refine (chooseOutcome_steady _ _).bind fun result => ?_
  cases result with
  | ready artifact =>
      refine (viewArtifact_steady _ _ _).bind fun _ => ?_
      exact (commitOutcome_steady _ _ _).bind fun _ => steady_pure ()
  | gap reason => exact prepareGap_steady _ _ _

/-- Registering a file removes no source, wherever it is cut off. -/
theorem registerFile_steady (meets : Retaining) (path : Bytes) :
    Steady (Keeping first) (registerFile meets path) :=
  (retainFile_steady meets path).bind fun source => prepareSource_steady meets source.sourceId

end Keeping

end EliotSearch.Retention
