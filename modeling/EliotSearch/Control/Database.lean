import EliotSearch.Control.Generation
import EliotSearch.Control.Preparations
import EliotSearch.Library.OrderedTable

/-!
# The control database

The tables of the root control database, transactions on them, and the guards
every module reads: the table catalogue, the source namespace, the wanted
corpus revision and the publication header.

A write transaction computes the tables it would leave behind.  They become
the database only through `settle`, so a transaction that fails or is dropped
leaves nothing.  A failing database call is one of the interruptions a check
may report: it ends the transaction in the same way.
-/

namespace EliotSearch.Control

open EliotSearch.Library
open EliotSearch.Library.Json
open EliotSearch.Library.Results
open EliotSearch.Library.Words

/-! ## Tables -/

/-- The optional tables of the control database. -/
structure Db where
  sourceState : Option Table
  sourceRows : Option Table
  sourceLocators : Option Table
  preparations : Option Table
  publicationState : Option Table
  generationSources : Option Table
  generationPages : Option Table
  generationEvidence : Option Table
  retiredGenerations : Option Table
  hasMultimap : Bool
  deriving DecidableEq

/-- A fresh root holds its metadata table only. -/
def Db.empty : Db :=
  ⟨none, none, none, none, none, none, none, none, none, false⟩

/-- Open a table for writing, creating it when it does not exist. -/
def openTable (table : Option Table) : Table := table.getD ∅

@[simp]
theorem openTable_some (table : Table) : openTable (some table) = table :=
  rfl

@[simp]
theorem openTable_none : openTable none = ∅ :=
  rfl

def schemaVersionKey : Bytes := ascii "schema_version"

def namespaceKey : Bytes := ascii "source_namespace_id"

def wantedRevisionKey : Bytes := ascii "wanted_corpus_revision"

def stateKey : Bytes := ascii "v1"

def sourceSchemaVersion : Bytes := [1]

/-! ## Interruptions and commits -/

/-- What a check of the deadline and the cancellation flag may report, or a
database call that fails. -/
inductive Interruption where
  | cancelled
  | deadline
  | io
  deriving DecidableEq, Repr

/-- A commit that reports failure may have been applied or not. -/
inductive CommitFate where
  | acknowledged
  | lost
  | unacknowledged
  deriving DecidableEq, Repr

/-- The surroundings of one transaction: what each numbered check reports and
what becomes of the commit. -/
structure Env where
  probe : Nat → Option Interruption
  fate : CommitFate

/-- Surroundings that interrupt nothing. -/
def Env.quiet : Env := ⟨fun _ => none, .acknowledged⟩

variable {ε α : Type}

def Env.check (env : Env) (fault : Interruption → ε) (site : Nat) : Except ε Unit :=
  match env.probe site with
  | none => .ok ()
  | some interruption => .error (fault interruption)

/-- The result of an operation that ran one write transaction: the tables it
left, the value it made durable and the reply of the caller. -/
structure Outcome (ε α : Type) where
  db : Db
  written : Option α
  reply : Except ε α

/-- Commit the tables computed by a transaction, or drop it.  A transaction
that changes nothing is dropped and still succeeds. -/
def settle (env : Env) (db : Db) (lost : ε) : Except ε (Option Db × α) → Outcome ε α
  | .error error => ⟨db, none, .error error⟩
  | .ok (none, value) => ⟨db, none, .ok value⟩
  | .ok (some next, value) =>
      match env.fate with
      | .acknowledged => ⟨next, some value, .ok value⟩
      | .lost => ⟨db, none, .error lost⟩
      | .unacknowledged => ⟨next, some value, .error lost⟩

/-- Nothing durable happened, or exactly the tables of a successful transaction
are in place; a reply that succeeds reports the transaction's own value. -/
theorem settle_cases (env : Env) (db : Db) (lost : ε) (attempt : Except ε (Option Db × α)) :
    ((settle env db lost attempt).written = none ∧ (settle env db lost attempt).db = db ∧
      ∀ value, (settle env db lost attempt).reply = .ok value → attempt = .ok (none, value)) ∨
    ∃ next value, attempt = .ok (some next, value) ∧
      (settle env db lost attempt).db = next ∧
      (settle env db lost attempt).written = some value ∧
      ((settle env db lost attempt).reply = .ok value ∨
        (settle env db lost attempt).reply = .error lost) := by
  rcases attempt with error | ⟨_ | next, value⟩
  · left
    simp [settle]
  · left
    simp [settle]
  · cases hfate : env.fate with
    | acknowledged =>
        right
        exact ⟨next, value, rfl, by simp [settle, hfate]⟩
    | lost =>
        left
        simp [settle, hfate]
    | unacknowledged =>
        right
        exact ⟨next, value, rfl, by simp [settle, hfate]⟩

/-! ## The table catalogue -/

inductive TableName where
  | currentPreparations
  | currentSourceLocators
  | currentSourceRows
  | generationEvidence
  | generationPages
  | generationSources
  | plainControlMeta
  | publicationState
  | retiredGenerations
  | sourceState
  deriving DecidableEq, Repr

def publicationTableNames : List TableName :=
  [.publicationState, .generationSources, .generationPages, .generationEvidence,
    .retiredGenerations]

def Db.listed (table : Option Table) (name : TableName) : List TableName :=
  if table.isSome then [name] else []

/-- Every existing table in name order. -/
def Db.listTables (db : Db) : List TableName :=
  Db.listed db.preparations .currentPreparations ++
    Db.listed db.sourceLocators .currentSourceLocators ++
    Db.listed db.sourceRows .currentSourceRows ++
    Db.listed db.generationEvidence .generationEvidence ++
    Db.listed db.generationPages .generationPages ++
    Db.listed db.generationSources .generationSources ++ [.plainControlMeta] ++
    Db.listed db.publicationState .publicationState ++
    Db.listed db.retiredGenerations .retiredGenerations ++
    Db.listed db.sourceState .sourceState

/-- Whether the source tables exist; the names arrive in name order. -/
def catalogueNames (names : List TableName) (hasMultimap : Bool) :
    Except SourceControlError Bool := do
  refuse (hasMultimap = true) .unsupportedSchema
  let publicationCount := names.countP fun name => publicationTableNames.contains name
  refuse (publicationCount ≠ 0 ∧ publicationCount ≠ publicationTableNames.length)
    .unsupportedSchema
  let names := names.filter fun name => !publicationTableNames.contains name
  if names = [.plainControlMeta] then return false
  let expected : List TableName :=
    [.currentSourceLocators, .currentSourceRows, .plainControlMeta, .sourceState]
  if names = expected ∨ names = .currentPreparations :: expected then return true
  throw .unsupportedSchema

theorem catalogueNames_filter {names : List TableName} {hasMultimap : Bool}
    (hnames : catalogueNames names hasMultimap = .ok false) :
    (names.filter fun name => !publicationTableNames.contains name) = [.plainControlMeta] := by
  simp only [catalogueNames, bind_eq_ok, refuse_eq_ok] at hnames
  obtain ⟨_, _, _, _, hnames⟩ := hnames
  split at hnames
  · assumption
  · split at hnames
    · cases hnames
    · cases hnames

theorem eq_none_of_not_listed {db : Db} {table : Option Table} (name : TableName)
    (hnames : catalogueNames db.listTables db.hasMultimap = .ok false)
    (hother : publicationTableNames.contains name = false) (hmeta : name ≠ .plainControlMeta)
    (hlisted : name ∈ Db.listed table name → name ∈ db.listTables) : table = none := by
  cases table with
  | none => rfl
  | some table =>
      have hmem : name ∈ db.listTables.filter fun name => !publicationTableNames.contains name :=
        List.mem_filter.mpr ⟨hlisted (by simp [Db.listed]), by rw [hother]; rfl⟩
      rw [catalogueNames_filter hnames, List.mem_singleton] at hmem
      exact absurd hmem hmeta

/-- Without source tables the catalogue has no current row and no preparation. -/
theorem catalogueNames_eq_false {db : Db}
    (hnames : catalogueNames db.listTables db.hasMultimap = .ok false) :
    db.sourceState = none ∧ db.sourceRows = none ∧ db.preparations = none := by
  refine ⟨eq_none_of_not_listed .sourceState hnames rfl (by decide) ?_,
    eq_none_of_not_listed .currentSourceRows hnames rfl (by decide) ?_,
    eq_none_of_not_listed .currentPreparations hnames rfl (by decide) ?_⟩
  · exact fun hmem => List.mem_append_right _ hmem
  · intro hmem
    simp only [Db.listTables, List.mem_append]
    tauto
  · intro hmem
    simp only [Db.listTables, List.mem_append]
    tauto

/-! ## The source namespace and the wanted revision -/

/-- The stored wanted corpus revision, zero before the first change. -/
def storedRevision (state : Table) : Except SourceControlError UInt64 :=
  match state[wantedRevisionKey]? with
  | none => .ok 0
  | some bytes => do
      let word ← okOr (Octets.ofBytes? 8 bytes) .corrupt
      return UInt64.ofNat (leValue word.bytes)

def readNamespace (db : Db) : Except SourceControlError (Option SourceNamespaceId) := do
  let state ← okOr db.sourceState .corrupt
  match state[schemaVersionKey]?, state[namespaceKey]? with
  | none, none => return none
  | some version, some bytes => do
      refuse (version ≠ sourceSchemaVersion) .corrupt
      let namespaceId ← okOr (Octets.ofBytes? 16 bytes) .corrupt
      return some namespaceId
  | _, _ => throw .corrupt

def wantedRevision (db : Db) : Except SourceControlError UInt64 := do
  let state ← okOr db.sourceState .corrupt
  storedRevision state

def writeWantedRevision (db : Db) : Except SourceControlError UInt64 :=
  storedRevision (openTable db.sourceState)

def advanceWantedRevision (db : Db) : Except SourceControlError Db := do
  let revision ← writeWantedRevision db
  let next ← okOr (checkedAdd revision 1) .revisionExhausted
  return { db with
    sourceState := some ((openTable db.sourceState).insert wantedRevisionKey (le64 next)) }

def publicationSourceError : SourceControlError → PublicationError
  | .database => .database
  | .unsupportedSchema => .unsupportedSchema
  | .stale => .stale
  | .deadline => .deadline
  | .cancelled => .cancelled
  | .revisionExhausted => .limit
  | .inventoryLimit => .limit
  | .randomUnavailable => .random
  | .corrupt => .corrupt
  | .invalidLocator => .corrupt
  | .unsupportedPlatform => .corrupt

/-- The namespace and wanted revision a publication transaction compares with
the ones its build captured. -/
def wantedGuard (db : Db) : Except PublicationError (Option (Octets 16) × UInt64) :=
  match db.sourceState with
  | none => .ok (none, 0)
  | some state => do
      let bytes ← okOr state[namespaceKey]? .corrupt
      let namespaceId ← okOr (Octets.ofBytes? 16 bytes) .corrupt
      let revision ← (writeWantedRevision db).mapError publicationSourceError
      return (some namespaceId, revision)

def checkWanted (db : Db) (namespaceId : Option (Octets 16)) (revision : UInt64) :
    Except PublicationError Unit := do
  let actual ← wantedGuard db
  refuse (actual ≠ (namespaceId, revision)) .stale

/-- A passed guard says that the stored wanted revision is the captured one. -/
theorem checkWanted_revision {db : Db} {namespaceId : Option (Octets 16)} {revision : UInt64}
    {result : Unit} (hguard : checkWanted db namespaceId revision = .ok result) :
    writeWantedRevision db = .ok revision := by
  simp only [checkWanted, bind_eq_ok, refuse_eq_ok, not_not] at hguard
  obtain ⟨actual, hactual, rfl⟩ := hguard
  unfold wantedGuard at hactual
  cases hstate : db.sourceState with
  | none =>
      rw [hstate] at hactual
      cases hactual
      simp [writeWantedRevision, hstate, storedRevision]
  | some state =>
      rw [hstate] at hactual
      simp only [bind_eq_ok, mapError_eq_ok, pure_eq_ok, Except.ok.injEq, Prod.mk.injEq] at hactual
      obtain ⟨_, _, _, _, found, hfound, _, rfl⟩ := hactual
      exact hfound

theorem wantedRevision_eq_ok {db : Db} {revision : UInt64}
    (hrevision : wantedRevision db = .ok revision) : writeWantedRevision db = .ok revision := by
  simp only [wantedRevision, bind_eq_ok, okOr_eq_ok] at hrevision
  obtain ⟨state, hstate, hrevision⟩ := hrevision
  rwa [writeWantedRevision, hstate, openTable_some]

/-- Advancing stores the next revision and touches nothing else. -/
theorem advanceWantedRevision_eq_ok {db next : Db}
    (hadvance : advanceWantedRevision db = .ok next) :
    ∃ old new : UInt64, writeWantedRevision db = .ok old ∧ new.toNat = old.toNat + 1 ∧
      writeWantedRevision next = .ok new ∧
      next = { db with
        sourceState := some ((openTable db.sourceState).insert wantedRevisionKey (le64 new)) } := by
  simp only [advanceWantedRevision, bind_eq_ok, okOr_eq_ok, pure_eq_ok, Except.ok.injEq]
    at hadvance
  obtain ⟨old, hold, new, hnew, rfl⟩ := hadvance
  have hround : Octets.ofBytes? 8 (le64 new) = some ⟨le64 new, le64_length new⟩ :=
    Octets.ofBytes?_eq_some.mpr rfl
  refine ⟨old, new, hold, ?_, ?_, rfl⟩
  · simpa using checkedAdd_eq_some.mp hnew
  · simp [writeWantedRevision, storedRevision, hround]

/-! ## Frames -/

/-- The publication tables are untouched. -/
structure KeepsPublication (before after : Db) : Prop where
  header : after.publicationState = before.publicationState
  sources : after.generationSources = before.generationSources
  pages : after.generationPages = before.generationPages
  evidence : after.generationEvidence = before.generationEvidence
  retired : after.retiredGenerations = before.retiredGenerations

theorem KeepsPublication.refl (db : Db) : KeepsPublication db db :=
  ⟨rfl, rfl, rfl, rfl, rfl⟩

theorem KeepsPublication.trans {first second third : Db} (hfirst : KeepsPublication first second)
    (hsecond : KeepsPublication second third) : KeepsPublication first third :=
  ⟨hsecond.header.trans hfirst.header, hsecond.sources.trans hfirst.sources,
    hsecond.pages.trans hfirst.pages, hsecond.evidence.trans hfirst.evidence,
    hsecond.retired.trans hfirst.retired⟩

theorem advanceWantedRevision_keeps {db next : Db}
    (hadvance : advanceWantedRevision db = .ok next) : KeepsPublication db next := by
  obtain ⟨_, _, _, _, _, rfl⟩ := advanceWantedRevision_eq_ok hadvance
  exact ⟨rfl, rfl, rfl, rfl, rfl⟩

/-! ## The publication header -/

def publicationFault : Interruption → PublicationError
  | .cancelled => .cancelled
  | .deadline => .deadline
  | .io => .database

def readState (db : Db) : Except PublicationError State :=
  match db.publicationState with
  | none => .ok State.default
  | some table => do
      let bytes ← okOr table[stateKey]? .corrupt
      decodeState bytes

/-- The publication tables as a write transaction opens them. -/
def Db.openPublication (db : Db) : Db :=
  { db with
    publicationState := some (openTable db.publicationState)
    generationSources := some (openTable db.generationSources)
    generationPages := some (openTable db.generationPages)
    generationEvidence := some (openTable db.generationEvidence)
    retiredGenerations := some (openTable db.retiredGenerations) }

/-- The header seen by a write transaction. -/
def loadState (db : Db) : Except PublicationError State :=
  let existed := db.publicationState.isSome
  match (openTable db.publicationState)[stateKey]? with
  | some bytes => decodeState bytes
  | none => if existed then .error .corrupt else .ok State.default

/-- One publication transaction: read the header, run the edit on the opened
tables and store the header it leaves. -/
def editTransaction (env : Env) (db : Db)
    (write : Db → State → Except PublicationError (Db × State × α)) :
    Except PublicationError (Option Db × α) := do
  env.check publicationFault 0
  let state ← loadState db
  let (next, state, value) ← write db.openPublication state
  let bytes ← stateBytes state
  env.check publicationFault 1
  return (some { next with
    publicationState := some ((openTable next.publicationState).insert stateKey bytes) }, value)

def editDatabase (env : Env) (db : Db)
    (write : Db → State → Except PublicationError (Db × State × α)) :
    Outcome PublicationError α :=
  settle env db .database (editTransaction env db write)

/-- One read transaction. -/
def observeDatabase (env : Env) (db : Db) (read : Db → Except PublicationError α) :
    Except PublicationError α := do
  env.check publicationFault 0
  let value ← read db
  env.check publicationFault 1
  return value

/-- Readers and writers see the same header. -/
theorem loadState_eq (db : Db) : loadState db = readState db := by
  unfold loadState readState
  cases hheader : db.publicationState with
  | none => simp
  | some table =>
      cases hbytes : table[stateKey]? with
      | none => simp [hbytes, okOr]
      | some bytes => simp [hbytes]

theorem Env.check_eq_ok {env : Env} {fault : Interruption → ε} {site : Nat} {result : Unit} :
    env.check fault site = .ok result ↔ env.probe site = none := by
  unfold Env.check
  cases env.probe site <;> simp

/-- The tables a durable edit leaves behind. -/
def Db.withState (db : Db) (state : State) : Db :=
  { db with
    publicationState :=
      some ((openTable db.publicationState).insert stateKey (stateFormat.print state)) }

theorem editTransaction_eq_ok {env : Env} {db : Db}
    {write : Db → State → Except PublicationError (Db × State × α)} {next : Option Db}
    {value : α} (hedit : editTransaction env db write = .ok (next, value)) :
    ∃ state left after, readState db = .ok state ∧
      write db.openPublication state = .ok (left, after, value) ∧
      next = some (left.withState after) := by
  simp only [editTransaction, bind_eq_ok, loadState_eq, stateBytes_eq_ok] at hedit
  obtain ⟨_, _, state, hstate, ⟨left, after, found⟩, hwrite, _, hbytes, _, _, hedit⟩ := hedit
  obtain rfl := Except.ok.inj hbytes
  simp only [pure_eq_ok, Except.ok.injEq, Prod.mk.injEq] at hedit
  obtain ⟨rfl, rfl⟩ := hedit
  exact ⟨state, left, after, hstate, hwrite, rfl⟩

/-- A durable edit read the stored header, ran its closure and stored the
header the closure left; otherwise the database is unchanged. -/
theorem editDatabase_cases (env : Env) (db : Db)
    (write : Db → State → Except PublicationError (Db × State × α)) :
    ((editDatabase env db write).written = none ∧ (editDatabase env db write).db = db ∧
      ∃ error, (editDatabase env db write).reply = .error error) ∨
    ∃ state left after value, readState db = .ok state ∧
      write db.openPublication state = .ok (left, after, value) ∧
      (editDatabase env db write).db = left.withState after ∧
      (editDatabase env db write).written = some value ∧
      ((editDatabase env db write).reply = .ok value ∨
        (editDatabase env db write).reply = .error .database) := by
  rcases settle_cases env db PublicationError.database (editTransaction env db write) with
    ⟨hwritten, hdb, hreply⟩ | hdurable
  · left
    refine ⟨hwritten, hdb, ?_⟩
    cases hresult : (editDatabase env db write).reply with
    | error error => exact ⟨error, rfl⟩
    | ok value =>
        obtain ⟨_, left, after, _, _, hnone⟩ := editTransaction_eq_ok (hreply value hresult)
        cases hnone
  · right
    obtain ⟨next, value, hattempt, hdb, hwritten, hreply⟩ := hdurable
    obtain ⟨state, left, after, hstate, hwrite, hnext⟩ := editTransaction_eq_ok hattempt
    obtain rfl := Option.some.inj hnext
    exact ⟨state, left, after, value, hstate, hwrite, hdb, hwritten, hreply⟩

/-- A stored readable header is read back. -/
theorem readState_withState (db : Db) {state : State} (hreadable : state.Readable) :
    readState (db.withState state) = .ok state := by
  simp [readState, Db.withState, decodeState_print hreadable]

end EliotSearch.Control
