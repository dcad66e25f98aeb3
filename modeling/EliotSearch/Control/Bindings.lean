import EliotSearch.Control.Corpus
import EliotSearch.Control.Guards
import EliotSearch.Library.Indexes

/-!
# Bound registrations

A sound root either has no source table, or all of them with one namespace, an
inverse locator index, and preparations of existing rows only.  Every
transaction over sources, selections and preparations keeps this, whatever it
is given, as long as a source commit uses a capture that names its own
namespace.
-/

namespace EliotSearch.Control

open EliotSearch.Library
open EliotSearch.Library.Results
open EliotSearch.Library.Words

/-- A stored source row: its encoding, its own key and the stored namespace. -/
structure StoredRecord (namespaceId : SourceNamespaceId) (key bytes : Bytes)
    (record : CurrentSourceRecord) : Prop where
  recordable : Recordable record
  bounded : record.objectRef.byteLength ≤ maxSourceObjectBytes
  bytes_eq : bytes = recordBytes record
  key_eq : key = record.sourceId.bytes
  namespace_eq : record.sourceNamespaceId = namespaceId

theorem StoredRecord.decode {namespaceId : SourceNamespaceId} {key bytes : Bytes}
    {record : CurrentSourceRecord} (hstored : StoredRecord namespaceId key bytes record) :
    decodeRecord bytes = .ok record := by
  rw [hstored.bytes_eq]
  exact decodeRecord_recordBytes hstored.recordable hstored.bounded

/-- A stored preparation: its encoding, its own key and the stored namespace. -/
structure BoundPreparation (namespaceId : SourceNamespaceId) (key bytes : Bytes)
    (row : CurrentPreparation) : Prop where
  valid : row.validate = .ok ()
  bytes_eq : bytes = preparationBytes row
  key_eq : key = row.sourceId.bytes
  namespace_eq : row.sourceNamespaceId = namespaceId

theorem BoundPreparation.decode {namespaceId : SourceNamespaceId} {key bytes : Bytes}
    {row : CurrentPreparation} (hbound : BoundPreparation namespaceId key bytes row) :
    CurrentPreparation.decode bytes = .ok row := by
  rw [hbound.bytes_eq]
  exact CurrentPreparation.decode_preparationBytes hbound.valid

namespace Db

/-- No source table exists. -/
structure Unregistered (db : Db) : Prop where
  state : db.sourceState = none
  rows : db.sourceRows = none
  locators : db.sourceLocators = none
  preparations : db.preparations = none

/-- The source tables hold registrations of one namespace. -/
structure Registered (db : Db) (namespaceId : SourceNamespaceId) : Prop where
  state : db.sourceState.isSome = true
  rows : db.sourceRows.isSome = true
  locators : db.sourceLocators.isSome = true
  version : (openTable db.sourceState)[schemaVersionKey]? = some sourceSchemaVersion
  stored : (openTable db.sourceState)[namespaceKey]? = some namespaceId.bytes
  revision : ∃ revision, writeWantedRevision db = .ok revision
  record : ∀ {key bytes}, (openTable db.sourceRows)[key]? = some bytes →
    ∃ record, StoredRecord namespaceId key bytes record
  inverse : Inverse CurrentSourceRecord.locator (recordAt (openTable db.sourceRows))
    fun locator => (openTable db.sourceLocators)[locator]?
  preparation : ∀ {key bytes}, (openTable db.preparations)[key]? = some bytes →
    (openTable db.sourceRows)[key]?.isSome = true ∧
      ∃ row, BoundPreparation namespaceId key bytes row

/-- The publication tables exist together or not at all, with a readable header. -/
structure PublicationWhole (db : Db) : Prop where
  together : ∃ present, db.publicationState.isSome = present ∧
    db.generationSources.isSome = present ∧ db.generationPages.isSome = present ∧
    db.generationEvidence.isSome = present ∧ db.retiredGenerations.isSome = present
  header : ∃ state, readState db = .ok state

structure Sound (db : Db) : Prop where
  single : db.hasMultimap = false
  publication : db.PublicationWhole
  sources : db.Unregistered ∨ ∃ namespaceId, db.Registered namespaceId

variable {db next : Db} {namespaceId : SourceNamespaceId}

theorem empty_sound : Db.empty.Sound where
  single := rfl
  publication := ⟨⟨false, rfl, rfl, rfl, rfl, rfl⟩, ⟨State.default, rfl⟩⟩
  sources := Or.inl ⟨rfl, rfl, rfl, rfl⟩

theorem PublicationWhole.keeps (hwhole : db.PublicationWhole) (hkeeps : KeepsPublication db next) :
    next.PublicationWhole := by
  obtain ⟨⟨present, hheader, hsources, hpages, hevidence, hretired⟩, ⟨state, hstate⟩⟩ := hwhole
  constructor
  · refine ⟨present, ?_⟩
    rw [hkeeps.header, hkeeps.sources, hkeeps.pages, hkeeps.evidence, hkeeps.retired]
    exact ⟨hheader, hsources, hpages, hevidence, hretired⟩
  · refine ⟨state, ?_⟩
    rw [readState, hkeeps.header]
    exact hstate

/-! ## The catalogue -/

theorem Unregistered.catalogue (hnone : db.Unregistered) (hsingle : db.hasMultimap = false)
    (hwhole : db.PublicationWhole) :
    catalogueNames db.listTables db.hasMultimap = .ok false := by
  obtain ⟨present, hheader, hsources, hpages, hevidence, hretired⟩ := hwhole.together
  cases present <;>
    simp only [listTables, listed, hnone.state, hnone.rows, hnone.locators, hnone.preparations,
      hheader, hsources, hpages, hevidence, hretired, hsingle] <;>
    decide

theorem Registered.catalogue (hregistered : db.Registered namespaceId)
    (hsingle : db.hasMultimap = false) (hwhole : db.PublicationWhole) :
    catalogueNames db.listTables db.hasMultimap = .ok true := by
  obtain ⟨present, hheader, hsources, hpages, hevidence, hretired⟩ := hwhole.together
  have hstate := hregistered.state
  have hrows := hregistered.rows
  have hlocators := hregistered.locators
  cases hpreparations : db.preparations.isSome <;> cases present <;>
    simp only [listTables, listed, hstate, hrows, hlocators, hpreparations, hheader, hsources,
      hpages, hevidence, hretired, hsingle] <;>
    decide

/-- The catalogue of a sound root is accepted. -/
theorem Sound.catalogue (hsound : db.Sound) :
    ∃ registered, catalogueNames db.listTables db.hasMultimap = .ok registered := by
  rcases hsound.sources with hnone | ⟨namespaceId, hregistered⟩
  · exact ⟨false, hnone.catalogue hsound.single hsound.publication⟩
  · exact ⟨true, hregistered.catalogue hsound.single hsound.publication⟩

/-- A sound root whose catalogue has the source tables is registered. -/
theorem Sound.registered (hsound : db.Sound)
    (hnames : catalogueNames db.listTables db.hasMultimap = .ok true) :
    ∃ namespaceId, db.Registered namespaceId := by
  rcases hsound.sources with hnone | hregistered
  · rw [hnone.catalogue hsound.single hsound.publication] at hnames
    cases hnames
  · exact hregistered

theorem Sound.unregistered (hsound : db.Sound)
    (hnames : catalogueNames db.listTables db.hasMultimap = .ok false) : db.Unregistered := by
  rcases hsound.sources with hnone | ⟨_, hregistered⟩
  · exact hnone
  · rw [hregistered.catalogue hsound.single hsound.publication] at hnames
    cases hnames

/-! ## Rows of a registered root -/

theorem Registered.recordAt_stored (hregistered : db.Registered namespaceId) {key : Bytes}
    {record : CurrentSourceRecord} (hrecord : recordAt (openTable db.sourceRows) key = some record) :
    ∃ bytes, (openTable db.sourceRows)[key]? = some bytes ∧
      StoredRecord namespaceId key bytes record := by
  obtain ⟨bytes, hbytes, hdecode⟩ := recordAt_eq_some.mp hrecord
  obtain ⟨found, hfound⟩ := hregistered.record hbytes
  rw [hfound.decode] at hdecode
  obtain rfl := Except.ok.inj hdecode
  exact ⟨bytes, hbytes, hfound⟩

theorem Registered.exists_record (hregistered : db.Registered namespaceId) {key bytes : Bytes}
    (hbytes : (openTable db.sourceRows)[key]? = some bytes) :
    ∃ record, recordAt (openTable db.sourceRows) key = some record ∧
      StoredRecord namespaceId key bytes record := by
  obtain ⟨record, hstored⟩ := hregistered.record hbytes
  exact ⟨record, recordAt_eq_some.mpr ⟨bytes, hbytes, hstored.decode⟩, hstored⟩

theorem Registered.preparationAt_bound (hregistered : db.Registered namespaceId) {key : Bytes}
    {row : CurrentPreparation}
    (hrow : preparationAt (openTable db.preparations) key = some row) :
    ∃ bytes, (openTable db.preparations)[key]? = some bytes ∧
      BoundPreparation namespaceId key bytes row := by
  obtain ⟨bytes, hbytes, hdecode⟩ := preparationAt_eq_some.mp hrow
  obtain ⟨-, found, hfound⟩ := hregistered.preparation hbytes
  rw [hfound.decode] at hdecode
  obtain rfl := Except.ok.inj hdecode
  exact ⟨bytes, hbytes, hfound⟩

/-! ## Source-state records -/

/-- A source-state record under a key of its own keeps every registration. -/
theorem Registered.withSelection (hregistered : db.Registered namespaceId) {key : Bytes}
    (value : Bytes) (hversion : key ≠ schemaVersionKey) (hname : key ≠ namespaceKey)
    (hrevision : key ≠ wantedRevisionKey) : (db.withSelection key value).Registered namespaceId where
  state := rfl
  rows := hregistered.rows
  locators := hregistered.locators
  version := by
    rw [Db.withSelection, openTable_some, Table.get_insert_of_ne _ _ hversion]
    exact hregistered.version
  stored := by
    rw [Db.withSelection, openTable_some, Table.get_insert_of_ne _ _ hname]
    exact hregistered.stored
  revision := by
    obtain ⟨revision, hstored⟩ := hregistered.revision
    exact ⟨revision, (storedRevision_insert hrevision).trans hstored⟩
  record := hregistered.record
  inverse := hregistered.inverse
  preparation := hregistered.preparation

/-- Advancing the wanted revision keeps every registration. -/
theorem Registered.advanced (hregistered : db.Registered namespaceId) (revision : UInt64) :
    (db.advanced revision).Registered namespaceId where
  state := rfl
  rows := hregistered.rows
  locators := hregistered.locators
  version := by
    rw [Db.advanced, openTable_some, Table.get_insert_of_ne _ _ (by decide)]
    exact hregistered.version
  stored := by
    rw [Db.advanced, openTable_some, Table.get_insert_of_ne _ _ (by decide)]
    exact hregistered.stored
  revision := by
    have hround : Octets.ofBytes? 8 (le64 revision) = some ⟨le64 revision, le64_length revision⟩ :=
      Octets.ofBytes?_eq_some.mpr rfl
    exact ⟨revision, by simp [writeWantedRevision, storedRevision, Db.advanced, hround]⟩
  record := hregistered.record
  inverse := hregistered.inverse
  preparation := hregistered.preparation

/-- Writing a preparation of an existing row keeps every registration. -/
theorem Registered.withPreparation (hregistered : db.Registered namespaceId) {id : SourceId}
    {row : CurrentPreparation} (hexists : (openTable db.sourceRows)[id.bytes]?.isSome = true)
    (hvalid : row.validate = .ok ()) (hid : row.sourceId = id)
    (hnamespace : row.sourceNamespaceId = namespaceId) :
    (db.withPreparation id row).Registered namespaceId where
  state := hregistered.state
  rows := hregistered.rows
  locators := hregistered.locators
  version := hregistered.version
  stored := hregistered.stored
  revision := hregistered.revision
  record := hregistered.record
  inverse := hregistered.inverse
  preparation := by
    intro key bytes hbytes
    rw [Db.withPreparation, openTable_some, Table.get_insert] at hbytes
    split at hbytes
    · rename_i hkey
      obtain rfl := Option.some.inj hbytes
      subst hkey
      exact ⟨hexists, row, hvalid, rfl, by rw [hid], hnamespace⟩
    · exact hregistered.preparation hbytes

/-! ## Writing and erasing a registration -/

theorem recordAt_insert {rows : Table} {record : CurrentSourceRecord} (key : Bytes)
    (hrecordable : Recordable record)
    (hbounded : record.objectRef.byteLength ≤ maxSourceObjectBytes) (other : Bytes) :
    recordAt (rows.insert key (recordBytes record)) other =
      if key = other then some record else recordAt rows other := by
  rw [recordAt, Table.get_insert]
  split
  · rw [Option.bind_some, toOption_eq_some]
    exact decodeRecord_recordBytes hrecordable hbounded
  · rfl

theorem recordAt_erase (rows : Table) (key other : Bytes) :
    recordAt (rows.erase key) other = if key = other then none else recordAt rows other := by
  rw [recordAt, Table.get_erase]
  split
  · rfl
  · rfl

/-- What a source row to write must satisfy: it replaces the row of its own
identity and locator, or both are free. -/
structure Fits (db : Db) (record : CurrentSourceRecord) : Prop where
  recordable : Recordable record
  bounded : record.objectRef.byteLength ≤ maxSourceObjectBytes
  keeps : ∀ {old}, recordAt (openTable db.sourceRows) record.sourceId.bytes = some old →
    old.locator = record.locator
  free : ∀ {other}, (openTable db.sourceLocators)[record.locator]? = some other →
    other = record.sourceId.bytes

/-- The source state of a commit: the stored one with the namespace of the
capture, or a new one. -/
theorem installNamespace_stored {capture : SourceCapture} (hnames : NamespaceHeld db capture)
    (hnamespace : ∀ expected ∈ capture.expectedNamespace, expected = capture.sourceNamespaceId) :
    (installNamespace (openTable db.sourceState) capture)[schemaVersionKey]? =
        some sourceSchemaVersion ∧
      (installNamespace (openTable db.sourceState) capture)[namespaceKey]? =
        some capture.sourceNamespaceId.bytes := by
  unfold NamespaceHeld at hnames
  cases hexpected : capture.expectedNamespace with
  | none =>
      rw [installNamespace, hexpected]
      constructor
      · exact (Table.get_insert_of_ne _ _ (by decide)).trans (Table.get_insert_self _ _ _)
      · exact Table.get_insert_self _ _ _
  | some expected =>
      have hsame := hnamespace expected hexpected
      rw [hexpected] at hnames
      rw [installNamespace, hexpected]
      exact hsame ▸ hnames

theorem Registered.withSource (hregistered : db.Registered namespaceId) {capture : SourceCapture}
    {record : CurrentSourceRecord} (hnames : NamespaceHeld db capture)
    (hnamespace : ∀ expected ∈ capture.expectedNamespace, expected = capture.sourceNamespaceId)
    (hcaptured : record.sourceNamespaceId = capture.sourceNamespaceId) (hfits : db.Fits record) :
    (db.withSource capture record).Registered namespaceId := by
  obtain ⟨hversion, hstored⟩ := installNamespace_stored hnames hnamespace
  have hsame : capture.sourceNamespaceId = namespaceId := by
    cases hexpected : capture.expectedNamespace with
    | none =>
        rw [NamespaceHeld, hexpected] at hnames
        rw [hregistered.version] at hnames
        cases hnames.1
    | some expected =>
        rw [NamespaceHeld, hexpected] at hnames
        have hheld := hnames.2
        rw [hregistered.stored] at hheld
        rw [← hnamespace expected hexpected]
        exact (Octets.ext (Option.some.inj hheld)).symm
  have hkeep : ∀ {key bytes : Bytes}, (openTable db.sourceRows)[key]? = some bytes →
      ((openTable db.sourceRows).insert record.sourceId.bytes
        (recordBytes record))[key]?.isSome = true := by
    intro key bytes hbytes
    rw [Table.get_insert]
    split
    · rfl
    · rw [hbytes]
      rfl
  refine {
    state := rfl
    rows := rfl
    locators := rfl
    version := hversion
    stored := hsame ▸ hstored
    revision := ?_
    record := ?_
    inverse := ?_
    preparation := ?_ }
  · obtain ⟨revision, hrevision⟩ := hregistered.revision
    exact ⟨revision, (installNamespace_revision _ capture).trans hrevision⟩
  · intro key bytes hbytes
    rw [Db.withSource, openTable_some, Table.get_insert] at hbytes
    split at hbytes
    · rename_i hkey
      exact ⟨record, hfits.recordable, hfits.bounded, (Option.some.inj hbytes).symm, hkey.symm,
        hcaptured.trans hsame⟩
    · exact hregistered.record hbytes
  · exact hregistered.inverse.insert hfits.keeps hfits.free
      (recordAt_insert _ hfits.recordable hfits.bounded) fun name => Table.get_insert _ _ _ _
  · intro key bytes hbytes
    obtain ⟨hexists, hrow⟩ := hregistered.preparation hbytes
    obtain ⟨stored, hrowBytes⟩ := Option.isSome_iff_exists.mp hexists
    exact ⟨hkeep hrowBytes, hrow⟩

/-- The first registration of a root creates its source tables. -/
theorem Unregistered.withSource (hnone : db.Unregistered) {capture : SourceCapture}
    {record : CurrentSourceRecord} (hnames : NamespaceHeld db capture)
    (hnamespace : ∀ expected ∈ capture.expectedNamespace, expected = capture.sourceNamespaceId)
    (hcaptured : record.sourceNamespaceId = capture.sourceNamespaceId) (hfits : db.Fits record) :
    (db.withSource capture record).Registered capture.sourceNamespaceId := by
  obtain ⟨hversion, hstored⟩ := installNamespace_stored hnames hnamespace
  refine {
    state := rfl
    rows := rfl
    locators := rfl
    version := hversion
    stored := hstored
    revision := ?_
    record := ?_
    inverse := ?_
    preparation := ?_ }
  · refine ⟨0, (installNamespace_revision _ capture).trans ?_⟩
    simp [storedRevision, hnone.state]
  · intro key bytes hbytes
    rw [Db.withSource, openTable_some, hnone.rows, openTable_none, Table.get_insert] at hbytes
    split at hbytes
    · rename_i hkey
      exact ⟨record, hfits.recordable, hfits.bounded, (Option.some.inj hbytes).symm, hkey.symm,
        hcaptured⟩
    · simp at hbytes
  · have hempty : Inverse CurrentSourceRecord.locator (recordAt (openTable db.sourceRows))
        fun locator => (openTable db.sourceLocators)[locator]? := by
      rw [hnone.rows, hnone.locators]
      constructor
      · intro key value hvalue
        simp [recordAt] at hvalue
      · intro name key hkey
        simp at hkey
    exact hempty.insert hfits.keeps hfits.free
      (recordAt_insert _ hfits.recordable hfits.bounded) fun name => Table.get_insert _ _ _ _
  · intro key bytes hbytes
    simp [Db.withSource, hnone.preparations] at hbytes

theorem openTable_map_erase (table : Option Table) (key : Bytes) :
    openTable (table.map fun found => found.erase key) = (openTable table).erase key := by
  cases table with
  | none => exact (Std.ExtTreeMap.ext_getElem? (by simp)).symm
  | some found => rfl

theorem Registered.withoutSource (hregistered : db.Registered namespaceId)
    {source : CurrentSourceRecord}
    (hsource : recordAt (openTable db.sourceRows) source.sourceId.bytes = some source) :
    (db.withoutSource source).Registered namespaceId where
  state := hregistered.state
  rows := rfl
  locators := rfl
  version := hregistered.version
  stored := hregistered.stored
  revision := hregistered.revision
  record := by
    intro key bytes hbytes
    rw [Db.withoutSource, openTable_some, Table.get_erase] at hbytes
    split at hbytes
    · cases hbytes
    · exact hregistered.record hbytes
  inverse := hregistered.inverse.erase hsource (recordAt_erase _ _)
    fun name => Table.get_erase _ _ _
  preparation := by
    intro key bytes hbytes
    simp only [Db.withoutSource, openTable_map_erase, Table.get_erase] at hbytes
    split at hbytes
    · cases hbytes
    · rename_i hkey
      simp only [Db.withoutSource, openTable_some, Table.get_erase, if_neg hkey]
      exact hregistered.preparation hbytes

/-- Erasing one registration leaves the rows of other identities. -/
theorem recordAt_withoutSource (db : Db) {source other : CurrentSourceRecord}
    (hne : source.sourceId ≠ other.sourceId) :
    recordAt (openTable (db.withoutSource source).sourceRows) other.sourceId.bytes =
      recordAt (openTable db.sourceRows) other.sourceId.bytes := by
  rw [Db.withoutSource, openTable_some, recordAt_erase, if_neg]
  intro heq
  exact hne (Octets.ext heq)

theorem Registered.withoutSources {expected : List CurrentSourceRecord}
    (hregistered : db.Registered namespaceId) (hheld : SourcesHeld db expected) :
    (expected.foldl Db.withoutSource db).Registered namespaceId := by
  induction expected generalizing db with
  | nil => exact hregistered
  | cons source expected ih =>
      obtain ⟨hfresh, hids⟩ := List.nodup_cons.mp hheld.ids
      have hsource := hheld.record source List.mem_cons_self
      apply ih (hregistered.withoutSource hsource)
      refine ⟨?_, hids⟩
      intro other hmem
      have hne : source.sourceId ≠ other.sourceId := by
        intro heq
        exact hfresh (List.mem_map.mpr ⟨other, hmem, heq.symm⟩)
      rw [recordAt_withoutSource db hne]
      exact hheld.record other (List.mem_cons_of_mem _ hmem)

end Db

end EliotSearch.Control
