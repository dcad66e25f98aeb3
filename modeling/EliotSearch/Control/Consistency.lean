import EliotSearch.Control.Registry

/-!
# Consistency of the registry

Every change of the registry keeps a sound root sound, so along every run of
captures, commits, removals, admissions, settings selections and outcome
commits, failing ones included, the readers find neither a corrupt row nor a
foreign catalogue.
-/

namespace EliotSearch.Control

open EliotSearch.Library
open EliotSearch.Library.Results

/-- A retained object that a row may hold is within the bound of the decoder. -/
theorem SourceWrite.bounded {db after : Db} {capture : SourceCapture} {fileKey : NativeFileKey}
    {object : RetainedObject} {record : CurrentSourceRecord}
    (hwrite : SourceWrite db after capture fileKey object.reference record) :
    record.objectRef.byteLength ≤ maxSourceObjectBytes := by
  have hrecord := hwrite.record_eq
  obtain ⟨maximumBytes, -, -, -, hkind | hbytes⟩ := object.named
  · have hsource := hwrite.recordable.2.2.1
    rw [hrecord] at hsource
    exact absurd hsource hkind
  · rw [hrecord]
    exact hbytes

namespace Db

variable {db next : Db}

/-! ## The writes of a sound root -/

theorem Fits.of_held {capture : SourceCapture} {record : CurrentSourceRecord}
    (hheld : RegistrationHeld db capture record.rowRevision record.registrationRevision)
    (hid : record.sourceId = capture.sourceId) (hlocator : record.locator = capture.locator)
    (hrecordable : Recordable record)
    (hbounded : record.objectRef.byteLength ≤ maxSourceObjectBytes) : db.Fits record := by
  refine ⟨hrecordable, hbounded, ?_, ?_⟩
  · intro old hold
    rw [hid] at hold
    rcases hheld.split with ⟨_, _, _, _, _, hnone⟩ | ⟨current, _, _, _, _, _, hcurrent, _, hname⟩
    · rw [hnone] at hold
      cases hold
    · rw [hcurrent] at hold
      obtain rfl := Option.some.inj hold
      rw [hname, hlocator]
  · intro other hother
    rw [hlocator] at hother
    rcases hheld.split with ⟨_, _, _, _, hfree, _⟩ | ⟨_, _, _, _, _, howner, _, _, _⟩
    · rw [hfree] at hother
      cases hother
    · rw [howner] at hother
      rw [hid]
      exact (Option.some.inj hother).symm

theorem Sound.wroteSource (hsound : db.Sound) {capture : SourceCapture} {fileKey : NativeFileKey}
    {object : RetainedObject} {record : CurrentSourceRecord}
    (hwrite : SourceWrite db next capture fileKey object.reference record)
    (hnamed : capture.Named) : next.Sound := by
  obtain ⟨revision, rfl⟩ := hwrite.tables
  have hrecord := hwrite.record_eq
  have hfits := Fits.of_held hwrite.held (by rw [hrecord]; rfl) (by rw [hrecord]; rfl)
    hwrite.recordable hwrite.bounded
  have hcaptured : record.sourceNamespaceId = capture.sourceNamespaceId := by
    rw [hrecord]
    rfl
  refine ⟨hsound.single, hsound.publication.keeps ⟨rfl, rfl, rfl, rfl, rfl⟩, Or.inr ?_⟩
  rcases hsound.sources with hnone | ⟨namespaceId, hregistered⟩
  · exact ⟨_, (hnone.withSource hwrite.names hnamed hcaptured hfits).advanced revision⟩
  · exact ⟨_, (hregistered.withSource hwrite.names hnamed hcaptured hfits).advanced revision⟩

theorem withoutSources_frame (db : Db) (expected : List CurrentSourceRecord) :
    KeepsPublication db (expected.foldl Db.withoutSource db) ∧
      (expected.foldl Db.withoutSource db).hasMultimap = db.hasMultimap := by
  induction expected generalizing db with
  | nil => exact ⟨KeepsPublication.refl db, rfl⟩
  | cons source expected ih =>
      obtain ⟨hkeeps, hsingle⟩ := ih (db.withoutSource source)
      constructor
      · exact ⟨hkeeps.header, hkeeps.sources, hkeeps.pages, hkeeps.evidence, hkeeps.retired⟩
      · exact hsingle

theorem Unregistered.recordAt (hnone : db.Unregistered) (key : Bytes) :
    recordAt (openTable db.sourceRows) key = none := by
  simp [Control.recordAt, hnone.rows]

theorem Sound.erasedSources (hsound : db.Sound) {expected : List CurrentSourceRecord}
    (herased : SourcesErased db next expected) : next.Sound := by
  obtain ⟨revision, rfl⟩ := herased.tables
  obtain ⟨hkeeps, hsingle⟩ := withoutSources_frame db expected
  have hpublication : ((expected.foldl Db.withoutSource db).advanced revision).PublicationWhole :=
    hsound.publication.keeps
      ⟨hkeeps.header, hkeeps.sources, hkeeps.pages, hkeeps.evidence, hkeeps.retired⟩
  refine ⟨hsingle.trans hsound.single, hpublication, Or.inr ?_⟩
  rcases hsound.sources with hnone | ⟨namespaceId, hregistered⟩
  · obtain ⟨source, hmem⟩ := List.exists_mem_of_ne_nil expected herased.nonempty
    have hrecord := herased.held.record source hmem
    rw [hnone.recordAt] at hrecord
    cases hrecord
  · exact ⟨namespaceId, (hregistered.withoutSources herased.held).advanced revision⟩

theorem selectionKey_ne {locator key : Bytes} (hhead : key.head? ≠ some 97) :
    selectionKey locator ≠ key := by
  rintro rfl
  exact hhead (by simp [selectionKey, selectionPrefix, Json.ascii])

theorem Registered.admitted {namespaceId : SourceNamespaceId}
    (hregistered : db.Registered namespaceId) (locator value : Bytes) :
    (db.withSelection (selectionKey locator) value).Registered namespaceId :=
  hregistered.withSelection value (selectionKey_ne (by decide)) (selectionKey_ne (by decide))
    (selectionKey_ne_wantedRevisionKey locator)

/-- The tables that the first admission creates are registered, without rows. -/
theorem Unregistered.withSchema (hnone : db.Unregistered) (namespaceId : SourceNamespaceId) :
    (db.withSchema namespaceId).Registered namespaceId where
  state := rfl
  rows := rfl
  locators := rfl
  version := by
    rw [Db.withSchema, openTable_some, Table.get_insert_of_ne _ _ (by decide)]
    exact Table.get_insert_self _ _ _
  stored := Table.get_insert_self _ _ _
  revision := by
    have hnamespace : namespaceKey ≠ wantedRevisionKey := by decide
    have hschema : schemaVersionKey ≠ wantedRevisionKey := by decide
    refine ⟨0, ?_⟩
    rw [writeWantedRevision, Db.withSchema, openTable_some, storedRevision_insert hnamespace,
      storedRevision_insert hschema, hnone.state, openTable_none]
    simp [storedRevision]
  record := by
    intro key bytes hbytes
    simp [Db.withSchema, hnone.rows] at hbytes
  inverse := by
    rw [Db.withSchema, hnone.rows, hnone.locators]
    constructor
    · intro key value hvalue
      simp [Control.recordAt] at hvalue
    · intro name key hkey
      simp at hkey
  preparation := by
    intro key bytes hbytes
    simp [Db.withSchema, hnone.preparations] at hbytes

theorem Registered.opened {namespaceId : SourceNamespaceId}
    (hregistered : db.Registered namespaceId) :
    { db with sourceState := some (openTable db.sourceState) } = db := by
  obtain ⟨state, hstate, htable⟩ := hregistered.exists_state
  rw [htable, ← hstate]

theorem Sound.ensured (hsound : db.Sound) {randomId : Octets 16} {middle : Db}
    (hensured : SchemaEnsured db randomId middle) :
    (∃ namespaceId, middle.Registered namespaceId) ∧ KeepsPublication db middle ∧
      middle.hasMultimap = db.hasMultimap := by
  cases hensured with
  | existing hnames =>
      obtain ⟨namespaceId, hregistered⟩ := hsound.registered hnames
      rw [hregistered.opened]
      exact ⟨⟨namespaceId, hregistered⟩, KeepsPublication.refl db, rfl⟩
  | created hnames =>
      have hnone := hsound.unregistered hnames
      exact ⟨⟨randomId, hnone.withSchema randomId⟩, ⟨rfl, rfl, rfl, rfl, rfl⟩, rfl⟩

theorem Sound.admitted (hsound : db.Sound) {env : Env} {selection : AdmittedSelection}
    {randomId : Octets 16} (hadmitted : SelectionAdmitted env db next selection randomId) :
    next.Sound := by
  obtain ⟨middle, hensured, -, rfl⟩ := hadmitted.tables
  obtain ⟨⟨namespaceId, hregistered⟩, hkeeps, hsingle⟩ := hsound.ensured hensured
  refine ⟨hsingle.trans hsound.single, hsound.publication.keeps ?_, Or.inr ⟨namespaceId, ?_⟩⟩
  · exact ⟨hkeeps.header, hkeeps.sources, hkeeps.pages, hkeeps.evidence, hkeeps.retired⟩
  · exact hregistered.admitted selection.path _

/-- A source that a preparation write reads is a row of the one namespace. -/
theorem Sound.sourceRead (hsound : db.Sound) {id : SourceId} {source : CurrentSourceRecord}
    (hread : SourceRead db id source) :
    db.Registered source.sourceNamespaceId ∧
      (openTable db.sourceRows)[id.bytes]?.isSome = true := by
  rcases hsound.sources with hnone | ⟨namespaceId, hregistered⟩
  · have hrecord := hread.record
    rw [hnone.recordAt] at hrecord
    cases hrecord
  · obtain ⟨bytes, hbytes, hstored⟩ := hregistered.recordAt_stored hread.record
    rw [hstored.namespace_eq, hbytes]
    exact ⟨hregistered, rfl⟩

theorem Sound.withPreparation (hsound : db.Sound) {id : SourceId} {source : CurrentSourceRecord}
    {row : CurrentPreparation} (hread : SourceRead db id source) (hvalid : row.validate = .ok ())
    (hid : row.sourceId = id) (hnamespace : row.sourceNamespaceId = source.sourceNamespaceId)
    (revision : UInt64) : ((db.withPreparation id row).advanced revision).Sound := by
  obtain ⟨hregistered, hexists⟩ := hsound.sourceRead hread
  refine ⟨hsound.single, hsound.publication.keeps ⟨rfl, rfl, rfl, rfl, rfl⟩, Or.inr ?_⟩
  exact ⟨_, (hregistered.withPreparation hexists hvalid hid hnamespace).advanced revision⟩

theorem Sound.wroteSettings (hsound : db.Sound) {id : SourceId} {settings : PreparationSettings}
    {source : CurrentSourceRecord} {previous : Option CurrentPreparation}
    {row : CurrentPreparation} (hwrite : SettingsWrite db next id settings source previous row) :
    next.Sound := by
  cases hwrite with
  | first hread hnamespace _ hvalid hnext =>
      rw [hnext]
      exact hsound.withPreparation hread hvalid rfl hnamespace.symm _
  | change hread hrow _ hvalid hnext =>
      obtain ⟨hregistered, -⟩ := hsound.sourceRead hread
      obtain ⟨_, _, hbound⟩ := hregistered.preparationAt_bound hrow
      rw [hnext]
      exact hsound.withPreparation hread hvalid (Octets.ext hbound.key_eq.symm)
        hbound.namespace_eq _

theorem Sound.wroteOutcome (hsound : db.Sound) {capture : PreparationCapture}
    {result : PreparationOutcome} {old row : CurrentPreparation}
    (hwrite : OutcomeWrite db next capture result old row) : next.Sound := by
  obtain ⟨revision, rfl⟩ := hwrite.tables
  have hrow := hwrite.row_eq
  have hid : row.sourceId = capture.source.sourceId := by
    rw [hrow]
    exact hwrite.held.id_eq
  have hnamespace : row.sourceNamespaceId = capture.source.sourceNamespaceId := by
    rw [hrow]
    exact hwrite.held.namespace_eq
  exact hsound.withPreparation hwrite.held.source hwrite.valid hid hnamespace revision

end Db

/-! ## Runs -/

namespace Registry

/-- A sound root whose captures name their own namespace. -/
structure Consistent (registry : Registry) : Prop where
  sound : registry.db.Sound
  named : ∀ capture, some capture ∈ registry.sources → capture.Named

theorem init_consistent : (init Db.empty).Consistent where
  sound := Db.empty_sound
  named := by simp [init]

theorem mem_set_none {sources : List (Option SourceCapture)} {slot : Nat}
    {capture : SourceCapture} (hmem : some capture ∈ sources.set slot none) :
    some capture ∈ sources := by
  rcases List.mem_or_eq_of_mem_set hmem with hmem | heq
  · exact hmem
  · cases heq

theorem Consistent.step {registry : Registry} (hconsistent : registry.Consistent)
    (action : Action) : (registry.step action).Consistent := by
  obtain ⟨hsound, hnamed⟩ := hconsistent
  cases step_change registry action with
  | idle hdb hsources _ _ => exact ⟨hdb ▸ hsound, hsources ▸ hnamed⟩
  | captured hcommand hcapture hdb hsources _ _ =>
      refine ⟨hdb ▸ hsound, ?_⟩
      intro other hmem
      rw [hsources] at hmem
      rcases List.mem_append.mp hmem with hmem | hmem
      · exact hnamed other hmem
      · obtain rfl := Option.some.inj (List.mem_singleton.mp hmem)
        rcases captureCurrentSource_cases _ _ _ hsound with
          ⟨found, hfound, hobserved⟩ | ⟨_, herror, -⟩
        · rw [hcapture] at hfound
          obtain rfl := Except.ok.inj hfound
          exact hobserved.named
        · rw [hcapture] at herror
          cases herror
  | spent _ hdb hsources _ _ =>
      refine ⟨hdb ▸ hsound, ?_⟩
      intro other hmem
      exact hnamed other (mem_set_none (hsources ▸ hmem))
  | wroteSource _ hslot hwrite hsources _ _ =>
      refine ⟨hsound.wroteSource hwrite (hnamed _ (List.mem_of_getElem? hslot)), ?_⟩
      intro other hmem
      exact hnamed other (mem_set_none (hsources ▸ hmem))
  | erasedSources herased hsources _ _ =>
      exact ⟨hsound.erasedSources herased, hsources ▸ hnamed⟩
  | admitted hadmitted hsources _ _ => exact ⟨hsound.admitted hadmitted, hsources ▸ hnamed⟩
  | wroteSettings _ _ hwrite hsources _ _ =>
      exact ⟨hsound.wroteSettings hwrite, hsources ▸ hnamed⟩
  | wroteOutcome _ _ hwrite hsources _ _ => exact ⟨hsound.wroteOutcome hwrite, hsources ▸ hnamed⟩

theorem consistent_run (actions : List Action) : (run actions).Consistent :=
  Runs.run_invariant init_consistent (fun _ action hconsistent => hconsistent.step action) actions

end Registry

/-! ## What a sound root holds -/

namespace Db

variable {db : Db}

theorem Sound.inverse (hsound : db.Sound) :
    Inverse CurrentSourceRecord.locator (recordAt (openTable db.sourceRows))
      fun locator => (openTable db.sourceLocators)[locator]? := by
  rcases hsound.sources with hnone | ⟨_, hregistered⟩
  · rw [hnone.rows, hnone.locators]
    constructor
    · intro key value hvalue
      simp [Control.recordAt] at hvalue
    · intro name key hkey
      simp at hkey
  · exact hregistered.inverse

theorem Sound.row (hsound : db.Sound) {key bytes : Bytes}
    (hbytes : (openTable db.sourceRows)[key]? = some bytes) :
    ∃ record, decodeRecord bytes = .ok record ∧ key = record.sourceId.bytes ∧
      (openTable db.sourceState)[namespaceKey]? = some record.sourceNamespaceId.bytes := by
  rcases hsound.sources with hnone | ⟨namespaceId, hregistered⟩
  · simp [hnone.rows] at hbytes
  · obtain ⟨record, hstored⟩ := hregistered.record hbytes
    refine ⟨record, hstored.decode, hstored.key_eq, ?_⟩
    rw [hstored.namespace_eq]
    exact hregistered.stored

theorem Sound.preparationRow (hsound : db.Sound) {key bytes : Bytes}
    (hbytes : (openTable db.preparations)[key]? = some bytes) :
    ∃ row record, CurrentPreparation.decode bytes = .ok row ∧
      Control.recordAt (openTable db.sourceRows) key = some record ∧
      row.sourceId = record.sourceId ∧ row.sourceNamespaceId = record.sourceNamespaceId := by
  rcases hsound.sources with hnone | ⟨namespaceId, hregistered⟩
  · simp [hnone.preparations] at hbytes
  · obtain ⟨hexists, row, hbound⟩ := hregistered.preparation hbytes
    obtain ⟨stored, hrow⟩ := Option.isSome_iff_exists.mp hexists
    obtain ⟨record, hrecord, hstored⟩ := hregistered.exists_record hrow
    refine ⟨row, record, hbound.decode, hrecord, ?_, ?_⟩
    · exact Octets.ext (hbound.key_eq.symm.trans hstored.key_eq)
    · rw [hbound.namespace_eq, hstored.namespace_eq]

end Db

theorem not_interrupted_source {env : Env} {error : SourceControlError}
    (hinterrupted : Interrupted env sourceFault error) :
    error ≠ .corrupt ∧ error ≠ .unsupportedSchema := by
  obtain ⟨_, interruption, _, rfl⟩ := hinterrupted
  cases interruption <;> exact ⟨by simp [sourceFault], by simp [sourceFault]⟩

theorem not_interrupted_publication {env : Env} {error : PublicationError}
    (hinterrupted : Interrupted env publicationFault error) :
    error ≠ .corrupt ∧ error ≠ .unsupportedSchema := by
  obtain ⟨_, interruption, _, rfl⟩ := hinterrupted
  cases interruption <;> exact ⟨by simp [publicationFault], by simp [publicationFault]⟩

end EliotSearch.Control
