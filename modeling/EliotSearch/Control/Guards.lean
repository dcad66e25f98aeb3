import EliotSearch.Control.Inventory
import EliotSearch.Control.Outcomes

/-!
# What a control transaction found

A transaction over sources, selections and preparations that computes new
tables passed all of its guards.  For each of them one inversion says which
rows it found and which tables it leaves; nothing below this point unfolds a
transaction again.
-/

namespace EliotSearch.Control

open EliotSearch.Library
open EliotSearch.Library.Results
open EliotSearch.Library.Words

/-- The row stored under a key, where it can be read. -/
def recordAt (rows : Table) (key : Bytes) : Option CurrentSourceRecord :=
  rows[key]?.bind fun bytes => (decodeRecord bytes).toOption

theorem recordAt_eq_some {rows : Table} {key : Bytes} {record : CurrentSourceRecord} :
    recordAt rows key = some record ↔
      ∃ bytes, rows[key]? = some bytes ∧ decodeRecord bytes = .ok record := by
  rw [recordAt, Option.bind_eq_some_iff]
  simp only [toOption_eq_some]

/-- The preparation stored under a key, where it can be read. -/
def preparationAt (preparations : Table) (key : Bytes) : Option CurrentPreparation :=
  preparations[key]?.bind fun bytes => (CurrentPreparation.decode bytes).toOption

theorem preparationAt_eq_some {preparations : Table} {key : Bytes} {row : CurrentPreparation} :
    preparationAt preparations key = some row ↔
      ∃ bytes, preparations[key]? = some bytes ∧ CurrentPreparation.decode bytes = .ok row := by
  rw [preparationAt, Option.bind_eq_some_iff]
  simp only [toOption_eq_some]

/-- The tables after the wanted revision has been advanced to the given one. -/
def Db.advanced (db : Db) (revision : UInt64) : Db :=
  { db with
    sourceState := some ((openTable db.sourceState).insert wantedRevisionKey (le64 revision)) }

theorem advanceWantedRevision_advanced {db next : Db}
    (hadvance : advanceWantedRevision db = .ok next) :
    ∃ revision, next = db.advanced revision := by
  obtain ⟨_, revision, _, _, _, hnext⟩ := advanceWantedRevision_eq_ok hadvance
  exact ⟨revision, hnext⟩

/-! ## Source commits -/

/-- The namespace a capture expects is the stored one, or neither exists. -/
def NamespaceHeld (db : Db) (capture : SourceCapture) : Prop :=
  let state := openTable db.sourceState
  match capture.expectedNamespace with
  | none => state[schemaVersionKey]? = none ∧ state[namespaceKey]? = none
  | some expected =>
      state[schemaVersionKey]? = some sourceSchemaVersion ∧
        state[namespaceKey]? = some expected.bytes

/-- The registration a capture expects is the stored one, with the revisions to
write next. -/
inductive RegistrationHeld (db : Db) (capture : SourceCapture) : UInt64 → UInt64 → Prop where
  | absent
      (hrow : capture.expectedRowRevision = none)
      (hregistration : capture.expectedRegistrationRevision = none)
      (hlocator : (openTable db.sourceLocators)[capture.locator]? = none)
      (hid : (openTable db.sourceRows)[capture.sourceId.bytes]? = none) :
      RegistrationHeld db capture 1 1
  | present {current : CurrentSourceRecord} {next : UInt64}
      (hrow : capture.expectedRowRevision = some current.rowRevision)
      (hregistration : capture.expectedRegistrationRevision = some current.registrationRevision)
      (hlocator : (openTable db.sourceLocators)[capture.locator]? = some capture.sourceId.bytes)
      (hcurrent : recordAt (openTable db.sourceRows) capture.sourceId.bytes = some current)
      (hnamespace : current.sourceNamespaceId = capture.sourceNamespaceId)
      (hid : current.sourceId = capture.sourceId)
      (hname : current.locator = capture.locator)
      (hnext : checkedAdd current.rowRevision 1 = some next) :
      RegistrationHeld db capture next current.registrationRevision

/-- Either both revisions start at one and nothing is stored under the locator
or the identity, or the captured row is stored and its revision advances. -/
theorem RegistrationHeld.split {db : Db} {capture : SourceCapture} {row registration : UInt64}
    (hheld : RegistrationHeld db capture row registration) :
    (row = 1 ∧ registration = 1 ∧ capture.expectedRowRevision = none ∧
      capture.expectedRegistrationRevision = none ∧
      (openTable db.sourceLocators)[capture.locator]? = none ∧
      recordAt (openTable db.sourceRows) capture.sourceId.bytes = none) ∨
    ∃ current : CurrentSourceRecord, row.toNat = current.rowRevision.toNat + 1 ∧
      registration = current.registrationRevision ∧
      capture.expectedRowRevision = some current.rowRevision ∧
      capture.expectedRegistrationRevision = some current.registrationRevision ∧
      (openTable db.sourceLocators)[capture.locator]? = some capture.sourceId.bytes ∧
      recordAt (openTable db.sourceRows) capture.sourceId.bytes = some current ∧
      current.sourceId = capture.sourceId ∧ current.locator = capture.locator := by
  cases hheld with
  | absent hrow hregistration hlocator hid =>
      exact Or.inl ⟨rfl, rfl, hrow, hregistration, hlocator, by simp [recordAt, hid]⟩
  | present hrow hregistration hlocator hcurrent _ hid hname hnext =>
      exact Or.inr ⟨_, checkedAdd_eq_some.mp hnext, rfl, hrow, hregistration, hlocator, hcurrent,
        hid, hname⟩

section Registration

variable {db : Db} {capture : SourceCapture} {row registration : UInt64}

theorem registrationHeld_absent (hrow : capture.expectedRowRevision = none)
    (hregistration : capture.expectedRegistrationRevision = none)
    (hlocator : (openTable db.sourceLocators)[capture.locator]? = none)
    (hguard : (do
      refuse ((openTable db.sourceRows)[capture.sourceId.bytes]?.isSome = true) .stale
      .ok ((1, 1) : UInt64 × UInt64) : Except SourceControlError (UInt64 × UInt64)) =
        .ok (row, registration)) : RegistrationHeld db capture row registration := by
  simp only [bind_eq_ok, refuse_eq_ok, Except.ok.injEq, Prod.mk.injEq] at hguard
  obtain ⟨_, hid, rfl, rfl⟩ := hguard
  exact .absent hrow hregistration hlocator (by simpa using hid)

theorem registrationHeld_present {expectedRow expectedRegistration : UInt64} {sourceId : Bytes}
    (hrow : capture.expectedRowRevision = some expectedRow)
    (hregistration : capture.expectedRegistrationRevision = some expectedRegistration)
    (hlocator : (openTable db.sourceLocators)[capture.locator]? = some sourceId)
    (hguard : (do
      refuse (sourceId ≠ capture.sourceId.bytes) .stale
      let stored ← okOr (openTable db.sourceRows)[capture.sourceId.bytes]? .stale
      let current ← decodeRecord stored
      refuse (current.sourceNamespaceId ≠ capture.sourceNamespaceId ∨
        current.sourceId ≠ capture.sourceId ∨ current.rowRevision ≠ expectedRow ∨
        current.registrationRevision ≠ expectedRegistration ∨
        current.locator ≠ capture.locator) .stale
      let rowRevision ← okOr (checkedAdd expectedRow 1) .revisionExhausted
      .ok (rowRevision, expectedRegistration) :
        Except SourceControlError (UInt64 × UInt64)) = .ok (row, registration)) :
    RegistrationHeld db capture row registration := by
  simp only [bind_eq_ok, refuse_eq_ok, okOr_eq_ok, not_not, not_or, Except.ok.injEq,
    Prod.mk.injEq] at hguard
  obtain ⟨_, rfl, stored, hstored, current, hcurrent, _,
    ⟨hcurrentNamespace, hid, rfl, rfl, hname⟩, next, hnext, rfl, rfl⟩ := hguard
  have hrecord := recordAt_eq_some.mpr ⟨stored, hstored, hcurrent⟩
  exact .present hrow hregistration hlocator hrecord hcurrentNamespace hid hname hnext

end Registration

theorem sourceRevisions_eq_ok {db : Db} {capture : SourceCapture} {row registration : UInt64}
    (hrevisions : sourceRevisions db capture = .ok (row, registration)) :
    NamespaceHeld db capture ∧ RegistrationHeld db capture row registration := by
  simp only [sourceRevisions, pure_eq_ok, throw_eq_error, error_bind] at hrevisions
  -- the registration guard follows both namespace guards that pass
  split at hrevisions
  · rename_i hexpected hversion hstored
    refine ⟨?_, ?_⟩
    · simp only [NamespaceHeld, hexpected]
      exact ⟨hversion, hstored⟩
    · split at hrevisions
      · rename_i hrow hregistrationRevision hlocator
        exact registrationHeld_absent hrow hregistrationRevision hlocator hrevisions
      · rename_i hrow hregistrationRevision hlocator
        exact registrationHeld_present hrow hregistrationRevision hlocator hrevisions
      · cases hrevisions
  · rename_i expected version stored hexpected hversion hstored
    rw [bind_eq_ok] at hrevisions
    obtain ⟨_, hnamespace, hrevisions⟩ := hrevisions
    simp only [refuse_eq_ok, not_not] at hnamespace
    obtain ⟨rfl, rfl⟩ := hnamespace
    refine ⟨?_, ?_⟩
    · simp only [NamespaceHeld, hexpected]
      exact ⟨hversion, hstored⟩
    · split at hrevisions
      · rename_i hrow hregistrationRevision hlocator
        exact registrationHeld_absent hrow hregistrationRevision hlocator hrevisions
      · rename_i hrow hregistrationRevision hlocator
        exact registrationHeld_present hrow hregistrationRevision hlocator hrevisions
      · cases hrevisions
  · cases hrevisions

/-- The row a source commit writes. -/
def SourceCapture.record (capture : SourceCapture) (fileKey : NativeFileKey)
    (objectRef : ObjectRef) (rowRevision registrationRevision : UInt64) : CurrentSourceRecord where
  sourceNamespaceId := capture.sourceNamespaceId
  sourceId := capture.sourceId
  rowRevision := rowRevision
  registrationRevision := registrationRevision
  locator := capture.locator
  fileKey := fileKey
  objectRef := objectRef

/-- The tables with one source row and its locator written. -/
def Db.withSource (db : Db) (capture : SourceCapture) (record : CurrentSourceRecord) : Db :=
  { db with
    sourceState := some (installNamespace (openTable db.sourceState) capture)
    sourceRows := some ((openTable db.sourceRows).insert record.sourceId.bytes (recordBytes record))
    sourceLocators :=
      some ((openTable db.sourceLocators).insert record.locator record.sourceId.bytes) }

/-- Everything a source commit that computes new tables found. -/
structure SourceWrite (db next : Db) (capture : SourceCapture) (fileKey : NativeFileKey)
    (objectRef : ObjectRef) (record : CurrentSourceRecord) : Prop where
  names : NamespaceHeld db capture
  held : RegistrationHeld db capture record.rowRevision record.registrationRevision
  record_eq : record =
    capture.record fileKey objectRef record.rowRevision record.registrationRevision
  recordable : Recordable record
  changed : capture.expectedRowRevision.isSome = true → ∀ {current},
    recordAt (openTable db.sourceRows) capture.sourceId.bytes = some current →
      ¬ (current.objectRef = objectRef ∧ current.fileKey = fileKey)
  tables : ∃ revision, next = (db.withSource capture record).advanced revision

theorem unchangedSource_eq_ok_none {db : Db} {capture : SourceCapture} {fileKey : NativeFileKey}
    {objectRef : ObjectRef} (hnone : unchangedSource db capture fileKey objectRef = .ok none)
    (hexpected : capture.expectedRowRevision.isSome = true) {current : CurrentSourceRecord}
    (hcurrent : recordAt (openTable db.sourceRows) capture.sourceId.bytes = some current) :
    ¬ (current.objectRef = objectRef ∧ current.fileKey = fileKey) := by
  obtain ⟨bytes, hbytes, hdecode⟩ := recordAt_eq_some.mp hcurrent
  rw [unchangedSource, if_pos hexpected, hbytes, okOr_some, ok_bind, hdecode, ok_bind] at hnone
  intro hsame
  rw [if_pos hsame] at hnone
  cases hnone

theorem commitSourceTransaction_wrote {env : Env} {db next : Db} {capture : SourceCapture}
    {fileKey : NativeFileKey} {objectRef : ObjectRef} {record : CurrentSourceRecord}
    (hattempt : commitSourceTransaction env db capture fileKey objectRef =
      .ok (some next, record)) : SourceWrite db next capture fileKey objectRef record := by
  simp only [commitSourceTransaction, bind_eq_ok] at hattempt
  obtain ⟨_, _, _, _, ⟨row, registration⟩, hrevisions, unchanged, hunchanged, hattempt⟩ := hattempt
  cases unchanged with
  | some current => cases hattempt
  | none =>
      simp only [bind_eq_ok, encodeRecord_eq_ok] at hattempt
      obtain ⟨_, ⟨hrecordable, rfl⟩, after, hadvance, _, _, hattempt⟩ := hattempt
      obtain ⟨hnext, rfl⟩ := Prod.mk.inj (Except.ok.inj hattempt)
      obtain rfl := Option.some.inj hnext
      obtain ⟨hnames, hheld⟩ := sourceRevisions_eq_ok hrevisions
      exact ⟨hnames, hheld, rfl, hrecordable,
        fun hexpected _ hcurrent => unchangedSource_eq_ok_none hunchanged hexpected hcurrent,
        advanceWantedRevision_advanced hadvance⟩

/-- A source commit that changes nothing found the observed object and file. -/
theorem commitSourceTransaction_kept {env : Env} {db : Db} {capture : SourceCapture}
    {fileKey : NativeFileKey} {objectRef : ObjectRef} {record : CurrentSourceRecord}
    (hattempt : commitSourceTransaction env db capture fileKey objectRef = .ok (none, record)) :
    NamespaceHeld db capture ∧ (∃ next registration,
      RegistrationHeld db capture next registration) ∧
      recordAt (openTable db.sourceRows) capture.sourceId.bytes = some record ∧
      record.objectRef = objectRef ∧ record.fileKey = fileKey := by
  simp only [commitSourceTransaction, bind_eq_ok] at hattempt
  obtain ⟨_, _, _, _, ⟨row, registration⟩, hrevisions, unchanged, hunchanged, hattempt⟩ := hattempt
  obtain ⟨hnames, hheld⟩ := sourceRevisions_eq_ok hrevisions
  cases unchanged with
  | none =>
      simp only [bind_eq_ok] at hattempt
      obtain ⟨_, _, _, _, _, _, hattempt⟩ := hattempt
      cases hattempt
  | some current =>
      obtain ⟨-, rfl⟩ := Prod.mk.inj (Except.ok.inj hattempt)
      unfold unchangedSource at hunchanged
      split at hunchanged
      · simp only [bind_eq_ok, okOr_eq_ok] at hunchanged
        obtain ⟨bytes, hbytes, found, hfound, hkept⟩ := hunchanged
        split at hkept
        · rename_i hsame
          obtain rfl := Option.some.inj (Except.ok.inj hkept)
          exact ⟨hnames, ⟨_, _, hheld⟩, recordAt_eq_some.mpr ⟨bytes, hbytes, hfound⟩, hsame⟩
        · cases hkept
      · cases hunchanged

/-! ## Source removals -/

/-- The tables with one registration and its preparation erased. -/
def Db.withoutSource (db : Db) (source : CurrentSourceRecord) : Db :=
  { db with
    sourceRows := some ((openTable db.sourceRows).erase source.sourceId.bytes)
    sourceLocators := some ((openTable db.sourceLocators).erase source.locator)
    preparations := db.preparations.map fun table => table.erase source.sourceId.bytes }

theorem removeExpected_eq_ok {env : Env} {site : Nat} {db next : Db}
    {expected : List CurrentSourceRecord} (hremove : removeExpected env site db expected = .ok next) :
    next = expected.foldl Db.withoutSource db := by
  induction expected generalizing site db with
  | nil => exact (Except.ok.inj hremove).symm
  | cons source expected ih =>
      simp only [removeExpected, bind_eq_ok] at hremove
      obtain ⟨_, _, _, _, hremove⟩ := hremove
      exact ih hremove

/-- The rows a removal expects are stored exactly, each under its locator and
under an identity and a locator of its own. -/
structure SourcesHeld (db : Db) (expected : List CurrentSourceRecord) : Prop where
  record : ∀ source ∈ expected,
    recordAt (openTable db.sourceRows) source.sourceId.bytes = some source
  ids : (expected.map fun source => source.sourceId).Nodup

theorem checkExpected_eq_ok {env : Env} {db : Db} {namespaceId : SourceNamespaceId} {site : Nat}
    {seen expected : List CurrentSourceRecord} {result : Unit}
    (hcheck : checkExpected env db namespaceId site seen expected = .ok result) :
    SourcesHeld db expected ∧
      ∀ source ∈ expected, source.sourceId ∉ seen.map fun found => found.sourceId := by
  induction expected generalizing site seen with
  | nil => exact ⟨⟨by simp, by simp⟩, by simp⟩
  | cons source expected ih =>
      simp only [checkExpected, bind_eq_ok, refuse_eq_ok, okOr_eq_ok, not_or, not_not] at hcheck
      obtain ⟨_, _, _, ⟨_, hfresh, _⟩, row, hrow, stored, hstored, _, rfl, _, _, _, _, hrest⟩ :=
        hcheck
      obtain ⟨hheld, hseen⟩ := ih hrest
      refine ⟨⟨?_, ?_⟩, ?_⟩
      · intro other hmem
        rcases List.mem_cons.mp hmem with rfl | hmem
        · exact recordAt_eq_some.mpr ⟨row, hrow, hstored⟩
        · exact hheld.record other hmem
      · rw [List.map_cons, List.nodup_cons]
        refine ⟨?_, hheld.ids⟩
        intro hmem
        obtain ⟨other, hother, heq⟩ := List.mem_map.mp hmem
        exact hseen other hother (by simp [heq])
      · intro other hmem
        rcases List.mem_cons.mp hmem with rfl | hmem
        · exact hfresh
        · intro hold
          exact hseen other hmem (by simp [List.mem_map.mp hold])

/-- Everything a removal that computes new tables found. -/
structure SourcesErased (db next : Db) (expected : List CurrentSourceRecord) : Prop where
  nonempty : expected ≠ []
  held : SourcesHeld db expected
  tables : ∃ revision, next = (expected.foldl Db.withoutSource db).advanced revision

theorem removeSourcesTransaction_erased {env : Env} {db next : Db}
    {expected : List CurrentSourceRecord} {value : Unit}
    (hattempt : removeSourcesTransaction env db expected = .ok (some next, value)) :
    SourcesErased db next expected := by
  unfold removeSourcesTransaction at hattempt
  split at hattempt
  · cases hattempt
  · rename_i hnonempty
    simp only [bind_eq_ok] at hattempt
    obtain ⟨_, _, _, _, _, _, namespaceId, _, _, hcheck, removed, hremove, after, hadvance, _, _,
      hattempt⟩ := hattempt
    obtain ⟨hnext, -⟩ := Prod.mk.inj (Except.ok.inj hattempt)
    obtain rfl := Option.some.inj hnext
    obtain rfl := removeExpected_eq_ok hremove
    exact ⟨hnonempty, (checkExpected_eq_ok hcheck).1, advanceWantedRevision_advanced hadvance⟩

/-! ## Selection admissions -/

/-- The tables after the first admission created the source tables. -/
def Db.withSchema (db : Db) (namespaceId : SourceNamespaceId) : Db :=
  { db with
    sourceState := some (((openTable db.sourceState).insert schemaVersionKey
      sourceSchemaVersion).insert namespaceKey namespaceId.bytes)
    sourceRows := some (openTable db.sourceRows)
    sourceLocators := some (openTable db.sourceLocators) }

/-- The tables with one more source-state record. -/
def Db.withSelection (db : Db) (key value : Bytes) : Db :=
  { db with sourceState := some ((openTable db.sourceState).insert key value) }

/-- The source tables an admission continues with: the existing ones, or those
it creates. -/
inductive SchemaEnsured (db : Db) (randomId : Octets 16) : Db → Prop where
  | existing
      (hnames : catalogueNames db.listTables db.hasMultimap = .ok true) :
      SchemaEnsured db randomId { db with sourceState := some (openTable db.sourceState) }
  | created
      (hnames : catalogueNames db.listTables db.hasMultimap = .ok false) :
      SchemaEnsured db randomId (db.withSchema randomId)

theorem ensureAdmissionSchema_eq_ok {db next : Db} {randomId : Octets 16}
    (hensure : ensureAdmissionSchema db randomId = .ok next) : SchemaEnsured db randomId next := by
  simp only [ensureAdmissionSchema, bind_eq_ok] at hensure
  obtain ⟨existing, hnames, hensure⟩ := hensure
  cases existing with
  | true =>
      simp only [if_true, bind_eq_ok] at hensure
      obtain ⟨_, _, hensure⟩ := hensure
      obtain rfl := Except.ok.inj hensure
      exact .existing hnames
  | false =>
      simp only [Bool.false_eq_true, if_false] at hensure
      obtain rfl := Except.ok.inj hensure
      exact .created hnames

/-- Everything an admission that computes new tables found. -/
structure SelectionAdmitted (env : Env) (db next : Db) (selection : AdmittedSelection)
    (randomId : Octets 16) : Prop where
  absolute : IsAbsolute selection.path
  length : selection.path.length ≤ maxLocatorBytes
  tables : ∃ middle, SchemaEnsured db randomId middle ∧
    chargeSelections env (selectionKey selection.path) 2
      (1, (selectionKey selection.path).length +
        (selectionText ⟨1, selection.path, selection.kind⟩).length)
      (openTable middle.sourceState).toList = .ok () ∧
    next = middle.withSelection (selectionKey selection.path)
      (selectionText ⟨1, selection.path, selection.kind⟩)

theorem admitSelectionTransaction_admitted {env : Env} {db next : Db}
    {selection : AdmittedSelection} {randomId : Octets 16} {value : Unit}
    (hattempt : admitSelectionTransaction env db selection randomId = .ok (some next, value)) :
    SelectionAdmitted env db next selection randomId := by
  simp only [admitSelectionTransaction, bind_eq_ok, sourceLocatorBytes, refuse_eq_ok, not_not,
    not_or, pure_eq_ok, Except.ok.injEq, Nat.not_lt] at hattempt
  obtain ⟨_, _, _, ⟨_, habsolute, _, ⟨_, hlength⟩, rfl⟩, middle, hensure, admitted, _, hattempt⟩ :=
    hattempt
  cases admitted with
  | true => cases hattempt
  | false =>
      simp only [Bool.false_eq_true, if_false, bind_eq_ok] at hattempt
      obtain ⟨_, hcharge, _, _, hattempt⟩ := hattempt
      obtain ⟨hnext, -⟩ := Prod.mk.inj (Except.ok.inj hattempt)
      obtain rfl := Option.some.inj hnext
      exact ⟨habsolute, hlength, middle, ensureAdmissionSchema_eq_ok hensure, hcharge, rfl⟩

/-! ## Preparation writes -/

/-- The tables with one preparation row written. -/
def Db.withPreparation (db : Db) (id : SourceId) (row : CurrentPreparation) : Db :=
  { db with
    preparations := some ((openTable db.preparations).insert id.bytes (preparationBytes row)) }

theorem storePreparation_eq_ok {db next : Db} {row : CurrentPreparation} {id : SourceId}
    (hstore : storePreparation db row id = .ok next) :
    row.validate = .ok () ∧ ∃ revision, next = (db.withPreparation id row).advanced revision := by
  simp only [storePreparation, bind_eq_ok, mapError_eq_ok,
    CurrentPreparation.encode_eq_ok] at hstore
  obtain ⟨_, ⟨hvalid, rfl⟩, hadvance⟩ := hstore
  exact ⟨hvalid, advanceWantedRevision_advanced hadvance⟩

/-- The source row a preparation write reads, in the stored namespace. -/
structure SourceRead (db : Db) (id : SourceId) (source : CurrentSourceRecord) : Prop where
  record : recordAt (openTable db.sourceRows) id.bytes = some source
  id_eq : source.sourceId = id
  version : (openTable db.sourceState)[schemaVersionKey]? = some sourceSchemaVersion
  namespaceId : (openTable db.sourceState)[namespaceKey]? = some source.sourceNamespaceId.bytes

theorem writeSource_eq_ok {db : Db} {id : SourceId} {source : CurrentSourceRecord}
    (hsource : writeSource db id = .ok source) : SourceRead db id source := by
  simp only [writeSource, bind_eq_ok, okOr_eq_ok, refuse_eq_ok, mapError_eq_ok, not_or, not_not,
    pure_eq_ok, Except.ok.injEq] at hsource
  obtain ⟨_, hversion, _, rfl, _, hnamespace, value, hvalue, found, hfound, _, ⟨hid, rfl⟩, rfl⟩ :=
    hsource
  exact ⟨recordAt_eq_some.mpr ⟨value, hvalue, hfound⟩, hid, hversion, hnamespace⟩

theorem storedPreparation_eq_ok {db : Db} {id : SourceId} {found : Option CurrentPreparation}
    (hstored : storedPreparation db id = .ok found) :
    (found = none ∧ (openTable db.preparations)[id.bytes]? = none) ∨
      ∃ row, found = some row ∧ preparationAt (openTable db.preparations) id.bytes = some row := by
  unfold storedPreparation at hstored
  split at hstored
  · rename_i hnone
    exact Or.inl ⟨(Except.ok.inj hstored).symm, hnone⟩
  · rename_i value hvalue
    rw [bind_eq_ok] at hstored
    obtain ⟨row, hrow, hfound⟩ := hstored
    exact Or.inr ⟨row, (Except.ok.inj hfound).symm,
      preparationAt_eq_some.mpr ⟨value, hvalue, hrow⟩⟩

/-- Everything a settings selection that computes new tables found: the stored
row is the one read before, and the row to write replaces it. -/
inductive SettingsWrite (db next : Db) (id : SourceId) (settings : PreparationSettings)
    (source : CurrentSourceRecord) : Option CurrentPreparation → CurrentPreparation → Prop where
  | first {current : CurrentSourceRecord} {revision : UInt64}
      (hsource : SourceRead db id current)
      (hnamespace : current.sourceNamespaceId = source.sourceNamespaceId)
      (hnone : (openTable db.preparations)[id.bytes]? = none)
      (hvalid : CurrentPreparation.validate
        ⟨source.sourceNamespaceId, id, 1, settings, 0, none⟩ = .ok ())
      (hnext : next = (db.withPreparation id
        ⟨source.sourceNamespaceId, id, 1, settings, 0, none⟩).advanced revision) :
      SettingsWrite db next id settings source none
        ⟨source.sourceNamespaceId, id, 1, settings, 0, none⟩
  | change {current : CurrentSourceRecord} {row : CurrentPreparation}
      {settingsRevision revision : UInt64}
      (hsource : SourceRead db id current)
      (hrow : preparationAt (openTable db.preparations) id.bytes = some row)
      (hrevision : checkedAdd row.settingsRevision 1 = some settingsRevision)
      (hvalid : CurrentPreparation.validate { row with settingsRevision, settings } = .ok ())
      (hnext : next =
        (db.withPreparation id { row with settingsRevision, settings }).advanced revision) :
      SettingsWrite db next id settings source (some row) { row with settingsRevision, settings }

theorem writeSettingsTransaction_wrote {env : Env} {db next : Db} {id : SourceId}
    {settings : PreparationSettings} {source : CurrentSourceRecord}
    {previous : Option CurrentPreparation} {row : CurrentPreparation}
    (hattempt : writeSettingsTransaction env db id settings source previous =
      .ok (some next, row)) : SettingsWrite db next id settings source previous row := by
  simp only [writeSettingsTransaction, bind_eq_ok, refuse_eq_ok, not_or, not_not] at hattempt
  obtain ⟨current, hsource, _, ⟨hnamespace, _⟩, found, hfound, _, rfl, selected, hselected, after,
    hstore, _, _, hattempt⟩ := hattempt
  obtain ⟨hnext, rfl⟩ := Prod.mk.inj (Except.ok.inj hattempt)
  obtain rfl := Option.some.inj hnext
  obtain ⟨hvalid, revision, hafter⟩ := storePreparation_eq_ok hstore
  have hread := writeSource_eq_ok hsource
  rcases storedPreparation_eq_ok hfound with ⟨rfl, hnone⟩ | ⟨old, rfl, hold⟩
  · obtain rfl := Except.ok.inj hselected
    exact .first hread hnamespace hnone hvalid hafter
  · simp only [selectedRow, bind_eq_ok, okOr_eq_ok] at hselected
    obtain ⟨settingsRevision, hrevision, hselected⟩ := hselected
    obtain rfl := Except.ok.inj hselected
    exact .change hread hold hrevision hvalid hafter

/-- The captured guards of an outcome commit hold: source, settings and outcome
are stored exactly as captured. -/
structure OutcomeHeld (db : Db) (capture : PreparationCapture) (row : CurrentPreparation) :
    Prop where
  source : SourceRead db capture.source.sourceId capture.source
  stored : preparationAt (openTable db.preparations) capture.source.sourceId.bytes = some row
  namespace_eq : row.sourceNamespaceId = capture.source.sourceNamespaceId
  id_eq : row.sourceId = capture.source.sourceId
  settings_eq : row.settings = capture.settings
  settingsRevision_eq : row.settingsRevision = capture.settingsRevision
  outcome_eq : row.outcome = capture.expectedOutcome
  outcomeRevision_eq : row.outcomeRevision = capture.expectedOutcomeRevision

theorem guardedRow_eq_ok {db : Db} {capture : PreparationCapture} {row : CurrentPreparation}
    (hguarded : guardedRow db capture = .ok row) : OutcomeHeld db capture row := by
  simp only [guardedRow, bind_eq_ok, okOr_eq_ok, refuse_eq_ok, not_or, not_not, pure_eq_ok,
    Except.ok.injEq] at hguarded
  obtain ⟨source, hsource, _, rfl, value, hvalue, found, hfound, _, hguards, rfl⟩ := hguarded
  obtain ⟨hnamespace, hid, hsettingsRevision, hsettings, houtcomeRevision, houtcome⟩ := hguards
  exact ⟨writeSource_eq_ok hsource, preparationAt_eq_some.mpr ⟨value, hvalue, hfound⟩, hnamespace,
    hid, hsettings, hsettingsRevision, houtcome, houtcomeRevision⟩

/-- Everything an outcome commit that computes new tables found. -/
structure OutcomeWrite (db next : Db) (capture : PreparationCapture) (result : PreparationOutcome)
    (old row : CurrentPreparation) : Prop where
  held : OutcomeHeld db capture old
  supersedes : keepsArtifact old capture.source capture.settings result = false
  changed : old.outcome ≠ some (boundOutcome capture result)
  row_eq : row =
    { old with
      outcomeRevision := row.outcomeRevision
      outcome := some (boundOutcome capture result) }
  revision : checkedAdd old.outcomeRevision 1 = some row.outcomeRevision
  valid : row.validate = .ok ()
  tables : ∃ revision,
    next = (db.withPreparation capture.source.sourceId row).advanced revision

theorem commitPreparationTransaction_wrote {env : Env} {db next : Db}
    {capture : PreparationCapture} {result : PreparationOutcome} {row : CurrentPreparation}
    (hattempt : commitPreparationTransaction env db capture result = .ok (some next, row)) :
    ∃ old, OutcomeWrite db next capture result old row := by
  simp only [commitPreparationTransaction, bind_eq_ok] at hattempt
  obtain ⟨_, _, old, hguarded, hattempt⟩ := hattempt
  split at hattempt
  · cases hattempt
  · rename_i hkeeps
    simp only [not_or, Bool.not_eq_true] at hkeeps
    simp only [bind_eq_ok, okOr_eq_ok] at hattempt
    obtain ⟨outcomeRevision, hrevision, after, hstore, _, _, hattempt⟩ := hattempt
    obtain ⟨hnext, rfl⟩ := Prod.mk.inj (Except.ok.inj hattempt)
    obtain rfl := Option.some.inj hnext
    obtain ⟨hvalid, hafter⟩ := storePreparation_eq_ok hstore
    exact ⟨old, guardedRow_eq_ok hguarded, hkeeps.1, hkeeps.2, rfl, hrevision, hvalid, hafter⟩

end EliotSearch.Control
