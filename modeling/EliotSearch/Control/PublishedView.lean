import EliotSearch.Control.Installation
import EliotSearch.Control.Verified

/-!
# Published views

A view pins the committed generation of one snapshot.  Its readers repeat only
some of the checks of whole-generation validation; on a snapshot whose
generation was validated they still agree with everything it saw.
-/

namespace EliotSearch.Control

open EliotSearch.Library
open EliotSearch.Library.Results
open EliotSearch.Library.Words

/-- Matching committed pointer and owned read-only snapshot. -/
structure PublishedView where
  generation : Generation
  transaction : Db

/-- Exact evidence and source of a real returned point. -/
structure ResolvedPoint where
  evidence : PointEvidence
  captured : CapturedSource
  deriving DecidableEq

/-- Reads one captured source of the current generation, or of the sealed pending
one. -/
def readSavedSource (db : Db) (generation : Generation) (id : SourceId) :
    Except PublicationError CapturedSource := do
  let state ← readState db
  refuse (¬ (state.current = some generation ∨ ∃ pending ∈ state.pending,
    pending.captureComplete = true ∧ pending.generation = generation)) .stale
  let table ← okOr db.generationSources .corrupt
  let value ← okOr table[key generation.sequence id.bytes]? .corrupt
  let entry ← decodeSource value
  refuse (entry.complete = false ∨ entry.captured.source.sourceId ≠ id) .corrupt
  return entry.captured

namespace PublishedView

/-- Reads one captured source from this same pinned committed generation. -/
def source (env : Env) (view : PublishedView) (id : SourceId) :
    Except PublicationError CapturedSource := do
  env.check publicationFault 0
  let found ← readSavedSource view.transaction view.generation id
  env.check publicationFault 1
  return found

/-- What the inventory requires of one saved entry. -/
def inventoryEntry (entry : SourceEntry) : Except PublicationError CapturedSource := do
  refuse (entry.complete = false) .corrupt
  let outcome ← okOr entry.captured.preparation.outcome .corrupt
  refuse (¬ entry.CheckedUnits outcome.result) .corrupt
  return entry.captured

/-- Reads the complete committed source inventory from this pinned generation. -/
def sourceInventory (env : Env) (view : PublishedView) :
    Except PublicationError (List CapturedSource) := do
  env.check publicationFault 0
  let inventory ← Verify.walkSources inventoryEntry env 1 view.transaction view.generation
  env.check publicationFault (inventory.length + 2)
  return inventory

/-- Resolves a real returned point through this generation's pinned metadata. -/
def resolvePoint (view : PublishedView) (id : Octets 16) :
    Except PublicationError ResolvedPoint := do
  refuse (id.bytes.take 8 ≠ be64 view.generation.sequence ∨
    UInt64.ofNat (beValue (id.bytes.drop 8)) ≥ view.generation.pointCount) .corrupt
  let table ← okOr view.transaction.generationEvidence .corrupt
  let value ← okOr table[key view.generation.sequence id.bytes]? .corrupt
  let evidence ← decodeEvidence value
  let sources ← okOr view.transaction.generationSources .corrupt
  let source ← okOr sources[key view.generation.sequence evidence.sourceId.bytes]? .corrupt
  let entry ← decodeSource source
  refuse (entry.complete = false ∨ evidence.sourceId ≠ entry.captured.source.sourceId ∨
    evidence.unit ≥ entry.stagedUnits ∨
    evidence.sourceNamespaceId ≠ entry.captured.source.sourceNamespaceId ∨
    evidence.input ≠ entry.captured.source.objectRef ∨
    entry.artifact ≠ some evidence.prepared) .corrupt
  return ⟨evidence, entry.captured⟩

end PublishedView

/-- Pins the current generation and its read-only snapshot. -/
def pinPublished (env : Env) (db : Db) : Except PublicationError PublishedView := do
  env.check publicationFault 0
  let state ← readState db
  let generation ← okOr state.current .notPublished
  let _sources ← okOr db.generationSources .corrupt
  let _evidence ← okOr db.generationEvidence .corrupt
  let _pages ← okOr db.generationPages .corrupt
  env.check publicationFault 1
  return ⟨generation, db⟩

/-- Exhaustively accepts the saved generation for publication or recovery. -/
def openPublished (env : Env) (db : Db) : Except PublicationError PublishedView := do
  let view ← pinPublished env db
  Verify.generation env view.transaction view.generation
  return view

/-- Checks every binding of the current generation, or of the sealed pending
one. -/
def validateGeneration (env : Env) (db : Db) (generation : Generation) :
    Except PublicationError Unit :=
  observeDatabase env db fun db => do
    let state ← readState db
    refuse (¬ (state.current = some generation ∨ ∃ pending ∈ state.pending,
      pending.captureComplete = true ∧ pending.generation = generation)) .stale
    Verify.generation env db generation

/-! ## The inventory -/

open Verify

theorem inventoryEntry_selects :
    Selects PublishedView.inventoryEntry (fun entry => entry.captured) := by
  intro entry item hstaged
  simp only [PublishedView.inventoryEntry, bind_eq_ok, refuse_eq_ok, okOr_eq_ok, not_not,
    pure_eq_ok, Except.ok.injEq, Bool.not_eq_false]
  constructor
  · rintro ⟨_, hcomplete, outcome, houtcome, _, hchecked, rfl⟩
    exact ⟨⟨hcomplete, outcome, houtcome, hchecked⟩, rfl⟩
  · rintro ⟨⟨hcomplete, outcome, houtcome, hchecked⟩, rfl⟩
    exact ⟨(), hcomplete, outcome, houtcome, (), hchecked, rfl⟩

section Whole

variable {db : Db} {g : Generation} {entries : List SourceEntry} {pages : List UploadPage}

/-- The inventory of a whole generation lists its saved sources. -/
theorem Verified.sourceInventory_ok (hverified : Verified db g entries pages) {env : Env}
    (hquiet : ∀ site, env.probe site = none) :
    PublishedView.sourceInventory env ⟨g, db⟩ =
      .ok (entries.map fun entry => entry.captured) := by
  obtain ⟨table, htable, hsources⟩ := hverified.savedSources
  have hcheck : ∀ site, env.check publicationFault site = .ok () :=
    fun site => Env.check_eq_ok.mpr (hquiet site)
  rw [PublishedView.sourceInventory, hcheck, ok_bind,
    walkSources_ok 1 inventoryEntry_selects hquiet htable hsources, ok_bind, hcheck, ok_bind]
  rfl

/-! ## Points -/

/-- An entry of a whole generation is stored under its identity. -/
theorem Verify.SourcesVerified_get {table : Table} (hsources : SourcesVerified table g entries)
    {entry : SourceEntry} (hentry : entry ∈ entries) :
    ∃ value, table[key g.sequence entry.id.bytes]? = some value ∧
      decodeSource value = .ok entry := by
  have hrows := hsources.rows
  obtain ⟨row, hrow, hstored⟩ : ∃ row ∈ table.scan (be64 g.sequence),
      StoredSource g.sequence row entry := by
    generalize table.scan (be64 g.sequence) = rows at hrows
    clear hsources
    induction hrows with
    | nil => cases hentry
    | cons hhead _ ih =>
        rcases List.mem_cons.mp hentry with rfl | hentry
        · exact ⟨_, List.mem_cons_self, hhead⟩
        · obtain ⟨row, hmem, hstored⟩ := ih hentry
          exact ⟨row, List.mem_cons_of_mem _ hmem, hstored⟩
  obtain ⟨rowKey, value⟩ := row
  obtain ⟨rfl, hdecode⟩ := hstored
  exact ⟨value, (Table.mem_scan.mp hrow).1, hdecode⟩

/-- The unit of a covering point is one of its source's. -/
theorem SourceEntry.CoveredBy.unit_lt {entry : SourceEntry} {own : List PointEvidence}
    (hcovered : entry.CoveredBy own) {evidence : PointEvidence} (hmem : evidence ∈ own) :
    evidence.unit < entry.stagedUnits := by
  have hunit : evidence.unit.toNat ∈ own.map fun evidence => evidence.unit.toNat :=
    List.mem_map.mpr ⟨evidence, hmem, rfl⟩
  rw [hcovered.units, List.mem_range] at hunit
  exact UInt64.lt_iff_toNat_lt.mpr hunit

/-- Every point of a whole generation resolves to its evidence and its source. -/
theorem Verified.resolvePoint_ok (hverified : Verified db g entries pages) {ordinal : Nat}
    {point : UploadPoint} (hpoint : (pointsIn pages)[ordinal]? = some point) :
    ∃ entry ∈ entries, point.evidence.BoundTo entry ∧
      PublishedView.resolvePoint ⟨g, db⟩ point.id = .ok ⟨point.evidence, entry.captured⟩ := by
  obtain ⟨table, htable, hsources⟩ := hverified.savedSources
  obtain ⟨evidence, hevidence, hpoints⟩ := hverified.savedPoints
  have hmem := List.mem_of_getElem? hpoint
  have hplaced := hpoints.placed ordinal point hpoint
  obtain ⟨saved, hsaved, hdecode⟩ := hplaced.saved
  obtain ⟨entry, hentry, hbound⟩ := hpoints.owned point hmem
  obtain ⟨row, hrow, hentryDecode⟩ := Verify.SourcesVerified_get hsources hentry
  have hlt : ordinal < g.pointCount.toNat := by
    rw [← hpoints.count]
    exact (List.getElem?_eq_some_iff.mp hpoint).1
  have hword : (UInt64.ofNat ordinal).toNat = ordinal :=
    UInt64.toNat_ofNat_of_lt' (Nat.lt_trans hlt g.pointCount.toNat_lt)
  have hown : point.evidence ∈ pointsOf entry.id (pointsIn pages) := by
    refine List.mem_filter.mpr ⟨List.mem_map.mpr ⟨point, hmem, rfl⟩, ?_⟩
    simpa using hbound.source
  have hunit := (hpoints.covered entry hentry).unit_lt hown
  have hid : ¬ (point.id.bytes.take 8 ≠ be64 g.sequence ∨
      UInt64.ofNat (beValue (point.id.bytes.drop 8)) ≥ g.pointCount) := by
    rw [hplaced.id, List.take_left' (be64_length _), List.drop_left' (be64_length _),
      ofNat_beValue_be64]
    simp only [ne_eq, not_true, false_or, ge_iff_le, UInt64.not_le, UInt64.lt_iff_toNat_lt, hword]
    exact hlt
  have hguard : ¬ (entry.complete = false ∨
      point.evidence.sourceId ≠ entry.captured.source.sourceId ∨
      point.evidence.unit ≥ entry.stagedUnits ∨
      point.evidence.sourceNamespaceId ≠ entry.captured.source.sourceNamespaceId ∨
      point.evidence.input ≠ entry.captured.source.objectRef ∨
      entry.artifact ≠ some point.evidence.prepared) := by
    rintro (hcomplete | hsource | hstaged | hnamespace | hinput | hprepared)
    · rw [(hsources.whole entry hentry).complete] at hcomplete
      cases hcomplete
    · exact hsource hbound.source
    · exact UInt64.not_lt.mpr hstaged hunit
    · exact hnamespace hbound.namespaceId
    · exact hinput hbound.input
    · exact hprepared hbound.prepared.symm
  refine ⟨entry, hentry, hbound, ?_⟩
  rw [← hbound.source] at hrow
  simp only [PublishedView.resolvePoint, refuse_of_not hid, ok_bind, hevidence, okOr_some, hsaved,
    hdecode, htable, hrow, hentryDecode, refuse_of_not hguard]
  rfl

/-- Exactly the points of a whole generation resolve. -/
theorem Verified.resolves_iff (hverified : Verified db g entries pages) (id : Octets 16) :
    (∃ resolved, PublishedView.resolvePoint ⟨g, db⟩ id = .ok resolved) ↔
      ∃ ordinal < g.pointCount, id.bytes = be64 g.sequence ++ be64 ordinal := by
  constructor
  · rintro ⟨resolved, hresolved⟩
    simp only [PublishedView.resolvePoint, bind_eq_ok, refuse_eq_ok, not_or, not_not, ge_iff_le,
      UInt64.not_le] at hresolved
    obtain ⟨_, ⟨hfront, hback⟩, -⟩ := hresolved
    refine ⟨_, hback, ?_⟩
    have hlength : (id.bytes.drop 8).length = 8 := by simp
    rw [be64_ofNat_beValue hlength, ← hfront, List.take_append_drop]
  · rintro ⟨ordinal, hordinal, hid⟩
    obtain ⟨evidence, -, hpoints⟩ := hverified.savedPoints
    have hlt : ordinal.toNat < (pointsIn pages).length := by
      rw [hpoints.count]
      exact UInt64.lt_iff_toNat_lt.mp hordinal
    have hpoint := List.getElem?_eq_getElem hlt
    obtain ⟨entry, -, -, hresolve⟩ := hverified.resolvePoint_ok hpoint
    have hsame : (pointsIn pages)[ordinal.toNat].id = id := by
      refine Octets.ext ?_
      rw [(hpoints.placed _ _ hpoint).id, hid, UInt64.ofNat_toNat]
    rw [hsame] at hresolve
    exact ⟨_, hresolve⟩

end Whole

/-- A generation that validation accepts is whole: its rows are exactly its
complete sources, its numbered pages and the evidence of its points, and the
points tile the inputs.  The other readers of the snapshot agree. -/
theorem accepted_generation_whole {env : Env} {db : Db} {g : Generation}
    (haccepts : Verify.generation env db g = .ok ()) :
    ∃ entries pages, Verified db g entries pages ∧
      (∀ env : Env, (∀ site, env.probe site = none) →
        PublishedView.sourceInventory env ⟨g, db⟩ =
          .ok (entries.map fun entry => entry.captured)) ∧
      (∀ id : Octets 16, (∃ resolved, PublishedView.resolvePoint ⟨g, db⟩ id = .ok resolved) ↔
        ∃ ordinal < g.pointCount, id.bytes = be64 g.sequence ++ be64 ordinal) ∧
      ∀ (ordinal : Nat) point, (pointsIn pages)[ordinal]? = some point →
        ∃ entry ∈ entries, point.evidence.BoundTo entry ∧
          PublishedView.resolvePoint ⟨g, db⟩ point.id = .ok ⟨point.evidence, entry.captured⟩ := by
  obtain ⟨entries, pages, hverified⟩ := verified_of_generation haccepts
  exact ⟨entries, pages, hverified, fun env hquiet => hverified.sourceInventory_ok hquiet,
    hverified.resolves_iff, fun ordinal point hpoint => hverified.resolvePoint_ok hpoint⟩

/-! ## A generation with a prepared source and a gap -/

namespace Sample

def artifact : ObjectRef := ⟨1, .prepared, ⟨List.replicate 32 4, rfl⟩, 7⟩

/-- The entry of one source with the given outcome and number of units. -/
def savedEntry (id : SourceId) (result : PreparationOutcome) (units : UInt64) : SourceEntry where
  captured :=
    { source := { source with sourceId := id }
      preparation := ⟨namespaceId, id, 1, .default, 1, some ⟨1, 1, object, .default, result⟩⟩ }
  stagedUnits := units
  complete := true

def gapId : SourceId := ⟨List.replicate 16 3, rfl⟩

/-- The evidence of one unit of the prepared source. -/
def unitEvidence (unit start stop : UInt64) : PointEvidence :=
  ⟨namespaceId, sourceId, object, artifact, unit, start, stop, unit, unit + 1, true, true⟩

def pointId (ordinal : UInt64) : Octets 16 := ⟨be64 1 ++ be64 ordinal, by simp⟩

def unitPoints : List UploadPoint :=
  [⟨pointId 0, unitEvidence 0 0 3⟩, ⟨pointId 1, unitEvidence 1 3 5⟩]

def entryRow (entry : SourceEntry) : Bytes × Bytes :=
  (key 1 entry.id.bytes, (encodeSource entry).toOption.getD [])

def evidenceRow (point : UploadPoint) : Bytes × Bytes :=
  (key 1 point.id.bytes, encodeEvidence point.evidence)

/-- A snapshot that holds one whole generation. -/
def wholeDb : Db :=
  { Db.empty with
    generationSources := some (.ofList [entryRow (savedEntry sourceId (.ready artifact) 2),
      entryRow (savedEntry gapId (.gap .binaryContent) 0)])
    generationPages := some (.ofList [(key 1 (be64 0), pageBytes unitPoints 9)])
    generationEvidence := some (.ofList (unitPoints.map evidenceRow)) }

def wholeGeneration : Generation := ⟨namespaceId, 1, 3, 2, 1, 2, 1⟩

end Sample

theorem accepted_generation_whole_sample :
    ∃ entries pages, Verified Sample.wholeDb Sample.wholeGeneration entries pages ∧
      (∀ env : Env, (∀ site, env.probe site = none) →
        PublishedView.sourceInventory env ⟨Sample.wholeGeneration, Sample.wholeDb⟩ =
          .ok (entries.map fun entry => entry.captured)) ∧
      (∀ id : Octets 16,
        (∃ resolved, PublishedView.resolvePoint ⟨Sample.wholeGeneration, Sample.wholeDb⟩ id =
          .ok resolved) ↔
        ∃ ordinal < Sample.wholeGeneration.pointCount,
          id.bytes = be64 Sample.wholeGeneration.sequence ++ be64 ordinal) ∧
      ∀ (ordinal : Nat) point, (pointsIn pages)[ordinal]? = some point →
        ∃ entry ∈ entries, point.evidence.BoundTo entry ∧
          PublishedView.resolvePoint ⟨Sample.wholeGeneration, Sample.wholeDb⟩ point.id =
            .ok ⟨point.evidence, entry.captured⟩ :=
  have haccepts : Verify.generation Env.quiet Sample.wholeDb Sample.wholeGeneration = .ok () := by
    decide +kernel
  accepted_generation_whole haccepts

end EliotSearch.Control
