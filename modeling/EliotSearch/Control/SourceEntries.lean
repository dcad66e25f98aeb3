import EliotSearch.Control.Consistency

/-!
# Entries of captured sources

A captured pair is saved once for every generation it is staged for.  What the
corpus reader accepts can be saved and reloaded whatever its progress, except
for a locator that the row decoder let through and the row encoder refuses.
-/

namespace EliotSearch.Control

open EliotSearch.Library
open EliotSearch.Library.Results
open EliotSearch.Library.Words

/-- The locator of a row is within the bounds of the row encoder. -/
def BoundedLocator (source : CurrentSourceRecord) : Prop :=
  source.locator ≠ [] ∧ source.locator.length ≤ maxLocatorBytes

instance (source : CurrentSourceRecord) : Decidable (BoundedLocator source) :=
  inferInstanceAs (Decidable (_ ∧ _))

/-- A coherent capture is saved well within the limit of an entry, unless its
locator is out of bounds. -/
theorem encodeSource_of_coherent {entry : SourceEntry} (hcoherent : entry.captured.Coherent) :
    (∃ bytes, encodeSource entry = .ok bytes) ↔ BoundedLocator entry.captured.source := by
  constructor
  · rintro ⟨bytes, hencode⟩
    exact (encodeSource_eq_ok hencode).1.2.2.2.2
  · rintro ⟨hnonempty, hbound⟩
    obtain ⟨hrow, hregistration, hversion, hkind, -⟩ := hcoherent.readable
    have hrecord := encodeRecord_eq_ok.mpr
      ⟨⟨hrow, hregistration, hkind, hversion, hnonempty, hbound⟩, rfl⟩
    have hpreparation := CurrentPreparation.encode_eq_ok.mpr ⟨hcoherent.valid, rfl⟩
    have hfits : ¬ 8 + (recordBytes entry.captured.source).length +
        (preparationBytes entry.captured.preparation).length + 9 > maxSourceEntryBytes := by
      have hprepared := preparationBytes_length_le entry.captured.preparation
      simp only [recordBytes_length, maxLocatorBytes, maxSourceEntryBytes] at hbound ⊢
      omega
    rw [encodeSource, hrecord, hpreparation]
    simp only [Except.mapError, ok_bind, refuse_of_not hfits]
    exact ⟨_, rfl⟩

/-- Preparation rows are encoded exactly when they are valid, decoding and
encoding are inverse, and a pair that the corpus reader accepts is saved and
reloaded under every progress exactly when its locator is within bounds. -/
theorem preparation_and_entry_codecs (row : CurrentPreparation) (bytes : Bytes) (env : Env)
    (db : Db) (capture : CorpusCapture) :
    (row.validate = .ok () ↔ ∃ encoded, row.encode = .ok encoded) ∧
    (row.encode = .ok bytes ↔ CurrentPreparation.decode bytes = .ok row) ∧
    (readCorpus env db = .ok capture → ∀ captured ∈ capture.sources,
      ∀ stagedUnits complete,
        (∃ saved, encodeSource ⟨captured, stagedUnits, complete⟩ = .ok saved ∧
          decodeSource saved = .ok ⟨captured, stagedUnits, complete⟩) ↔
        BoundedLocator captured.source) := by
  refine ⟨?_, CurrentPreparation.encode_eq_ok_iff_decode, ?_⟩
  · constructor
    · intro hvalid
      exact ⟨_, CurrentPreparation.encode_eq_ok.mpr ⟨hvalid, rfl⟩⟩
    · rintro ⟨encoded, hencode⟩
      exact (CurrentPreparation.encode_eq_ok.mp hencode).1
  · intro hread captured hmem stagedUnits complete
    have hcoherent := (readCorpus_eq_ok hread).coherent captured hmem
    rw [← @encodeSource_of_coherent ⟨captured, stagedUnits, complete⟩ hcoherent]
    constructor
    · rintro ⟨saved, hencode, -⟩
      exact ⟨saved, hencode⟩
    · rintro ⟨saved, hencode⟩
      exact ⟨saved, hencode, decodeSource_encodeSource hencode hcoherent⟩

namespace Sample

def unnamed : CapturedSource where
  source := sampleRecord [] 5
  preparation :=
    { sourceNamespaceId := Octets.replicate 16 1
      sourceId := Octets.replicate 16 2
      settingsRevision := 1
      settings := PreparationSettings.default
      outcomeRevision := 1
      outcome := some ⟨1, 1, (sampleRecord [] 5).objectRef, PreparationSettings.default,
        .gap .binaryContent⟩ }

/-- A root whose one row has an empty locator. -/
def unnamedDb : Db :=
  { Db.empty with
    sourceState := some (((∅ : Table).insert schemaVersionKey sourceSchemaVersion).insert
      namespaceKey (Octets.replicate 16 1).bytes)
    sourceRows := some ((∅ : Table).insert (Octets.replicate 16 2).bytes
      (recordBytes unnamed.source))
    sourceLocators := some ((∅ : Table).insert [] (Octets.replicate 16 2).bytes)
    preparations := some ((∅ : Table).insert (Octets.replicate 16 2).bytes
      (preparationBytes unnamed.preparation)) }

end Sample

/-- The corpus reader accepts a row with an empty locator; its entry cannot be
saved. -/
theorem unnamed_entry_refused :
    (readCorpus Env.quiet Sample.unnamedDb).map CorpusCapture.sources = .ok [Sample.unnamed] ∧
      encodeSource ⟨Sample.unnamed, 0, false⟩ = .error .corrupt := by
  decide +kernel

/-- The rows that the registry itself wrote are all saved and reloaded. -/
theorem Registry.entries_reloaded (actions : List Registry.Action) (env : Env)
    {capture : CorpusCapture}
    (hread : readCorpus env (Registry.run actions).db = .ok capture) {captured : CapturedSource}
    (hmem : captured ∈ capture.sources) (stagedUnits : UInt64) (complete : Bool) :
    ∃ bytes, encodeSource ⟨captured, stagedUnits, complete⟩ = .ok bytes ∧
      decodeSource bytes = .ok ⟨captured, stagedUnits, complete⟩ := by
  have hsound := (Registry.consistent_run actions).sound
  obtain ⟨hlive, -, hcoherent, -⟩ := readCorpus_eq_ok hread
  obtain ⟨bytes, _, hbytes, hdecode, -⟩ := (mem_liveCorpus hlive).mp hmem
  have hbounded : BoundedLocator captured.source := by
    rcases hsound.sources with hnone | ⟨namespaceId, hregistered⟩
    · simp [corpusStore, hnone.rows] at hbytes
    · obtain ⟨record, hstored⟩ := hregistered.record hbytes
      have hsame : record = captured.source :=
        Except.ok.inj (hstored.decode.symm.trans hdecode)
      rw [← hsame]
      exact hstored.recordable.2.2.2.2
  obtain ⟨encoded, hencode⟩ :=
    (@encodeSource_of_coherent ⟨captured, stagedUnits, complete⟩ (hcoherent _ hmem)).mpr hbounded
  exact ⟨encoded, hencode, decodeSource_encodeSource hencode (hcoherent _ hmem)⟩

end EliotSearch.Control
