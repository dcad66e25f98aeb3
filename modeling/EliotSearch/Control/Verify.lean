import EliotSearch.Control.PublicationCodec
import EliotSearch.Library.BinarySearch

/-!
# Whole-generation validation

Complete bounded validation of one generation in a read-only snapshot.  The
saved sources give one running progress each; the pages are then walked in
order, every point against its evidence row and the progress of its source;
at the end every progress must be complete and no evidence row may be left.
-/

namespace EliotSearch.Control

open EliotSearch.Library
open EliotSearch.Library.Results
open EliotSearch.Library.Words

/-- The artifact of a source that was prepared; a gap has none. -/
def PreparationOutcome.artifact : PreparationOutcome → Option ObjectRef
  | .ready artifact => some artifact
  | .gap _ => none

/-- The number of units a saved source may have: a prepared source has none
exactly when its input is empty, and a gap has none. -/
def SourceEntry.CheckedUnits (entry : SourceEntry) : PreparationOutcome → Prop
  | .ready _ => entry.captured.source.objectRef.byteLength = 0 ↔ entry.stagedUnits = 0
  | .gap _ => entry.stagedUnits = 0

instance (entry : SourceEntry) : (result : PreparationOutcome) →
    Decidable (entry.CheckedUnits result)
  | .ready _ => inferInstanceAs (Decidable (_ ↔ _))
  | .gap _ => inferInstanceAs (Decidable (_ = _))

/-- The artifact bound by the outcome of a saved source. -/
def SourceEntry.artifact (entry : SourceEntry) : Option ObjectRef :=
  entry.captured.preparation.outcome.bind (·.result.artifact)

namespace Verify

/-! ## Progress of one source -/

structure SourceProgress where
  id : SourceId
  namespaceId : SourceNamespaceId
  input : ObjectRef
  prepared : Option ObjectRef
  units : UInt64
  seen : UInt64
  byteEnd : UInt64
  deriving DecidableEq

namespace SourceProgress

def fromEntry (entry : SourceEntry) : Except PublicationError SourceProgress := do
  refuse (entry.complete = false ∨ entry.stagedUnits > maxPoints) .corrupt
  let source := entry.captured.source
  let outcome ← okOr entry.captured.preparation.outcome .corrupt
  refuse (¬ entry.CheckedUnits outcome.result) .corrupt
  return {
    id := source.sourceId
    namespaceId := source.sourceNamespaceId
    input := source.objectRef
    prepared := outcome.result.artifact
    units := entry.stagedUnits
    seen := 0
    byteEnd := 0
  }

def accept (progress : SourceProgress) (evidence : PointEvidence) :
    Except PublicationError SourceProgress := do
  refuse (evidence.sourceNamespaceId ≠ progress.namespaceId ∨ evidence.sourceId ≠ progress.id ∨
    evidence.input ≠ progress.input ∨ some evidence.prepared ≠ progress.prepared ∨
    evidence.unit ≠ progress.seen ∨ evidence.start ≠ progress.byteEnd ∨
    evidence.stop > progress.input.byteLength ∨ progress.seen ≥ progress.units) .corrupt
  let seen ← okOr (checkedAdd progress.seen 1) .limit
  return { progress with seen, byteEnd := evidence.stop }

def Complete (progress : SourceProgress) : Prop :=
  progress.seen = progress.units ∧
    (progress.prepared = none ∨ progress.byteEnd = progress.input.byteLength)

instance (progress : SourceProgress) : Decidable progress.Complete :=
  inferInstanceAs (Decidable (_ ∧ _))

end SourceProgress

/-! ## Saved sources -/

/-- What a walk over the saved sources has gathered. -/
structure SourceTotals (α : Type) where
  items : List α
  gaps : UInt64
  units : UInt64
  namespaceId : Option SourceNamespaceId

/-- One row of the saved sources.  Every refusal is `corrupt`, so the two
readers of these rows differ only in what they keep of an entry. -/
def visitSource {α : Type} (select : SourceEntry → Except PublicationError α) (count : Nat)
    (totals : SourceTotals α) (row : Bytes × Bytes) :
    Except PublicationError (SourceTotals α) := do
  refuse (row.1.length ≠ 24 ∨ totals.items.length ≥ count) .corrupt
  let entry ← decodeSource row.2
  let item ← select entry
  let source := entry.captured.source
  refuse (row.1.drop 8 ≠ source.sourceId.bytes ∨
    ∃ expected ∈ totals.namespaceId, expected ≠ source.sourceNamespaceId) .corrupt
  let units ← okOr ((checkedAdd totals.units entry.stagedUnits).filter (· ≤ maxPoints)) .corrupt
  return {
    items := totals.items ++ [item]
    gaps := totals.gaps + (if entry.artifact.isNone then 1 else 0)
    units
    namespaceId := some source.sourceNamespaceId
  }

/-- Walk the saved sources of a generation and compare their number, their
gaps and their units with its header. -/
def walkSources {α : Type} (select : SourceEntry → Except PublicationError α) (env : Env)
    (site : Nat) (db : Db) (generation : Generation) : Except PublicationError (List α) := do
  let count := generation.sourceCount.toNat
  refuse (count > maxSources) .corrupt
  let table ← okOr db.generationSources .corrupt
  let totals ← table.walk (fun totals => env.check publicationFault (site + totals.items.length))
    (be64 generation.sequence) (visitSource select count) ⟨[], 0, 0, none⟩
  refuse (totals.items.length ≠ count ∨ totals.gaps ≠ generation.gapCount ∨
    totals.units ≠ generation.pointCount) .corrupt
  return totals.items

def sources (env : Env) (db : Db) (generation : Generation) :
    Except PublicationError (List SourceProgress) :=
  walkSources SourceProgress.fromEntry env 0 db generation

/-! ## Points and pages -/

/-- Check one point against its evidence row and advance its source. -/
def point (generation : Generation) (point : UploadPoint) (ordinal : UInt64)
    (savedEvidence : Bytes) (progress : List SourceProgress) :
    Except PublicationError (List SourceProgress) := do
  refuse (point.id.bytes.take 8 ≠ be64 generation.sequence ∨
    point.id.bytes.drop 8 ≠ be64 ordinal) .corrupt
  let evidence ← decodeEvidence savedEvidence
  refuse (evidence ≠ point.evidence) .corrupt
  let index ← okOr (binarySearchByKey (·.id.bytes) point.evidence.sourceId.bytes progress) .corrupt
  -- the search returns a position of the list
  let source ← okOr progress[index]? .corrupt
  let accepted ← source.accept point.evidence
  return progress.set index accepted

/-- What the walk over the pages has gathered. -/
structure PageTotals where
  pageCount : UInt64
  pointCount : UInt64
  charged : UInt64
  progress : List SourceProgress

/-- The number of checks made before the next page. -/
def PageTotals.site (totals : PageTotals) : Nat :=
  totals.progress.length + 1 + totals.pageCount.toNat + totals.pointCount.toNat

def visitPoint (env : Env) (evidence : Table) (generation : Generation) (totals : PageTotals)
    (saved : UploadPoint) : Except PublicationError PageTotals := do
  env.check publicationFault (totals.site + 1)
  refuse (totals.pointCount ≥ generation.pointCount) .corrupt
  let value ← okOr evidence[key generation.sequence saved.id.bytes]? .corrupt
  let progress ← point generation saved totals.pointCount value totals.progress
  let pointCount ← okOr (checkedAdd totals.pointCount 1) .corrupt
  return { totals with pointCount, progress }

def visitPage (env : Env) (evidence : Table) (generation : Generation) (totals : PageTotals)
    (row : Bytes × Bytes) : Except PublicationError PageTotals := do
  refuse (totals.pageCount ≥ generation.pageCount ∨
    row.1 ≠ key generation.sequence (be64 totals.pageCount)) .corrupt
  let charged ← okOr ((checkedAdd totals.charged (UInt64.ofNat row.2.length)).filter
    (· ≤ maxStagedBytes)) .corrupt
  let page ← decodePage row.2
  let totals ← page.points.foldlM (visitPoint env evidence generation) { totals with charged }
  let pageCount ← okOr (checkedAdd totals.pageCount 1) .corrupt
  return { totals with pageCount }

/-! ## Evidence rows -/

def visitEvidence (generation : Generation) (count : UInt64) (row : Bytes × Bytes) :
    Except PublicationError UInt64 := do
  refuse (row.1.length ≠ 24 ∨ (row.1.drop 8).take 8 ≠ be64 generation.sequence) .corrupt
  let ordinal := UInt64.ofNat (beValue (row.1.drop 16))
  refuse (ordinal ≥ generation.pointCount) .corrupt
  okOr ((checkedAdd count 1).filter (· ≤ generation.pointCount)) .corrupt

def evidenceCount (env : Env) (evidence : Table) (generation : Generation) (site : Nat) :
    Except PublicationError Unit := do
  let count ← evidence.walk (fun count => env.check publicationFault (site + count.toNat))
    (be64 generation.sequence) (visitEvidence generation) 0
  refuse (count ≠ generation.pointCount) .corrupt

/-- Complete bounded graph validation in one read-only generation snapshot. -/
def generation (env : Env) (db : Db) (generation : Generation) : Except PublicationError Unit := do
  let progress ← sources env db generation
  let pages ← okOr db.generationPages .corrupt
  let evidence ← okOr db.generationEvidence .corrupt
  let totals ← pages.walk (fun totals => env.check publicationFault totals.site)
    (be64 generation.sequence) (visitPage env evidence generation) ⟨0, 0, 0, progress⟩
  refuse (totals.pageCount ≠ generation.pageCount ∨ totals.pointCount ≠ generation.pointCount ∨
    ∃ source ∈ totals.progress, ¬ source.Complete) .corrupt
  evidenceCount env evidence generation totals.site

end Verify

end EliotSearch.Control
