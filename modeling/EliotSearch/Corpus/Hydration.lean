import EliotSearch.Control.SavedPages
import EliotSearch.Corpus.Batches

/-!
# Hydrated points

The text of a saved point is cut from the prepared text of its source, which is
read from the object directory and decoded under the saved binding.
-/

namespace EliotSearch.Corpus

open EliotSearch.Control
open EliotSearch.Library
open EliotSearch.Library.Json
open EliotSearch.Library.Results
open EliotSearch.Library.Utf8
open EliotSearch.Library.Words
open EliotSearch.Preparation
open EliotSearch.Query

def limits : PreparationLimits where
  maxInputBytes := 8 * 1024 * 1024
  maxOutputBytes := 8 * 1024 * 1024
  maxLines := 1000000
  maxUnits := 1000000
  maxEncodedBytes := 64 * 1024 * 1024

def maxArtifactBytes : UInt64 := 64 * 1024 * 1024

/-! ## Points and sources -/

structure HydratedPoint where
  point : UploadPoint
  text : Text
  deriving DecidableEq

def inputs (page : List HydratedPoint) : List PointInput :=
  page.map fun found =>
    { id := found.point.id, sourceId := found.point.evidence.sourceId, retrievalText := found.text }

def hydratePoint (view : PreparedUtf8) (source : CurrentSourceRecord) (artifact : ObjectRef)
    (point : UploadPoint) : Except Bytes HydratedPoint := do
  refuse (point.evidence.sourceNamespaceId ≠ source.sourceNamespaceId ∨
    point.evidence.input ≠ source.objectRef ∨ point.evidence.prepared ≠ artifact)
    (ascii "PUBLICATION_CORRUPT")
  let text ← unitText view point.evidence
  return { point, text }

/-- The decoded source at hand. -/
structure Retained where
  captured : CapturedSource
  artifact : ObjectRef
  view : PreparedUtf8

def readyArtifact (captured : CapturedSource) : Except Bytes ObjectRef :=
  match captured.preparation.outcome.map (·.result) with
  | some (PreparationOutcome.ready artifact) => .ok artifact
  | _ => .error (ascii "PUBLICATION_CORRUPT")

/-- Read and decode the source of a point. -/
def retainSource (store : Store) (env : Env) (db : Db) (generation : Generation) (id : SourceId) :
    Except Bytes Retained := do
  check env 0
  let captured ← (observeDatabase (within env 1) db fun db =>
    readSavedSource db generation id).mapError fun error => ascii error.code
  let artifact ← readyArtifact captured
  let stored ← (readObject store (within env 2) artifact maxArtifactBytes).mapError
    ObjectStoreError.code
  let view ← (decodePreparedUtf8 store.hash (within env 3) stored captured.source
    captured.preparation.settings limits).mapError PreparationError.code
  return { captured, artifact, view }

def readPage (env : Env) (db : Db) (generation : Generation) (number : UInt64) :
    Except Bytes UploadPage :=
  (observeDatabase env db fun db => readSavedPage db generation number).mapError fun error =>
    ascii error.code

/-- Hydrate the points of the source at hand. -/
def hydrateRun (env : Env) (retained : Retained) : List UploadPoint → List HydratedPoint →
    Except Bytes (List UploadPoint × List HydratedPoint)
  | [], hydrated => return ([], hydrated)
  | point :: points, hydrated => do
      if point.evidence.sourceId = retained.captured.source.sourceId then
        check (within env hydrated.length) 6
        let found ← hydratePoint retained.view retained.captured.source retained.artifact point
        hydrateRun env retained points (hydrated ++ [found])
      else return (point :: points, hydrated)

/-! ## Points of validated sources -/

/-- The text of a point is what the prepared text of its source has between the
start and the end of the point. -/
def Quoted (store : Store) (entries : List SourceEntry) (found : HydratedPoint) : Prop :=
  ∃ entry ∈ entries, found.point.evidence.BoundTo entry ∧ ∃ bytes view env,
    store.Holds found.point.evidence.prepared bytes ∧
    decodePreparedUtf8 store.hash env bytes entry.captured.source
      entry.captured.preparation.settings limits = .ok view ∧
    view.text.get found.point.evidence.start.toNat found.point.evidence.stop.toNat =
      some found.text

/-- The source at hand is a validated one with its stored artifact. -/
def Retained.Backed (store : Store) (entries : List SourceEntry) (retained : Retained) : Prop :=
  ∃ entry ∈ entries, entry.captured = retained.captured ∧
    entry.artifact = some retained.artifact ∧ ∃ bytes env,
      store.Holds retained.artifact bytes ∧
      decodePreparedUtf8 store.hash env bytes entry.captured.source
        entry.captured.preparation.settings limits = .ok retained.view

section Sources

variable {store : Store} {env : Env} {db later : Db} {g : Generation}
  {entries : List SourceEntry} {pages : List UploadPage} {retained : Retained}

theorem readyArtifact_eq_ok {entry : SourceEntry} {artifact : ObjectRef} :
    readyArtifact entry.captured = .ok artifact ↔ entry.artifact = some artifact := by
  unfold readyArtifact SourceEntry.artifact
  cases entry.captured.preparation.outcome with
  | none => exact ⟨nofun, nofun⟩
  | some outcome =>
      rw [Option.map_some, Option.bind_some]
      cases outcome.result with
      | ready found =>
          constructor
          · rintro ⟨⟩
            rfl
          · rintro ⟨⟩
            rfl
      | gap reason => exact ⟨nofun, nofun⟩

theorem unitText_eq_ok {view : PreparedUtf8} {evidence : PointEvidence} {text : Text}
    (htext : unitText view evidence = .ok text) :
    view.text.get evidence.start.toNat evidence.stop.toNat = some text := by
  simp only [unitText, bind_eq_ok, okOr_eq_ok, refuse_eq_ok, not_or, not_not] at htext
  obtain ⟨unit, -, _, ⟨hstart, hstop, -⟩, hfound⟩ := htext
  rw [← hstart, ← hstop]
  exact hfound

theorem observeDatabase_eq_ok {α : Type} {read : Db → Except PublicationError α} {value : α}
    (hread : observeDatabase env db read = .ok value) : read db = .ok value := by
  simp only [observeDatabase, bind_eq_ok, pure_eq_ok, Except.ok.injEq] at hread
  obtain ⟨_, -, found, hfound, _, -, rfl⟩ := hread
  exact hfound

theorem observeDatabase_ok {α : Type} {read : Db → Except PublicationError α} {value : α}
    (hquiet : Undisturbed env) (hread : read db = .ok value) :
    observeDatabase env db read = .ok value := by
  have hcheck : ∀ site, env.check publicationFault site = .ok () :=
    fun site => Env.check_eq_ok.mpr (hquiet site)
  rw [observeDatabase, hcheck, ok_bind, hread, ok_bind, hcheck, ok_bind, pure_eq_ok]

/-- What is retained under an identity is the validated source of that identity. -/
theorem retainSource_eq_ok (hverified : Verified db g entries pages) (hsame : SameSaved db later)
    {id : SourceId} (hretain : retainSource store env later g id = .ok retained) :
    retained.Backed store entries ∧ retained.captured.source.sourceId = id := by
  simp only [retainSource, bind_eq_ok, mapError_eq_ok, pure_eq_ok, Except.ok.injEq] at hretain
  obtain ⟨_, -, captured, hcaptured, artifact, hartifact, stored, hstored, view, hview, rfl⟩ :=
    hretain
  obtain ⟨entry, hentry, hid, rfl⟩ :=
    hverified.readSavedSource_eq_ok hsame (observeDatabase_eq_ok hcaptured)
  obtain ⟨hholds, -⟩ := readObject_eq_ok hstored
  exact ⟨⟨entry, hentry, rfl, readyArtifact_eq_ok.mp hartifact, stored, _, hholds, hview⟩, hid⟩

theorem hydratePoint_eq_ok (hbacked : retained.Backed store entries) {point : UploadPoint}
    (hsource : point.evidence.sourceId = retained.captured.source.sourceId) {found : HydratedPoint}
    (hhydrate : hydratePoint retained.view retained.captured.source retained.artifact point =
      .ok found) : found.point = point ∧ Quoted store entries found := by
  obtain ⟨entry, hentry, hcaptured, hartifact, bytes, decoding, hholds, hdecode⟩ := hbacked
  simp only [hydratePoint, bind_eq_ok, refuse_eq_ok, not_or, not_not, pure_eq_ok,
    Except.ok.injEq] at hhydrate
  obtain ⟨_, ⟨hnamespace, hinput, hprepared⟩, text, htext, rfl⟩ := hhydrate
  rw [← hcaptured] at hsource hnamespace hinput
  refine ⟨rfl, entry, hentry, ⟨hsource, hnamespace, hinput, ?_⟩, bytes, retained.view, decoding,
    hprepared ▸ hholds, hdecode, unitText_eq_ok htext⟩
  exact hprepared ▸ hartifact.symm

/-- A run takes points from the front, all of the source at hand and up to a
point of another. -/
theorem hydrateRun_eq_ok (hbacked : retained.Backed store entries) {points rest : List UploadPoint}
    {hydrated all : List HydratedPoint}
    (hrun : hydrateRun env retained points hydrated = .ok (rest, all)) :
    all.map HydratedPoint.point ++ rest = hydrated.map HydratedPoint.point ++ points ∧
      rest.length ≤ points.length ∧
      ((∀ found ∈ hydrated, Quoted store entries found) →
        ∀ found ∈ all, Quoted store entries found) ∧
      (rest.head?.map fun point => point.evidence.sourceId) ≠
        some retained.captured.source.sourceId := by
  induction points generalizing hydrated with
  | nil =>
      cases hrun
      exact ⟨rfl, Nat.le_refl 0, id, nofun⟩
  | cons point points ih =>
      rw [hydrateRun] at hrun
      by_cases hsource : point.evidence.sourceId = retained.captured.source.sourceId
      · rw [if_pos hsource, bind_eq_ok] at hrun
        obtain ⟨_, -, hrest⟩ := hrun
        obtain ⟨found, hfound, hothers⟩ := bind_eq_ok.mp hrest
        obtain ⟨rfl, hquoted⟩ := hydratePoint_eq_ok hbacked hsource hfound
        obtain ⟨hsplit, hlength, hall, hhead⟩ := ih hothers
        refine ⟨?_, Nat.le_succ_of_le hlength, fun hbefore => hall ?_, hhead⟩
        · rw [hsplit, List.map_append, List.map_singleton, List.append_assoc, List.singleton_append]
        · exact List.forall_mem_append.mpr ⟨hbefore, List.forall_mem_singleton.mpr hquoted⟩
      · rw [if_neg hsource] at hrun
        cases hrun
        exact ⟨rfl, Nat.le_refl _, id, fun hsame => hsource (Option.some.inj hsame)⟩

theorem readPage_eq_ok (hverified : Verified db g entries pages) (hsame : SameSaved db later)
    {number : UInt64} {page : UploadPage} (hread : readPage env later g number = .ok page) :
    pages[number.toNat]? = some page :=
  (hverified.readSavedPage_eq_ok hsame (observeDatabase_eq_ok (mapError_eq_ok.mp hread))).2

end Sources

end EliotSearch.Corpus
