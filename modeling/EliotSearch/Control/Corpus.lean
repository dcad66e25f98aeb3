import EliotSearch.Control.PublicationCodec
import EliotSearch.Control.Sources

/-!
# Corpus captures

One read transaction captures every current source together with its usable
preparation, the publication header, the source namespace and the wanted
revision.  `LiveCorpus` states which pairs are in the current tables; a capture
succeeds only with exactly these, so two captures of equal tables are equal.
-/

namespace EliotSearch.Control

open EliotSearch.Library
open EliotSearch.Library.Results

/-- Bounded owned metadata from one read-only snapshot. -/
structure CorpusCapture where
  sources : List CapturedSource
  current : Option Generation
  pending : Option PendingGeneration
  sourceNamespace : Option (Octets 16)
  wantedRevision : UInt64
  state : State
  deriving DecidableEq

namespace CorpusCapture

/-- The current generation was built from this exact wanted-corpus guard. -/
def CurrentMatches (capture : CorpusCapture) : Prop :=
  ∃ generation ∈ capture.current, generation.wantedRevision = capture.wantedRevision

/-- The pending build still captures the entire wanted corpus and pointer. -/
def PendingMatches (capture : CorpusCapture) : Prop :=
  ∃ pending ∈ capture.pending, pending.sourceNamespace = capture.sourceNamespace ∧
    pending.generation.wantedRevision = capture.wantedRevision ∧
    pending.expectedCurrentRevision = capture.state.currentRevision ∧
    pending.expectedCurrent = capture.current

instance (capture : CorpusCapture) : Decidable capture.CurrentMatches :=
  inferInstanceAs (Decidable (∃ _ ∈ _, _))

instance (capture : CorpusCapture) : Decidable capture.PendingMatches :=
  inferInstanceAs (Decidable (∃ _ ∈ _, _))

end CorpusCapture

/-! ## Reading the corpus -/

/-- Read the rows in key order, charging their bytes and those of their
preparations. -/
def captureRows (env : Env) (namespaceId : SourceNamespaceId) (preparations : Option Table) :
    Nat → Nat → Nat → List (Bytes × Bytes) → Except PublicationError (List CapturedSource)
  | _, _, _, [] => .ok []
  | site, count, charged, (id, bytes) :: rows => do
      env.check publicationFault site
      let charged := charged + bytes.length
      refuse (count ≥ maxSources ∨ charged > maxCaptureBytes) .limit
      let source ← (decodeRecord bytes).mapError publicationSourceError
      refuse (id ≠ source.sourceId.bytes ∨ source.sourceNamespaceId ≠ namespaceId) .corrupt
      let table ← okOr preparations .unprepared
      let value ← okOr table[id]? .unprepared
      let charged := charged + value.length
      refuse (charged > maxCaptureBytes) .limit
      let preparation ← (CurrentPreparation.decode value).mapError fun _ => .corrupt
      refuse (preparation.sourceNamespaceId ≠ namespaceId ∨
        preparation.sourceId ≠ source.sourceId) .corrupt
      refuse (¬ ∃ outcome ∈ preparation.outcome,
        outcome.MatchesInput source preparation.settings) .unprepared
      let rest ← captureRows env namespaceId preparations (site + 1) (count + 1) charged rows
      return { source, preparation } :: rest

def readCorpus (env : Env) (db : Db) : Except PublicationError CorpusCapture := do
  let hasSources ← (catalogueNames db.listTables db.hasMultimap).mapError publicationSourceError
  let state ← readState db
  if hasSources then
    let found ← (readNamespace db).mapError publicationSourceError
    let namespaceId ← okOr found .corrupt
    let revision ← (wantedRevision db).mapError publicationSourceError
    let rows ← okOr db.sourceRows .database
    let sources ← captureRows env namespaceId db.preparations 2 0 0 rows.toList
    return {
      sources
      current := state.current
      pending := state.pending
      sourceNamespace := some namespaceId
      wantedRevision := revision
      state
    }
  else
    return {
      sources := []
      current := state.current
      pending := state.pending
      sourceNamespace := none
      wantedRevision := 0
      state
    }

/-- Capture the complete current corpus using one short read transaction. -/
def captureCorpus (env : Env) (db : Db) : Except PublicationError CorpusCapture :=
  observeDatabase env db (readCorpus env)

/-! ## The live corpus -/

/-- The pair that the current tables hold for one source row. -/
def LiveRow (corpus : Table × Table) (row : Bytes × Bytes) (captured : CapturedSource) : Prop :=
  decodeRecord row.2 = .ok captured.source ∧ row.1 = captured.source.sourceId.bytes ∧
    ∃ value, corpus.2[row.1]? = some value ∧
      CurrentPreparation.decode value = .ok captured.preparation

/-- The pairs that are in the current tables, in key order. -/
def LiveCorpus (corpus : Table × Table) (sources : List CapturedSource) : Prop :=
  List.Forall₂ (LiveRow corpus) corpus.1.toList sources

theorem liveRow_unique {corpus : Table × Table} {row : Bytes × Bytes}
    {first second : CapturedSource} (hfirst : LiveRow corpus row first)
    (hsecond : LiveRow corpus row second) : first = second := by
  obtain ⟨hsource, -, value, hvalue, hpreparation⟩ := hfirst
  obtain ⟨hsource', -, value', hvalue', hpreparation'⟩ := hsecond
  rw [hvalue] at hvalue'
  obtain rfl := Option.some.inj hvalue'
  rw [hsource] at hsource'
  rw [hpreparation] at hpreparation'
  cases first
  cases second
  simp only at hsource' hpreparation'
  rw [Except.ok.inj hsource', Except.ok.inj hpreparation']

/-- The current tables determine the captured list. -/
theorem liveCorpus_unique {corpus : Table × Table} {first second : List CapturedSource}
    (hfirst : LiveCorpus corpus first) (hsecond : LiveCorpus corpus second) : first = second := by
  unfold LiveCorpus at hfirst hsecond
  generalize corpus.1.toList = rows at hfirst hsecond
  induction hfirst generalizing second with
  | nil =>
      cases hsecond
      rfl
  | cons hrow _ ih =>
      cases hsecond with
      | cons hrow' hrest =>
          rw [liveRow_unique hrow hrow', ih hrest]

theorem exists_row_of_mem {corpus : Table × Table} {rows : List (Bytes × Bytes)}
    {sources : List CapturedSource} (hlive : List.Forall₂ (LiveRow corpus) rows sources)
    {captured : CapturedSource} (hmem : captured ∈ sources) :
    ∃ row ∈ rows, LiveRow corpus row captured := by
  induction hlive with
  | nil => cases hmem
  | cons hrow _ ih =>
      rcases List.mem_cons.mp hmem with rfl | hmem
      · exact ⟨_, List.mem_cons_self, hrow⟩
      · obtain ⟨row, hrowMem, hlive⟩ := ih hmem
        exact ⟨row, List.mem_cons_of_mem _ hrowMem, hlive⟩

theorem exists_captured_of_row {corpus : Table × Table} {rows : List (Bytes × Bytes)}
    {sources : List CapturedSource} (hlive : List.Forall₂ (LiveRow corpus) rows sources)
    {row : Bytes × Bytes} (hmem : row ∈ rows) :
    ∃ captured ∈ sources, LiveRow corpus row captured := by
  induction hlive with
  | nil => cases hmem
  | cons hrow _ ih =>
      rcases List.mem_cons.mp hmem with rfl | hmem
      · exact ⟨_, List.mem_cons_self, hrow⟩
      · obtain ⟨captured, hcaptured, hlive⟩ := ih hmem
        exact ⟨captured, List.mem_cons_of_mem _ hcaptured, hlive⟩

/-- A pair is captured exactly when the tables hold its row and preparation. -/
theorem mem_liveCorpus {corpus : Table × Table} {sources : List CapturedSource}
    (hlive : LiveCorpus corpus sources) {captured : CapturedSource} :
    captured ∈ sources ↔
      ∃ bytes value, corpus.1[captured.source.sourceId.bytes]? = some bytes ∧
        decodeRecord bytes = .ok captured.source ∧
        corpus.2[captured.source.sourceId.bytes]? = some value ∧
        CurrentPreparation.decode value = .ok captured.preparation := by
  constructor
  · intro hmem
    obtain ⟨row, hrow, hsource, hid, value, hvalue, hpreparation⟩ := exists_row_of_mem hlive hmem
    rw [hid] at hvalue
    have hget := Table.mem_rows.mp hrow
    exact ⟨row.2, value, hid ▸ hget, hsource, hvalue, hpreparation⟩
  · rintro ⟨bytes, value, hbytes, hsource, hvalue, hpreparation⟩
    have hrow := Table.mem_rows.mpr hbytes
    obtain ⟨found, hmem, hfound⟩ := exists_captured_of_row hlive hrow
    have hcaptured : LiveRow corpus (captured.source.sourceId.bytes, bytes) captured :=
      ⟨hsource, rfl, value, hvalue, hpreparation⟩
    rwa [liveRow_unique hcaptured hfound]

/-- Captured identities are distinct, since they are the row keys. -/
theorem liveCorpus_ids_nodup {corpus : Table × Table} {sources : List CapturedSource}
    (hlive : LiveCorpus corpus sources) :
    (sources.map fun captured => captured.source.sourceId).Nodup := by
  have hdistinct := Table.keys_nodup corpus.1
  have hkeys : corpus.1.toList.map Prod.fst =
      (sources.map fun captured => captured.source.sourceId).map Octets.bytes := by
    unfold LiveCorpus at hlive
    generalize corpus.1.toList = rows at hlive
    induction hlive with
    | nil => rfl
    | cons hrow _ ih => simp [hrow.2.1, ih]
  rw [hkeys] at hdistinct
  exact List.Nodup.of_map _ hdistinct

/-! ## What a capture saw -/

theorem captureRows_eq_ok {env : Env} {namespaceId : SourceNamespaceId}
    {preparations : Option Table} {rows : List (Bytes × Bytes)} {site count charged : Nat}
    {sources : List CapturedSource} (table : Table)
    (hcapture : captureRows env namespaceId preparations site count charged rows = .ok sources) :
    List.Forall₂ (LiveRow (table, openTable preparations)) rows sources ∧
      (∀ captured ∈ sources, captured.Coherent ∧
        captured.source.sourceNamespaceId = namespaceId) ∧
      (sources ≠ [] → count + sources.length ≤ maxSources) := by
  induction rows generalizing site count charged sources with
  | nil =>
      obtain rfl := Except.ok.inj hcapture
      exact ⟨.nil, by simp, by simp⟩
  | cons row rows ih =>
      obtain ⟨id, bytes⟩ := row
      simp only [captureRows, bind_eq_ok, refuse_eq_ok, mapError_eq_ok, okOr_eq_ok, not_or,
        not_not, Nat.not_le] at hcapture
      obtain ⟨_, _, _, ⟨hcount, _⟩, source, hsource, _, ⟨hid, hnamespace⟩, found, rfl, value,
        hvalue, _, _, preparation, hpreparation, _, ⟨hprepNamespace, hprepId⟩, _, hmatch, rest,
        hrest, hsources⟩ := hcapture
      obtain rfl := Except.ok.inj hsources
      obtain ⟨hlive, hcoherent, hlength⟩ := ih hrest
      refine ⟨.cons ⟨hsource, hid, value, hvalue, hpreparation⟩ hlive, ?_, ?_⟩
      · intro captured hmem
        rcases List.mem_cons.mp hmem with rfl | hmem
        · exact ⟨⟨decodeRecord_readable hsource, CurrentPreparation.decode_valid hpreparation,
            hprepId.symm, hnamespace.trans hprepNamespace.symm, hmatch⟩, hnamespace⟩
        · exact hcoherent captured hmem
      · intro _
        cases rest with
        | nil => simpa using hcount
        | cons other rest =>
            have hrestLength := hlength (by simp)
            simp only [List.length_cons] at hrestLength ⊢
            omega

/-- Everything a successful capture says about the tables it read. -/
structure CaptureOf (db : Db) (capture : CorpusCapture) : Prop where
  live : LiveCorpus (corpusStore.content db) capture.sources
  revision : writeWantedRevision db = .ok capture.wantedRevision
  coherent : ∀ captured ∈ capture.sources, captured.Coherent
  bounded : capture.sources.length ≤ maxSources
  header : readState db = .ok capture.state
  current_eq : capture.current = capture.state.current
  pending_eq : capture.pending = capture.state.pending

theorem readCorpus_eq_ok {env : Env} {db : Db} {capture : CorpusCapture}
    (hcapture : readCorpus env db = .ok capture) : CaptureOf db capture := by
  simp only [readCorpus, bind_eq_ok, mapError_eq_ok] at hcapture
  obtain ⟨hasSources, hnames, state, hstate, hread⟩ := hcapture
  cases hasSources with
  | false =>
      simp only [Bool.false_eq_true, if_false] at hread
      obtain rfl := Except.ok.inj hread
      obtain ⟨hsourceState, hrows, hpreparations⟩ := catalogueNames_eq_false hnames
      refine ⟨?_, ?_, by simp, Nat.zero_le _, hstate, rfl, rfl⟩
      · simp only [LiveCorpus, corpusStore, hrows, hpreparations, openTable_none,
          Table.rows_empty]
        exact .nil
      · simp [writeWantedRevision, hsourceState, storedRevision]
  | true =>
      simp only [if_true, bind_eq_ok, mapError_eq_ok, okOr_eq_ok] at hread
      obtain ⟨_, _, namespaceId, _, revision, hrevision, rows, hrows, sources, hsources, hread⟩ :=
        hread
      obtain rfl := Except.ok.inj hread
      obtain ⟨hlive, hcoherent, hlength⟩ := captureRows_eq_ok rows hsources
      refine ⟨?_, wantedRevision_eq_ok hrevision, fun captured hmem => (hcoherent captured hmem).1,
        ?_, hstate, rfl, rfl⟩
      · simpa only [LiveCorpus, corpusStore, hrows, openTable_some] using hlive
      · by_cases hempty : sources = []
        · simp [hempty]
        · simpa using hlength hempty

theorem captureCorpus_eq_ok {env : Env} {db : Db} {capture : CorpusCapture}
    (hcapture : captureCorpus env db = .ok capture) : CaptureOf db capture := by
  simp only [captureCorpus, observeDatabase, bind_eq_ok] at hcapture
  obtain ⟨_, _, found, hread, _, _, hfound⟩ := hcapture
  obtain rfl := Except.ok.inj hfound
  exact readCorpus_eq_ok hread

end EliotSearch.Control
