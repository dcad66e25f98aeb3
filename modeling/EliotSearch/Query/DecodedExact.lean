import EliotSearch.Preparation.RoundTrip
import EliotSearch.Query.RawExact

/-!
# Decoded exact search

Literal matching over verified saved UTF-8.  A source whose representation is
available is scanned in the saved text, which is the text of its source; any
other selected source is one gap with its own code.
-/

namespace EliotSearch.Query

open EliotSearch.Control
open EliotSearch.Library
open EliotSearch.Library.Json
open EliotSearch.Library.Results
open EliotSearch.Library.Utf8
open EliotSearch.Library.Words
open EliotSearch.Preparation (PreparationLimits PreparationError PreparedUtf8 decodePreparedUtf8)
open EliotSearch.Session

namespace DecodedExact

/-! ## Representations -/

structure RepresentationGap where
  prepared : Option ObjectRef
  code : Bytes

def limits : PreparationLimits where
  maxInputBytes := 8 * 1024 * 1024
  maxOutputBytes := 8 * 1024 * 1024
  maxLines := 1000000
  maxUnits := 1000000
  maxEncodedBytes := 64 * 1024 * 1024

def maxArtifactBytes : UInt64 := 64 * 1024 * 1024

def objectFailure : ObjectStoreError → QueryFailure
  | .cancelled => .cancelled
  | .deadline => .deadline
  | other => .code other.code

def preparationFailure : PreparationError → QueryFailure
  | .cancelled => .cancelled
  | .deadline => .deadline
  | other => .code other.code

/-- Read an object that may be missing. -/
def readRetained (store : Store) (env : Env) (reference : ObjectRef) (maximumBytes : UInt64) :
    Except QueryFailure (Option Bytes) :=
  match readObject store env reference maximumBytes with
  | .ok bytes => .ok (some bytes)
  | .error .missing => .ok none
  | .error error => .error (objectFailure error)

/-- Visit the saved representation of a source, or name the gap. -/
def visitRepresentation {α : Type} (store : Store) (env : Env) (captured : CapturedSource)
    (visit : ObjectRef → PreparedUtf8 → Except QueryFailure α) :
    Except QueryFailure (RepresentationGap ⊕ α) := do
  check (within env 0) 0
  let outcome ← okOr captured.preparation.outcome (.code (ascii "EVIDENCE_BINDING_INVALID"))
  match outcome.result with
  | .gap _ => return .inl ⟨none, ascii "PREPARATION_GAP"⟩
  | .ready artifact => do
      match ← readRetained store (within env 1) captured.source.objectRef maxSourceObjectBytes with
      | none => return .inl ⟨some artifact, ascii "SOURCE_OBJECT_MISSING"⟩
      | some source => do
          match ← readRetained store (within env 2) artifact maxArtifactBytes with
          | none => return .inl ⟨some artifact, ascii "PREPARED_OBJECT_MISSING"⟩
          | some bytes => do
              let view ← (decodePreparedUtf8 store.hash (within env 3) bytes captured.source
                captured.preparation.settings limits).mapError preparationFailure
              refuse (view.text.bytes ≠ source) (.code (ascii "EVIDENCE_TEXT_MISMATCH"))
              check (within env 4) 0
              let visited ← visit artifact view
              return .inr visited

/-! ## The search -/

def rangeInvalid : QueryFailure := .code (ascii "EVIDENCE_RANGE_INVALID")

/-- The occurrence at a range of the text. -/
def found (source : RawSourceRef) (prepared : ObjectRefDto) (text : Text) (start stop : Nat) :
    Except QueryFailure DecodedUtf8Item := do
  let hit ← okOr (text.get start stop) rangeInvalid
  return .matched {
    source
    prepared
    representationStart := UInt64.ofNat start
    representationEnd := UInt64.ofNat stop
    sourceStart := UInt64.ofNat start
    sourceEnd := UInt64.ofNat stop
    text := hit }

def missing (source : RawSourceRef) (gap : RepresentationGap) :
    Except QueryFailure DecodedUtf8Item := do
  let code ← failureCode gap.code
  return .gap { source, prepared := gap.prepared.map objectRef, code }

/-- Scan the full representation, not individual unit descriptors. -/
def scanView (literal : Literal) (limit : Nat) (env : Env) (captured : CapturedSource)
    (result : DecodedUtf8Result) (artifact : ObjectRef) (view : PreparedUtf8) :
    Except QueryFailure DecodedUtf8Result := do
  let result ← literal.scan env view.text.bytes
    (ExactResult.visit limit (found (sourceRef captured.source) (objectRef artifact) view.text))
    result
  result.finishSource captured.source.objectRef.byteLength

def scanSource (store : Store) (literal : Literal) (limit : Nat) (env : Env)
    (captured : CapturedSource) (result : DecodedUtf8Result) :
    Except QueryFailure DecodedUtf8Result := do
  let visited ← visitRepresentation store (within env 0) captured
    (scanView literal limit (within env 1) captured result)
  match visited with
  | .inl gap => result.addGap limit (missing (sourceRef captured.source) gap)
  | .inr result => return result

def execute (store : Store) (env : Env) (view : PublishedView) (request : DecodedUtf8Request) :
    Except QueryFailure DecodedUtf8Result :=
  executeWith decodedKind (scanSource store) env view request

/-! ## What is reported -/

/-- The source was prepared into the artifact. -/
def Ready (captured : CapturedSource) (artifact : ObjectRef) : Prop :=
  ∃ outcome ∈ captured.preparation.outcome, outcome.result = .ready artifact

/-- The source could not be prepared. -/
def Unprepared (captured : CapturedSource) : Prop :=
  ∃ outcome ∈ captured.preparation.outcome, ∃ reason, outcome.result = .gap reason

/-- The occurrence of a literal at a start. -/
def hitAt (source : CurrentSourceRecord) (artifact : ObjectRef) (literal : Text) (start : Nat) :
    DecodedUtf8Item :=
  .matched {
    source := sourceRef source
    prepared := objectRef artifact
    representationStart := UInt64.ofNat start
    representationEnd := UInt64.ofNat (start + literal.bytes.length)
    sourceStart := UInt64.ofNat start
    sourceEnd := UInt64.ofNat (start + literal.bytes.length)
    text := literal }

def preparationGap : FailureCode := ⟨ascii "PREPARATION_GAP", by decide⟩

def preparedMissing : FailureCode := ⟨ascii "PREPARED_OBJECT_MISSING", by decide⟩

/-- The gap of a source. -/
def gapOf (captured : CapturedSource) (artifact : Option ObjectRef) (code : FailureCode) :
    Report DecodedUtf8Item :=
  .gap (.gap ⟨sourceRef captured.source, artifact.map objectRef, code⟩)

/-- The occurrences in the saved text of a source, or its gap. -/
def report (store : Store) (literal : Text) (captured : CapturedSource) :
    Report DecodedUtf8Item :=
  match captured.preparation.outcome.map BoundPreparationOutcome.result with
  | some (.ready artifact) =>
      match store.find (nameOf captured.source.objectRef), store.find (nameOf artifact) with
      | some (.file bytes), some (.file _) => .scanned captured.source.objectRef.byteLength
          ((Patterns.occurrences literal.bytes bytes).map
            (hitAt captured.source artifact literal))
      | some (.file _), _ => gapOf captured (some artifact) preparedMissing
      | _, _ => gapOf captured (some artifact) sourceMissing
  | _ => gapOf captured none preparationGap

/-- The representation of a source is available and is the text of the source. -/
structure Available (store : Store) (captured : CapturedSource) (artifact : ObjectRef)
    (text : Text) : Prop where
  ready : Ready captured artifact
  source : store.Holds captured.source.objectRef text.bytes
  prepared : ∃ data, store.Holds artifact data ∧ ∀ env, Undisturbed env →
    ∃ view, decodePreparedUtf8 store.hash env data captured.source captured.preparation.settings
      limits = .ok view ∧ view.text = text

section Reports

variable {store : Store} {literal : Text} {captured : CapturedSource} {artifact : ObjectRef}
  {bytes data : Bytes}

theorem Ready.outcome (hready : Ready captured artifact) :
    captured.preparation.outcome.map BoundPreparationOutcome.result = some (.ready artifact) := by
  obtain ⟨outcome, houtcome, hresult⟩ := hready
  rw [Option.mem_def.mp houtcome, Option.map_some, hresult]

theorem report_present (hready : Ready captured artifact)
    (hsource : store.Holds captured.source.objectRef bytes) (hprepared : store.Holds artifact data) :
    report store literal captured = .scanned captured.source.objectRef.byteLength
      ((Patterns.occurrences literal.bytes bytes).map (hitAt captured.source artifact literal)) := by
  rw [report, hready.outcome]
  dsimp only
  rw [hsource.found, hprepared.found]

theorem report_sourceMissing (hready : Ready captured artifact)
    (hsource : store.Lacks captured.source.objectRef) :
    report store literal captured = gapOf captured (some artifact) sourceMissing := by
  have hnone : store.find (nameOf captured.source.objectRef) = none := hsource
  rw [report, hready.outcome]
  dsimp only
  rw [hnone]

theorem report_preparedMissing (hready : Ready captured artifact)
    (hsource : store.Holds captured.source.objectRef bytes) (hprepared : store.Lacks artifact) :
    report store literal captured = gapOf captured (some artifact) preparedMissing := by
  have hnone : store.find (nameOf artifact) = none := hprepared
  rw [report, hready.outcome]
  dsimp only
  rw [hsource.found, hnone]

theorem report_unprepared (hunprepared : Unprepared captured) :
    report store literal captured = gapOf captured none preparationGap := by
  obtain ⟨outcome, houtcome, reason, hresult⟩ := hunprepared
  rw [report, Option.mem_def.mp houtcome, Option.map_some, hresult]

/-- A range that the scan visits is a range of the text. -/
theorem found_eq {text : Text} {source : CurrentSourceRecord} {start : Nat}
    (hliteral : literal.bytes ≠ []) (hstart : start ∈ Patterns.occurrences literal.bytes text.bytes) :
    found (sourceRef source) (objectRef artifact) text start (start + literal.bytes.length) =
      .ok (hitAt source artifact literal start) := by
  have hslice := Patterns.occurrence_slice hliteral hstart
  obtain ⟨hfirst, hlast⟩ := boundary_of_occurrence literal.valid hliteral text.valid
    ((Patterns.mem_occurrences hliteral).mp hstart)
  have hget : text.get start (start + literal.bytes.length) = some literal := by
    refine Text.get_eq_some.mpr ⟨Nat.le_add_right _ _, hfirst, hlast, ?_⟩
    rw [List.drop_take, Nat.add_sub_cancel_left, hslice]
  rw [found, hget, okOr_some, ok_bind, pure_eq_ok, hitAt]

end Reports

/-! ## One source -/

section Scanning

variable {store : Store} {literal : Text} {captured : CapturedSource} {env : Env}

theorem readRetained_eq_ok {reference : ObjectRef} {maximum : UInt64} {found : Option Bytes}
    (hread : readRetained store env reference maximum = .ok found) :
    match found with
    | some bytes => store.Holds reference bytes
    | none => store.Lacks reference := by
  unfold readRetained at hread
  split at hread
  · rename_i bytes hbytes
    obtain rfl := Except.ok.inj hread
    exact (readObject_eq_ok hbytes).1
  · rename_i hmissing
    obtain rfl := Except.ok.inj hread
    exact readObject_eq_missing hmissing
  · cases hread

/-- What a visit of a representation that succeeds has met. -/
inductive Visited {α : Type} (store : Store) (captured : CapturedSource)
    (visit : ObjectRef → PreparedUtf8 → Except QueryFailure α) : RepresentationGap ⊕ α → Prop where
  | unprepared (hunprepared : Unprepared captured) :
      Visited store captured visit (.inl ⟨none, ascii "PREPARATION_GAP"⟩)
  | sourceMissing (artifact : ObjectRef) (hready : Ready captured artifact)
      (hsource : store.Lacks captured.source.objectRef) :
      Visited store captured visit (.inl ⟨some artifact, ascii "SOURCE_OBJECT_MISSING"⟩)
  | preparedMissing (artifact : ObjectRef) (bytes : Bytes) (hready : Ready captured artifact)
      (hsource : store.Holds captured.source.objectRef bytes)
      (hprepared : store.Lacks artifact) :
      Visited store captured visit (.inl ⟨some artifact, ascii "PREPARED_OBJECT_MISSING"⟩)
  | present (artifact : ObjectRef) (data : Bytes) (view : PreparedUtf8) (value : α)
      (hready : Ready captured artifact)
      (hsource : store.Holds captured.source.objectRef view.text.bytes)
      (hprepared : store.Holds artifact data) (hvisit : visit artifact view = .ok value) :
      Visited store captured visit (.inr value)

theorem visitRepresentation_eq_ok {α : Type}
    {visit : ObjectRef → PreparedUtf8 → Except QueryFailure α} {result : RepresentationGap ⊕ α}
    (hvisited : visitRepresentation store env captured visit = .ok result) :
    Visited store captured visit result := by
  rw [visitRepresentation] at hvisited
  simp only [bind_eq_ok, okOr_eq_ok] at hvisited
  obtain ⟨_, -, outcome, houtcome, hvisited⟩ := hvisited
  split at hvisited
  · rename_i reason hreason
    obtain rfl := Except.ok.inj hvisited
    exact .unprepared ⟨outcome, houtcome, reason, hreason⟩
  · rename_i artifact hartifact
    have hready : Ready captured artifact := ⟨outcome, houtcome, hartifact⟩
    obtain ⟨source, hsource, hvisited⟩ := bind_eq_ok.mp hvisited
    have hsource := readRetained_eq_ok hsource
    cases source with
    | none =>
        obtain rfl := Except.ok.inj hvisited
        exact .sourceMissing artifact hready hsource
    | some source =>
        obtain ⟨data, hdata, hvisited⟩ := bind_eq_ok.mp hvisited
        have hdata := readRetained_eq_ok hdata
        cases data with
        | none =>
            obtain rfl := Except.ok.inj hvisited
            exact .preparedMissing artifact source hready hsource hdata
        | some data =>
            simp only [bind_eq_ok, refuse_eq_ok, not_not, pure_eq_ok, Except.ok.injEq] at hvisited
            obtain ⟨view, -, _, htext, _, -, value, hvalue, rfl⟩ := hvisited
            exact .present artifact data view value hready (htext ▸ hsource) hdata hvalue

/-- What is known of a source whose scan succeeds. -/
inductive Shown (store : Store) (captured : CapturedSource) : Prop where
  | unprepared (hunprepared : Unprepared captured)
  | sourceMissing (artifact : ObjectRef) (hready : Ready captured artifact)
      (hsource : store.Lacks captured.source.objectRef)
  | preparedMissing (artifact : ObjectRef) (bytes : Bytes) (hready : Ready captured artifact)
      (hsource : store.Holds captured.source.objectRef bytes) (hprepared : store.Lacks artifact)
  | present (artifact : ObjectRef) (text : Text) (data : Bytes) (hready : Ready captured artifact)
      (hsource : store.Holds captured.source.objectRef text.bytes)
      (hprepared : store.Holds artifact data)

theorem scanSource_shown {compiled : Literal} {limit : Nat} {result next : DecodedUtf8Result}
    (hscan : scanSource store compiled limit env captured result = .ok next) :
    Shown store captured := by
  obtain ⟨visited, hvisited, -⟩ := bind_eq_ok.mp hscan
  cases visitRepresentation_eq_ok hvisited with
  | unprepared hunprepared => exact .unprepared hunprepared
  | sourceMissing artifact hready hsource => exact .sourceMissing artifact hready hsource
  | preparedMissing artifact bytes hready hsource hprepared =>
      exact .preparedMissing artifact bytes hready hsource hprepared
  | present artifact data view value hready hsource hprepared hvisit =>
      exact .present artifact view.text data hready hsource hprepared

theorem missing_eq (source : RawSourceRef) (artifact : Option ObjectRef) (code : FailureCode) :
    missing source ⟨artifact, code.text⟩ = .ok (.gap ⟨source, artifact.map objectRef, code⟩) := by
  rw [missing, failureCode_ok, ok_bind, pure_eq_ok]

/-- What a scan that succeeds adds. -/
theorem scanSource_eq_ok {compiled : Literal} {limit : Nat}
    {reports : List (Report DecodedUtf8Item)} {result next : DecodedUtf8Result}
    (hbytes : compiled.bytes = literal.bytes) (haccounts : Accounts limit reports result)
    (hcountable : Countable (reports ++ [report store literal captured]))
    (hscan : scanSource store compiled limit env captured result = .ok next) :
    next = result.add limit (report store literal captured) := by
  have hliteral : literal.bytes ≠ [] := hbytes ▸ compiled.nonempty
  obtain ⟨visited, hvisited, hscan⟩ := bind_eq_ok.mp hscan
  cases visitRepresentation_eq_ok hvisited with
  | unprepared hunprepared =>
      rw [report_unprepared hunprepared]
      exact Except.ok.inj (hscan.symm.trans
        (addGap_ok (missing_eq _ none preparationGap) haccounts))
  | sourceMissing artifact hready hsource =>
      rw [report_sourceMissing hready hsource]
      exact Except.ok.inj (hscan.symm.trans
        (addGap_ok (missing_eq _ (some artifact) sourceMissing) haccounts))
  | preparedMissing artifact bytes hready hsource hprepared =>
      rw [report_preparedMissing hready hsource hprepared]
      exact Except.ok.inj (hscan.symm.trans
        (addGap_ok (missing_eq _ (some artifact) preparedMissing) haccounts))
  | present artifact data view value hready hsource hprepared hvisit =>
      obtain rfl := Except.ok.inj hscan
      rw [report_present hready hsource hprepared, ← hbytes] at hcountable ⊢
      refine scanned_eq_ok (fun start hstart => ?_) haccounts hcountable hvisit
      rw [hbytes] at hstart ⊢
      exact found_eq hliteral hstart

/-! ## The reports -/

theorem Shown.bounded (hreadable : ReadableRecord captured.source)
    (hshown : Shown store captured) :
    (report store literal captured).found ≤ (report store literal captured).bytes ∧
      (report store literal captured).bytes ≤ maxSourceObjectBytes.toNat := by
  obtain ⟨-, -, -, -, hbound⟩ := hreadable
  cases hshown with
  | unprepared hunprepared =>
      rw [report_unprepared hunprepared]
      exact ⟨Nat.le_refl 0, Nat.zero_le _⟩
  | sourceMissing artifact hready hsource =>
      rw [report_sourceMissing hready hsource]
      exact ⟨Nat.le_refl 0, Nat.zero_le _⟩
  | preparedMissing artifact bytes hready hsource hprepared =>
      rw [report_preparedMissing hready hsource hprepared]
      exact ⟨Nat.le_refl 0, Nat.zero_le _⟩
  | present artifact text data hready hsource hprepared =>
      rw [report_present hready hsource hprepared]
      have hcount := Patterns.occurrences_length_le literal.bytes text.bytes
      rw [hsource.length] at hcount
      refine ⟨?_, UInt64.le_iff_toNat_le.mp hbound⟩
      rw [Report.found, List.length_map]
      exact hcount

/-- An item of a report: a gap with its own code, or an occurrence in the text. -/
inductive Told (store : Store) (literal : Text) (captured : CapturedSource) :
    Bool → DecodedUtf8Item → Prop where
  | unprepared : Told store literal captured true
      (.gap ⟨sourceRef captured.source, none, preparationGap⟩)
  | missing (artifact : ObjectRef) (code : FailureCode) (hready : Ready captured artifact)
      (hcode : code = sourceMissing ∨ code = preparedMissing) :
      Told store literal captured true
        (.gap ⟨sourceRef captured.source, some (objectRef artifact), code⟩)
  | hit (artifact : ObjectRef) (text : Text) (start : Nat) (hready : Ready captured artifact)
      (hsource : store.Holds captured.source.objectRef text.bytes)
      (hstart : start ∈ Patterns.occurrences literal.bytes text.bytes) :
      Told store literal captured false (hitAt captured.source artifact literal start)

theorem Shown.told (hshown : Shown store captured) :
    ∀ item ∈ (report store literal captured).items, ∃ gap,
      (report store literal captured).isGap = gap ∧ Told store literal captured gap item := by
  cases hshown with
  | unprepared hunprepared =>
      rw [report_unprepared hunprepared]
      exact List.forall_mem_singleton.mpr ⟨_, rfl, .unprepared⟩
  | sourceMissing artifact hready hsource =>
      rw [report_sourceMissing hready hsource]
      exact List.forall_mem_singleton.mpr ⟨_, rfl, .missing artifact _ hready (Or.inl rfl)⟩
  | preparedMissing artifact bytes hready hsource hprepared =>
      rw [report_preparedMissing hready hsource hprepared]
      exact List.forall_mem_singleton.mpr ⟨_, rfl, .missing artifact _ hready (Or.inr rfl)⟩
  | present artifact text data hready hsource hprepared =>
      rw [report_present hready hsource hprepared]
      intro item hmem
      obtain ⟨start, hstart, rfl⟩ := List.mem_map.mp hmem
      exact ⟨_, rfl, .hit artifact text start hready hsource hstart⟩

/-- The items of a report carry its source. -/
theorem Shown.source (hshown : Shown store captured) :
    ∀ item ∈ (report store literal captured).items, item.source = sourceRef captured.source := by
  intro item hmem
  obtain ⟨gap, -, htold⟩ := hshown.told item hmem
  cases htold with
  | unprepared => rfl
  | missing artifact code hready hcode => rfl
  | hit artifact text start hready hsource hstart => rfl

/-- The items of a report follow each other. -/
theorem Shown.ordered (hliteral : literal.bytes ≠ []) (hshown : Shown store captured) :
    (report store literal captured).items.Pairwise fun first second =>
      first.follows second = true := by
  cases hshown with
  | unprepared hunprepared =>
      rw [report_unprepared hunprepared]
      exact List.pairwise_singleton _ _
  | sourceMissing artifact hready hsource =>
      rw [report_sourceMissing hready hsource]
      exact List.pairwise_singleton _ _
  | preparedMissing artifact bytes hready hsource hprepared =>
      rw [report_preparedMissing hready hsource hprepared]
      exact List.pairwise_singleton _ _
  | present artifact text data hready hsource hprepared =>
      rw [report_present hready hsource hprepared]
      refine List.pairwise_map.mpr ((Patterns.occurrences_sorted _ _).imp_of_mem ?_)
      intro first second hfirst hsecond hless
      have hleft := Patterns.occurrence_within hliteral hfirst
      have hright := Patterns.occurrence_within hliteral hsecond
      refine decide_eq_true ⟨rfl, ?_⟩
      rw [UInt64.lt_iff_toNat_lt,
        RawExact.toNat_ofNat_start hsource.length (Nat.le_of_add_right_le hleft),
        RawExact.toNat_ofNat_start hsource.length (Nat.le_of_add_right_le hright)]
      exact hless

end Scanning

theorem reports_countable {store : Store} {literal : Text} {sources : List CapturedSource}
    (hinventory : Inventory sources) (hshown : ∀ captured ∈ sources, Shown store captured) :
    Countable (sources.map (report store literal)) := by
  refine countable_map hinventory.bounded fun captured hmem => ?_
  exact (hshown captured hmem).bounded (hinventory.coherent captured hmem).readable

/-- The accounts of a decoded search that succeeds are those of the selected
sources. -/
theorem execute_eq_ok {env : Env} {view : PublishedView} {store : Store}
    {inventory : List CapturedSource} {request : DecodedUtf8Request} {result : DecodedUtf8Result}
    (hinventory : view.sourceInventory (within env 2) = .ok inventory)
    (hresult : execute store env view request = .ok result) :
    (∀ captured ∈ selection request.sourceIds inventory, Shown store captured) ∧
      Exhaustive request.limit.toNat view.generation.sequence
        ((selection request.sourceIds inventory).map (report store request.literal)) result ∧
      DecodedUtf8Result.validateRequest request result = .ok () := by
  have hselected := (inventory_of_view hinventory).sublist
    (selection_sublist request.sourceIds inventory)
  obtain ⟨literal, found, last, -, -, hfound, -, hlast, -⟩ := executeWith_eq_ok hresult
  obtain rfl := Except.ok.inj (hfound.symm.trans hinventory)
  have hshown : ∀ captured ∈ selection request.sourceIds found, Shown store captured := by
    intro captured hmem
    obtain ⟨_, _, _, hscan⟩ := scanSources_each hlast captured hmem
    exact scanSource_shown hscan
  refine ⟨hshown, executeWith_exhaustive hresult hinventory (reports_countable hselected hshown) ?_⟩
  intro literal hliteral captured hmem env reports result next haccounts hcountable hscan
  exact scanSource_eq_ok hliteral haccounts hcountable hscan

/-! ## Searches that succeed -/

/-- The source is a gap, or its representation is available. -/
structure Settled (store : Store) (captured : CapturedSource) : Prop where
  shown : Shown store captured
  bounded : ∀ artifact, Ready captured artifact → artifact.byteLength ≤ maxArtifactBytes
  accepted : ∀ artifact bytes data, Ready captured artifact →
    store.Holds captured.source.objectRef bytes → store.Holds artifact data →
    ∃ text : Text, text.bytes = bytes ∧ Available store captured artifact text

section Succeeding

variable {store : Store} {literal : Text} {captured : CapturedSource} {artifact : ObjectRef}

/-- The artifact of a coherent capture is a prepared object. -/
theorem Ready.valid (hready : Ready captured artifact) (hcoherent : captured.Coherent) :
    ValidObject artifact .prepared := by
  obtain ⟨outcome, houtcome, hresult⟩ := hready
  have hvalid := hcoherent.valid
  simp only [CurrentPreparation.validate, Option.mem_def.mp houtcome, bind_eq_ok, refuse_eq_ok,
    hresult, not_not] at hvalid
  obtain ⟨_, -, _, -, hvalid⟩ := hvalid
  exact hvalid

theorem Ready.admissible (hready : Ready captured artifact) (hcoherent : captured.Coherent)
    (hbound : artifact.byteLength ≤ maxArtifactBytes) : Admissible artifact maxArtifactBytes := by
  obtain ⟨hkind, hversion, -, -⟩ := hready.valid hcoherent
  refine ⟨hversion, by decide, hbound, fun hsource => ?_⟩
  rw [hkind] at hsource
  cases hsource

theorem Ready.reference_valid (hready : Ready captured artifact) (hcoherent : captured.Coherent)
    (hbound : artifact.byteLength ≤ maxArtifactBytes) :
    (objectRef artifact).validate .prepared = .ok () := by
  obtain ⟨hkind, hversion, -, hsome⟩ := hready.valid hcoherent
  refine objectRef_valid hversion (by rw [hkind]; rfl) hbound fun _ hempty => ?_
  rcases hsome with hother | hpositive
  · exact hother rfl
  · rw [hempty] at hpositive
    exact absurd hpositive (UInt64.lt_irrefl 0)

theorem gap_valid {code : FailureCode} (hsource : (sourceRef captured.source).validate = .ok ())
    (hprepared : (objectRef artifact).validate .prepared = .ok ())
    (hcode : code.text = ascii "SOURCE_OBJECT_MISSING" ∨
      code.text = ascii "PREPARED_OBJECT_MISSING") :
    (DecodedUtf8Item.gap ⟨sourceRef captured.source, some (objectRef artifact), code⟩).validate =
      .ok () := by
  have hguard : ¬ (code.text ≠ ascii "SOURCE_OBJECT_MISSING" ∧
      code.text ≠ ascii "PREPARED_OBJECT_MISSING") := fun hboth => hcode.elim hboth.1 hboth.2
  change ((sourceRef captured.source).validate >>= fun _ => refuse _ _ >>= fun _ => _) = _
  rw [hsource, ok_bind, refuse_of_not hguard, ok_bind]
  exact hprepared

theorem hit_valid {text : Text} {start : Nat}
    (hsource : (sourceRef captured.source).validate = .ok ())
    (hprepared : (objectRef artifact).validate .prepared = .ok ()) (hliteral : literal.bytes ≠ [])
    (hbound : literal.bytes.length ≤ maxQueryBytes)
    (hlength : text.bytes.length = captured.source.objectRef.byteLength.toNat)
    (hstart : start ∈ Patterns.occurrences literal.bytes text.bytes) :
    (hitAt captured.source artifact literal start).validate = .ok () := by
  obtain ⟨hless, hstop, hwidth⟩ := RawExact.hit_width hliteral hlength hstart
  change ((sourceRef captured.source).validate >>= fun _ =>
    (objectRef artifact).validate .prepared >>= fun _ => refuse _ _) = _
  rw [hsource, ok_bind, hprepared, ok_bind]
  refine refuse_of_not ?_
  dsimp only
  rw [hwidth]
  rintro (hbad | hbad | hbad | hbad | hbad | hbad)
  · exact absurd hless (UInt64.not_lt.mpr hbad)
  · exact hbad rfl
  · exact hbad rfl
  · exact absurd hstop (UInt64.not_le.mpr hbad)
  · exact absurd hbound (not_le.mpr hbad)
  · exact hbad rfl

/-- The report of a settled source is honest. -/
theorem report_honest (hcoherent : captured.Coherent) (hnamed : Named captured.source)
    (hliteral : literal.bytes ≠ []) (hbound : literal.bytes.length ≤ maxQueryBytes)
    (hsettled : Settled store captured) :
    (report store literal captured).Honest decodedKind literal (sourceRef captured.source) := by
  have hshown := hsettled.shown
  have hsource := sourceRef_valid hcoherent.readable hnamed
  have hreference (artifact : ObjectRef) (hready : Ready captured artifact) :=
    hready.reference_valid hcoherent (hsettled.bounded artifact hready)
  refine ⟨hshown.source, fun item hmem => ?_, fun item hmem => ?_, fun item hmem => ?_,
    hshown.ordered hliteral⟩
  · obtain ⟨gap, -, htold⟩ := hshown.told item hmem
    cases htold with
    | unprepared =>
        change ((sourceRef captured.source).validate >>= _) = _
        rw [hsource]
        rfl
    | missing artifact code hready hcode =>
        refine gap_valid hsource (hreference artifact hready) ?_
        rcases hcode with rfl | rfl
        · exact Or.inl rfl
        · exact Or.inr rfl
    | hit artifact text start hready hholds hstart =>
        exact hit_valid hsource (hreference artifact hready) hliteral hbound hholds.length hstart
  · obtain ⟨gap, -, htold⟩ := hshown.told item hmem
    cases htold with
    | unprepared => rfl
    | missing artifact code hready hcode => rfl
    | hit artifact text start hready hholds hstart => exact decide_eq_true rfl
  · obtain ⟨gap, hgap, htold⟩ := hshown.told item hmem
    rw [hgap]
    cases htold with
    | unprepared => rfl
    | missing artifact code hready hcode => rfl
    | hit artifact text start hready hholds hstart => rfl

theorem readRetained_holds {env : Env} {reference : ObjectRef} {maximum : UInt64} {bytes : Bytes}
    (hquiet : Undisturbed env) (hreference : Admissible reference maximum)
    (hholds : store.Holds reference bytes) :
    readRetained store env reference maximum = .ok (some bytes) := by
  rw [readRetained, readObject_holds hquiet hreference hholds]

theorem readRetained_lacks {env : Env} {reference : ObjectRef} {maximum : UInt64}
    (hquiet : Undisturbed env) (hreference : Admissible reference maximum)
    (hlacks : store.Lacks reference) : readRetained store env reference maximum = .ok none := by
  rw [readRetained, readObject_lacks hquiet hreference hlacks]

/-- The representation of a settled source is visited, or its gap is named. -/
theorem visitRepresentation_settled {α : Type} {env : Env}
    {visit : ObjectRef → PreparedUtf8 → Except QueryFailure α} (hquiet : Undisturbed env)
    (hcoherent : captured.Coherent) (hsettled : Settled store captured)
    (hvisit : ∀ artifact view, Available store captured artifact view.text →
      ∃ value, visit artifact view = .ok value) :
    ∃ result, visitRepresentation store env captured visit = .ok result := by
  have hsource := RawExact.admissible_of_readable hcoherent.readable
  rw [visitRepresentation, check_ok (hquiet.within 0), ok_bind]
  cases hsettled.shown with
  | unprepared hunprepared =>
      obtain ⟨outcome, houtcome, reason, hreason⟩ := hunprepared
      rw [Option.mem_def.mp houtcome, okOr_some, ok_bind, hreason]
      exact ⟨_, rfl⟩
  | sourceMissing artifact hready hlacks =>
      obtain ⟨outcome, houtcome, hartifact⟩ := hready
      rw [Option.mem_def.mp houtcome, okOr_some, ok_bind, hartifact]
      dsimp only
      rw [readRetained_lacks (hquiet.within 1) hsource hlacks, ok_bind]
      exact ⟨_, rfl⟩
  | preparedMissing artifact bytes hready hholds hlacks =>
      have hadmissible := hready.admissible hcoherent (hsettled.bounded artifact hready)
      obtain ⟨outcome, houtcome, hartifact⟩ := hready
      rw [Option.mem_def.mp houtcome, okOr_some, ok_bind, hartifact]
      dsimp only
      rw [readRetained_holds (hquiet.within 1) hsource hholds, ok_bind]
      dsimp only
      rw [readRetained_lacks (hquiet.within 2) hadmissible hlacks, ok_bind]
      exact ⟨_, rfl⟩
  | present artifact text data hready hholds hprepared =>
      have hadmissible := hready.admissible hcoherent (hsettled.bounded artifact hready)
      obtain ⟨saved, htext, havailable⟩ :=
        hsettled.accepted artifact text.bytes data hready hholds hprepared
      obtain ⟨other, hother, haccepted⟩ := havailable.prepared
      obtain rfl := hother.unique hprepared
      obtain ⟨view, hview, rfl⟩ := haccepted (within env 3) (hquiet.within 3)
      obtain ⟨value, hvalue⟩ := hvisit artifact view havailable
      obtain ⟨outcome, houtcome, hartifact⟩ := hready
      rw [Option.mem_def.mp houtcome, okOr_some, ok_bind, hartifact]
      dsimp only
      rw [readRetained_holds (hquiet.within 1) hsource hholds, ok_bind]
      dsimp only
      rw [readRetained_holds (hquiet.within 2) hadmissible hprepared, ok_bind]
      dsimp only
      rw [mapError_eq_ok.mpr hview, ok_bind, refuse_of_not (not_not.mpr htext), ok_bind,
        check_ok (hquiet.within 4), ok_bind, hvalue, ok_bind]
      exact ⟨_, rfl⟩

/-- The scan of a settled source adds its report. -/
theorem scanSource_ok {compiled : Literal} {limit : Nat} {env : Env}
    {reports : List (Report DecodedUtf8Item)} {result : DecodedUtf8Result}
    (hbytes : compiled.bytes = literal.bytes) (hquiet : Undisturbed env)
    (hcoherent : captured.Coherent) (hsettled : Settled store captured)
    (haccounts : Accounts limit reports result)
    (hcountable : Countable (reports ++ [report store literal captured])) :
    scanSource store compiled limit env captured result =
      .ok (result.add limit (report store literal captured)) := by
  have hliteral : literal.bytes ≠ [] := hbytes ▸ compiled.nonempty
  have hvisit (artifact : ObjectRef) (view : PreparedUtf8)
      (havailable : Available store captured artifact view.text) :
      ∃ value, scanView compiled limit (within env 1) captured result artifact view =
        .ok value := by
    obtain ⟨data, hdata, -⟩ := havailable.prepared
    rw [report_present havailable.ready havailable.source hdata, ← hbytes] at hcountable
    refine ⟨_, scanned_ok (hquiet.within 1) (fun start hstart => ?_) haccounts hcountable⟩
    rw [hbytes] at hstart ⊢
    exact found_eq hliteral hstart
  obtain ⟨visited, hvisited⟩ :=
    visitRepresentation_settled (hquiet.within 0) hcoherent hsettled hvisit
  have hscanned : ∃ next, scanSource store compiled limit env captured result = .ok next := by
    rw [scanSource, hvisited, ok_bind]
    cases visitRepresentation_eq_ok hvisited with
    | unprepared hunprepared => exact ⟨_, addGap_ok (missing_eq _ none preparationGap) haccounts⟩
    | sourceMissing artifact hready hsource =>
        exact ⟨_, addGap_ok (missing_eq _ (some artifact) sourceMissing) haccounts⟩
    | preparedMissing artifact bytes hready hsource hprepared =>
        exact ⟨_, addGap_ok (missing_eq _ (some artifact) preparedMissing) haccounts⟩
    | present artifact data view value hready hsource hprepared hvisit => exact ⟨_, rfl⟩
  obtain ⟨next, hnext⟩ := hscanned
  rw [hnext, scanSource_eq_ok hbytes haccounts hcountable hnext]

end Succeeding

/-- A decoded search whose selected sources are settled succeeds. -/
theorem execute_ok {env pinning reading : Env} {db : Db} {view : PublishedView} {store : Store}
    {inventory : List CapturedSource} {request : DecodedUtf8Request} (hquiet : Undisturbed env)
    (hpinned : pinPublished pinning db = .ok view)
    (hinventory : view.sourceInventory reading = .ok inventory)
    (hnamed : ∀ captured ∈ inventory, Named captured.source)
    (hrequest : request.validate = .ok ()) (hpublished : Published request.sourceIds inventory)
    (hstore : ∀ captured ∈ selection request.sourceIds inventory, Settled store captured) :
    ∃ result, execute store env view request = .ok result := by
  have hselected := (inventory_of_view hinventory).sublist
    (selection_sublist request.sourceIds inventory)
  obtain ⟨hliteral, hbound, -, -, -⟩ := LiteralRequest.valid_of_validate hrequest
  have hhonest : ∀ captured ∈ selection request.sourceIds inventory,
      (report store request.literal captured).Honest decodedKind request.literal
        (sourceRef captured.source) := by
    intro captured hmem
    exact report_honest (hselected.coherent captured hmem)
      (hnamed captured ((selection_sublist _ _).subset hmem)) hliteral hbound (hstore captured hmem)
  obtain ⟨result, hresult, -⟩ := executeWith_ok hquiet (pinned_sequence hpinned) hinventory hrequest
    hpublished hhonest
    (reports_countable hselected fun captured hmem => (hstore captured hmem).shown)
    fun literal hbytes captured hmem env reports result hquiet haccounts hcountable =>
      scanSource_ok hbytes hquiet (hselected.coherent captured hmem) (hstore captured hmem)
        haccounts hcountable
  exact ⟨result, hresult⟩

/-! ## No range is invalid -/

section Ranges

variable {store : Store} {literal : Text} {captured : CapturedSource} {env : Env}

theorem check_ne_range (site : Nat) : check env site ≠ .error rangeInvalid := by
  intro hfailed
  rcases checkWith_eq_error hfailed with hother | hother
  · cases hother
  · cases hother

theorem readRetained_ne_range {reference : ObjectRef} {maximum : UInt64} :
    readRetained store env reference maximum ≠ .error rangeInvalid := by
  unfold readRetained
  split
  · rintro ⟨⟩
  · rintro ⟨⟩
  · rename_i error _ hread
    intro hfailed
    have hcode := Except.error.inj hfailed
    revert hcode
    cases error <;> decide

theorem keep_ne_range {limit : Nat} {build : Except QueryFailure DecodedUtf8Item}
    {item : DecodedUtf8Item} {result : DecodedUtf8Result} (hbuild : build = .ok item) :
    ExactResult.keep limit build result ≠ .error rangeInvalid := by
  rw [hbuild, ExactResult.keep]
  split
  · rintro ⟨⟩
  · rintro ⟨⟩

theorem new_ne_range {bytes : Bytes} : Literal.new env bytes ≠ .error rangeInvalid := by
  intro hfailed
  unfold Literal.new at hfailed
  rcases bind_eq_error.mp hfailed with hcheck | ⟨_, -, hfailed⟩
  · exact check_ne_range 0 hcheck
  split at hfailed
  · have hcode := Except.error.inj hfailed
    revert hcode
    decide
  · rcases bind_eq_error.mp hfailed with hcheck | ⟨_, -, hdone⟩
    · exact check_ne_range 1 hcheck
    · cases hdone

theorem selectIds_ne_range {inventory : List CapturedSource} {site : Nat} {ids : List Bytes} :
    selectIds env inventory site ids ≠ .error rangeInvalid := by
  induction ids generalizing site with
  | nil => rintro ⟨⟩
  | cons id ids ih =>
      intro hfailed
      rcases bind_eq_error.mp hfailed with hcheck | ⟨_, -, hfailed⟩
      · exact check_ne_range site hcheck
      rcases bind_eq_error.mp hfailed with hparse | ⟨_, -, hfailed⟩
      · have hcode := (okOr_eq_error.mp hparse).2
        revert hcode
        decide
      rcases bind_eq_error.mp hfailed with hpresent | ⟨_, -, hfailed⟩
      · have hcode := (refuse_eq_error.mp hpresent).2
        revert hcode
        decide
      rcases bind_eq_error.mp hfailed with hrest | ⟨_, -, hdone⟩
      · exact ih hrest
      · cases hdone

theorem selectSources_ne_range {inventory : List CapturedSource} {ids : Option (List Bytes)} :
    selectSources env inventory ids ≠ .error rangeInvalid := by
  intro hfailed
  cases ids with
  | none =>
      rcases bind_eq_error.mp hfailed with hcheck | ⟨_, -, hdone⟩
      · exact check_ne_range 0 hcheck
      · cases hdone
  | some ids =>
      rcases bind_eq_error.mp hfailed with hselect | ⟨_, -, hfailed⟩
      · exact selectIds_ne_range hselect
      rcases bind_eq_error.mp hfailed with hcheck | ⟨_, -, hdone⟩
      · exact check_ne_range ids.length hcheck
      · cases hdone

/-- A scan of a text visits ranges of the text only. -/
theorem scanView_ne_range {compiled : Literal} {limit : Nat} {result : DecodedUtf8Result}
    {artifact : ObjectRef} {view : PreparedUtf8} (hbytes : compiled.bytes = literal.bytes) :
    scanView compiled limit env captured result artifact view ≠ .error rangeInvalid := by
  have hliteral : literal.bytes ≠ [] := hbytes ▸ compiled.nonempty
  have hlimit : inputLimit ≠ rangeInvalid := by decide
  intro hfailed
  rcases bind_eq_error.mp hfailed with hscan | ⟨scanned, -, hfinish⟩
  · rcases Literal.scan_eq_error hscan with ⟨site, hcheck⟩ | ⟨start, hstart, state, hvisit⟩
    · exact check_ne_range site hcheck
    · rw [hbytes] at hstart hvisit
      rcases bind_eq_error.mp hvisit with hcount | ⟨_, -, hkeep⟩
      · exact hlimit (okOr_eq_error.mp hcount).2
      · exact keep_ne_range (found_eq hliteral hstart) hkeep
  · rcases bind_eq_error.mp hfinish with hcount | ⟨_, -, hdone⟩
    · exact hlimit (okOr_eq_error.mp hcount).2
    · cases hdone

theorem visitRepresentation_ne_range {α : Type}
    {visit : ObjectRef → PreparedUtf8 → Except QueryFailure α}
    (hvisit : ∀ artifact view, visit artifact view ≠ .error rangeInvalid) :
    visitRepresentation store env captured visit ≠ .error rangeInvalid := by
  intro hfailed
  rcases bind_eq_error.mp hfailed with hcheck | ⟨_, -, hfailed⟩
  · exact check_ne_range 0 hcheck
  rcases bind_eq_error.mp hfailed with houtcome | ⟨outcome, -, hfailed⟩
  · have hcode := (okOr_eq_error.mp houtcome).2
    revert hcode
    decide
  split at hfailed
  · cases hfailed
  rcases bind_eq_error.mp hfailed with hread | ⟨source, -, hfailed⟩
  · exact readRetained_ne_range hread
  cases source with
  | none => cases hfailed
  | some source =>
      rcases bind_eq_error.mp hfailed with hread | ⟨data, -, hfailed⟩
      · exact readRetained_ne_range hread
      cases data with
      | none => cases hfailed
      | some data =>
          rcases bind_eq_error.mp hfailed with hdecode | ⟨view, -, hfailed⟩
          · obtain ⟨error, -, hcode⟩ := mapError_eq_error.mp hdecode
            revert hcode
            cases error <;> decide
          rcases bind_eq_error.mp hfailed with htext | ⟨_, -, hfailed⟩
          · have hcode := (refuse_eq_error.mp htext).2
            revert hcode
            decide
          rcases bind_eq_error.mp hfailed with hcheck | ⟨_, -, hfailed⟩
          · exact check_ne_range 0 hcheck
          rcases bind_eq_error.mp hfailed with hvisited | ⟨_, -, hdone⟩
          · exact hvisit _ _ hvisited
          · cases hdone

theorem scanSource_ne_range {compiled : Literal} {limit : Nat} {result : DecodedUtf8Result}
    (hbytes : compiled.bytes = literal.bytes) :
    scanSource store compiled limit env captured result ≠ .error rangeInvalid := by
  intro hfailed
  rcases bind_eq_error.mp hfailed with hvisit | ⟨visited, hvisited, hrest⟩
  · exact visitRepresentation_ne_range (fun _ _ => scanView_ne_range hbytes) hvisit
  · cases visitRepresentation_eq_ok hvisited with
    | unprepared hunprepared => exact keep_ne_range (missing_eq _ none preparationGap) hrest
    | sourceMissing artifact hready hsource =>
        exact keep_ne_range (missing_eq _ (some artifact) sourceMissing) hrest
    | preparedMissing artifact bytes hready hsource hprepared =>
        exact keep_ne_range (missing_eq _ (some artifact) preparedMissing) hrest
    | present artifact data view value hready hsource hprepared hvisit => cases hrest

end Ranges

/-- No search meets an invalid range. -/
theorem execute_ne_range {store : Store} {env : Env} {view : PublishedView}
    {request : DecodedUtf8Request} : execute store env view request ≠ .error rangeInvalid := by
  have hprotocol (error : ProtocolError) : QueryFailure.code error.code ≠ rangeInvalid := by
    cases error <;> decide
  have hlimit : inputLimit ≠ rangeInvalid := by decide
  intro hfailed
  rcases bind_eq_error.mp hfailed with hcheck | ⟨_, -, hfailed⟩
  · exact check_ne_range 0 hcheck
  rcases bind_eq_error.mp hfailed with hrequest | ⟨_, -, hfailed⟩
  · obtain ⟨error, -, hcode⟩ := mapError_eq_error.mp hrequest
    exact hprotocol error hcode
  rcases bind_eq_error.mp hfailed with hliteral | ⟨compiled, hliteral, hfailed⟩
  · exact new_ne_range hliteral
  rcases bind_eq_error.mp hfailed with hinventory | ⟨inventory, -, hfailed⟩
  · obtain ⟨error, -, hcode⟩ := mapError_eq_error.mp hinventory
    revert hcode
    cases error <;> decide
  rcases bind_eq_error.mp hfailed with hselect | ⟨sources, -, hfailed⟩
  · exact selectSources_ne_range hselect
  rcases bind_eq_error.mp hfailed with hscan | ⟨last, -, hfailed⟩
  · obtain ⟨_, _, _, hsource⟩ := scanSources_eq_error hscan
    exact scanSource_ne_range (Literal.new_eq_ok hliteral) hsource
  rcases bind_eq_error.mp hfailed with hcheck | ⟨_, -, hfailed⟩
  · exact check_ne_range 5 hcheck
  rcases bind_eq_error.mp hfailed with hcount | ⟨total, -, hfailed⟩
  · exact hlimit (okOr_eq_error.mp hcount).2
  rcases bind_eq_error.mp hfailed with hvalid | ⟨_, -, hdone⟩
  · obtain ⟨error, -, hcode⟩ := mapError_eq_error.mp hvalid
    exact hprotocol error hcode
  · cases hdone

/-! ## Agreement with the raw search -/

/-- The source and the range of an occurrence. -/
def rawPlace : RawExactItem → Option (RawSourceRef × UInt64 × UInt64)
  | .matched hit => some (hit.source, hit.start, hit.stop)
  | .gap _ => none

/-- The source and the range of an occurrence, in the representation. -/
def place : DecodedUtf8Item → Option (RawSourceRef × UInt64 × UInt64)
  | .matched hit => some (hit.source, hit.representationStart, hit.representationEnd)
  | .gap _ => none

/-- An occurrence starts and ends between two scalars. -/
def OnBoundaries (bytes : Bytes) : DecodedUtf8Item → Prop
  | .matched hit => IsBoundary bytes hit.representationStart.toNat ∧
      IsBoundary bytes hit.representationEnd.toNat
  | .gap _ => True

/-- Both objects of the source are present. -/
def Present (store : Store) (captured : CapturedSource) : Prop :=
  ∃ artifact bytes data, Ready captured artifact ∧
    store.Holds captured.source.objectRef bytes ∧ store.Holds artifact data

/-- What the report about a source is, whatever the source is. -/
structure Agrees (store : Store) (literal : Text) (captured : CapturedSource) : Prop where
  present : ∀ bytes, Present store captured → store.Holds captured.source.objectRef bytes →
    Valid bytes ∧ (report store literal captured).isGap = false ∧
      (report store literal captured).items.map place =
        (RawExact.report store literal.bytes captured).items.map rawPlace ∧
      ∀ item ∈ (report store literal captured).items, OnBoundaries bytes item
  unprepared : Unprepared captured →
    report store literal captured = gapOf captured none preparationGap
  sourceMissing : ∀ artifact, Ready captured artifact →
    store.Lacks captured.source.objectRef →
    report store literal captured = gapOf captured (some artifact) sourceMissing
  preparedMissing : ∀ artifact bytes, Ready captured artifact →
    store.Holds captured.source.objectRef bytes → store.Lacks artifact →
    report store literal captured = gapOf captured (some artifact) preparedMissing

section Agreement

variable {store : Store} {literal : Text} {captured : CapturedSource}

theorem Ready.unique {first second : ObjectRef} (hfirst : Ready captured first)
    (hsecond : Ready captured second) : first = second := by
  have hsame := hfirst.outcome.symm.trans hsecond.outcome
  exact PreparationOutcome.ready.inj (Option.some.inj hsame)

/-- A source whose objects are present shows its text. -/
theorem Shown.text (hshown : Shown store captured) (hpresent : Present store captured) :
    ∃ (artifact : ObjectRef) (text : Text) (data : Bytes), Ready captured artifact ∧
      store.Holds captured.source.objectRef text.bytes ∧ store.Holds artifact data := by
  obtain ⟨artifact, bytes, data, hready, hsource, hprepared⟩ := hpresent
  cases hshown with
  | unprepared hunprepared =>
      obtain ⟨outcome, houtcome, reason, hreason⟩ := hunprepared
      obtain ⟨other, hother, hresult⟩ := hready
      obtain rfl := Option.mem_unique houtcome hother
      cases hreason.symm.trans hresult
  | sourceMissing _ _ hlacks => exact absurd hlacks hsource.not_lacks
  | preparedMissing other _ hother _ hlacks =>
      obtain rfl := hready.unique hother
      exact absurd hlacks hprepared.not_lacks
  | present artifact text data hready hsource hprepared =>
      exact ⟨artifact, text, data, hready, hsource, hprepared⟩

/-- Occurrences are reported at the places where the raw search reports them. -/
theorem Shown.places (hshown : Shown store captured) (hpresent : Present store captured) :
    (report store literal captured).items.map place =
      (RawExact.report store literal.bytes captured).items.map rawPlace := by
  obtain ⟨artifact, text, data, hready, hsource, hprepared⟩ := hshown.text hpresent
  rw [report_present hready hsource hprepared, RawExact.report_holds hsource]
  simp only [Report.items, List.map_map]
  rfl

theorem Shown.agrees (hliteral : literal.bytes ≠ []) (hshown : Shown store captured) :
    Agrees store literal captured := by
  refine ⟨fun bytes hpresent hbytes => ?_, report_unprepared,
    fun artifact => report_sourceMissing, fun artifact bytes => report_preparedMissing⟩
  obtain ⟨artifact, text, data, hready, hsource, hprepared⟩ := hshown.text hpresent
  obtain rfl := hsource.unique hbytes
  refine ⟨text.valid, ?_, hshown.places hpresent, ?_⟩
  · rw [report_present hready hsource hprepared]
    rfl
  · rw [report_present hready hsource hprepared]
    intro item hmem
    obtain ⟨start, hstart, rfl⟩ := List.mem_map.mp hmem
    have hwithin := Patterns.occurrence_within hliteral hstart
    obtain ⟨hfirst, hlast⟩ := boundary_of_occurrence literal.valid hliteral text.valid
      ((Patterns.mem_occurrences hliteral).mp hstart)
    change IsBoundary text.bytes (UInt64.ofNat start).toNat ∧
      IsBoundary text.bytes (UInt64.ofNat (start + literal.bytes.length)).toNat
    rw [RawExact.toNat_ofNat_start hsource.length (Nat.le_of_add_right_le hwithin),
      RawExact.toNat_ofNat_start hsource.length hwithin]
    exact ⟨hfirst, hlast⟩

end Agreement

/-- The decoded search agrees with the raw one.  What it gives are the true accounts
of the selected sources: those of an available representation are scanned like
their source and the others are gaps of their own kind.  No range is invalid, and
the search succeeds when its sources are settled. -/
theorem execute_agrees (store : Store) (view : PublishedView) (request : DecodedUtf8Request) :
    (∀ env result, execute store env view request = .ok result →
      ∃ inventory, view.sourceInventory (within env 2) = .ok inventory ∧
        Published request.sourceIds inventory ∧
        let sources := selection request.sourceIds inventory
        let reports := sources.map (report store request.literal)
        Exhaustive request.limit.toNat view.generation.sequence reports result ∧
        (reports.flatMap Report.items).Pairwise decodedKind.InOrder ∧
        DecodedUtf8Result.validateRequest request result = .ok () ∧
        (∀ captured ∈ sources, Agrees store request.literal captured) ∧
        ∀ other raw, RawExact.execute store other view request = .ok raw →
          Exhaustive request.limit.toNat view.generation.sequence
            (sources.map (RawExact.report store request.literal.bytes)) raw ∧
          ((∀ captured ∈ sources, Present store captured) →
            result.items.map place = raw.items.map rawPlace)) ∧
    (∀ env, execute store env view request ≠ .error rangeInvalid) ∧
    (∀ env pinning reading db inventory, Undisturbed env →
      pinPublished pinning db = .ok view → view.sourceInventory reading = .ok inventory →
      (∀ captured ∈ inventory, Named captured.source) → request.validate = .ok () →
      Published request.sourceIds inventory →
      (∀ captured ∈ selection request.sourceIds inventory, Settled store captured) →
        ∃ result, execute store env view request = .ok result) := by
  refine ⟨fun env result hresult => ?_, fun env => execute_ne_range, ?_⟩
  · obtain ⟨literal, inventory, last, hbytes, -, hinventory, hpublished, -⟩ :=
      executeWith_eq_ok hresult
    have hliteral : request.literal.bytes ≠ [] := hbytes ▸ literal.nonempty
    have hselected := (inventory_of_view hinventory).sublist
      (selection_sublist request.sourceIds inventory)
    obtain ⟨hshown, hexhaustive, hvalid⟩ := execute_eq_ok hinventory hresult
    have hinOrder := items_inOrder decodedKind hselected
      (fun captured hmem => (hshown captured hmem).source)
      (fun captured hmem => (hshown captured hmem).ordered hliteral)
    refine ⟨inventory, hinventory, hpublished, hexhaustive, hinOrder, hvalid,
      fun captured hmem => (hshown captured hmem).agrees hliteral, fun other raw hraw => ?_⟩
    obtain ⟨_, found, _, -, -, hfound, -⟩ := executeWith_eq_ok hraw
    -- both searches read the inventory of the same pinned view
    have hsame := (sourceInventory_undisturbed hfound undisturbed_quiet).symm.trans
      (sourceInventory_undisturbed hinventory undisturbed_quiet)
    obtain rfl := Except.ok.inj hsame
    have hrawExhaustive := RawExact.execute_eq_ok hfound hraw
    refine ⟨hrawExhaustive, fun hpresent => ?_⟩
    rw [hexhaustive.accounts.items, hrawExhaustive.accounts.items, List.map_take, List.map_take,
      List.map_flatMap, List.map_flatMap, List.flatMap_map, List.flatMap_map]
    refine congrArg (List.take _) (List.flatMap_congr fun captured hmem => ?_)
    exact (hshown captured hmem).places (hpresent captured hmem)
  · intro env pinning reading db inventory hquiet hpinned hinventory hnamed hrequest hpublished
      hstore
    exact execute_ok hquiet hpinned hinventory hnamed hrequest hpublished hstore

/-! ## A search of one available and one unprepared source -/

namespace Sample

def abc : Text := ⟨ascii "abc", by decide⟩

def source : CurrentSourceRecord :=
  { RawExact.Sample.present.captured.source with
    objectRef := ⟨1, .source, RawExact.Sample.abcDigest, 3⟩ }

/-- The artifact prepared from the three bytes. -/
def data : Bytes :=
  Preparation.encoding source .default abc.bytes [⟨0, 3, 0, 1, true, true⟩]

/-- The digest of the artifact. -/
def dataDigest : Blake3Digest32 :=
  ⟨(Hex.unhex (ascii "db627ccd7a4ec2581321277ca5955e1b2daf7d52c7108226fd241dd60c57d9a8")).getD [],
    by decide⟩

def artifact : ObjectRef := ⟨1, .prepared, dataDigest, 158⟩

def available : SourceEntry where
  captured :=
    { source
      preparation := ⟨source.sourceNamespaceId, source.sourceId, 1, .default, 1,
        some ⟨1, 1, source.objectRef, .default, .ready artifact⟩⟩ }
  stagedUnits := 1
  complete := true

def unprepared : SourceEntry := RawExact.Sample.absent

def generation : Generation := ⟨RawExact.Sample.namespaceId, 1, 2, 2, 1, 1, 1⟩

def state : State := ⟨1, some RawExact.Sample.namespaceId, 1, 1, some generation, none⟩

def tables : Db :=
  { Db.empty with
    generationSources := some (.ofList [RawExact.Sample.row available,
      RawExact.Sample.row unprepared])
    generationPages := some ∅
    generationEvidence := some ∅ }

def db : Db := tables.withState state

def view : PublishedView := ⟨generation, db⟩

/-- A directory that has the source object and the artifact. -/
def store : Store where
  find name := if name = nameOf source.objectRef then some (.file abc.bytes)
    else if name = nameOf artifact then some (.file data) else none
  hash bytes := if bytes = abc.bytes then RawExact.Sample.abcDigest
    else if bytes = data then dataDigest else RawExact.Sample.emptyDigest

def request : DecodedUtf8Request := ⟨RawExact.Sample.request.literal, none, 8⟩

theorem state_readable : state.Readable := by
  refine ⟨rfl, by decide, by decide, ?_, ?_, by decide⟩
  · rintro current hcurrent
    obtain rfl := Option.some.inj hcurrent
    decide
  · rintro pending ⟨⟩

/-- The sample generation is pinned. -/
theorem pinned : pinPublished Env.quiet db = .ok view := by
  have hstate : readState db = .ok state := readState_withState tables state_readable
  have hcheck (site : Nat) : Env.quiet.check publicationFault site = .ok () := rfl
  rw [pinPublished, hcheck, ok_bind, hstate, ok_bind]
  rfl

theorem inventory_eq :
    view.sourceInventory Env.quiet = .ok [available.captured, unprepared.captured] := by
  decide +kernel

/-- The artifact is prepared from the source object. -/
theorem prepared :
    Preparation.prepareUtf8 store.hash Env.quiet source abc.bytes .default limits = .ok data := by
  decide +kernel

theorem ready : Ready available.captured artifact := ⟨_, rfl, rfl⟩

theorem source_held : store.Holds source.objectRef abc.bytes :=
  ⟨by decide +kernel, by decide +kernel, by decide +kernel⟩

theorem artifact_held : store.Holds artifact data :=
  ⟨by decide +kernel, by decide +kernel, by decide +kernel⟩

/-- Both samples are settled. -/
theorem settled : ∀ captured ∈ selection request.sourceIds
    [available.captured, unprepared.captured], Settled store captured := by
  intro captured hmem
  rcases List.mem_cons.mp ((selection_sublist _ _).subset hmem) with rfl | hmem
  · refine ⟨.present artifact abc data ready source_held artifact_held, ?_, ?_⟩
    · intro other hother
      obtain rfl := ready.unique hother
      decide
    · intro other bytes found hother hbytes hfound
      obtain rfl := ready.unique hother
      refine ⟨abc, source_held.unique hbytes, ready, source_held, data, artifact_held, ?_⟩
      intro env hquiet
      obtain ⟨_, _, saved, -, -, hsaved, htext, -⟩ :=
        Preparation.decodePreparedUtf8_prepared prepared ⟨le_rfl, le_rfl, le_rfl, le_rfl, le_rfl⟩
          (by decide +kernel) hquiet
      exact ⟨saved, hsaved, Text.ext htext⟩
  · obtain rfl := List.mem_singleton.mp hmem
    have hgap : Unprepared unprepared.captured := ⟨_, rfl, _, rfl⟩
    refine ⟨.unprepared hgap, ?_, ?_⟩
    · rintro other ⟨outcome, houtcome, hresult⟩
      obtain rfl := Option.some.inj houtcome
      cases hresult
    · rintro other bytes found ⟨outcome, houtcome, hresult⟩
      obtain rfl := Option.some.inj houtcome
      cases hresult

end Sample

theorem execute_agrees_sample :
    ∃ result, execute Sample.store Env.quiet Sample.view Sample.request = .ok result ∧
      result.foundMatches.toNat = 1 ∧ result.gapSources.toNat = 1 ∧
      DecodedUtf8Result.validateRequest Sample.request result = .ok () := by
  obtain ⟨hanswers, -, hsucceeds⟩ := execute_agrees Sample.store Sample.view Sample.request
  obtain ⟨result, hresult⟩ := hsucceeds Env.quiet Env.quiet Env.quiet Sample.db _ undisturbed_quiet
    Sample.pinned Sample.inventory_eq (by decide +kernel) (by decide +kernel) (by rintro _ ⟨⟩)
    Sample.settled
  obtain ⟨inventory, hinventory, -, hexhaustive, -, hvalid, -⟩ := hanswers Env.quiet result hresult
  have hread : Sample.view.sourceInventory (within Env.quiet 2) =
      .ok [Sample.available.captured, Sample.unprepared.captured] :=
    sourceInventory_undisturbed Sample.inventory_eq (undisturbed_quiet.within 2)
  obtain rfl := Except.ok.inj (hinventory.symm.trans hread)
  exact ⟨result, hresult, hexhaustive.accounts.found.trans (by decide +kernel),
    hexhaustive.accounts.gaps.trans (by decide +kernel), hvalid⟩

end DecodedExact

end EliotSearch.Query
