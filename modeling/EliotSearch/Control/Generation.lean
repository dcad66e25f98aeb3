import EliotSearch.Library.Json
import EliotSearch.Library.Results

/-!
# Publication headers

The immutable identity of a generation, the durable progress of the one build
that may be pending, the control header that holds both, and the retired
obligations.  All of them are stored as JSON; the reader of the header checks
every relation it later relies on.
-/

namespace EliotSearch.Control

open EliotSearch.Library
open EliotSearch.Library.Json
open EliotSearch.Library.Results
open EliotSearch.Library.Words

def maxSources : Nat := 4096

def maxCaptureBytes : Nat := 16 * 1024 * 1024

def maxStagedBytes : UInt64 := 512 * 1024 * 1024

def maxPoints : UInt64 := 1000000

def maxRetired : Nat := 8

def maxStateBytes : Nat := 16 * 1024

def maxRetiredBytes : Nat := 4096

/-- Closed publication/control failures. -/
inductive PublicationError where
  | unprepared
  | notPublished
  | stale
  | unresolved
  | corrupt
  | unsupportedSchema
  | limit
  | allocation
  | database
  | random
  | cancelled
  | deadline
  deriving DecidableEq, Repr

/-! ## Headers -/

/-- Immutable generation identity and actual complete content dimensions. -/
structure Generation where
  namespaceId : Octets 16
  sequence : UInt64
  wantedRevision : UInt64
  sourceCount : UInt64
  gapCount : UInt64
  pointCount : UInt64
  pageCount : UInt64
  deriving DecidableEq

/-- The single mutation which may still be targetable on an unserved build. -/
inductive PendingOperation where
  | create
  | insert (page : UInt64)
  deriving DecidableEq

/-- Durable bounded build progress. -/
structure PendingGeneration where
  generation : Generation
  captureComplete : Bool
  created : Bool
  uploadedPages : UInt64
  inFlight : Option PendingOperation
  operationRevision : UInt64
  completedSources : UInt64
  stagedBytes : UInt64
  sourceNamespace : Option (Octets 16)
  expectedCurrentRevision : UInt64
  expectedCurrent : Option Generation
  deriving DecidableEq

/-- The publication control header. -/
structure State where
  version : UInt16
  namespaceId : Option (Octets 16)
  nextSequence : UInt64
  currentRevision : UInt64
  current : Option Generation
  pending : Option PendingGeneration
  deriving DecidableEq

/-- The header of a catalogue that does not exist yet. -/
def State.default : State := ⟨1, none, 0, 0, none, none⟩

/-- One exact retired generation with ownership and unresolved build state. -/
structure RetiredGeneration where
  generation : Generation
  remoteOwned : Bool
  unresolvedBuild : Option PendingGeneration
  deriving DecidableEq

/-! ## Collection names -/

def hexDigit (value : Nat) : UInt8 :=
  (ascii "0123456789abcdef").getD value 0

def hexByte (byte : UInt8) : Bytes :=
  [hexDigit (byte.toNat / 16), hexDigit (byte.toNat % 16)]

/-- Exact collection name fixed before any remote effects. -/
def Generation.collection (generation : Generation) : Bytes :=
  ascii "eliot_" ++ generation.namespaceId.bytes.flatMap hexByte ++ ascii "_g" ++
    decimal generation.sequence.toNat

theorem hexByte_injective {left right : UInt8} (heq : hexByte left = hexByte right) :
    left = right := by
  have hdigits : ∀ first second : Fin 16,
      hexDigit first.val = hexDigit second.val → first = second := by decide
  have hleft := left.toNat_lt
  have hright := right.toNat_lt
  simp only [hexByte, List.cons.injEq, and_true] at heq
  have hhigh := hdigits ⟨left.toNat / 16, by omega⟩ ⟨right.toNat / 16, by omega⟩ heq.1
  have hlow := hdigits ⟨left.toNat % 16, by omega⟩ ⟨right.toNat % 16, by omega⟩ heq.2
  simp only [Fin.mk.injEq] at hhigh hlow
  exact UInt8.toNat_inj.mp (by omega)

theorem flatMap_hexByte_length (bytes : Bytes) :
    (bytes.flatMap hexByte).length = 2 * bytes.length := by
  induction bytes with
  | nil => rfl
  | cons byte bytes ih =>
      simp only [List.flatMap_cons, List.length_append, List.length_cons, ih, hexByte]
      simp only [List.length_nil]
      omega

theorem flatMap_hexByte_injective {left right : Bytes} (hlength : left.length = right.length)
    (heq : left.flatMap hexByte = right.flatMap hexByte) : left = right := by
  induction left generalizing right with
  | nil => exact (List.length_eq_zero_iff.mp hlength.symm).symm
  | cons byte left ih =>
      cases right with
      | nil => simp at hlength
      | cons other right =>
          have hsplit := List.append_inj heq rfl
          rw [hexByte_injective hsplit.1, ih (Nat.succ.inj hlength) hsplit.2]

/-- Two generations share a collection name only when they share namespace and
sequence. -/
theorem collection_injective {left right : Generation}
    (heq : left.collection = right.collection) :
    left.namespaceId = right.namespaceId ∧ left.sequence = right.sequence := by
  simp only [Generation.collection, List.append_assoc] at heq
  have hnamespace := (List.append_inj heq rfl).2
  have hparts := List.append_inj hnamespace
    (by rw [flatMap_hexByte_length, flatMap_hexByte_length, Octets.length_eq, Octets.length_eq])
  have hname := flatMap_hexByte_injective (by simp) hparts.1
  have hsequence := decimal_injective (List.append_inj hparts.2 rfl).2
  exact ⟨Octets.ext hname, UInt64.toNat_inj.mp hsequence⟩

/-! ## Stored texts -/

open Format

def generationFormat : Format Generation :=
  (object (pair (field "namespace" (array 15)) (pair (field "sequence" u64)
    (pair (field "wanted_revision" u64) (pair (field "source_count" u64)
      (pair (field "gap_count" u64) (pair (field "point_count" u64)
        (field "page_count" u64)))))))).iso
    (fun found => ⟨found.1, found.2.1, found.2.2.1, found.2.2.2.1, found.2.2.2.2.1,
      found.2.2.2.2.2.1, found.2.2.2.2.2.2⟩)
    (fun generation => (generation.namespaceId, generation.sequence, generation.wantedRevision,
      generation.sourceCount, generation.gapCount, generation.pointCount, generation.pageCount))
    (fun _ => rfl)

theorem generationFormat_not_null (generation : Generation) (rest : Bytes) :
    strip (ascii "null") (generationFormat.print generation ++ rest) = none :=
  object_not_null _ _ rest

def operationFormat : Format PendingOperation :=
  (bareOr "Create" "Insert" u64).iso
    (fun found => found.elim .create .insert)
    (fun operation => match operation with
      | .create => none
      | .insert page => some page)
    (fun operation => by cases operation <;> rfl)

theorem operationFormat_not_null (operation : PendingOperation) (rest : Bytes) :
    strip (ascii "null") (operationFormat.print operation ++ rest) = none :=
  bareOr_not_null _ _ _ _ rest

def pendingFormat : Format PendingGeneration :=
  (object (pair (field "generation" generationFormat) (pair (field "capture_complete" bool)
    (pair (field "created" bool) (pair (field "uploaded_pages" u64)
      (pair (field "in_flight" (optional operationFormat operationFormat_not_null))
        (pair (field "operation_revision" u64) (pair (field "completed_sources" u64)
          (pair (field "staged_bytes" u64)
            (pair (field "source_namespace" (optional (array 15) (array_not_null 15)))
              (pair (field "expected_current_revision" u64)
                (field "expected_current"
                  (optional generationFormat generationFormat_not_null))))))))))))).iso
    (fun found => ⟨found.1, found.2.1, found.2.2.1, found.2.2.2.1, found.2.2.2.2.1,
      found.2.2.2.2.2.1, found.2.2.2.2.2.2.1, found.2.2.2.2.2.2.2.1, found.2.2.2.2.2.2.2.2.1,
      found.2.2.2.2.2.2.2.2.2.1, found.2.2.2.2.2.2.2.2.2.2⟩)
    (fun pending => (pending.generation, pending.captureComplete, pending.created,
      pending.uploadedPages, pending.inFlight, pending.operationRevision,
      pending.completedSources, pending.stagedBytes, pending.sourceNamespace,
      pending.expectedCurrentRevision, pending.expectedCurrent))
    (fun _ => rfl)

theorem pendingFormat_not_null (pending : PendingGeneration) (rest : Bytes) :
    strip (ascii "null") (pendingFormat.print pending ++ rest) = none :=
  object_not_null _ _ rest

def stateFormat : Format State :=
  (object (pair (field "version" u16)
    (pair (field "namespace" (optional (array 15) (array_not_null 15)))
      (pair (field "next_sequence" u64) (pair (field "current_revision" u64)
        (pair (field "current" (optional generationFormat generationFormat_not_null))
          (field "pending" (optional pendingFormat pendingFormat_not_null)))))))).iso
    (fun found => ⟨found.1, found.2.1, found.2.2.1, found.2.2.2.1, found.2.2.2.2.1,
      found.2.2.2.2.2⟩)
    (fun state => (state.version, state.namespaceId, state.nextSequence, state.currentRevision,
      state.current, state.pending))
    (fun _ => rfl)

def retiredFormat : Format RetiredGeneration :=
  (objectWithLast (pair (field "generation" generationFormat) (field "remote_owned" bool))
    "unresolved_build" "unresolved_create" pendingFormat).iso
    (fun found => ⟨found.1.1, found.1.2, found.2⟩)
    (fun retired => ((retired.generation, retired.remoteOwned), retired.unresolvedBuild))
    (fun _ => rfl)

theorem stateFormat_limit : stateFormat.limit ≤ maxStateBytes := by
  decide

theorem retiredFormat_limit : retiredFormat.limit ≤ maxRetiredBytes := by
  decide

/-! ## The header on disk -/

def stateBytes (state : State) : Except PublicationError Bytes := do
  let bytes := stateFormat.print state
  refuse (bytes.length > maxStateBytes) .limit
  return bytes

/-- The checks made on the current generation and on the pending one. -/
def State.AcceptsGeneration (state : State) (generation : Generation) : Prop :=
  some generation.namespaceId = state.namespaceId ∧ generation.sequence ≠ 0 ∧
    generation.sequence ≤ state.nextSequence ∧ generation.sourceCount.toNat ≤ maxSources ∧
    generation.gapCount ≤ generation.sourceCount ∧ generation.pointCount ≤ maxPoints ∧
    generation.pageCount ≤ maxPoints

instance (state : State) (generation : Generation) :
    Decidable (state.AcceptsGeneration generation) :=
  inferInstanceAs (Decidable (_ ∧ _))

/-- The checks made on the pending progress. -/
def State.AcceptsPending (state : State) (pending : PendingGeneration) : Prop :=
  pending.completedSources ≤ pending.generation.sourceCount ∧
    pending.uploadedPages ≤ pending.generation.pageCount ∧
    pending.stagedBytes ≤ maxStagedBytes ∧
    (∀ current ∈ state.current, current.sequence ≠ pending.generation.sequence) ∧
    (pending.captureComplete = true →
      pending.completedSources = pending.generation.sourceCount)

instance (state : State) (pending : PendingGeneration) :
    Decidable (state.AcceptsPending pending) :=
  inferInstanceAs (Decidable (_ ∧ _))

def decodeState (bytes : Bytes) : Except PublicationError State := do
  refuse (bytes.length > maxStateBytes) .corrupt
  let state ← okOr (stateFormat.decode bytes) .corrupt
  refuse (state.version ≠ 1 ∨ state.namespaceId = none ∨ state.nextSequence = 0) .corrupt
  refuse (∃ generation ∈ state.current.toList ++ state.pending.toList.map (·.generation),
    ¬ state.AcceptsGeneration generation) .corrupt
  refuse (state.current.isSome ≠ (state.currentRevision != 0)) .corrupt
  refuse (∃ pending ∈ state.pending, ¬ state.AcceptsPending pending) .corrupt
  return state

/-- Everything the reader of the header relies on. -/
structure State.Readable (state : State) : Prop where
  version_eq : state.version = 1
  namespace_isSome : state.namespaceId ≠ none
  sequence_ne_zero : state.nextSequence ≠ 0
  current_accepted : ∀ current ∈ state.current, state.AcceptsGeneration current
  pending_accepted : ∀ pending ∈ state.pending,
    state.AcceptsGeneration pending.generation ∧ state.AcceptsPending pending
  current_iff : state.current.isSome = (state.currentRevision != 0)

theorem stateBytes_eq_ok (state : State) : stateBytes state = .ok (stateFormat.print state) := by
  have hlength := le_trans (stateFormat.print_length_le state) stateFormat_limit
  simp [stateBytes, refuse_of_not (Nat.not_lt.mpr hlength)]

/-- The reader accepts a printed header exactly when all its checks hold. -/
theorem decodeState_print {state : State} (hreadable : state.Readable) :
    decodeState (stateFormat.print state) = .ok state := by
  have hlength := le_trans (stateFormat.print_length_le state) stateFormat_limit
  have hheader : ¬ (state.version ≠ 1 ∨ state.namespaceId = none ∨ state.nextSequence = 0) := by
    rintro (hversion | hnamespace | hsequence)
    · exact hversion hreadable.version_eq
    · exact hreadable.namespace_isSome hnamespace
    · exact hreadable.sequence_ne_zero hsequence
  have hgenerations : ¬ ∃ generation ∈
      state.current.toList ++ state.pending.toList.map (·.generation),
      ¬ state.AcceptsGeneration generation := by
    rintro ⟨generation, hmem, hrejected⟩
    rcases List.mem_append.mp hmem with hcurrent | hbuild
    · exact hrejected (hreadable.current_accepted generation (by simpa using hcurrent))
    · obtain ⟨pending, hpending, rfl⟩ := List.mem_map.mp hbuild
      exact hrejected (hreadable.pending_accepted pending (by simpa using hpending)).1
  have hpending : ¬ ∃ pending ∈ state.pending, ¬ state.AcceptsPending pending := by
    rintro ⟨pending, hmem, hrejected⟩
    exact hrejected (hreadable.pending_accepted pending hmem).2
  simp only [decodeState, decode_print, okOr_some, ok_bind, refuse_of_not (Nat.not_lt.mpr hlength),
    refuse_of_not hheader, refuse_of_not hgenerations,
    refuse_of_not (not_not.mpr hreadable.current_iff), refuse_of_not hpending]
  rfl

theorem decodeState_readable {bytes : Bytes} {state : State}
    (hdecode : decodeState bytes = .ok state) : state.Readable := by
  simp only [decodeState, bind_eq_ok, refuse_eq_ok, okOr_eq_ok] at hdecode
  obtain ⟨_, _, found, -, _, hheader, _, hgenerations, _, hcurrent, _, hpending, hstate⟩ := hdecode
  obtain rfl := Except.ok.inj hstate
  push Not at hheader hgenerations hcurrent hpending
  refine ⟨hheader.1, hheader.2.1, hheader.2.2, ?_, ?_, hcurrent⟩
  · intro current hmem
    exact hgenerations current (List.mem_append_left _ (by simpa using hmem))
  · intro pending hmem
    refine ⟨hgenerations pending.generation (List.mem_append_right _ ?_), hpending pending hmem⟩
    exact List.mem_map.mpr ⟨pending, by simpa using hmem, rfl⟩

end EliotSearch.Control
