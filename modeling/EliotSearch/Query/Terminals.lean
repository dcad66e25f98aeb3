import EliotSearch.Query.Values
import EliotSearch.Session.Texts
import Mathlib.Algebra.Group.Action.Defs
import Mathlib.Algebra.Order.BigOperators.Group.List

/-!
# Query terminals

The one reply to a query: its outcome, the checks made before it is sent, its
JSON text and its frame.  How a score is written is a parameter.
-/

namespace EliotSearch.Query

open EliotSearch.Library
open EliotSearch.Library.Hex
open EliotSearch.Library.Json
open EliotSearch.Library.Results
open EliotSearch.Library.Utf8
open EliotSearch.Library.Words
open EliotSearch.Session

def queryRequestId : UInt64 := 1

/-! ## Search items -/

/-- A single-precision score, by its bits. -/
structure Score where
  bits : UInt32
  deriving DecidableEq

/-- Neither infinite nor not a number. -/
def Score.IsFinite (score : Score) : Prop := (score.bits.toNat / 2 ^ 23) % 2 ^ 8 ≠ 2 ^ 8 - 1

instance (score : Score) : Decidable score.IsFinite := inferInstanceAs (Decidable (_ ≠ _))

/-- Immutable retained citation projected from one published snapshot. -/
structure EvidenceMetadata where
  generation : UInt64
  pointId : Bytes
  sourceNamespaceId : Bytes
  sourceId : Bytes
  input : ObjectRefDto
  prepared : ObjectRefDto
  unit : UInt64
  start : UInt64
  stop : UInt64
  lineStart : UInt64
  lineEnd : UInt64
  startsAtLineBoundary : Bool
  endsAtLineBoundary : Bool
  deriving DecidableEq

def EvidenceMetadata.validate (evidence : EvidenceMetadata) (generation : UInt64) :
    Except ProtocolError Unit := do
  refuse (generation = 0 ∨ evidence.generation ≠ generation ∨ ¬ LowerHex evidence.pointId 32 ∨
    (unhex (evidence.pointId.take 16)).map beValue ≠ some generation.toNat ∨
    ¬ CanonicalUuid evidence.sourceNamespaceId ∨ ¬ CanonicalUuid evidence.sourceId ∨
    evidence.start ≥ evidence.stop ∨
    (evidence.stop - evidence.start).toNat > maxUnitTextBytes ∨
    evidence.lineStart ≥ evidence.lineEnd) .invalidMessage
  evidence.input.validate .source
  refuse (evidence.stop > evidence.input.bytes) .invalidMessage
  evidence.prepared.validate .prepared

/-- One complete verified prepared unit in backend rank order. -/
structure SearchHit where
  rank : UInt8
  score : Score
  evidence : EvidenceMetadata
  unitText : Text
  deriving DecidableEq

/-- An unavailable retained object for a ranked citation. -/
structure SearchGap where
  rank : UInt8
  score : Score
  evidence : EvidenceMetadata
  code : FailureCode
  deriving DecidableEq

/-- One whole hit or missing-object gap, preserving backend order. -/
inductive SearchItem where
  | hit (hit : SearchHit)
  | gap (gap : SearchGap)
  deriving DecidableEq

namespace SearchItem

def rank : SearchItem → UInt8
  | hit found => found.rank
  | gap missing => missing.rank

def evidence : SearchItem → EvidenceMetadata
  | hit found => found.evidence
  | gap missing => missing.evidence

def score : SearchItem → Score
  | hit found => found.score
  | gap missing => missing.score

def validate (item : SearchItem) (generation : UInt64) : Except ProtocolError Unit := do
  match item with
  | hit found =>
      refuse (found.unitText.bytes.length > maxUnitTextBytes ∨
        found.evidence.stop < found.evidence.start ∨
        found.unitText.bytes.length ≠ (found.evidence.stop - found.evidence.start).toNat)
        .invalidMessage
  | gap missing =>
      refuse (missing.code.text ≠ ascii "SOURCE_OBJECT_MISSING" ∧
        missing.code.text ≠ ascii "PREPARED_OBJECT_MISSING") .invalidMessage
  refuse (¬ item.score.IsFinite) .invalidMessage
  item.evidence.validate generation

end SearchItem

/-- Ranks count from the given one, and no point is returned twice. -/
def validateRanked (generation : UInt64) :
    (earlier : List SearchItem) → List SearchItem → Except ProtocolError Unit
  | _, [] => return ()
  | earlier, item :: items => do
      refuse (item.rank.toNat ≠ earlier.length + 1 ∨
        ∃ prior ∈ earlier, prior.evidence.pointId = item.evidence.pointId) .invalidMessage
      item.validate generation
      validateRanked generation (earlier ++ [item]) items

/-! ## Outcomes -/

/-- Exactly one application terminal. -/
inductive QueryOutcome where
  | complete (generation : UInt64) (items : List SearchItem) (stop : StopReason)
  | rawExact (result : RawExactResult)
  | decodedUtf8 (result : DecodedUtf8Result)
  | cancelled
  | failed (code : FailureCode)
  deriving DecidableEq

/-- Whether it carries the result of a query. -/
def QueryOutcome.isResult : QueryOutcome → Bool
  | complete .. => true
  | rawExact _ => true
  | decodedUtf8 _ => true
  | cancelled => false
  | failed _ => false

/-- The sole child-to-parent terminal for request one. -/
structure Terminal where
  requestId : UInt64
  outcome : QueryOutcome
  deriving DecidableEq

/-- Validates complete correlation, bounds, citation shape and ordered ranks. -/
def Terminal.validate (requestedLimit : UInt8) (terminal : Terminal) :
    Except ProtocolError Unit := do
  refuse (terminal.requestId ≠ queryRequestId) .invalidCorrelation
  refuse (requestedLimit = 0 ∨ requestedLimit.toNat > maxItems) .invalidMessage
  match terminal.outcome with
  | .complete generation items _ => do
      refuse (generation = 0 ∨ items.length > requestedLimit.toNat) .invalidMessage
      validateRanked generation [] items
  | .rawExact result => rawKind.validateResult requestedLimit result
  | .decodedUtf8 result => decodedKind.validateResult requestedLimit result
  | .cancelled => return ()
  | .failed _ => return ()

/-! ## Texts -/

namespace Texts

open EliotSearch.Session.Texts

/-- A byte inside a string, escaped when it has to be. -/
def escapeByte (byte : UInt8) : Bytes :=
  if byte = 34 then ascii "\\\""
  else if byte = 92 then ascii "\\\\"
  else if byte = 8 then ascii "\\b"
  else if byte = 9 then ascii "\\t"
  else if byte = 10 then ascii "\\n"
  else if byte = 12 then ascii "\\f"
  else if byte = 13 then ascii "\\r"
  else if byte < 32 then ascii "\\u00" ++ hexByte byte
  else [byte]

def string (text : Bytes) : Bytes := ascii "\"" ++ text.flatMap escapeByte ++ ascii "\""

def word16 (value : UInt16) : Bytes := Format.u16.print value

def bool (value : Bool) : Bytes := Format.bool.print value

def objectKind : ObjectKindDto → Bytes
  | .source => Format.quoted "source"
  | .prepared => Format.quoted "prepared"

def objectRef (object : ObjectRefDto) : Bytes :=
  Session.Texts.object [member "version" (word16 object.version),
    member "kind" (objectKind object.kind), member "digest" (string object.digest),
    member "bytes" (word64 object.bytes)]

def sourceRef (source : RawSourceRef) : Bytes :=
  object [member "source_namespace_id" (string source.sourceNamespaceId),
    member "source_id" (string source.sourceId), member "row_revision" (word64 source.rowRevision),
    member "registration_revision" (word64 source.registrationRevision),
    member "input" (objectRef source.input)]

def rawItem : RawExactItem → Bytes
  | .matched hit =>
      object [member "kind" (Format.quoted "match"), member "source" (sourceRef hit.source),
        member "start" (word64 hit.start), member "end" (word64 hit.stop),
        member "bytes_hex" (string hit.bytesHex)]
  | .gap missing =>
      object [member "kind" (Format.quoted "gap"), member "source" (sourceRef missing.source),
        member "code" (string missing.code.text)]

def decodedItem : DecodedUtf8Item → Bytes
  | .matched hit =>
      object [member "kind" (Format.quoted "match"), member "source" (sourceRef hit.source),
        member "prepared" (objectRef hit.prepared),
        member "representation_start" (word64 hit.representationStart),
        member "representation_end" (word64 hit.representationEnd),
        member "source_start" (word64 hit.sourceStart), member "source_end" (word64 hit.sourceEnd),
        member "text" (string hit.text.bytes)]
  | .gap missing =>
      object [member "kind" (Format.quoted "gap"), member "source" (sourceRef missing.source),
        member "prepared" (nullable objectRef missing.prepared),
        member "code" (string missing.code.text)]

/-- The accounts of a literal search; the name of its gap sources is given. -/
def exactResult {Item : Type} (gapSources : String) (item : Item → Bytes)
    (result : ExactResult Item) : Bytes :=
  object [member "generation" (word64 result.generation),
    member "selected_sources" (word64 result.selectedSources),
    member "scanned_sources" (word64 result.scannedSources),
    member gapSources (word64 result.gapSources),
    member "scanned_bytes" (word64 result.scannedBytes),
    member "matches" (word64 result.foundMatches), member "items" (array (result.items.map item)),
    member "scan_complete" (bool result.scanComplete),
    member "complete_negative" (bool result.completeNegative),
    member "stop" (stopReason result.stop)]

def evidence (evidence : EvidenceMetadata) : Bytes :=
  object [member "generation" (word64 evidence.generation),
    member "point_id" (string evidence.pointId),
    member "source_namespace_id" (string evidence.sourceNamespaceId),
    member "source_id" (string evidence.sourceId), member "input" (objectRef evidence.input),
    member "prepared" (objectRef evidence.prepared), member "unit" (word64 evidence.unit),
    member "start" (word64 evidence.start), member "end" (word64 evidence.stop),
    member "line_start" (word64 evidence.lineStart), member "line_end" (word64 evidence.lineEnd),
    member "starts_at_line_boundary" (bool evidence.startsAtLineBoundary),
    member "ends_at_line_boundary" (bool evidence.endsAtLineBoundary)]

variable (scoreText : Score → Bytes)

def searchItem : SearchItem → Bytes
  | .hit found =>
      object [member "kind" (Format.quoted "hit"), member "rank" (word8 found.rank),
        member "score" (scoreText found.score), member "evidence" (evidence found.evidence),
        member "unit_text" (string found.unitText.bytes)]
  | .gap missing =>
      object [member "kind" (Format.quoted "gap"), member "rank" (word8 missing.rank),
        member "score" (scoreText missing.score), member "evidence" (evidence missing.evidence),
        member "code" (string missing.code.text)]

def outcome : QueryOutcome → Bytes
  | .complete generation items stop =>
      object [member "status" (Format.quoted "complete"), member "generation" (word64 generation),
        member "items" (array (items.map (searchItem scoreText))), member "stop" (stopReason stop)]
  | .rawExact result =>
      object [member "status" (Format.quoted "raw_exact"),
        member "result" (exactResult "missing_sources" rawItem result)]
  | .decodedUtf8 result =>
      object [member "status" (Format.quoted "decoded_utf8"),
        member "result" (exactResult "gap_sources" decodedItem result)]
  | .cancelled => object [member "status" (Format.quoted "cancelled")]
  | .failed code =>
      object [member "status" (Format.quoted "failed"), member "code" (string code.text)]

def terminal (terminal : Terminal) : Bytes :=
  object [member "request_id" (word64 terminal.requestId),
    member "outcome" (outcome scoreText terminal.outcome)]

/-! ### Lengths -/

theorem separated_length_le (texts : List Bytes) :
    (separated texts).length ≤ (texts.map List.length).sum + texts.length := by
  induction texts with
  | nil => exact Nat.le_refl 0
  | cons text texts ih =>
      cases texts with
      | nil => simp [separated]
      | cons next texts =>
          have hcomma : (ascii ",").length = 1 := rfl
          have htext : separated (text :: next :: texts) =
              text ++ ascii "," ++ separated (next :: texts) := rfl
          rw [htext, List.length_append, List.length_append, hcomma, List.map_cons, List.sum_cons,
            List.length_cons]
          omega

theorem object_length_le (members : List Bytes) :
    (object members).length ≤ (members.map List.length).sum + members.length + 2 := by
  rw [object_length]
  exact Nat.add_le_add_right (separated_length_le members) 2

/-- An array of bounded texts is bounded. -/
theorem array_length_le {texts : List Bytes} {bound : Nat}
    (hbound : ∀ text ∈ texts, text.length ≤ bound) :
    (array texts).length ≤ texts.length * (bound + 1) + 2 := by
  have hopen : (ascii "[").length = 1 := rfl
  have hclose : (ascii "]").length = 1 := rfl
  have hseparated := separated_length_le texts
  have hsum : (texts.map List.length).sum ≤ texts.length * bound := by
    have hsum := List.sum_le_card_nsmul (texts.map List.length) bound
      (List.forall_mem_map.mpr hbound)
    rwa [List.length_map, smul_eq_mul] at hsum
  rw [array, List.length_append, List.length_append, hopen, hclose, Nat.mul_succ]
  omega

theorem escapeByte_length_le (byte : UInt8) : (escapeByte byte).length ≤ 6 := by
  unfold escapeByte
  repeat' split
  all_goals exact of_decide_eq_true rfl

theorem string_length_le (text : Bytes) : (string text).length ≤ 6 * text.length + 2 := by
  have hquote : (ascii "\"").length = 1 := rfl
  have hescaped : (text.flatMap escapeByte).length ≤ 6 * text.length := by
    rw [List.length_flatMap]
    have hsum := List.sum_le_card_nsmul (text.map fun byte => (escapeByte byte).length) 6
      (List.forall_mem_map.mpr fun byte _ => escapeByte_length_le byte)
    rwa [List.length_map, smul_eq_mul, Nat.mul_comm] at hsum
  rw [string, List.length_append, List.length_append, hquote]
  omega

theorem bool_length_le (value : Bool) : (bool value).length ≤ 5 :=
  Format.bool.print_length_le value

theorem word64_length_le (value : UInt64) : (word64 value).length ≤ 20 :=
  Format.u64.print_length_le value

theorem word16_length_le (value : UInt16) : (word16 value).length ≤ 5 :=
  Format.u16.print_length_le value

theorem stopReason_length_le (stop : StopReason) : (stopReason stop).length ≤ 14 := by
  cases stop <;> exact of_decide_eq_true rfl

/-- The text of a valid object is bounded. -/
theorem objectRef_length_le {object : ObjectRefDto} {expected : ObjectKindDto}
    (hvalid : object.validate expected = .ok ()) : (objectRef object).length ≤ 500 := by
  rw [ObjectRefDto.validate, refuse_eq_ok, not_or, not_or, not_or, not_not] at hvalid
  have hdigest := hvalid.2.2.1
  rw [not_not] at hdigest
  have hversion := word16_length_le object.version
  have hkind : (objectKind object.kind).length ≤ 10 := by
    cases object.kind <;> exact of_decide_eq_true rfl
  have hstring := string_length_le object.digest
  have hbytes := word64_length_le object.bytes
  have hmembers := object_length_le [member "version" (word16 object.version),
    member "kind" (objectKind object.kind), member "digest" (string object.digest),
    member "bytes" (word64 object.bytes)]
  have hlabels : (Format.label "version").length + (Format.label "kind").length +
      (Format.label "digest").length + (Format.label "bytes").length = 34 := rfl
  rw [hdigest.1] at hstring
  simp only [List.map_cons, List.map_nil, List.sum_cons, List.sum_nil, List.length_cons,
    List.length_nil, member_length] at hmembers
  rw [objectRef]
  omega

/-- The text of a valid source is bounded. -/
theorem sourceRef_length_le {source : RawSourceRef} (hvalid : source.validate = .ok ()) :
    (sourceRef source).length ≤ 1100 := by
  simp only [RawSourceRef.validate, bind_eq_ok, refuse_eq_ok, not_or, not_not] at hvalid
  obtain ⟨_, ⟨hnamespace, hid, -, -⟩, hinput⟩ := hvalid
  have hnamespaceText := string_length_le source.sourceNamespaceId
  have hidText := string_length_le source.sourceId
  have hrow := word64_length_le source.rowRevision
  have hregistration := word64_length_le source.registrationRevision
  have hobject := objectRef_length_le hinput
  have hmembers := object_length_le [
    member "source_namespace_id" (string source.sourceNamespaceId),
    member "source_id" (string source.sourceId), member "row_revision" (word64 source.rowRevision),
    member "registration_revision" (word64 source.registrationRevision),
    member "input" (objectRef source.input)]
  have hlabels : (Format.label "source_namespace_id").length + (Format.label "source_id").length +
      (Format.label "row_revision").length + (Format.label "registration_revision").length +
      (Format.label "input").length = 81 := rfl
  rw [hnamespace.1] at hnamespaceText
  rw [hid.1] at hidText
  simp only [List.map_cons, List.map_nil, List.sum_cons, List.sum_nil, List.length_cons,
    List.length_nil, member_length] at hmembers
  rw [sourceRef]
  omega

/-- The text of a valid raw item is bounded. -/
theorem rawItem_length_le {item : RawExactItem} (hvalid : item.validate = .ok ()) :
    (rawItem item).length ≤ 60000 := by
  simp only [RawExactItem.validate, bind_eq_ok] at hvalid
  obtain ⟨_, hsource, hvalid⟩ := hvalid
  have hsourceText := sourceRef_length_le hsource
  cases item with
  | matched hit =>
      rw [refuse_eq_ok, not_or, not_or, not_or, not_not] at hvalid
      obtain ⟨-, -, hwidth, hhex⟩ := hvalid
      have hhexText := string_length_le hit.bytesHex
      have hstart := word64_length_le hit.start
      have hstop := word64_length_le hit.stop
      have hmembers := object_length_le [member "kind" (Format.quoted "match"),
        member "source" (sourceRef hit.source), member "start" (word64 hit.start),
        member "end" (word64 hit.stop), member "bytes_hex" (string hit.bytesHex)]
      have hlabels : (Format.label "kind").length + (Format.label "source").length +
          (Format.label "start").length + (Format.label "end").length +
          (Format.label "bytes_hex").length = 42 := rfl
      have hkind : (Format.quoted "match").length = 7 := rfl
      have hmaximum : maxQueryBytes = 4096 := rfl
      rw [hhex.1] at hhexText
      simp only [List.map_cons, List.map_nil, List.sum_cons, List.sum_nil, List.length_cons,
        List.length_nil, member_length] at hmembers
      simp only [RawExactItem.source] at hsourceText
      rw [rawItem]
      omega
  | gap missing =>
      have hcode := string_length_le missing.code.text
      have hcodeLength := missing.code.valid.2.1
      have hmembers := object_length_le [member "kind" (Format.quoted "gap"),
        member "source" (sourceRef missing.source), member "code" (string missing.code.text)]
      have hlabels : (Format.label "kind").length + (Format.label "source").length +
          (Format.label "code").length = 23 := rfl
      have hkind : (Format.quoted "gap").length = 5 := rfl
      simp only [List.map_cons, List.map_nil, List.sum_cons, List.sum_nil, List.length_cons,
        List.length_nil, member_length] at hmembers
      simp only [RawExactItem.source] at hsourceText
      rw [rawItem]
      omega

/-- Accounts with few bounded items have a bounded text. -/
theorem exactResult_length_le {Item : Type} {gapSources : String} {item : Item → Bytes}
    {result : ExactResult Item} {bound : Nat} (hname : (Format.label gapSources).length ≤ 20)
    (hitems : ∀ found ∈ result.items, (item found).length ≤ bound) :
    (exactResult gapSources item result).length ≤ result.items.length * (bound + 1) + 400 := by
  have hgeneration := word64_length_le result.generation
  have hselected := word64_length_le result.selectedSources
  have hscanned := word64_length_le result.scannedSources
  have hgaps := word64_length_le result.gapSources
  have hbytes := word64_length_le result.scannedBytes
  have hmatches := word64_length_le result.foundMatches
  have hcomplete := bool_length_le result.scanComplete
  have hnegative := bool_length_le result.completeNegative
  have hstop := stopReason_length_le result.stop
  have harray := array_length_le (List.forall_mem_map.mpr hitems)
  have hmembers := object_length_le [member "generation" (word64 result.generation),
    member "selected_sources" (word64 result.selectedSources),
    member "scanned_sources" (word64 result.scannedSources),
    member gapSources (word64 result.gapSources),
    member "scanned_bytes" (word64 result.scannedBytes),
    member "matches" (word64 result.foundMatches), member "items" (array (result.items.map item)),
    member "scan_complete" (bool result.scanComplete),
    member "complete_negative" (bool result.completeNegative),
    member "stop" (stopReason result.stop)]
  have hlabels : (Format.label "generation").length + (Format.label "selected_sources").length +
      (Format.label "scanned_sources").length + (Format.label "scanned_bytes").length +
      (Format.label "matches").length + (Format.label "items").length +
      (Format.label "scan_complete").length + (Format.label "complete_negative").length +
      (Format.label "stop").length = 127 := rfl
  rw [List.length_map] at harray
  simp only [List.map_cons, List.map_nil, List.sum_cons, List.sum_nil, List.length_cons,
    List.length_nil, member_length] at hmembers
  rw [exactResult]
  omega

end Texts

/-! ## Frames -/

section Frames

variable (scoreText : Score → Bytes)

/-- Serializes one complete terminal, refusing an oversized result. -/
def encodeTerminalFrame (terminal : Terminal) : Except ProtocolError Bytes := do
  terminal.validate (UInt8.ofNat maxItems)
  encode maxFrameBytes (Texts.terminal scoreText terminal)

/-- Encodes a fully accounted raw execution without clipping a byte range or gap. -/
def prepareRawExact (requestId : UInt64) (result : RawExactResult) :
    Except ProtocolError Bytes :=
  encodeTerminalFrame scoreText ⟨requestId, .rawExact result⟩

/-- Encodes a whole retained UTF-8 execution without clipping text or ranges. -/
def prepareDecodedUtf8 (requestId : UInt64) (result : DecodedUtf8Result) :
    Except ProtocolError Bytes :=
  encodeTerminalFrame scoreText ⟨requestId, .decodedUtf8 result⟩

/-- Whether the text is within the body ceiling. -/
def Fits (text : Bytes) : Prop := text.length ≤ maxFrameBytes - framePrefixBytes

instance (text : Bytes) : Decidable (Fits text) := inferInstanceAs (Decidable (_ ≤ _))

/-- The terminal of the first items, cut to fit. -/
def completeWire (requestId generation : UInt64) (items : List SearchItem) : Terminal :=
  ⟨requestId, .complete generation items .outputLimit⟩

/-- The largest number of items from `low` to `high` whose text fits, by
bisection. -/
def fitting (requestId generation : UInt64) (items : List SearchItem) (low high : Nat) : Nat :=
  if low < high then
    let middle := low + (high - low + 1) / 2
    if Fits (Texts.terminal scoreText (completeWire requestId generation (items.take middle))) then
      fitting requestId generation items middle high
    else fitting requestId generation items low (middle - 1)
  else low
  termination_by high - low

/-- Produces a complete terminal with the largest whole rank prefix that fits. -/
def prepareComplete (requestId generation : UInt64) (items : List SearchItem) :
    Except ProtocolError Bytes := do
  let terminal : Terminal := ⟨requestId, .complete generation items .complete⟩
  terminal.validate (UInt8.ofNat maxItems)
  if Fits (Texts.terminal scoreText terminal) then
    encode maxFrameBytes (Texts.terminal scoreText terminal)
  else
    let low := fitting scoreText requestId generation items 0 items.length
    encode maxFrameBytes
      (Texts.terminal scoreText (completeWire requestId generation (items.take low)))

/-- Fewer ranked items are ranked too. -/
theorem validateRanked_take {generation : UInt64} {earlier items : List SearchItem} (count : Nat)
    (hvalid : validateRanked generation earlier items = .ok ()) :
    validateRanked generation earlier (items.take count) = .ok () := by
  induction items generalizing earlier count with
  | nil => rwa [List.take_nil]
  | cons item items ih =>
      cases count with
      | zero => rfl
      | succ count =>
          simp only [validateRanked, List.take_succ_cons, bind_eq_ok] at hvalid ⊢
          obtain ⟨_, hrank, _, hitem, hrest⟩ := hvalid
          exact ⟨(), hrank, (), hitem, ih count hrest⟩

theorem Terminal.validate_complete {terminalId generation : UInt64} {items : List SearchItem}
    {stop : StopReason} {limit : UInt8}
    (hvalid : Terminal.validate limit ⟨terminalId, .complete generation items stop⟩ = .ok ())
    (count : Nat) (cut : StopReason) :
    Terminal.validate limit ⟨terminalId, .complete generation (items.take count) cut⟩ =
      .ok () := by
  simp only [Terminal.validate, bind_eq_ok, refuse_eq_ok, not_or, not_lt] at hvalid ⊢
  obtain ⟨_, hid, _, hlimit, _, ⟨hgeneration, hlength⟩, hranked⟩ := hvalid
  have hshort : (items.take count).length ≤ items.length := by
    rw [List.length_take]
    exact Nat.min_le_right _ _
  exact ⟨(), hid, (), hlimit, (), ⟨hgeneration, hshort.trans hlength⟩,
    validateRanked_take count hranked⟩

/-- What is prepared is the frame of a terminal with the first items. -/
theorem prepareComplete_terminal {requestId generation : UInt64} {items : List SearchItem}
    {frame : Bytes} (hprepare : prepareComplete scoreText requestId generation items = .ok frame) :
    ∃ count stop, encodeTerminalFrame scoreText
      ⟨requestId, .complete generation (items.take count) stop⟩ = .ok frame := by
  simp only [prepareComplete, bind_eq_ok] at hprepare
  obtain ⟨_, hvalid, hprepare⟩ := hprepare
  split at hprepare
  · refine ⟨items.length, .complete, ?_⟩
    rw [encodeTerminalFrame, List.take_length, hvalid, ok_bind, hprepare]
  · refine ⟨fitting scoreText requestId generation items 0 items.length, .outputLimit, ?_⟩
    rw [encodeTerminalFrame, Terminal.validate_complete hvalid, ok_bind]
    exact hprepare

theorem encode_ok {maximum : Nat} {body : Bytes} (hfits : framePrefixBytes + body.length ≤ maximum) :
    ∃ frame, encode maximum body = .ok frame ∧ frame.length = framePrefixBytes + body.length := by
  refine ⟨le32 (UInt32.ofNat body.length) ++ body, ?_, ?_⟩
  · rw [Session.encode, refuse_of_not (not_lt.mpr hfits), ok_bind, pure_eq_ok]
  · rw [List.length_append, le32_length, framePrefixBytes]

end Frames

section Literal

variable {Item : Type} {kind : Kind Item} {result : ExactResult Item} {limit : UInt8}

theorem validateItems_valid {previous : Option Item} {items : List Item}
    (hvalid : kind.validateItems previous items = .ok ()) :
    ∀ item ∈ items, kind.validate item = .ok () := by
  induction items generalizing previous with
  | nil => rintro _ ⟨⟩
  | cons item items ih =>
      simp only [Kind.validateItems, bind_eq_ok] at hvalid
      obtain ⟨_, hfirst, _, -, hrest⟩ := hvalid
      exact List.forall_mem_cons.mpr ⟨hfirst, ih hrest⟩

/-- A result within its limit is within the largest one, and its items are valid. -/
theorem validateResult_maximum (hvalid : kind.validateResult limit result = .ok ()) :
    kind.validateResult (UInt8.ofNat maxItems) result = .ok () ∧
      result.items.length ≤ maxItems ∧ ∀ item ∈ result.items, kind.validate item = .ok () := by
  simp only [Kind.validateResult, bind_eq_ok] at hvalid ⊢
  obtain ⟨total, htotal, _, hbounds, _, hitems, hkinds⟩ := hvalid
  rw [refuse_eq_ok] at hbounds
  have hmaximum : (UInt8.ofNat maxItems).toNat = maxItems := rfl
  have hlength : result.items.length ≤ maxItems := by
    by_contra hlong
    refine hbounds ?_
    by_cases hlimit : limit.toNat > maxItems
    · exact Or.inr (Or.inr (Or.inl hlimit))
    · exact Or.inr (Or.inr (Or.inr (Or.inl (by omega))))
  refine ⟨⟨total, htotal, (), ?_, (), hitems, hkinds⟩, hlength, validateItems_valid hitems⟩
  rw [refuse_eq_ok]
  rintro (hbad | hbad | hbad | hbad | hbad)
  · exact hbounds (Or.inl hbad)
  · revert hbad
    decide
  · exact absurd hmaximum.le (not_le.mpr hbad)
  · rw [hmaximum] at hbad
    omega
  · exact hbounds (Or.inr (Or.inr (Or.inr (Or.inr hbad))))

end Literal

/-- The terminal of a valid raw result fits in one frame. -/
theorem prepareRawExact_ok (scoreText : Score → Bytes) {limit : UInt8} {result : RawExactResult}
    (hvalid : rawKind.validateResult limit result = .ok ()) :
    ∃ frame, prepareRawExact scoreText queryRequestId result = .ok frame ∧
      frame.length ≤ maxFrameBytes := by
  obtain ⟨hmaximum, hlength, hitems⟩ := validateResult_maximum hvalid
  have hid := Texts.word64_length_le queryRequestId
  have hresult : (Texts.exactResult "missing_sources" Texts.rawItem result).length ≤
      result.items.length * 60001 + 400 :=
    Texts.exactResult_length_le (of_decide_eq_true rfl) fun item hmem =>
      Texts.rawItem_length_le (hitems item hmem)
  have houtcome := Texts.object_length_le [
    Session.Texts.member "status" (Format.quoted "raw_exact"),
    Session.Texts.member "result" (Texts.exactResult "missing_sources" Texts.rawItem result)]
  have hterminal := Texts.object_length_le [
    Session.Texts.member "request_id" (Session.Texts.word64 queryRequestId),
    Session.Texts.member "outcome" (Texts.outcome scoreText (.rawExact result))]
  have hlabels : (Format.label "status").length + (Format.quoted "raw_exact").length +
      (Format.label "result").length + (Format.label "request_id").length +
      (Format.label "outcome").length = 52 := rfl
  have hcount : maxItems = 64 := rfl
  have hframe : maxFrameBytes = 8388608 := rfl
  simp only [List.map_cons, List.map_nil, List.sum_cons, List.sum_nil, List.length_cons,
    List.length_nil, Session.Texts.member_length] at houtcome hterminal
  have hfits : framePrefixBytes +
      (Texts.terminal scoreText ⟨queryRequestId, .rawExact result⟩).length ≤ maxFrameBytes := by
    rw [Texts.terminal, framePrefixBytes]
    dsimp only
    rw [Texts.outcome] at hterminal ⊢
    omega
  obtain ⟨frame, hencode, hlast⟩ := encode_ok hfits
  refine ⟨frame, ?_, hlast.le.trans hfits⟩
  have hvalidTerminal : Terminal.validate (UInt8.ofNat maxItems)
      ⟨queryRequestId, .rawExact result⟩ = .ok () := by
    rw [Terminal.validate, refuse_of_not (not_not.mpr rfl), ok_bind, refuse_of_not (by decide),
      ok_bind]
    exact hmaximum
  rw [prepareRawExact, encodeTerminalFrame, hvalidTerminal, ok_bind, hencode]

end EliotSearch.Query
