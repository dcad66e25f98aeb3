import EliotSearch.Control.Ambiguity
import EliotSearch.Library.JsonValue
import EliotSearch.Preparation.Artifacts

/-!
# Preparing one source

How the daemon reuses or creates the preparation of a retained source and what it
answers.  Every transaction opens the database that other writers left, and every
object call reads the directory as it is then; both are numbered in the order of the
calls.
-/

namespace EliotSearch.Commands.Preparing

open EliotSearch.Control
open EliotSearch.Library
open EliotSearch.Library.Hex
open EliotSearch.Library.Json
open EliotSearch.Library.Results
open EliotSearch.Library.Utf8
open EliotSearch.Preparation
open EliotSearch.Query

/-! ## Limits and codes -/

def maxPreparationResponseBytes : Nat := 6 * 64 * 1024 + 4096

def limits : PreparationLimits where
  maxInputBytes := 8 * 1024 * 1024
  maxOutputBytes := 8 * 1024 * 1024
  maxLines := 1000000
  maxUnits := 1000000
  maxEncodedBytes := 64 * 1024 * 1024

def check (env : Env) (site : Nat) : Except Bytes Unit :=
  checkWith (ascii "PREPARATION_CANCELLED") (ascii "PREPARATION_DEADLINE") env site

/-- Content-free machine-readable error code. -/
def controlCode : PreparationControlError → Bytes
  | .notRetained => ascii "PREPARATION_SOURCE_NOT_RETAINED"
  | .notSelected => ascii "PREPARATION_NOT_SELECTED"
  | .invalidSettings => ascii "PREPARATION_SETTINGS_INVALID"
  | .unsupportedSchema => ascii "PREPARATION_SCHEMA_UNSUPPORTED"
  | .corrupt => ascii "PREPARATION_CONTROL_CORRUPT"
  | .stale => ascii "PREPARATION_STALE"
  | .database => ascii "PREPARATION_CONTROL_IO"
  | .revisionExhausted => ascii "PREPARATION_REVISION_EXHAUSTED"
  | .invalidOutcome => ascii "PREPARATION_OUTCOME_INVALID"
  | .deadline => ascii "PREPARATION_DEADLINE"
  | .cancelled => ascii "PREPARATION_CANCELLED"

/-- The failures of content that are recorded as a gap. -/
def gap : PreparationError → Option PreparationGap
  | .binaryContent => some .binaryContent
  | .invalidUtf8 => some .invalidUtf8
  | .inputTooLarge => some .inputTooLarge
  | .outputTooLarge => some .outputTooLarge
  | .tooManyLines => some .tooManyLines
  | .tooManyUnits => some .tooManyUnits
  | .unitTooLarge => some .unitTooLarge
  | .encodedTooLarge => some .encodedTooLarge
  | _ => none

def gapCode : PreparationGap → String
  | .binaryContent => "binary_content"
  | .invalidUtf8 => "invalid_utf8"
  | .inputTooLarge => "input_too_large"
  | .outputTooLarge => "output_too_large"
  | .tooManyLines => "too_many_lines"
  | .tooManyUnits => "too_many_units"
  | .unitTooLarge => "unit_too_large"
  | .encodedTooLarge => "encoded_too_large"

/-! ## What a preparation meets -/

/-- How the root refuses to publish an object. -/
inductive PublishFault where
  | alreadyExists
  | deadline
  | cancelled
  | other
  deriving DecidableEq

def PublishFault.code : PublishFault → Bytes
  | alreadyExists => ascii "OBJECT_IMMUTABLE_CONFLICT"
  | deadline => ascii "OBJECT_DEADLINE"
  | cancelled => ascii "OBJECT_CANCELLED"
  | other => ascii "OBJECT_PUBLISH_FAILED"

/-- The surroundings, the database and the object directory of every numbered call,
and whether an object can be published. -/
structure Meeting where
  env : Nat → Env
  db : Nat → Db
  objects : Nat → Bytes → Option Stored
  publishing : Option PublishFault
  hash : Bytes → Blake3Digest32

def Meeting.store (meeting : Meeting) (call : Nat) : Store := ⟨meeting.objects call, meeting.hash⟩

def Meeting.read (meeting : Meeting) (call : Nat) (reference : ObjectRef)
    (maximumBytes : UInt64) : Except Bytes Bytes :=
  (readObject (meeting.store call) (meeting.env call) reference maximumBytes).mapError
    ObjectStoreError.code

def Meeting.decode (meeting : Meeting) (call : Nat) (stored : Bytes)
    (source : CurrentSourceRecord) (settings : PreparationSettings) :
    Except Bytes PreparedUtf8 :=
  (decodePreparedUtf8 meeting.hash (meeting.env call) stored source settings limits).mapError
    PreparationError.code

/-! ## Settings -/

/-- Select settings under the view of one call and the transaction of the next. -/
def selectSettings (meeting : Meeting) (writer : Bool) (id : SourceId)
    (settings : PreparationSettings) (initializeOnly : Bool) :
    Except PreparationControlError CurrentPreparation := do
  refuse (¬ settings.IsSupported) .invalidSettings
  let (source, previous) ← readPreparation (meeting.env 2) (meeting.db 2) id
  match previous.filter fun row => initializeOnly || row.settings == settings with
  | some row => return row
  | none =>
      let attempt := writeSettingsTransaction (meeting.env 3) (meeting.db 3) id settings source
        previous
      match Registry.unacknowledged (meeting.env 3) attempt, writer with
      | some proposed, false =>
          Registry.resolvePreparation proposed
            (readPreparation (meeting.env 4) (meeting.db 4) proposed.sourceId)
      | _, _ => (settle (meeting.env 3) (meeting.db 3) PreparationControlError.database attempt).reply

/-- Initializes the default only when no selection exists. -/
def ensurePreparationSettings (meeting : Meeting) (writer : Bool) (id : SourceId) :
    Except PreparationControlError CurrentPreparation := do
  let (_, row) ← readPreparation (meeting.env 1) (meeting.db 1) id
  match row with
  | some row => return row
  | none => selectSettings meeting writer id .default true

def capturePreparation (meeting : Meeting) (id : SourceId) :
    Except PreparationControlError PreparationCapture := do
  let (source, row) ← readPreparation (meeting.env 5) (meeting.db 5) id
  captureView source row

/-! ## Outcomes -/

/-- Publish the bytes of a prepared object and read them back. -/
def storeObject (meeting : Meeting) (bytes : Bytes) (maximumBytes : UInt64) :
    Except Bytes ObjectRef := do
  (checkWith ObjectStoreError.cancelled .deadline (meeting.env 7) 0).mapError
    ObjectStoreError.code
  let reference : ObjectRef :=
    ⟨sourceObjectFormatVersion, .prepared, meeting.hash bytes, UInt64.ofNat bytes.length⟩
  refuse (bytes.length > maximumBytes.toNat ∨ ¬ Admissible reference maximumBytes)
    ObjectStoreError.invalidReference.code
  match meeting.publishing with
  | some fault => throw fault.code
  | none =>
      let readback ← meeting.read 8 reference maximumBytes
      refuse (readback.length ≠ reference.byteLength.toNat) ObjectStoreError.integrityFailure.code
      return reference

def createOutcome (meeting : Meeting) (source : CurrentSourceRecord)
    (settings : PreparationSettings) : Except Bytes PreparationOutcome :=
  if source.objectRef.byteLength > 8 * 1024 * 1024 then return .gap .inputTooLarge
  else do
    let bytes ← meeting.read 6 source.objectRef maxSourceObjectBytes
    match prepareUtf8 meeting.hash (meeting.env 9) source bytes settings limits with
    | .ok encoded => do
        let artifact ← storeObject meeting encoded (64 * 1024 * 1024)
        return .ready artifact
    | .error error => do
        let reason ← okOr (gap error) error.code
        return .gap reason

/-- The artifact of an outcome that already fits the source and the settings. -/
def reusable (capture : PreparationCapture) : Option ObjectRef :=
  (capture.expectedOutcome.filter fun outcome =>
    decide (outcome.MatchesInput capture.source capture.settings)).bind fun outcome =>
      match outcome.result with
      | .ready artifact => some artifact
      | .gap _ => none

/-- Commit through the writer, or on the path with a second look. -/
def commit (meeting : Meeting) (writer : Bool) (capture : PreparationCapture)
    (result : PreparationOutcome) : Except Bytes CurrentPreparation :=
  let reply :=
    if writer then
      (commitPreparation (meeting.env 10) (meeting.db 10) capture result).reply
    else
      (commitPreparationCall (meeting.env 10) (meeting.env 11) (fun _ => meeting.db 11)
        (meeting.db 10) capture result).reply
  reply.mapError controlCode

/-- The recorded outcome of a row. -/
def resultOf (row : CurrentPreparation) : Option PreparationOutcome :=
  row.outcome.map fun outcome => outcome.result

/-! ## Preparing -/

/-- Verified current preparation returned to in-process command composition. -/
structure PreparedSource where
  source : CurrentSourceRecord
  current : CurrentPreparation
  storedArtifact : Option (ObjectRef × Bytes)
  deriving DecidableEq

/-- Record a gap; a usable artifact that was there is kept and read instead. -/
def prepareGap (meeting : Meeting) (writer : Bool) (capture : PreparationCapture)
    (reason : PreparationGap) : Except Bytes PreparedSource := do
  let current ← commit meeting writer capture (.gap reason)
  match resultOf current with
  | some (.ready artifact) => do
      let stored ← meeting.read 12 artifact (64 * 1024 * 1024)
      let _view ← meeting.decode 13 stored capture.source capture.settings
      return ⟨capture.source, current, some (artifact, stored)⟩
  | some (.gap actual) =>
      if actual = reason then return ⟨capture.source, current, none⟩
      else throw (ascii "PREPARATION_CONTROL_CORRUPT")
  | none => throw (ascii "PREPARATION_CONTROL_CORRUPT")

/-- The artifact to reuse, or a new outcome. -/
def chooseOutcome (meeting : Meeting) (capture : PreparationCapture) :
    Except Bytes PreparationOutcome :=
  match reusable capture with
  | some artifact => .ok (.ready artifact)
  | none => createOutcome meeting capture.source capture.settings

/-- Reuses or creates the selected source's verified preparation. -/
def prepare (meeting : Meeting) (writer : Bool) (id : SourceId) : Except Bytes PreparedSource := do
  check (meeting.env 0) 0
  let _row ← (ensurePreparationSettings meeting writer id).mapError controlCode
  let capture ← (capturePreparation meeting id).mapError controlCode
  let result ← chooseOutcome meeting capture
  match result with
  | .ready artifact => do
      let stored ← meeting.read 14 artifact (64 * 1024 * 1024)
      let _view ← meeting.decode 15 stored capture.source capture.settings
      let current ← commit meeting writer capture result
      return ⟨capture.source, current, some (artifact, stored)⟩
  | .gap reason => prepareGap meeting writer capture reason

/-! ## Responses -/

/-- A text of ASCII bytes. -/
def asciiText (bytes : Bytes) (hascii : ∀ byte ∈ bytes, byte.toNat < 128) : Text :=
  ⟨bytes, valid_of_ascii hascii⟩

theorem isLowerHex_ascii {byte : UInt8} (hbyte : IsLowerHex byte) : byte.toNat < 128 := by
  rcases hbyte with hdigit | hletter
  · omega
  · omega

def hexText (bytes : Bytes) : Text :=
  asciiText (hex bytes) fun _ hmem => isLowerHex_ascii (hex_isLowerHex hmem)

theorem uuidText_ascii (id : Octets 16) : ∀ byte ∈ uuidText id, byte.toNat < 128 := by
  intro byte hmem
  have hdash : dash.toNat < 128 := by decide
  have hpart {part : Bytes} (hsub : ∀ found ∈ part, found ∈ hex id.bytes)
      (hfound : byte ∈ part) : byte.toNat < 128 :=
    isLowerHex_ascii (hex_isLowerHex (hsub byte hfound))
  simp only [uuidText, List.mem_append, List.mem_cons] at hmem
  rcases hmem with (((hfirst | rfl | hsecond) | rfl | hthird) | rfl | hfourth) | rfl | hfifth
  · exact hpart (fun _ => List.mem_of_mem_take) hfirst
  · exact hdash
  · exact hpart (fun _ hin => List.mem_of_mem_drop (List.mem_of_mem_take hin)) hsecond
  · exact hdash
  · exact hpart (fun _ hin => List.mem_of_mem_drop (List.mem_of_mem_take hin)) hthird
  · exact hdash
  · exact hpart (fun _ hin => List.mem_of_mem_drop (List.mem_of_mem_take hin)) hfourth
  · exact hdash
  · exact hpart (fun _ => List.mem_of_mem_drop) hfifth

/-- The canonical spelling of an identifier. -/
def idText (id : Octets 16) : Text := asciiText (uuidText id) (uuidText_ascii id)

def kindText : ObjectKind → String
  | .source => "source"
  | .prepared => "prepared"

def objectJson (reference : ObjectRef) : Value :=
  .object [
    ("bytes", .number reference.byteLength),
    ("digest", .string (hexText reference.digest.bytes)),
    ("kind", .string (Value.literal (kindText reference.kind))),
    ("version", .number reference.formatVersion.toUInt64)]

def settingsJson (settings : PreparationSettings) : Value :=
  .object [
    ("line_unitizer_version", .number settings.lineUnitizerVersion.toUInt64),
    ("max_unit_bytes", .number settings.maxUnitBytes.toUInt64),
    ("preferred_unit_bytes", .number settings.preferredUnitBytes.toUInt64),
    ("utf8_version", .number settings.utf8Version.toUInt64)]

/-- The members of every response, in the order of their names. -/
def base (source : CurrentSourceRecord) (state : CurrentPreparation) : Value :=
  .object [
    ("artifact", .null),
    ("gap", .null),
    ("input", objectJson source.objectRef),
    ("operation", .string (Value.literal "prepare-source")),
    ("outcome_revision", .number state.outcomeRevision),
    ("registration_revision", .number source.registrationRevision),
    ("representation_bytes", .null),
    ("settings", settingsJson state.settings),
    ("settings_revision", .number state.settingsRevision),
    ("source_id", .string (idText source.sourceId)),
    ("source_namespace_id", .string (idText source.sourceNamespaceId)),
    ("source_row_revision", .number source.rowRevision),
    ("state", .string (Value.literal "gap")),
    ("unit", .null),
    ("unit_count", .null)]

def unitJson (ordinal : UInt64) (unit : UnitSpan) (text : Text) : Value :=
  .object [
    ("end", .number (UInt64.ofNat unit.sourceEnd)),
    ("ends_at_line_boundary", .bool unit.endsAtLineBoundary),
    ("line_end", .number (UInt64.ofNat unit.logicalLineEnd)),
    ("line_start", .number (UInt64.ofNat unit.logicalLineStart)),
    ("ordinal", .number ordinal),
    ("start", .number (UInt64.ofNat unit.sourceStart)),
    ("starts_at_line_boundary", .bool unit.startsAtLineBoundary),
    ("text", .string text)]

def readyResponse (source : CurrentSourceRecord) (state : CurrentPreparation)
    (artifact : ObjectRef) (view : PreparedUtf8) (ordinal : UInt64) : Except Bytes Value := do
  let response := (((base source state).set "artifact" (objectJson artifact)).set
    "representation_bytes" (.number (UInt64.ofNat view.text.bytes.length))).set
    "unit_count" (.number (UInt64.ofNat view.units.length))
  if view.units = [] then
    refuse (view.text.bytes ≠ []) (ascii "PREPARATION_ARTIFACT_INVALID")
    refuse (ordinal ≠ 0) (ascii "PREPARATION_UNIT_OUT_OF_RANGE")
    return response.set "state" (.string (Value.literal "empty"))
  else
    let unit ← okOr view.units[ordinal.toNat]? (ascii "PREPARATION_UNIT_OUT_OF_RANGE")
    let text ← okOr (view.text.get unit.sourceStart unit.sourceEnd)
      (ascii "PREPARATION_ARTIFACT_INVALID")
    return (response.set "state" (.string (Value.literal "ready"))).set "unit"
      (unitJson ordinal unit text)

def response (hash : Bytes → Blake3Digest32) (env : Env) (prepared : PreparedSource)
    (ordinal : UInt64) : Except Bytes Value :=
  match resultOf prepared.current with
  | some (.ready artifact) => do
      let (storedRef, stored) ←
        okOr (prepared.storedArtifact.filter fun stored => decide (stored.1 = artifact))
          (ascii "PREPARATION_CONTROL_CORRUPT")
      let view ← (decodePreparedUtf8 hash env stored prepared.source prepared.current.settings
        limits).mapError PreparationError.code
      readyResponse prepared.source prepared.current storedRef view ordinal
  | some (.gap reason) =>
      .ok ((base prepared.source prepared.current).set "gap"
        (.string (Value.literal (gapCode reason))))
  | none => .error (ascii "PREPARATION_CONTROL_CORRUPT")

/-- The line that a finished preparation writes. -/
def emit (env : Env) (response : Value) : Except Bytes Bytes := do
  refuse (response.print.length ≥ maxPreparationResponseBytes)
    (ascii "PREPARATION_RESPONSE_TOO_LARGE")
  check env 0
  return response.print ++ [10]

/-- Prepare a source, answer for one unit and write the line. -/
def run (meeting : Meeting) (id : SourceId) (ordinal : UInt64) : Except Bytes Bytes := do
  let prepared ← prepare meeting false id
  let value ← response meeting.hash (meeting.env 16) prepared ordinal
  emit (meeting.env 17) value

end EliotSearch.Commands.Preparing
