import EliotSearch.Control.PublicationCodec
import EliotSearch.Preparation.Units

/-!
# Saved artifacts

One encoding holds the binding to its source, the text and the ordered units.
A saved artifact is accepted without a second unitization: each unit is checked
against the lines of the text as they are read.

Allocations that fail are left out.
-/

namespace EliotSearch.Preparation

open EliotSearch.Control
open EliotSearch.Library
open EliotSearch.Library.Results
open EliotSearch.Library.Utf8
open EliotSearch.Library.Words
open EliotSearch.Query

/-! ## Limits -/

/-- The bytes of one unit in memory. -/
def unitSpanBytes : Nat := 40

/-- Fail-only ceilings, excluded from the successful artifact's transform identity. -/
structure PreparationLimits where
  maxInputBytes : Nat
  maxOutputBytes : Nat
  maxLines : Nat
  maxUnits : Nat
  maxEncodedBytes : Nat
  deriving DecidableEq

namespace PreparationLimits

/-- The limits can be served: none is zero, and the two inventories can be
allocated. -/
def Valid (limits : PreparationLimits) : Prop :=
  ¬ (limits.maxInputBytes = 0 ∨ limits.maxOutputBytes = 0 ∨ limits.maxLines = 0 ∨
    limits.maxUnits = 0 ∨ limits.maxEncodedBytes = 0) ∧
  ¬ (limits.maxLines * lineSpanBytes > isizeMax ∨ limits.maxUnits * unitSpanBytes > isizeMax)

def validate (limits : PreparationLimits) : Except PreparationError Unit := do
  refuse (limits.maxInputBytes = 0 ∨ limits.maxOutputBytes = 0 ∨ limits.maxLines = 0 ∨
    limits.maxUnits = 0 ∨ limits.maxEncodedBytes = 0) .invalidLimits
  refuse (limits.maxLines * lineSpanBytes > isizeMax ∨
    limits.maxUnits * unitSpanBytes > isizeMax) .offsetOverflow

theorem validate_eq_ok {limits : PreparationLimits} :
    limits.validate = .ok () ↔ limits.Valid := by
  rw [validate, bind_eq_ok]
  simp only [refuse_eq_ok, exists_const]
  rfl

def checkTextLength (limits : PreparationLimits) (length : Nat) : Except PreparationError Unit := do
  refuse (length > limits.maxInputBytes) .inputTooLarge
  refuse (length > limits.maxOutputBytes) .outputTooLarge

/-- The materializer's part of the limits. -/
def materialization (limits : PreparationLimits) : MaterializationLimits :=
  ⟨limits.maxInputBytes, limits.maxOutputBytes, limits.maxLines⟩

/-- Every limit of the second is at least that of the first. -/
structure LE (lower upper : PreparationLimits) : Prop where
  input : lower.maxInputBytes ≤ upper.maxInputBytes
  output : lower.maxOutputBytes ≤ upper.maxOutputBytes
  lines : lower.maxLines ≤ upper.maxLines
  units : lower.maxUnits ≤ upper.maxUnits
  encoded : lower.maxEncodedBytes ≤ upper.maxEncodedBytes

end PreparationLimits

/-! ## Binding -/

/-- The record names retained bytes that can be prepared. -/
def Bindable (source : CurrentSourceRecord) : Prop :=
  ¬ (source.registrationRevision = 0 ∨ source.objectRef.kind ≠ .source ∨
    source.objectRef.formatVersion ≠ sourceObjectFormatVersion ∨
    source.objectRef.byteLength > maxSourceObjectBytes)

instance (source : CurrentSourceRecord) : Decidable (Bindable source) :=
  inferInstanceAs (Decidable (¬ _))

def validate (env : Env) (source : CurrentSourceRecord) (settings : PreparationSettings)
    (limits : PreparationLimits) : Except PreparationError Unit := do
  check env 0
  limits.validate
  refuse (¬ settings.IsSupported) .invalidSettings
  refuse (¬ Bindable source) .bindingMismatch
  limits.checkTextLength source.objectRef.byteLength.toNat

/-- One check for each of so many steps of a loop. -/
def checkEach (env : Env) : (count : Nat) → Except PreparationError Unit
  | 0 => return ()
  | count + 1 => do
      checkEach env count
      check env count

/-- The number of chunks that the bytes are walked in. -/
def chunkCount (bytes : Bytes) : Nat := (bytes.length + 8191) / 8192

def verifyDigest (hash : Bytes → Blake3Digest32) (env : Env) (source : CurrentSourceRecord)
    (bytes : Bytes) : Except PreparationError Unit := do
  checkEach (within env 0) (chunkCount bytes)
  check (within env 1) 0
  refuse (hash bytes ≠ source.objectRef.digest) .integrityFailure

/-! ## Framing -/

def magic : Bytes := Json.ascii "ELSPRP01"

def artifactVersion : UInt16 := 1

def headerBytes : Nat := 8 + 2 + (16 + 16 + 8 + 2 + 1 + 32 + 8) + (2 + 2 + 4 + 4) + 8 + 8

def unitBytes : Nat := 8 + 8 + 8 + 8 + 1 + 1

def encodedSize (text units : Nat) : Except PreparationError Nat := do
  refuse (units * unitBytes + headerBytes + text ≥ 2 ^ 64) .offsetOverflow
  return units * unitBytes + headerBytes + text

def putUsize (value : Nat) : Bytes := le64 (UInt64.ofNat value)

/-- The binding to the source and the settings that affect the output. -/
def putBinding (source : CurrentSourceRecord) (settings : PreparationSettings) : Bytes :=
  magic ++ le16 artifactVersion ++ source.sourceNamespaceId.bytes ++ source.sourceId.bytes ++
    le64 source.registrationRevision ++ le16 source.objectRef.formatVersion ++
    [source.objectRef.kind.tag] ++ source.objectRef.digest.bytes ++
    le64 source.objectRef.byteLength ++ le16 settings.utf8Version ++
    le16 settings.lineUnitizerVersion ++ le32 settings.preferredUnitBytes ++
    le32 settings.maxUnitBytes

def putUnit (unit : UnitSpan) : Bytes :=
  putUsize unit.sourceStart ++ putUsize unit.sourceEnd ++ putUsize unit.logicalLineStart ++
    putUsize unit.logicalLineEnd ++ [boolByte unit.startsAtLineBoundary] ++
    [boolByte unit.endsAtLineBoundary]

/-- The encoding of a text and its units under their binding. -/
def encoding (source : CurrentSourceRecord) (settings : PreparationSettings) (text : Bytes)
    (units : List UnitSpan) : Bytes :=
  putBinding source settings ++ putUsize text.length ++ putUsize units.length ++ text ++
    units.flatMap putUnit

def encode (env : Env) (source : CurrentSourceRecord) (settings : PreparationSettings)
    (product : MaterializedText) (units : List UnitSpan) (limits : PreparationLimits) :
    Except PreparationError Bytes := do
  check (within env 0) 0
  let size ← encodedSize product.text.bytes.length units.length
  refuse (size > limits.maxEncodedBytes) .encodedTooLarge
  checkEach (within env 1) (chunkCount product.text.bytes)
  checkEach (within env 2) units.length
  check (within env 3) 0
  return encoding source settings product.text.bytes units

/-- Produces one complete encoding from the exact retained input. -/
def prepareUtf8 (hash : Bytes → Blake3Digest32) (env : Env) (source : CurrentSourceRecord)
    (verifiedBytes : Bytes) (settings : PreparationSettings) (limits : PreparationLimits) :
    Except PreparationError Bytes := do
  validate (within env 0) source settings limits
  refuse (verifiedBytes.length ≠ source.objectRef.byteLength.toNat) .bindingMismatch
  verifyDigest hash (within env 1) source verifiedBytes
  let product ← (materializeUtf8 (within env 2) verifiedBytes limits.materialization).mapError
    MaterializationError.preparation
  let units ← unitizeText (within env 3) product settings limits.maxUnits
  encode (within env 4) source settings product units limits

/-! ## Acceptance -/

/-- A checked view of the saved representation. -/
structure PreparedUtf8 where
  text : Text
  units : List UnitSpan

def boolean : Reader PreparationError Bool := do
  let byte ← Reader.u8 .invalidArtifact
  Reader.okOr (if byte = 0 then some false else if byte = 1 then some true else none)
    .invalidArtifact

def usize : Reader PreparationError Nat := do
  let word ← Reader.u64 .invalidArtifact
  return word.toNat

/-- Read a field of the binding. -/
def bound {α : Type} [DecidableEq α] (reader : PreparationError → Reader PreparationError α)
    (value : α) : Reader PreparationError Unit :=
  Reader.expect .bindingMismatch (reader .invalidArtifact) value

def readBinding (source : CurrentSourceRecord) (settings : PreparationSettings) :
    Reader PreparationError Unit := do
  Reader.expect .invalidArtifact (Reader.take .invalidArtifact 8) magic
  Reader.expect .invalidArtifact (Reader.u16 .invalidArtifact) artifactVersion
  bound (fun error => Reader.take error 16) source.sourceNamespaceId.bytes
  bound (fun error => Reader.take error 16) source.sourceId.bytes
  bound Reader.u64 source.registrationRevision
  bound Reader.u16 source.objectRef.formatVersion
  bound (fun error => Reader.take error 1) [source.objectRef.kind.tag]
  bound (fun error => Reader.take error 32) source.objectRef.digest.bytes
  bound Reader.u64 source.objectRef.byteLength
  bound Reader.u16 settings.utf8Version
  bound Reader.u16 settings.lineUnitizerVersion
  bound Reader.u32 settings.preferredUnitBytes
  bound Reader.u32 settings.maxUnitBytes

def readUnit : Reader PreparationError UnitSpan := do
  let sourceStart ← usize
  let sourceEnd ← usize
  let logicalLineStart ← usize
  let logicalLineEnd ← usize
  let startsAtLineBoundary ← boolean
  let endsAtLineBoundary ← boolean
  return ⟨sourceStart, sourceEnd, logicalLineStart, logicalLineEnd, startsAtLineBoundary,
    endsAtLineBoundary⟩

/-- Read lines while the current one is behind; each line has a byte, so the fuel
is what is left to scan. -/
def Lines.seek (env : Env) (maximum : Nat) (behind : Line → Bool) :
    (fuel : Nat) → Line → Lines → Except PreparationError (Line × Lines)
  | 0, line, lines => do
      refuse (behind line) .invalidArtifact
      return (line, lines)
  | fuel + 1, line, lines =>
      if behind line then do
        let (following, lines) ← lines.next (within env lines.index) maximum
        let line ← okOr following .invalidArtifact
        seek env maximum behind fuel line lines
      else return (line, lines)

/-- The unit has the expected start and is a range of the text. -/
def InText (text : Text) (hard expected : Nat) (unit : UnitSpan) : Prop :=
  ¬ (unit.sourceStart ≠ expected ∨ unit.sourceEnd ≤ unit.sourceStart ∨
    unit.sourceEnd > text.bytes.length ∨ unit.sourceEnd - unit.sourceStart > hard ∨
    ¬ IsBoundary text.bytes unit.sourceStart ∨ ¬ IsBoundary text.bytes unit.sourceEnd)

instance (text : Text) (hard expected : Nat) (unit : UnitSpan) :
    Decidable (InText text hard expected unit) :=
  inferInstanceAs (Decidable (¬ _))

/-- The unit is described by the lines of its start and its end. -/
def Described (first last : Line) (unit : UnitSpan) : Prop :=
  ¬ (unit.logicalLineStart ≠ first.index ∨ unit.logicalLineEnd ≠ last.index + 1 ∨
    unit.startsAtLineBoundary ≠ decide (unit.sourceStart = first.start) ∨
    unit.endsAtLineBoundary ≠ decide (unit.sourceEnd = last.stop))

instance (first last : Line) (unit : UnitSpan) : Decidable (Described first last unit) :=
  inferInstanceAs (Decidable (¬ _))

/-- Check a unit against the lines; the line of its end becomes the current one. -/
def acceptUnit (env : Env) (text : Text) (hard maximum expected : Nat) (unit : UnitSpan)
    (current : Option Line) (lines : Lines) : Except PreparationError (Line × Lines) := do
  refuse (¬ InText text hard expected unit) .invalidArtifact
  let first ← okOr current .invalidArtifact
  let (first, lines) ← lines.seek env maximum (fun line => line.stop ≤ unit.sourceStart)
    lines.rest.length first
  let (last, lines) ← lines.seek env maximum (fun line => line.stop < unit.sourceEnd)
    lines.rest.length first
  refuse (¬ Described first last unit) .invalidArtifact
  return (last, lines)

/-- Read so many units behind the expected start. -/
def readUnitsFrom (env : Env) (text : Text) (hard maximum : Nat) : (count expected : Nat) →
    Option Line → Lines → Reader PreparationError (List UnitSpan)
  | 0, expected, _, _ => do
      Reader.refuse (expected ≠ text.bytes.length) .invalidArtifact
      return []
  | count + 1, expected, current, lines => do
      Reader.lift (check (within env 0) count)
      let unit ← readUnit
      let (last, lines) ← Reader.lift
        (acceptUnit (within env 1) text hard maximum expected unit current lines)
      let units ← readUnitsFrom env text hard maximum count unit.sourceEnd (some last) lines
      return unit :: units

def readUnits (env : Env) (text : Text) (count : Nat) (settings : PreparationSettings)
    (limits : PreparationLimits) : Reader PreparationError (List UnitSpan) := do
  Reader.refuse (decide (text.bytes = []) ≠ decide (count = 0)) .invalidArtifact
  let lines : Lines := ⟨text.bytes, 0, 0⟩
  let (current, lines) ← Reader.lift
    (lines.next (within (within env 1) lines.index) limits.maxLines)
  readUnitsFrom env text settings.maxUnitBytes.toNat limits.maxLines count 0 current lines

/-- Read the parts of an artifact of the given size. -/
def readArtifact (hash : Bytes → Blake3Digest32) (env : Env) (size : Nat)
    (source : CurrentSourceRecord) (settings : PreparationSettings)
    (limits : PreparationLimits) : Reader PreparationError PreparedUtf8 := do
  readBinding source settings
  let textLength ← usize
  let unitCount ← usize
  Reader.refuse (unitCount > limits.maxUnits) .tooManyUnits
  Reader.lift (limits.checkTextLength textLength)
  Reader.refuse (textLength ≠ source.objectRef.byteLength.toNat) .bindingMismatch
  let expected ← Reader.lift (encodedSize textLength unitCount)
  Reader.refuse (expected ≠ size) .invalidArtifact
  Reader.lift (check (within env 0) 0)
  let textBytes ← Reader.take .invalidArtifact textLength
  let text ← Reader.okOr (Text.ofBytes textBytes) .invalidArtifact
  Reader.lift (verifyDigest hash (within env 1) source textBytes)
  let units ← readUnits (within env 2) text unitCount settings limits
  return { text, units }

def decode (hash : Bytes → Blake3Digest32) (env : Env) (artifact : Bytes)
    (source : CurrentSourceRecord) (settings : PreparationSettings)
    (limits : PreparationLimits) : Except PreparationError PreparedUtf8 := do
  refuse (artifact.length > limits.maxEncodedBytes) .encodedTooLarge
  refuse (artifact.length < headerBytes) .invalidArtifact
  let (view, rest) ← readArtifact hash (within env 0) artifact.length source settings limits
    artifact
  refuse (rest ≠ []) .invalidArtifact
  check (within env 1) 0
  return view

/-- Accepts a saved complete artifact against its expected source and settings. -/
def decodePreparedUtf8 (hash : Bytes → Blake3Digest32) (env : Env) (artifact : Bytes)
    (expectedSource : CurrentSourceRecord) (expectedSettings : PreparationSettings)
    (limits : PreparationLimits) : Except PreparationError PreparedUtf8 := do
  validate (within env 0) expectedSource expectedSettings limits
  decode hash (within env 1) artifact expectedSource expectedSettings limits

end EliotSearch.Preparation
