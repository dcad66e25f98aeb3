import EliotSearch.Commands.Arguments
import EliotSearch.Commands.PreparedSource
import EliotSearch.Control.PublishedView

/-!
# Responses and their validation

What the daemon answers to a publication, and the two validators of the command
line.  A validator sees only the bytes of a line; how the line is read as a JSON
value is a parameter.
-/

namespace EliotSearch.Commands

open EliotSearch.Control
open EliotSearch.Library
open EliotSearch.Library.Hex
open EliotSearch.Library.Json
open EliotSearch.Library.Results
open EliotSearch.Library.Utf8
open EliotSearch.Preparation
open EliotSearch.Query

/-! ## Shapes -/

/-- The value is an object with exactly these names. -/
def keys (value : Value) (names : List String) : Bool :=
  value.asObject.any fun members =>
    members.length = names.length ∧ ∀ name ∈ names, (members.lookup name).isSome = true

/-- Lowercase hexadecimal digits, so many. -/
def isHex (value : Bytes) (length : Nat) : Bool :=
  value.length = length ∧ ∀ byte ∈ value, IsLowerHex byte

def number (value : Value) (key : String) : Option UInt64 :=
  (value.get key).bind Value.asU64

def textAt (value : Value) (key : String) : Option Text :=
  (value.get key).bind Value.asStr

def positive (value : Value) (key : String) : Bool :=
  (number value key).any fun found => found > 0

def nullAt (value : Value) (key : String) : Bool :=
  (value.get key).any Value.isNull

def booleanAt (value : Value) (key : String) : Bool :=
  (value.get key).any Value.isBoolean

/-! ## Prepared sources -/

namespace PreparedResponse

def objectNames : List String := ["version", "kind", "digest", "bytes"]

def object (value : Value) (kind : String) (maximum : UInt64) : Option UInt64 := do
  let version ← number value "version"
  let found ← textAt value "kind"
  let digest ← textAt value "digest"
  guard (keys value objectNames = true ∧ version = 1 ∧ found = Value.literal kind ∧
    isHex digest.bytes 64 = true)
  let bytes ← number value "bytes"
  if bytes > maximum ∨ (kind = "prepared" ∧ bytes = 0) then none else some bytes

def settingsNames : List String :=
  ["utf8_version", "line_unitizer_version", "preferred_unit_bytes", "max_unit_bytes"]

/-- The number, if it fits so many values. -/
def within (value : Value) (key : String) (bound : Nat) : Option Nat :=
  ((number value key).map UInt64.toNat).filter fun found => found < bound

def settings (value : Value) : Option PreparationSettings := do
  guard (keys value settingsNames = true)
  let utf8Version ← within value "utf8_version" (2 ^ 16)
  let lineUnitizerVersion ← within value "line_unitizer_version" (2 ^ 16)
  let preferredUnitBytes ← within value "preferred_unit_bytes" (2 ^ 32)
  let maxUnitBytes ← within value "max_unit_bytes" (2 ^ 32)
  let settings : PreparationSettings :=
    ⟨UInt16.ofNat utf8Version, UInt16.ofNat lineUnitizerVersion, UInt32.ofNat preferredUnitBytes,
      UInt32.ofNat maxUnitBytes⟩
  if settings.IsSupported then some settings else none

def unitNames : List String :=
  ["ordinal", "start", "end", "line_start", "line_end", "starts_at_line_boundary",
    "ends_at_line_boundary", "text"]

/-- The unit is the requested one and lies in a representation of the given size. -/
def unit (value : Value) (ordinal count representation : UInt64) (hard : UInt32) : Option Unit := do
  guard (keys value unitNames = true)
  let start ← number value "start"
  let stop ← number value "end"
  let first ← number value "line_start"
  let last ← number value "line_end"
  let text ← textAt value "text"
  guard (number value "ordinal" = some ordinal)
  guard (ordinal < count ∧ start < stop ∧ stop ≤ representation ∧
    (stop - start).toNat ≤ hard.toNat ∧ text.bytes.length = (stop - start).toNat ∧ first < last ∧
    booleanAt value "starts_at_line_boundary" = true ∧
    booleanAt value "ends_at_line_boundary" = true)

/-- The text without one line end. -/
def stripLineEnd (text : Bytes) : Bytes :=
  if text.getLast? = some 10 then
    if text.dropLast.getLast? = some 13 then text.dropLast.dropLast else text.dropLast
  else text

/-- The one line that bounded bytes hold. -/
def boundedLine (bytes : Bytes) : Option Bytes :=
  if bytes.length > Preparing.maxPreparationResponseBytes ∨ ¬ Valid bytes then none
  else
    let line := stripLineEnd bytes
    if line = [] ∨ 13 ∈ line ∨ 10 ∈ line then none else some line

def names : List String :=
  ["operation", "state", "source_namespace_id", "source_id", "source_row_revision",
    "registration_revision", "settings_revision", "outcome_revision", "settings", "input",
    "artifact", "representation_bytes", "unit_count", "unit", "gap"]

def revisions : List String :=
  ["source_row_revision", "registration_revision", "settings_revision", "outcome_revision"]

def gapReasons : List String :=
  ["binary_content", "invalid_utf8", "input_too_large", "output_too_large", "too_many_lines",
    "too_many_units", "unit_too_large", "encoded_too_large"]

/-- A response without a representation. -/
def validateGap (value : Value) : Option Unit := do
  let reason ← textAt value "gap"
  guard ((∀ key ∈ ["artifact", "representation_bytes", "unit_count", "unit"],
    nullAt value key = true) ∧ ∃ name ∈ gapReasons, reason = Value.literal name)

/-- A response with a representation, empty or not. -/
def validateReady (value : Value) (empty : Bool) (ordinal input : UInt64)
    (selected : PreparationSettings) : Option Unit := do
  let artifact ← value.get "artifact"
  let _ ← object artifact "prepared" (64 * 1024 * 1024)
  guard (nullAt value "gap" = true)
  let representation ← number value "representation_bytes"
  let count ← number value "unit_count"
  guard (representation = input ∧ count ≤ 1000000)
  if empty then
    guard (input = 0 ∧ count = 0 ∧ ordinal = 0 ∧ nullAt value "unit" = true)
  else
    guard (representation ≠ 0 ∧ count ≠ 0)
    let found ← value.get "unit"
    unit found ordinal count representation selected.maxUnitBytes

def validateValue (value : Value) (sourceId : Bytes) (ordinal : UInt64) : Option Unit := do
  let operation ← textAt value "operation"
  let source ← textAt value "source_id"
  let namespaceId ← textAt value "source_namespace_id"
  guard (keys value names = true ∧ operation = Value.literal "prepare-source" ∧
    source.bytes = sourceId ∧ isUuidText sourceId = true ∧ isUuidText namespaceId.bytes = true)
  guard (∀ key ∈ revisions, positive value key = true)
  let selected ← (value.get "settings").bind settings
  let input ← (value.get "input").bind fun found => object found "source" maxSourceObjectBytes
  let state ← textAt value "state"
  if state = Value.literal "gap" then validateGap value
  else if state = Value.literal "ready" then validateReady value false ordinal input selected
  else if state = Value.literal "empty" then validateReady value true ordinal input selected
  else none

/-- The line, if it is a response for the source and the unit. -/
def validate (reader : ValueReader) (bytes sourceId : Bytes) (ordinal : UInt64) :
    Option Bytes := do
  let line ← boundedLine bytes
  let value ← reader.fromSlice line
  validateValue value sourceId ordinal
  return line

end PreparedResponse

/-! ## Publications -/

namespace PublishedResponse

def maxPublicationResponseBytes : Nat := 64 * 2048 + 4096

theorem hexByte_ascii (byte found : UInt8) (hmem : found ∈ Control.hexByte byte) :
    found.toNat < 128 := by
  have hall : ∀ value < 256, ∀ found ∈ Control.hexByte (UInt8.ofNat value),
      found.toNat < 128 := by decide +kernel
  have hbyte := hall byte.toNat byte.toNat_lt
  rw [UInt8.ofNat_toNat] at hbyte
  exact hbyte found hmem

theorem collection_ascii (generation : Generation) :
    ∀ byte ∈ generation.collection, byte.toNat < 128 := by
  intro byte hmem
  simp only [Generation.collection, List.mem_append] at hmem
  rcases hmem with ((hfront | hnamespace) | hmiddle) | hsequence
  · revert byte
    decide
  · obtain ⟨source, -, hbyte⟩ := List.mem_flatMap.mp hnamespace
    exact hexByte_ascii source byte hbyte
  · revert byte
    decide
  · have hdigit := isDigit_of_mem_decimal hsequence
    simp only [isDigit, Bool.and_eq_true, decide_eq_true_eq] at hdigit
    omega

/-- The daemon's answer to a publication. -/
def response (view : PublishedView) : Value :=
  let generation := view.generation
  .object [
    ("collection",
      .string (Preparing.asciiText generation.collection (collection_ascii generation))),
    ("gap_count", .number generation.gapCount),
    ("generation", .number generation.sequence),
    ("operation", .string (Value.literal "publish-prepared")),
    ("page_count", .number generation.pageCount),
    ("point_count", .number generation.pointCount),
    ("source_count", .number generation.sourceCount),
    ("state", .string (Value.literal "published"))]

/-- The line that a finished publication writes. -/
def emit (env : Env) (view : PublishedView) : Except Bytes Bytes := do
  let bytes := (response view).print
  refuse (bytes.length ≥ maxPublicationResponseBytes) (ascii "PUBLICATION_RESPONSE_TOO_LARGE")
  checkWith (ascii "PUBLICATION_CANCELLED") (ascii "PUBLICATION_DEADLINE") env 0
  return bytes ++ [10]

def names : List String :=
  ["operation", "state", "collection", "generation", "source_count", "gap_count", "point_count",
    "page_count"]

/-- What stands before and behind the first occurrence of a mark. -/
def splitOnce (mark : Bytes) : Bytes → Option (Bytes × Bytes)
  | [] => if mark = [] then some ([], []) else none
  | byte :: rest =>
      match strip mark (byte :: rest) with
      | some behind => some ([], behind)
      | none => (splitOnce mark rest).map fun parts => (byte :: parts.1, parts.2)

def validateValue (value : Value) : Option Unit := do
  let operation ← textAt value "operation"
  let state ← textAt value "state"
  guard (keys value names = true ∧ operation = Value.literal "publish-prepared" ∧
    state = Value.literal "published")
  let generation ← number value "generation"
  let collection ← textAt value "collection"
  let named ← strip (ascii "eliot_") collection.bytes
  let (namespaceText, sequence) ← splitOnce (ascii "_g") named
  guard (generation ≠ 0 ∧ isHex namespaceText 32 = true ∧ sequence = decimal generation.toNat)
  let sources ← number value "source_count"
  let gaps ← number value "gap_count"
  let points ← number value "point_count"
  let pages ← number value "page_count"
  guard (¬ (sources > 4096 ∨ gaps > sources ∨ points > 1000000 ∨ pages > points ∨
    decide (points = 0) ≠ decide (pages = 0)))

/-- The line, if it is a response to a publication. -/
def validate (reader : ValueReader) (bytes : Bytes) : Option Bytes :=
  if bytes.length > maxPublicationResponseBytes ∨ ¬ Valid bytes ∨ bytes.getLast? ≠ some 10 then
    none
  else
    let line := bytes.dropLast
    if 13 ∈ line ∨ 10 ∈ line then none
    else do
      let value ← reader.fromSlice line
      validateValue value
      return line

end PublishedResponse

end EliotSearch.Commands
