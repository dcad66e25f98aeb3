import EliotSearch.Commands.Responses
import EliotSearch.Control.Readback
import EliotSearch.Preparation.Acceptance

/-!
# Accepted responses

What the daemon prints is what the command line accepts: every line of a prepared
source and of a publication passes its validator and stays within its bytes.
-/

namespace EliotSearch.Commands

open EliotSearch.Control
open EliotSearch.Library
open EliotSearch.Library.Hex
open EliotSearch.Library.Json
open EliotSearch.Library.Results
open EliotSearch.Library.Utf8
open EliotSearch.Preparation
open EliotSearch.Query

/-! ## Lines -/

/-- Behind a printed value there is no line end. -/
theorem print_not_mem {value : Value} {mark : UInt8} (hmark : mark.toNat < 32) :
    mark ∉ value.print := by
  intro hmem
  have hprintable := print_printable value mark hmem
  exact absurd hmark (Nat.not_lt.mpr hprintable)

theorem print_line_valid {value : Value} (hordered : value.Ordered) :
    Valid (value.print ++ [10]) :=
  valid_append (print_valid value hordered) (valid_of_ascii (by decide))

/-- The line of a printed value is the printed value. -/
theorem boundedLine_print {value : Value} (hordered : value.Ordered)
    (hlength : value.print.length < Preparing.maxPreparationResponseBytes) :
    PreparedResponse.boundedLine (value.print ++ [10]) = some value.print := by
  have hbounded : ¬ ((value.print ++ [10]).length > Preparing.maxPreparationResponseBytes ∨
      ¬ Valid (value.print ++ [10])) := by
    rintro (hlong | hinvalid)
    · rw [List.length_append, List.length_singleton] at hlong
      omega
    · exact hinvalid (print_line_valid hordered)
  have hline : PreparedResponse.stripLineEnd (value.print ++ [10]) = value.print := by
    have hnone : value.print.getLast? ≠ some 13 := by
      intro hlast
      exact print_not_mem (by decide) (List.mem_of_getLast? hlast)
    rw [PreparedResponse.stripLineEnd, List.getLast?_concat, if_pos rfl, List.dropLast_concat,
      if_neg hnone]
  have hclean : ¬ (value.print = [] ∨ 13 ∈ value.print ∨ 10 ∈ value.print) := by
    rintro (hempty | hreturn | hfeed)
    · have hpositive := print_length_pos value
      rw [hempty] at hpositive
      exact absurd hpositive (Nat.lt_irrefl 0)
    · exact print_not_mem (by decide) hreturn
    · exact print_not_mem (by decide) hfeed
  rw [PreparedResponse.boundedLine, if_neg hbounded, hline]
  exact if_neg hclean

/-! ## Parts of a response -/

/-- A condition that holds lets an optional computation go on. -/
theorem guard_pos {p : Prop} [Decidable p] (holds : p) : (guard p : Option Unit) = some () :=
  if_pos holds

namespace PreparedResponse

open Preparing

theorem hexText_isHex (digest : Blake3Digest32) : isHex (hexText digest.bytes).bytes 64 = true := by
  refine decide_eq_true ⟨?_, fun byte hmem => hex_isLowerHex hmem⟩
  change (hex digest.bytes).length = 64
  rw [hex_length, digest.length_eq]

section Reference

variable (reference : ObjectRef)

theorem objectJson_keys : keys (objectJson reference) objectNames = true := by
  simp [keys, objectJson, objectNames, Value.asObject, List.lookup_cons]

theorem objectJson_version :
    number (objectJson reference) "version" = some reference.formatVersion.toUInt64 := by
  simp only [number, Value.get, objectJson, Value.asObject, List.lookup_cons, String.reduceBEq,
    Option.bind_some, Value.asU64]

theorem objectJson_bytes :
    number (objectJson reference) "bytes" = some reference.byteLength := by
  simp only [number, Value.get, objectJson, Value.asObject, List.lookup_cons, String.reduceBEq,
    Option.bind_some, Value.asU64]

theorem objectJson_kind :
    textAt (objectJson reference) "kind" = some (Value.literal (kindText reference.kind)) := by
  simp only [textAt, Value.get, objectJson, Value.asObject, List.lookup_cons, String.reduceBEq,
    Option.bind_some, Value.asStr]

theorem objectJson_digest :
    textAt (objectJson reference) "digest" = some (hexText reference.digest.bytes) := by
  simp only [textAt, Value.get, objectJson, Value.asObject, List.lookup_cons, String.reduceBEq,
    Option.bind_some, Value.asStr]

end Reference

/-- A reference with the current version and a bounded length is accepted. -/
theorem object_objectJson {reference : ObjectRef} {kind : String} {maximum : UInt64}
    (hkind : kindText reference.kind = kind) (hversion : reference.formatVersion = 1)
    (hbound : reference.byteLength ≤ maximum)
    (hpositive : kind = "prepared" → reference.byteLength ≠ 0) :
    object (objectJson reference) kind maximum = some reference.byteLength := by
  have hvalid : ¬ (reference.byteLength > maximum ∨
      (kind = "prepared" ∧ reference.byteLength = 0)) := by
    rintro (hlong | ⟨hprepared, hempty⟩)
    · exact absurd hbound (UInt64.not_le.mpr hlong)
    · exact hpositive hprepared hempty
  have hword : reference.formatVersion.toUInt64 = 1 := by rw [hversion]; rfl
  have hguard : keys (objectJson reference) objectNames = true ∧
      reference.formatVersion.toUInt64 = 1 ∧
      Value.literal (kindText reference.kind) = Value.literal kind ∧
      isHex (hexText reference.digest.bytes).bytes 64 = true :=
    ⟨objectJson_keys reference, hword, by rw [hkind], hexText_isHex reference.digest⟩
  simp only [object, objectJson_version, objectJson_kind, objectJson_digest, objectJson_bytes,
    Option.bind_eq_bind, Option.bind_some, guard_pos hguard, if_neg hvalid]

section Settings

variable (selected : PreparationSettings)

theorem settingsJson_keys : keys (settingsJson selected) settingsNames = true := by
  simp [keys, settingsJson, settingsNames, Value.asObject, List.lookup_cons]

/-- A number that fits is read as it is. -/
theorem within_number {value : Value} {key : String} (bound : Nat) {found : UInt64}
    (hnumber : number value key = some found) (hbound : found.toNat < bound) :
    within value key bound = some found.toNat := by
  rw [within, hnumber, Option.map_some, Option.filter_some]
  exact if_pos (decide_eq_true hbound)

theorem settingsJson_utf8 :
    number (settingsJson selected) "utf8_version" = some selected.utf8Version.toUInt64 := by
  simp only [number, Value.get, settingsJson, Value.asObject, List.lookup_cons, String.reduceBEq,
    Option.bind_some, Value.asU64]

theorem settingsJson_line :
    number (settingsJson selected) "line_unitizer_version" =
      some selected.lineUnitizerVersion.toUInt64 := by
  simp only [number, Value.get, settingsJson, Value.asObject, List.lookup_cons, String.reduceBEq,
    Option.bind_some, Value.asU64]

theorem settingsJson_preferred :
    number (settingsJson selected) "preferred_unit_bytes" =
      some selected.preferredUnitBytes.toUInt64 := by
  simp only [number, Value.get, settingsJson, Value.asObject, List.lookup_cons, String.reduceBEq,
    Option.bind_some, Value.asU64]

theorem settingsJson_max :
    number (settingsJson selected) "max_unit_bytes" = some selected.maxUnitBytes.toUInt64 := by
  simp only [number, Value.get, settingsJson, Value.asObject, List.lookup_cons, String.reduceBEq,
    Option.bind_some, Value.asU64]

end Settings

theorem settings_settingsJson {selected : PreparationSettings}
    (hsupported : selected.IsSupported) : settings (settingsJson selected) = some selected := by
  have hutf8 := within_number (2 ^ 16) (settingsJson_utf8 selected)
    (by rw [UInt16.toNat_toUInt64]; exact selected.utf8Version.toNat_lt)
  have hline := within_number (2 ^ 16) (settingsJson_line selected)
    (by rw [UInt16.toNat_toUInt64]; exact selected.lineUnitizerVersion.toNat_lt)
  have hpreferred := within_number (2 ^ 32) (settingsJson_preferred selected)
    (by rw [UInt32.toNat_toUInt64]; exact selected.preferredUnitBytes.toNat_lt)
  have hmax := within_number (2 ^ 32) (settingsJson_max selected)
    (by rw [UInt32.toNat_toUInt64]; exact selected.maxUnitBytes.toNat_lt)
  simp only [settings, guard_pos (settingsJson_keys selected), hutf8, hline, hpreferred, hmax,
    Option.bind_eq_bind, Option.bind_some, UInt16.toNat_toUInt64, UInt32.toNat_toUInt64,
    UInt16.ofNat_toNat, UInt32.ofNat_toNat]
  exact if_pos hsupported

section Unit

variable (ordinal : UInt64) (span : UnitSpan) (text : Text)

theorem unitJson_keys : keys (unitJson ordinal span text) unitNames = true := by
  simp [keys, unitJson, unitNames, Value.asObject, List.lookup_cons]

theorem unitJson_start :
    number (unitJson ordinal span text) "start" = some (UInt64.ofNat span.sourceStart) := by
  simp only [number, Value.get, unitJson, Value.asObject, List.lookup_cons, String.reduceBEq,
    Option.bind_some, Value.asU64]

theorem unitJson_end :
    number (unitJson ordinal span text) "end" = some (UInt64.ofNat span.sourceEnd) := by
  simp only [number, Value.get, unitJson, Value.asObject, List.lookup_cons, String.reduceBEq,
    Option.bind_some, Value.asU64]

theorem unitJson_lineStart :
    number (unitJson ordinal span text) "line_start" =
      some (UInt64.ofNat span.logicalLineStart) := by
  simp only [number, Value.get, unitJson, Value.asObject, List.lookup_cons, String.reduceBEq,
    Option.bind_some, Value.asU64]

theorem unitJson_lineEnd :
    number (unitJson ordinal span text) "line_end" = some (UInt64.ofNat span.logicalLineEnd) := by
  simp only [number, Value.get, unitJson, Value.asObject, List.lookup_cons, String.reduceBEq,
    Option.bind_some, Value.asU64]

theorem unitJson_ordinal : number (unitJson ordinal span text) "ordinal" = some ordinal := by
  simp only [number, Value.get, unitJson, Value.asObject, List.lookup_cons, String.reduceBEq,
    Option.bind_some, Value.asU64]

theorem unitJson_text : textAt (unitJson ordinal span text) "text" = some text := by
  simp only [textAt, Value.get, unitJson, Value.asObject, List.lookup_cons, String.reduceBEq,
    Option.bind_some, Value.asStr]

theorem unitJson_booleans :
    booleanAt (unitJson ordinal span text) "starts_at_line_boundary" = true ∧
      booleanAt (unitJson ordinal span text) "ends_at_line_boundary" = true := by
  constructor
  · simp only [booleanAt, Value.get, unitJson, Value.asObject, List.lookup_cons, String.reduceBEq,
      Option.bind_some, Option.any_some, Value.isBoolean]
  · simp only [booleanAt, Value.get, unitJson, Value.asObject, List.lookup_cons, String.reduceBEq,
      Option.bind_some, Option.any_some, Value.isBoolean]

end Unit

/-- What makes a unit of a representation acceptable. -/
structure UnitFits (span : UnitSpan) (text : Text) (size hard : Nat) : Prop where
  nonempty : span.sourceStart < span.sourceEnd
  bounded : span.sourceEnd ≤ size
  fits : span.sourceEnd - span.sourceStart ≤ hard
  text_length : text.bytes.length = span.sourceEnd - span.sourceStart
  lines : span.logicalLineStart < span.logicalLineEnd
  words : span.Representable

theorem unit_unitJson {ordinal count representation : UInt64} {hard : UInt32} {span : UnitSpan}
    {text : Text} (hordinal : ordinal < count)
    (hfits : UnitFits span text representation.toNat hard.toNat) :
    unit (unitJson ordinal span text) ordinal count representation hard = some () := by
  obtain ⟨hstart, hend, hfirst, hlast⟩ := hfits.words
  have hstartWord := UInt64.toNat_ofNat_of_lt' hstart
  have hendWord := UInt64.toNat_ofNat_of_lt' hend
  have hfirstWord := UInt64.toNat_ofNat_of_lt' hfirst
  have hlastWord := UInt64.toNat_ofNat_of_lt' hlast
  have hle : UInt64.ofNat span.sourceStart ≤ UInt64.ofNat span.sourceEnd := by
    rw [UInt64.le_iff_toNat_le, hstartWord, hendWord]
    exact hfits.nonempty.le
  have hwidth : (UInt64.ofNat span.sourceEnd - UInt64.ofNat span.sourceStart).toNat =
      span.sourceEnd - span.sourceStart := by
    rw [UInt64.toNat_sub_of_le _ _ hle, hstartWord, hendWord]
  have hguard : ordinal < count ∧
      UInt64.ofNat span.sourceStart < UInt64.ofNat span.sourceEnd ∧
      UInt64.ofNat span.sourceEnd ≤ representation ∧
      (UInt64.ofNat span.sourceEnd - UInt64.ofNat span.sourceStart).toNat ≤ hard.toNat ∧
      text.bytes.length = (UInt64.ofNat span.sourceEnd - UInt64.ofNat span.sourceStart).toNat ∧
      UInt64.ofNat span.logicalLineStart < UInt64.ofNat span.logicalLineEnd ∧
      booleanAt (unitJson ordinal span text) "starts_at_line_boundary" = true ∧
      booleanAt (unitJson ordinal span text) "ends_at_line_boundary" = true := by
    rw [hwidth]
    refine ⟨hordinal, ?_, ?_, hfits.fits, hfits.text_length, ?_, unitJson_booleans ordinal span text⟩
    · rw [UInt64.lt_iff_toNat_lt, hstartWord, hendWord]
      exact hfits.nonempty
    · rw [UInt64.le_iff_toNat_le, hendWord]
      exact hfits.bounded
    · rw [UInt64.lt_iff_toNat_lt, hfirstWord, hlastWord]
      exact hfits.lines
  simp only [unit, guard_pos (unitJson_keys ordinal span text), unitJson_start, unitJson_end,
    unitJson_lineStart, unitJson_lineEnd, unitJson_text, unitJson_ordinal, Option.bind_eq_bind,
    Option.bind_some, guard_pos, guard_pos hguard]

/-! ## The members of a response -/

/-- A response with every optional member in its place. -/
def members (source : CurrentSourceRecord) (state : CurrentPreparation)
    (artifact gapReason representation status found count : Value) : Value :=
  .object [
    ("artifact", artifact),
    ("gap", gapReason),
    ("input", objectJson source.objectRef),
    ("operation", .string (Value.literal "prepare-source")),
    ("outcome_revision", .number state.outcomeRevision),
    ("registration_revision", .number source.registrationRevision),
    ("representation_bytes", representation),
    ("settings", settingsJson state.settings),
    ("settings_revision", .number state.settingsRevision),
    ("source_id", .string (idText source.sourceId)),
    ("source_namespace_id", .string (idText source.sourceNamespaceId)),
    ("source_row_revision", .number source.rowRevision),
    ("state", status),
    ("unit", found),
    ("unit_count", count)]

/-- A stored source and a valid row with an outcome, as a response shows them. -/
structure Showable (source : CurrentSourceRecord) (state : CurrentPreparation) : Prop where
  row : source.rowRevision ≠ 0
  registration : source.registrationRevision ≠ 0
  settings : state.settingsRevision ≠ 0
  outcome : state.outcomeRevision ≠ 0
  supported : state.settings.IsSupported
  kind : source.objectRef.kind = .source
  version : source.objectRef.formatVersion = 1
  bytes : source.objectRef.byteLength ≤ maxSourceObjectBytes

theorem isUuidText_uuidText (id : Octets 16) : isUuidText (uuidText id) = true := by
  obtain ⟨b0, b1, b2, b3, b4, b5, b6, b7, b8, b9, b10, b11, b12, b13, b14, b15, hbytes⟩ :=
    octets_sixteen id
  have hhigh (byte : UInt8) : IsLowerHex (digit (byte.toNat / 16)) :=
    digit_isLowerHex (high_lt byte)
  have hlow (byte : UInt8) : IsLowerHex (digit (byte.toNat % 16)) :=
    digit_isLowerHex (low_lt byte)
  refine decide_eq_true ⟨(grouped_uuidText id).1, ?_⟩
  intro position hposition byte hbyte
  rw [uuidText, hbytes] at hbyte
  have hlt := List.mem_range.mp hposition
  interval_cases position <;> simp [hex_cons] at hbyte <;> subst hbyte <;> simp [hhigh, hlow]

section Members

variable (source : CurrentSourceRecord) (state : CurrentPreparation)
  (artifact gapReason representation status found count : Value)

theorem members_keys :
    keys (members source state artifact gapReason representation status found count) names =
      true := by
  simp [keys, members, names, Value.asObject, List.lookup_cons]

/-- The members that every response has, under their names. -/
theorem members_head :
    let value := members source state artifact gapReason representation status found count
    textAt value "operation" = some (Value.literal "prepare-source") ∧
      textAt value "source_id" = some (idText source.sourceId) ∧
      textAt value "source_namespace_id" = some (idText source.sourceNamespaceId) ∧
      value.get "settings" = some (settingsJson state.settings) ∧
      value.get "input" = some (objectJson source.objectRef) ∧
      textAt value "state" = status.asStr := by
  refine ⟨?_, ?_, ?_, ?_, ?_, ?_⟩ <;>
    simp only [textAt, Value.get, members, Value.asObject, List.lookup_cons, String.reduceBEq,
      Option.bind_some, Value.asStr]

/-- The members that depend on the outcome, under their names. -/
theorem members_tail :
    let value := members source state artifact gapReason representation status found count
    value.get "artifact" = some artifact ∧ value.get "gap" = some gapReason ∧
      value.get "representation_bytes" = some representation ∧
      value.get "unit_count" = some count ∧ value.get "unit" = some found := by
  refine ⟨?_, ?_, ?_, ?_, ?_⟩ <;>
    simp only [Value.get, members, Value.asObject, List.lookup_cons, String.reduceBEq,
      Option.bind_some]

theorem members_positive (hshowable : Showable source state) :
    ∀ key ∈ revisions, positive
      (members source state artifact gapReason representation status found count) key = true := by
  have hpositive {word : UInt64} (hword : word ≠ 0) : decide (word > 0) = true :=
    decide_eq_true (UInt64.pos_iff_ne_zero.mpr hword)
  rw [revisions]
  simp only [List.forall_mem_cons, List.not_mem_nil, false_implies, implies_true, and_true]
  refine ⟨?_, ?_, ?_, ?_⟩ <;>
    simp only [positive, number, Value.get, members, Value.asObject, List.lookup_cons,
      String.reduceBEq, Option.bind_some, Value.asU64, Option.any_some]
  · exact hpositive hshowable.row
  · exact hpositive hshowable.registration
  · exact hpositive hshowable.settings
  · exact hpositive hshowable.outcome

end Members

/-- What a response must show whatever its outcome is. -/
structure Shared (value : Value) (source : Bytes) (input : UInt64)
    (selected : PreparationSettings) (status : String) : Prop where
  keys : keys value names = true
  operation : textAt value "operation" = some (Value.literal "prepare-source")
  sourceId : ∃ id, textAt value "source_id" = some id ∧ id.bytes = source
  sourceUuid : isUuidText source = true
  namespaceUuid : ∃ id, textAt value "source_namespace_id" = some id ∧ isUuidText id.bytes = true
  revised : ∀ key ∈ revisions, positive value key = true
  selected : (value.get "settings").bind settings = some selected
  input : (value.get "input").bind (fun found => object found "source" maxSourceObjectBytes) =
    some input
  status : textAt value "state" = some (Value.literal status)

/-- The shared members pass; what remains depends on the state of the response. -/
theorem Shared.validateValue {value : Value} {source : Bytes} {input : UInt64}
    {selected : PreparationSettings} {status : String}
    (hshared : Shared value source input selected status) (ordinal : UInt64) :
    validateValue value source ordinal =
      if Value.literal status = Value.literal "gap" then validateGap value
      else if Value.literal status = Value.literal "ready" then
        validateReady value false ordinal input selected
      else if Value.literal status = Value.literal "empty" then
        validateReady value true ordinal input selected
      else none := by
  obtain ⟨id, hid, hsame⟩ := hshared.sourceId
  obtain ⟨namespaceId, hnamespace, hnamespaceUuid⟩ := hshared.namespaceUuid
  have hguard : Commands.keys value names = true ∧
      Value.literal "prepare-source" = Value.literal "prepare-source" ∧ id.bytes = source ∧
      isUuidText source = true ∧ isUuidText namespaceId.bytes = true :=
    ⟨hshared.keys, rfl, hsame, hshared.sourceUuid, hnamespaceUuid⟩
  unfold PreparedResponse.validateValue
  rw [hshared.operation, hid, hnamespace, hshared.selected, hshared.input, hshared.status]
  repeat rw [Option.bind_eq_bind, Option.bind_some]
  rw [guard_pos hguard, guard_pos hshared.revised]
  rfl

theorem members_shared {source : CurrentSourceRecord} {state : CurrentPreparation}
    (hshowable : Showable source state) (artifact gapReason representation found count : Value)
    (status : String) :
    Shared (members source state artifact gapReason representation
      (.string (Value.literal status)) found count) (uuidText source.sourceId)
      source.objectRef.byteLength state.settings status := by
  obtain ⟨hoperation, hsource, hnamespace, hsettings, hinput, hstate⟩ :=
    members_head source state artifact gapReason representation (.string (Value.literal status))
      found count
  have hobject : object (objectJson source.objectRef) "source" maxSourceObjectBytes =
      some source.objectRef.byteLength :=
    object_objectJson (by rw [hshowable.kind]; rfl) hshowable.version hshowable.bytes
      fun hother => absurd hother (by decide)
  constructor
  · exact members_keys source state artifact gapReason representation _ found count
  · exact hoperation
  · exact ⟨idText source.sourceId, hsource, rfl⟩
  · exact isUuidText_uuidText source.sourceId
  · exact ⟨idText source.sourceNamespaceId, hnamespace, isUuidText_uuidText _⟩
  · exact members_positive source state artifact gapReason representation _ found count hshowable
  · rw [hsettings]
    exact settings_settingsJson hshowable.supported
  · rw [hinput]
    exact hobject
  · exact hstate

/-- A gap response is accepted. -/
theorem validateValue_gap {source : CurrentSourceRecord} {state : CurrentPreparation}
    (hshowable : Showable source state) (reason : PreparationGap) (ordinal : UInt64) :
    validateValue (members source state .null (.string (Value.literal (gapCode reason))) .null
      (.string (Value.literal "gap")) .null .null) (uuidText source.sourceId) ordinal =
        some () := by
  obtain ⟨hartifact, hgap, hrepresentation, hcount, hunit⟩ :=
    members_tail source state .null (.string (Value.literal (gapCode reason))) .null
      (.string (Value.literal "gap")) .null .null
  have hreason : ∃ name ∈ gapReasons, Value.literal (gapCode reason) = Value.literal name :=
    ⟨gapCode reason, by cases reason <;> decide, rfl⟩
  rw [(members_shared hshowable _ _ _ _ _ _).validateValue, if_pos rfl, validateGap, textAt, hgap]
  simp only [Option.bind_some, Value.asStr, Option.bind_eq_bind]
  refine guard_pos ⟨?_, hreason⟩
  simp only [List.forall_mem_cons, List.not_mem_nil, false_implies, implies_true, and_true,
    nullAt, hartifact, hrepresentation, hcount, hunit, Option.any_some, Value.isNull]

/-- What makes the artifact of a response acceptable. -/
structure ArtifactFits (artifact : ObjectRef) : Prop where
  kind : artifact.kind = .prepared
  version : artifact.formatVersion = 1
  bounded : artifact.byteLength ≤ 64 * 1024 * 1024
  positive : artifact.byteLength ≠ 0

theorem ArtifactFits.accepted {artifact : ObjectRef} (hfits : ArtifactFits artifact) :
    object (objectJson artifact) "prepared" (64 * 1024 * 1024) = some artifact.byteLength :=
  object_objectJson (by rw [hfits.kind]; rfl) hfits.version hfits.bounded
    fun _ => hfits.positive

/-- What a response with a representation must show. -/
structure Represented (value : Value) (input count : UInt64) : Prop where
  artifact : ∃ artifact size, value.get "artifact" = some artifact ∧
    object artifact "prepared" (64 * 1024 * 1024) = some size
  gap : nullAt value "gap" = true
  representation : number value "representation_bytes" = some input
  counted : number value "unit_count" = some count
  bounded : count ≤ 1000000

/-- The shared part passes; what remains depends on there being a unit. -/
theorem Represented.validateReady {value : Value} {input count : UInt64}
    (hshown : Represented value input count) (empty : Bool) (ordinal : UInt64)
    (selected : PreparationSettings) :
    validateReady value empty ordinal input selected =
      if empty then
        guard (input = 0 ∧ count = 0 ∧ ordinal = 0 ∧ nullAt value "unit" = true)
      else (guard (input ≠ 0 ∧ count ≠ 0) : Option Unit).bind fun _ =>
        (value.get "unit").bind fun found =>
          unit found ordinal count input selected.maxUnitBytes := by
  obtain ⟨artifact, size, hartifact, hobject⟩ := hshown.artifact
  have hsame : input = input ∧ count ≤ 1000000 := ⟨rfl, hshown.bounded⟩
  unfold PreparedResponse.validateReady
  simp only [hartifact, Option.bind_eq_bind, Option.bind_some, hobject]
  rw [guard_pos hshown.gap, Option.bind_some, hshown.representation, Option.bind_some,
    hshown.counted, Option.bind_some, guard_pos hsame, Option.bind_some]

theorem members_represented (source : CurrentSourceRecord) (state : CurrentPreparation)
    {artifact : ObjectRef} {count : UInt64} (hfits : ArtifactFits artifact)
    (hcount : count ≤ 1000000) (input : UInt64) (status found : Value) :
    Represented (members source state (objectJson artifact) .null (.number input) status found
      (.number count)) input count := by
  obtain ⟨hartifact, hgap, hrepresentation, hcounted, -⟩ :=
    members_tail source state (objectJson artifact) .null (.number input) status found
      (.number count)
  constructor
  · exact ⟨objectJson artifact, artifact.byteLength, hartifact, hfits.accepted⟩
  · rw [nullAt, hgap]
    rfl
  · rw [number, hrepresentation]
    rfl
  · rw [number, hcounted]
    rfl
  · exact hcount

/-- A response for an empty source is accepted. -/
theorem validateValue_empty {source : CurrentSourceRecord} {state : CurrentPreparation}
    {artifact : ObjectRef} (hshowable : Showable source state) (hfits : ArtifactFits artifact)
    (hempty : source.objectRef.byteLength = 0) :
    validateValue (members source state (objectJson artifact) .null (.number 0)
      (.string (Value.literal "empty")) .null (.number 0)) (uuidText source.sourceId) 0 =
        some () := by
  obtain ⟨-, -, -, -, hunit⟩ := members_tail source state (objectJson artifact) .null (.number 0)
    (.string (Value.literal "empty")) .null (.number 0)
  have hshared := members_shared hshowable (objectJson artifact) .null (.number 0) .null
    (.number 0) "empty"
  have hshown := members_represented source state hfits (UInt64.zero_le) 0
    (.string (Value.literal "empty")) .null
  rw [hshared.validateValue, if_neg (by decide), if_neg (by decide), if_pos rfl, hempty,
    hshown.validateReady, if_pos rfl]
  refine guard_pos ⟨rfl, rfl, rfl, ?_⟩
  rw [nullAt, hunit]
  rfl

/-- A response for one unit is accepted. -/
theorem validateValue_ready {source : CurrentSourceRecord} {state : CurrentPreparation}
    {artifact : ObjectRef} {ordinal count : UInt64} {span : UnitSpan} {text : Text}
    (hshowable : Showable source state) (hfits : ArtifactFits artifact)
    (hordinal : ordinal < count) (hcount : count ≤ 1000000)
    (hunit : UnitFits span text source.objectRef.byteLength.toNat
      state.settings.maxUnitBytes.toNat) :
    validateValue (members source state (objectJson artifact) .null
      (.number source.objectRef.byteLength) (.string (Value.literal "ready"))
      (unitJson ordinal span text) (.number count)) (uuidText source.sourceId) ordinal =
        some () := by
  obtain ⟨-, -, -, -, hfound⟩ :=
    members_tail source state (objectJson artifact) .null (.number source.objectRef.byteLength)
      (.string (Value.literal "ready")) (unitJson ordinal span text) (.number count)
  have hshared := members_shared hshowable (objectJson artifact) .null
    (.number source.objectRef.byteLength) (unitJson ordinal span text) (.number count) "ready"
  have hshown := members_represented source state hfits hcount source.objectRef.byteLength
    (.string (Value.literal "ready")) (unitJson ordinal span text)
  have hnonempty : source.objectRef.byteLength ≠ 0 ∧ count ≠ 0 := by
    constructor
    · intro hzero
      have hbounded := hunit.bounded
      have hpositive := hunit.nonempty
      rw [hzero] at hbounded
      exact absurd (Nat.le_zero.mp hbounded) (by omega)
    · rintro rfl
      exact absurd hordinal UInt64.not_lt_zero
  rw [hshared.validateValue, if_neg (by decide), if_pos rfl, hshown.validateReady,
    if_neg Bool.false_ne_true, guard_pos hnonempty, Option.bind_some, hfound, Option.bind_some]
  exact unit_unitJson hordinal hunit

end PreparedResponse

end EliotSearch.Commands
