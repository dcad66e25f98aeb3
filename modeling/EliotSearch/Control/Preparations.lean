import EliotSearch.Control.Records

/-!
# Current preparations

The selected settings of one source together with its last installed outcome,
and the binary encoding of both.  An outcome is bound to the source
registration, the retained input and the settings it was computed from.
-/

namespace EliotSearch.Control

open EliotSearch.Library
open EliotSearch.Library.Results
open EliotSearch.Library.Words

/-! ## Settings and outcomes -/

/-- Output-affecting settings for unchanged UTF-8 and line-preferred units. -/
structure PreparationSettings where
  utf8Version : UInt16
  lineUnitizerVersion : UInt16
  preferredUnitBytes : UInt32
  maxUnitBytes : UInt32
  deriving DecidableEq

namespace PreparationSettings

def default : PreparationSettings :=
  ⟨1, 1, 16 * 1024, maxPreparationUnitBytes⟩

/-- The settings belong to the supported bounded algorithms. -/
def IsSupported (settings : PreparationSettings) : Prop :=
  settings.utf8Version = 1 ∧ settings.lineUnitizerVersion = 1 ∧
    0 < settings.preferredUnitBytes ∧ settings.preferredUnitBytes ≤ settings.maxUnitBytes ∧
    settings.maxUnitBytes ≤ maxPreparationUnitBytes

instance (settings : PreparationSettings) : Decidable settings.IsSupported :=
  inferInstanceAs (Decidable (_ ∧ _))

theorem default_isSupported : default.IsSupported := by
  decide

end PreparationSettings

/-- Bounded content or execution-limit reason for a preparation gap. -/
inductive PreparationGap where
  | binaryContent
  | invalidUtf8
  | inputTooLarge
  | outputTooLarge
  | tooManyLines
  | tooManyUnits
  | unitTooLarge
  | encodedTooLarge
  deriving DecidableEq, Repr

namespace PreparationGap

def tag : PreparationGap → UInt8
  | binaryContent => 1
  | invalidUtf8 => 2
  | inputTooLarge => 3
  | outputTooLarge => 4
  | tooManyLines => 5
  | tooManyUnits => 6
  | unitTooLarge => 7
  | encodedTooLarge => 8

def fromTag (tag : UInt8) : Option PreparationGap :=
  [binaryContent, invalidUtf8, inputTooLarge, outputTooLarge, tooManyLines, tooManyUnits,
    unitTooLarge, encodedTooLarge].find? fun gap => gap.tag == tag

@[simp]
theorem fromTag_tag (gap : PreparationGap) : fromTag gap.tag = some gap := by
  cases gap <;> rfl

theorem tag_of_fromTag {tag : UInt8} {gap : PreparationGap} (hgap : fromTag tag = some gap) :
    gap.tag = tag := by
  have hfound := List.find?_some hgap
  simpa using hfound

end PreparationGap

/-- Result installed for one exact wanted preparation input. -/
inductive PreparationOutcome where
  | ready (artifact : ObjectRef)
  | gap (reason : PreparationGap)
  deriving DecidableEq

def PreparationOutcome.isReady : PreparationOutcome → Bool
  | .ready _ => true
  | .gap _ => false

/-- One current outcome bound to its source observation and output settings. -/
structure BoundPreparationOutcome where
  sourceRowRevision : UInt64
  registrationRevision : UInt64
  input : ObjectRef
  settings : PreparationSettings
  result : PreparationOutcome
  deriving DecidableEq

/-- The artifact input is identical under a newly captured row guard. -/
def BoundPreparationOutcome.MatchesInput (outcome : BoundPreparationOutcome)
    (source : CurrentSourceRecord) (settings : PreparationSettings) : Prop :=
  outcome.registrationRevision = source.registrationRevision ∧
    outcome.input = source.objectRef ∧ outcome.settings = settings

instance (outcome : BoundPreparationOutcome) (source : CurrentSourceRecord)
    (settings : PreparationSettings) : Decidable (outcome.MatchesInput source settings) :=
  inferInstanceAs (Decidable (_ ∧ _))

/-- One persisted settings selection and optional preparation result. -/
structure CurrentPreparation where
  sourceNamespaceId : SourceNamespaceId
  sourceId : SourceId
  settingsRevision : UInt64
  settings : PreparationSettings
  outcomeRevision : UInt64
  outcome : Option BoundPreparationOutcome
  deriving DecidableEq

/-- Closed preparation-control failures. -/
inductive PreparationControlError where
  | notRetained
  | notSelected
  | invalidSettings
  | unsupportedSchema
  | corrupt
  | stale
  | database
  | revisionExhausted
  | invalidOutcome
  | deadline
  | cancelled
  deriving DecidableEq, Repr

/-! ## Row validation -/

def ValidObject (object : ObjectRef) (kind : ObjectKind) : Prop :=
  object.kind = kind ∧ object.formatVersion = sourceObjectFormatVersion ∧
    (kind ≠ .source ∨ object.byteLength ≤ maxSourceObjectBytes) ∧
    (kind ≠ .prepared ∨ 0 < object.byteLength)

instance (object : ObjectRef) (kind : ObjectKind) : Decidable (ValidObject object kind) :=
  inferInstanceAs (Decidable (_ ∧ _))

def BoundPreparationOutcome.Valid (outcome : BoundPreparationOutcome)
    (outcomeRevision : UInt64) : Prop :=
  outcomeRevision ≠ 0 ∧ outcome.sourceRowRevision ≠ 0 ∧ outcome.registrationRevision ≠ 0 ∧
    outcome.settings.IsSupported ∧ ValidObject outcome.input .source

instance (outcome : BoundPreparationOutcome) (outcomeRevision : UInt64) :
    Decidable (outcome.Valid outcomeRevision) :=
  inferInstanceAs (Decidable (_ ∧ _))

def CurrentPreparation.validate (row : CurrentPreparation) : Except PreparationControlError Unit := do
  refuse (row.settingsRevision = 0 ∨ ¬ row.settings.IsSupported) .corrupt
  match row.outcome with
  | none => return ()
  | some outcome => do
      refuse (¬ outcome.Valid row.outcomeRevision) .corrupt
      match outcome.result with
      | .ready artifact => refuse (¬ ValidObject artifact .prepared) .invalidOutcome
      | .gap _ => return ()

/-! ## Row encoding -/

def putSettings (settings : PreparationSettings) : Bytes :=
  le16 settings.utf8Version ++ le16 settings.lineUnitizerVersion ++
    le32 settings.preferredUnitBytes ++ le32 settings.maxUnitBytes

def outcomeTag : PreparationOutcome → UInt8
  | .ready _ => 1
  | .gap _ => 2

def resultBytes : PreparationOutcome → Bytes
  | .ready artifact => putObject artifact
  | .gap reason => [reason.tag]

def outcomeBytes (outcome : BoundPreparationOutcome) : Bytes :=
  le64 outcome.sourceRowRevision ++ le64 outcome.registrationRevision ++
    putObject outcome.input ++ putSettings outcome.settings ++ resultBytes outcome.result

def preparationBytes (row : CurrentPreparation) : Bytes :=
  [1] ++ row.sourceNamespaceId.bytes ++ row.sourceId.bytes ++ le64 row.settingsRevision ++
    putSettings row.settings ++ le64 row.outcomeRevision ++
    match row.outcome with
    | none => [0]
    | some outcome => [outcomeTag outcome.result] ++ outcomeBytes outcome

def CurrentPreparation.encode (row : CurrentPreparation) : Except PreparationControlError Bytes := do
  row.validate
  return preparationBytes row

def settingsReader : Reader PreparationControlError PreparationSettings := do
  let utf8Version ← Reader.u16 .corrupt
  let lineUnitizerVersion ← Reader.u16 .corrupt
  let preferredUnitBytes ← Reader.u32 .corrupt
  let maxUnitBytes ← Reader.u32 .corrupt
  return { utf8Version, lineUnitizerVersion, preferredUnitBytes, maxUnitBytes }

def objectReader : Reader PreparationControlError ObjectRef := do
  let formatVersion ← Reader.u16 .corrupt
  let tag ← Reader.u8 .corrupt
  let kind ← Reader.okOr (ObjectKind.fromTag tag) .corrupt
  let digest ← Reader.array .corrupt 32
  let byteLength ← Reader.u64 .corrupt
  return { formatVersion, kind, digest, byteLength }

def resultReader (tag : UInt8) : Reader PreparationControlError PreparationOutcome :=
  if tag = 1 then do
    let artifact ← objectReader
    return .ready artifact
  else if tag = 2 then do
    let reason ← Reader.u8 .corrupt
    let reason ← Reader.okOr (PreparationGap.fromTag reason) .corrupt
    return .gap reason
  else Reader.lift (.error .corrupt)

def outcomeReader (tag : UInt8) : Reader PreparationControlError BoundPreparationOutcome := do
  let sourceRowRevision ← Reader.u64 .corrupt
  let registrationRevision ← Reader.u64 .corrupt
  let input ← objectReader
  let settings ← settingsReader
  let result ← resultReader tag
  return { sourceRowRevision, registrationRevision, input, settings, result }

def optionalOutcomeReader (tag : UInt8) :
    Reader PreparationControlError (Option BoundPreparationOutcome) :=
  if tag = 0 then return none
  else do
    let outcome ← outcomeReader tag
    return some outcome

def preparationFields : Reader PreparationControlError CurrentPreparation := do
  let version ← Reader.u8 .corrupt
  Reader.refuse (version ≠ 1) .unsupportedSchema
  let sourceNamespaceId ← Reader.array .corrupt 16
  let sourceId ← Reader.array .corrupt 16
  let settingsRevision ← Reader.u64 .corrupt
  let settings ← settingsReader
  let outcomeRevision ← Reader.u64 .corrupt
  let tag ← Reader.u8 .corrupt
  let outcome ← optionalOutcomeReader tag
  return { sourceNamespaceId, sourceId, settingsRevision, settings, outcomeRevision, outcome }

def CurrentPreparation.decode (bytes : Bytes) : Except PreparationControlError CurrentPreparation := do
  let (row, rest) ← preparationFields bytes
  refuse (rest ≠ []) .corrupt
  row.validate
  return row

/-! ## Round trip -/

theorem preparationBytes_length_le (row : CurrentPreparation) :
    (preparationBytes row).length ≤ 176 := by
  obtain ⟨namespaceId, id, settingsRevision, settings, outcomeRevision, outcome⟩ := row
  cases outcome with
  | none => simp [preparationBytes, putSettings]
  | some outcome =>
      have hresult : (resultBytes outcome.result).length ≤ 43 := by
        cases outcome.result with
        | ready artifact => exact Nat.le_of_eq (putObject_length artifact)
        | gap reason => exact (by decide : 1 ≤ 43)
      simp only [preparationBytes, outcomeBytes, putSettings, List.length_append, le64_length,
        le32_length, le16_length, putObject_length, Octets.length_eq, List.length_cons,
        List.length_nil]
      omega

theorem settingsReader_reads (settings : PreparationSettings) :
    Reads settingsReader (putSettings settings) settings := by
  simp only [putSettings, List.append_assoc, settingsReader]
  exact (Reads.u16 _ _).bind ((Reads.u16 _ _).bind
    ((Reads.u32 _ _).bind ((Reads.u32 _ _).bind_nil (Reads.pure _))))

theorem objectReader_reads (object : ObjectRef) :
    Reads objectReader (putObject object) object := by
  simp only [putObject, List.append_assoc, objectReader]
  refine (Reads.u16 _ _).bind ((Reads.u8 _ _).bind ?_)
  refine Reads.okOr_bind (ObjectKind.fromTag_tag _) ?_
  exact (Reads.array _ _).bind ((Reads.u64 _ _).bind_nil (Reads.pure _))

theorem resultReader_reads (result : PreparationOutcome) :
    Reads (resultReader (outcomeTag result)) (resultBytes result) result := by
  cases result with
  | ready artifact => exact (objectReader_reads artifact).bind_nil (Reads.pure _)
  | gap reason =>
      exact (Reads.u8 _ _).bind_nil
        (Reads.okOr_bind (PreparationGap.fromTag_tag reason) (Reads.pure _))

theorem outcomeReader_reads (outcome : BoundPreparationOutcome) :
    Reads (outcomeReader (outcomeTag outcome.result)) (outcomeBytes outcome) outcome := by
  simp only [outcomeBytes, List.append_assoc, outcomeReader]
  refine (Reads.u64 _ _).bind ((Reads.u64 _ _).bind ?_)
  refine (objectReader_reads _).bind ((settingsReader_reads _).bind ?_)
  exact (resultReader_reads _).bind_nil (Reads.pure _)

theorem outcomeTag_ne_zero (result : PreparationOutcome) : outcomeTag result ≠ 0 := by
  cases result with
  | ready artifact => exact (by decide : (1 : UInt8) ≠ 0)
  | gap reason => exact (by decide : (2 : UInt8) ≠ 0)

theorem preparationFields_reads (row : CurrentPreparation) :
    Reads preparationFields (preparationBytes row) row := by
  simp only [preparationBytes, List.append_assoc, preparationFields]
  refine (Reads.u8 _ 1).bind (Reads.refuse_bind (by decide) ?_)
  refine (Reads.array _ _).bind ((Reads.array _ _).bind ?_)
  refine (Reads.u64 _ _).bind ((settingsReader_reads _).bind ((Reads.u64 _ _).bind ?_))
  cases houtcome : row.outcome with
  | none =>
      refine (Reads.u8 _ _).bind_nil ?_
      refine Reads.bind_nil (Reads.pure none) ?_
      have hrow : row = { row with outcome := none } := by rw [← houtcome]
      rw [hrow]
      exact Reads.pure _
  | some outcome =>
      have hpresent : Reads (optionalOutcomeReader (outcomeTag outcome.result))
          (outcomeBytes outcome) (some outcome) := by
        rw [optionalOutcomeReader, if_neg (outcomeTag_ne_zero _)]
        exact (outcomeReader_reads outcome).bind_nil (Reads.pure _)
      refine (Reads.u8 _ _).bind (hpresent.bind_nil ?_)
      have hrow : row = { row with outcome := some outcome } := by rw [← houtcome]
      rw [hrow]
      exact Reads.pure _

theorem settingsReader_eq_ok {bytes rest : Bytes} {settings : PreparationSettings}
    (hread : settingsReader bytes = .ok (settings, rest)) : bytes = putSettings settings ++ rest := by
  simp only [settingsReader, Reader.bind_eq_ok, Reader.u16_eq_ok, Reader.u32_eq_ok,
    Reader.pure_eq_ok] at hread
  obtain ⟨_, _, rfl, _, _, rfl, _, _, rfl, _, _, rfl, rfl, rfl⟩ := hread
  simp only [putSettings, List.append_assoc]

theorem objectReader_eq_ok {bytes rest : Bytes} {object : ObjectRef}
    (hread : objectReader bytes = .ok (object, rest)) : bytes = putObject object ++ rest := by
  simp only [objectReader, Reader.bind_eq_ok, Reader.u16_eq_ok, Reader.u8_eq_ok, Reader.okOr_eq_ok,
    Reader.array_eq_ok, Reader.u64_eq_ok, Reader.pure_eq_ok] at hread
  obtain ⟨_, _, rfl, _, _, rfl, _, _, ⟨hkind, rfl⟩, _, _, rfl, _, _, rfl, rfl, rfl⟩ := hread
  simp only [putObject, ObjectKind.tag_of_fromTag hkind, List.append_assoc, List.cons_append,
    List.nil_append]

theorem resultReader_eq_ok {tag : UInt8} {bytes rest : Bytes} {result : PreparationOutcome}
    (hread : resultReader tag bytes = .ok (result, rest)) :
    outcomeTag result = tag ∧ bytes = resultBytes result ++ rest := by
  unfold resultReader at hread
  split at hread
  · rename_i htag
    simp only [Reader.bind_eq_ok, Reader.pure_eq_ok] at hread
    obtain ⟨artifact, _, hartifact, rfl, rfl⟩ := hread
    exact ⟨htag.symm, objectReader_eq_ok hartifact⟩
  · split at hread
    · rename_i htag
      simp only [Reader.bind_eq_ok, Reader.u8_eq_ok, Reader.okOr_eq_ok, Reader.pure_eq_ok] at hread
      obtain ⟨byte, _, rfl, reason, _, ⟨hreason, rfl⟩, rfl, rfl⟩ := hread
      refine ⟨htag.symm, ?_⟩
      rw [resultBytes, PreparationGap.tag_of_fromTag hreason]
      rfl
    · cases hread

theorem outcomeReader_eq_ok {tag : UInt8} {bytes rest : Bytes} {outcome : BoundPreparationOutcome}
    (hread : outcomeReader tag bytes = .ok (outcome, rest)) :
    outcomeTag outcome.result = tag ∧ bytes = outcomeBytes outcome ++ rest := by
  simp only [outcomeReader, Reader.bind_eq_ok, Reader.u64_eq_ok, Reader.pure_eq_ok] at hread
  obtain ⟨_, _, rfl, _, _, rfl, _, _, hinput, _, _, hsettings, _, _, hresult, rfl, rfl⟩ := hread
  obtain ⟨htag, hbytes⟩ := resultReader_eq_ok hresult
  refine ⟨htag, ?_⟩
  rw [objectReader_eq_ok hinput, settingsReader_eq_ok hsettings, hbytes]
  simp only [outcomeBytes, List.append_assoc]

/-- The fields read are the encoding of the row they make. -/
theorem preparationFields_eq_ok {bytes rest : Bytes} {row : CurrentPreparation}
    (hread : preparationFields bytes = .ok (row, rest)) :
    bytes = preparationBytes row ++ rest := by
  simp only [preparationFields, Reader.bind_eq_ok, Reader.u8_eq_ok, Reader.refuse_eq_ok, not_not,
    Reader.array_eq_ok, Reader.u64_eq_ok, Reader.pure_eq_ok] at hread
  obtain ⟨_, _, rfl, _, _, ⟨rfl, rfl⟩, _, _, rfl, _, _, rfl, _, _, rfl, _, _, hsettings, _, _, rfl,
    tag, _, rfl, outcome, _, houtcome, rfl, rfl⟩ := hread
  unfold optionalOutcomeReader at houtcome
  split at houtcome
  · rename_i htag
    obtain ⟨rfl, rfl⟩ := Reader.pure_eq_ok.mp houtcome
    rw [settingsReader_eq_ok hsettings, htag]
    simp only [preparationBytes, List.append_assoc, List.cons_append, List.nil_append]
  · simp only [Reader.bind_eq_ok, Reader.pure_eq_ok] at houtcome
    obtain ⟨found, _, hfound, rfl, rfl⟩ := houtcome
    obtain ⟨rfl, hbytes⟩ := outcomeReader_eq_ok hfound
    rw [settingsReader_eq_ok hsettings, hbytes]
    simp only [preparationBytes, List.append_assoc, List.cons_append, List.nil_append]

namespace CurrentPreparation

theorem encode_eq_ok {row : CurrentPreparation} {bytes : Bytes} :
    encode row = .ok bytes ↔ row.validate = .ok () ∧ preparationBytes row = bytes := by
  rw [encode, bind_eq_ok]
  exact ⟨fun ⟨_, hvalid, hbytes⟩ => ⟨hvalid, Except.ok.inj hbytes⟩,
    fun ⟨hvalid, hbytes⟩ => ⟨(), hvalid, congrArg Except.ok hbytes⟩⟩

/-- Every valid row is read back exactly. -/
theorem decode_preparationBytes {row : CurrentPreparation} (hvalid : row.validate = .ok ()) :
    decode (preparationBytes row) = .ok row := by
  rw [decode, (preparationFields_reads row).run, ok_bind]
  change (row.validate >>= fun _ => pure row) = _
  rw [hvalid]
  rfl

/-- Every row that is read is valid. -/
theorem decode_valid {bytes : Bytes} {row : CurrentPreparation}
    (hdecode : decode bytes = .ok row) : row.validate = .ok () := by
  rw [decode, bind_eq_ok] at hdecode
  obtain ⟨⟨found, rest⟩, -, hdecode⟩ := hdecode
  rw [bind_eq_ok] at hdecode
  obtain ⟨-, -, hdecode⟩ := hdecode
  rw [bind_eq_ok] at hdecode
  obtain ⟨_, hvalid, hdecode⟩ := hdecode
  obtain rfl := Except.ok.inj hdecode
  exact hvalid

/-- Encoding and decoding are inverse on the valid rows and their encodings. -/
theorem encode_eq_ok_iff_decode {row : CurrentPreparation} {bytes : Bytes} :
    encode row = .ok bytes ↔ decode bytes = .ok row := by
  constructor
  · intro hencode
    obtain ⟨hvalid, rfl⟩ := encode_eq_ok.mp hencode
    exact decode_preparationBytes hvalid
  · intro hdecode
    have hvalid := decode_valid hdecode
    rw [decode, bind_eq_ok] at hdecode
    obtain ⟨⟨found, rest⟩, hread, hdecode⟩ := hdecode
    simp only [bind_eq_ok, refuse_eq_ok, not_not, pure_eq_ok, Except.ok.injEq] at hdecode
    obtain ⟨_, rfl, _, _, rfl⟩ := hdecode
    rw [encode_eq_ok, preparationFields_eq_ok hread, List.append_nil]
    exact ⟨hvalid, rfl⟩

end CurrentPreparation

end EliotSearch.Control
