import EliotSearch.Library.Reader

/-!
# Current source rows

The persisted row of one selected source, its binary encoding, and the
errors of the source control store.  A row owns an identity and an object
reference; it never holds source bytes.
-/

namespace EliotSearch.Control

open EliotSearch.Library
open EliotSearch.Library.Results
open EliotSearch.Library.Words

abbrev SourceNamespaceId := Octets 16

abbrev SourceId := Octets 16

instance (priority := 2000) sourceIdLawful : LawfulBEq SourceId := inferInstance

abbrev Blake3Digest32 := Octets 32

def sourceObjectFormatVersion : UInt16 := 1

def maxSourceObjectBytes : UInt64 := 8 * 1024 * 1024

def maxPreparationUnitBytes : UInt32 := 64 * 1024

def maxLocatorBytes : Nat := 32 * 1024

/-! ## Registry data -/

/-- Content kind stored in an object reference. -/
inductive ObjectKind where
  | source
  | prepared
  deriving DecidableEq, Repr

namespace ObjectKind

def tag : ObjectKind → UInt8
  | source => 1
  | prepared => 2

def fromTag (tag : UInt8) : Option ObjectKind :=
  if tag = 1 then some source else if tag = 2 then some prepared else none

@[simp]
theorem fromTag_tag (kind : ObjectKind) : fromTag kind.tag = some kind := by
  cases kind <;> rfl

theorem tag_of_fromTag {tag : UInt8} {kind : ObjectKind} (hkind : fromTag tag = some kind) :
    kind.tag = tag := by
  unfold fromTag at hkind
  split at hkind
  · rename_i hsource
    obtain rfl := Option.some.inj hkind
    exact hsource.symm
  · split at hkind
    · rename_i hprepared
      obtain rfl := Option.some.inj hkind
      exact hprepared.symm
    · cases hkind

end ObjectKind

/-- Immutable object address with the integrity data needed to read it. -/
structure ObjectRef where
  formatVersion : UInt16
  kind : ObjectKind
  digest : Blake3Digest32
  byteLength : UInt64
  deriving DecidableEq

/-- Verified native identity of an opened regular file. -/
inductive NativeFileKey where
  | unix (device inode : UInt64)
  | windows (volumeSerial : UInt32) (fileIndex : UInt64)
  deriving DecidableEq

namespace NativeFileKey

def toBytes : NativeFileKey → Octets 17
  | unix device inode => ⟨[1] ++ le64 device ++ le64 inode, by simp⟩
  | windows volumeSerial fileIndex =>
      ⟨[2] ++ le32 volumeSerial ++ [0, 0, 0, 0] ++ le64 fileIndex, by simp⟩

/-- Decode a fixed native-key representation, rejecting unknown tags or padding. -/
def fromBytes (key : Octets 17) : Option NativeFileKey :=
  match key.bytes with
  | tag :: rest =>
      if tag = 1 then
        some (unix (UInt64.ofNat (leValue (rest.take 8))) (UInt64.ofNat (leValue (rest.drop 8))))
      else if tag = 2 ∧ (rest.drop 4).take 4 = [0, 0, 0, 0] then
        some (windows (UInt32.ofNat (leValue (rest.take 4)))
          (UInt64.ofNat (leValue (rest.drop 8))))
      else none
  | [] => none

@[simp]
theorem fromBytes_toBytes (key : NativeFileKey) : fromBytes key.toBytes = some key := by
  cases key with
  | unix device inode => simp [fromBytes, toBytes]
  | windows volumeSerial fileIndex =>
      have hserial : (le32 volumeSerial).length = 4 := le32_length _
      have hdrop : (le32 volumeSerial).drop 8 = [] := List.drop_eq_nil_of_le (by omega)
      simp [fromBytes, toBytes, List.drop_append, hserial, hdrop]

/-- Every representation that is decoded is the encoding of its key; the
padding of a volume serial is checked. -/
theorem toBytes_of_fromBytes {bytes : Octets 17} {key : NativeFileKey}
    (hkey : fromBytes bytes = some key) : key.toBytes = bytes := by
  obtain ⟨bytes, hlength⟩ := bytes
  cases bytes with
  | nil => cases hlength
  | cons tag rest =>
      have hrest : rest.length = 16 := Nat.succ.inj hlength
      have hlow : (rest.drop 8).length = 8 := by rw [List.length_drop, hrest]
      simp only [fromBytes] at hkey
      apply Octets.ext
      split at hkey
      · rename_i htag
        obtain rfl := Option.some.inj hkey
        have hhigh : (rest.take 8).length = 8 := List.length_take_of_le (by omega)
        simp only [toBytes, le64_ofNat_leValue hhigh, le64_ofNat_leValue hlow, htag,
          List.append_assoc, List.take_append_drop, List.cons_append, List.nil_append]
      · split at hkey
        · rename_i hpadded
          obtain ⟨htag, hpadding⟩ := hpadded
          obtain rfl := Option.some.inj hkey
          have hhigh : (rest.take 4).length = 4 := List.length_take_of_le (by omega)
          have hparts : rest = rest.take 4 ++ ((rest.drop 4).take 4 ++ rest.drop 8) := by
            have hdrop : rest.drop 8 = (rest.drop 4).drop 4 := by rw [List.drop_drop]
            rw [hdrop, List.take_append_drop, List.take_append_drop]
          rw [hpadding] at hparts
          simp only [toBytes, le32_ofNat_leValue hhigh, le64_ofNat_leValue hlow, htag,
            List.append_assoc, List.cons_append, List.nil_append]
          exact congrArg (List.cons 2) hparts.symm
        · cases hkey

end NativeFileKey

/-- Persisted current source state. -/
structure CurrentSourceRecord where
  sourceNamespaceId : SourceNamespaceId
  sourceId : SourceId
  rowRevision : UInt64
  registrationRevision : UInt64
  locator : Bytes
  fileKey : NativeFileKey
  objectRef : ObjectRef
  deriving DecidableEq

/-- Content-free source-control failures. -/
inductive SourceControlError where
  | invalidLocator
  | unsupportedPlatform
  | unsupportedSchema
  | corrupt
  | stale
  | database
  | randomUnavailable
  | revisionExhausted
  | inventoryLimit
  | deadline
  | cancelled
  deriving DecidableEq, Repr

/-! ## Object references -/

def putObject (object : ObjectRef) : Bytes :=
  le16 object.formatVersion ++ [object.kind.tag] ++ object.digest.bytes ++ le64 object.byteLength

theorem putObject_length (object : ObjectRef) : (putObject object).length = 43 := by
  simp [putObject]

/-! ## Row encoding -/

/-- The guard of the row encoder. -/
def Recordable (record : CurrentSourceRecord) : Prop :=
  record.rowRevision ≠ 0 ∧ record.registrationRevision ≠ 0 ∧
    record.objectRef.kind = .source ∧
    record.objectRef.formatVersion = sourceObjectFormatVersion ∧
    record.locator ≠ [] ∧ record.locator.length ≤ maxLocatorBytes

instance (record : CurrentSourceRecord) : Decidable (Recordable record) :=
  inferInstanceAs (Decidable (_ ∧ _))

def recordBytes (record : CurrentSourceRecord) : Bytes :=
  [1] ++ record.sourceNamespaceId.bytes ++ record.sourceId.bytes ++
    le64 record.registrationRevision ++ le64 record.rowRevision ++
    le32 (UInt32.ofNat record.locator.length) ++ record.locator ++
    record.fileKey.toBytes.bytes ++ putObject record.objectRef

def encodeRecord (record : CurrentSourceRecord) : Except SourceControlError Bytes := do
  refuse (¬ Recordable record) .corrupt
  return recordBytes record

/-- The fields of a row in stored order, up to the end of the input. -/
def recordFields : Reader SourceControlError CurrentSourceRecord := do
  let version ← Reader.u8 .corrupt
  Reader.refuse (version ≠ 1) .unsupportedSchema
  let sourceNamespaceId ← Reader.array .corrupt 16
  let sourceId ← Reader.array .corrupt 16
  let registrationRevision ← Reader.u64 .corrupt
  let rowRevision ← Reader.u64 .corrupt
  let locatorLength ← Reader.u32 .corrupt
  let locator ← Reader.take .corrupt locatorLength.toNat
  let fileKeyBytes ← Reader.array .corrupt 17
  let fileKey ← Reader.okOr (NativeFileKey.fromBytes fileKeyBytes) .corrupt
  let formatVersion ← Reader.u16 .corrupt
  let tag ← Reader.u8 .corrupt
  let kind ← Reader.okOr (ObjectKind.fromTag tag) .unsupportedSchema
  let digest ← Reader.array .corrupt 32
  let byteLength ← Reader.u64 .corrupt
  return {
    sourceNamespaceId, sourceId, rowRevision, registrationRevision, locator, fileKey
    objectRef := { formatVersion, kind, digest, byteLength }
  }

/-- The guard of the row decoder; unlike the encoder it bounds the object and
leaves the locator unchecked. -/
def ReadableRecord (record : CurrentSourceRecord) : Prop :=
  record.rowRevision ≠ 0 ∧ record.registrationRevision ≠ 0 ∧
    record.objectRef.formatVersion = sourceObjectFormatVersion ∧
    record.objectRef.kind = .source ∧ record.objectRef.byteLength ≤ maxSourceObjectBytes

instance (record : CurrentSourceRecord) : Decidable (ReadableRecord record) :=
  inferInstanceAs (Decidable (_ ∧ _))

def decodeRecord (bytes : Bytes) : Except SourceControlError CurrentSourceRecord := do
  let (record, rest) ← recordFields bytes
  refuse (rest ≠ [] ∨ ¬ ReadableRecord record) .corrupt
  return record

theorem recordFields_reads {record : CurrentSourceRecord}
    (hlocator : record.locator.length ≤ maxLocatorBytes) :
    Reads recordFields (recordBytes record) record := by
  have hlength : (UInt32.ofNat record.locator.length).toNat = record.locator.length :=
    UInt32.toNat_ofNat_of_lt' (Nat.lt_of_le_of_lt hlocator (by decide))
  simp only [recordBytes, putObject, List.append_assoc, recordFields]
  refine (Reads.u8 _ 1).bind (Reads.refuse_bind (by decide) ?_)
  refine (Reads.array _ _).bind ((Reads.array _ _).bind ?_)
  refine (Reads.u64 _ _).bind ((Reads.u64 _ _).bind ((Reads.u32 _ _).bind ?_))
  refine (Reads.take _ hlength.symm).bind ((Reads.array _ _).bind ?_)
  refine Reads.okOr_bind (NativeFileKey.fromBytes_toBytes _) ?_
  refine (Reads.u16 _ _).bind ((Reads.u8 _ _).bind ?_)
  refine Reads.okOr_bind (ObjectKind.fromTag_tag _) ?_
  exact (Reads.array _ _).bind ((Reads.u64 _ _).bind_nil (Reads.pure _))

theorem recordBytes_length (record : CurrentSourceRecord) :
    (recordBytes record).length = 113 + record.locator.length := by
  simp only [recordBytes, List.length_append, putObject_length, le64_length, le32_length,
    Octets.length_eq, List.length_cons, List.length_nil]
  omega

theorem encodeRecord_eq_ok {record : CurrentSourceRecord} {bytes : Bytes} :
    encodeRecord record = .ok bytes ↔ Recordable record ∧ recordBytes record = bytes := by
  simp [encodeRecord, bind_eq_ok]

/-- Rows written by the encoder with a bounded object are read back exactly. -/
theorem decodeRecord_recordBytes {record : CurrentSourceRecord} (hrecord : Recordable record)
    (hbound : record.objectRef.byteLength ≤ maxSourceObjectBytes) :
    decodeRecord (recordBytes record) = .ok record := by
  have hreadable : ReadableRecord record :=
    ⟨hrecord.1, hrecord.2.1, hrecord.2.2.2.1, hrecord.2.2.1, hbound⟩
  simp [decodeRecord, (recordFields_reads hrecord.2.2.2.2.2).run, bind_eq_ok, hreadable]

/-- The fields read are the encoding of the row they make. -/
theorem recordFields_eq_ok {bytes rest : Bytes} {record : CurrentSourceRecord}
    (hread : recordFields bytes = .ok (record, rest)) :
    bytes = recordBytes record ++ rest ∧ record.locator.length < 2 ^ 32 := by
  simp only [recordFields, Reader.bind_eq_ok, Reader.u8_eq_ok, Reader.refuse_eq_ok, not_not,
    Reader.array_eq_ok, Reader.u64_eq_ok, Reader.u32_eq_ok, Reader.take_eq_ok, Reader.okOr_eq_ok,
    Reader.u16_eq_ok, Reader.pure_eq_ok] at hread
  obtain ⟨version, _, rfl, _, _, ⟨rfl, rfl⟩, namespaceId, _, rfl, sourceId, _, rfl, registration, _,
    rfl, row, _, rfl, length, _, rfl, locator, _, ⟨rfl, hlocator⟩, fileKeyBytes, _, rfl, fileKey, _,
    ⟨hfileKey, rfl⟩, formatVersion, _, rfl, tag, _, rfl, kind, _, ⟨hkind, rfl⟩, digest, _, rfl,
    byteLength, _, rfl, rfl, rfl⟩ := hread
  have hword : UInt32.ofNat locator.length = length := by rw [hlocator, UInt32.ofNat_toNat]
  have hbound := length.toNat_lt
  refine ⟨?_, by simp only; omega⟩
  simp only [recordBytes, putObject, hword, NativeFileKey.toBytes_of_fromBytes hfileKey,
    ObjectKind.tag_of_fromTag hkind, List.append_assoc, List.cons_append, List.nil_append]

/-- A row that is read satisfies the guard of the decoder. -/
theorem decodeRecord_readable {bytes : Bytes} {record : CurrentSourceRecord}
    (hdecode : decodeRecord bytes = .ok record) : ReadableRecord record := by
  rw [decodeRecord, bind_eq_ok] at hdecode
  obtain ⟨⟨found, rest⟩, -, hdecode⟩ := hdecode
  simp only [bind_eq_ok, refuse_eq_ok, not_or, not_not, pure_eq_ok, Except.ok.injEq] at hdecode
  obtain ⟨-, hguard, rfl⟩ := hdecode
  exact hguard.2

/-- What a stored row holds, exactly. -/
theorem decodeRecord_eq_ok {bytes : Bytes} {record : CurrentSourceRecord}
    (hdecode : decodeRecord bytes = .ok record) :
    bytes = recordBytes record ∧ ReadableRecord record ∧ record.locator.length < 2 ^ 32 := by
  have hreadable := decodeRecord_readable hdecode
  rw [decodeRecord, bind_eq_ok] at hdecode
  obtain ⟨⟨found, rest⟩, hread, hdecode⟩ := hdecode
  simp only [bind_eq_ok, refuse_eq_ok, not_or, not_not, pure_eq_ok, Except.ok.injEq] at hdecode
  obtain ⟨-, ⟨rfl, -⟩, rfl⟩ := hdecode
  obtain ⟨hbytes, hlocator⟩ := recordFields_eq_ok hread
  rw [List.append_nil] at hbytes
  exact ⟨hbytes, hreadable, hlocator⟩

/-! ## Both directions of the codec -/

/-- The locator length that a stored row claims, behind its version, its two
identities and its two revisions. -/
def storedLocatorLength (bytes : Bytes) : Nat := leValue ((bytes.drop 49).take 4)

theorem storedLocatorLength_recordBytes {record : CurrentSourceRecord}
    (hlocator : record.locator.length < 2 ^ 32) :
    storedLocatorLength (recordBytes record) = record.locator.length := by
  have hfront : ([1] ++ record.sourceNamespaceId.bytes ++ record.sourceId.bytes ++
      le64 record.registrationRevision ++ le64 record.rowRevision).length = 49 := by
    simp
  have hword : (UInt32.ofNat record.locator.length).toNat = record.locator.length :=
    UInt32.toNat_ofNat_of_lt' hlocator
  rw [storedLocatorLength, recordBytes, List.append_assoc, List.append_assoc, List.append_assoc,
    ← hfront, List.drop_left, List.take_left' (le32_length _), le32,
    leValue_leBytes, hword]
  exact Nat.mod_eq_of_lt hlocator

/-- A row is read back as written exactly when its object is within the bound
that only the decoder checks, and a stored row is rewritten as read exactly when
its locator is within the bounds that only the encoder checks. -/
theorem record_codec_inverse_iff (record : CurrentSourceRecord) (bytes : Bytes) :
    (encodeRecord record = .ok bytes →
      (decodeRecord bytes = .ok record ↔
        record.objectRef.byteLength ≤ maxSourceObjectBytes)) ∧
    (decodeRecord bytes = .ok record →
      (encodeRecord record = .ok bytes ↔
        0 < storedLocatorLength bytes ∧ storedLocatorLength bytes ≤ maxLocatorBytes)) := by
  constructor
  · intro hencode
    obtain ⟨hrecordable, rfl⟩ := encodeRecord_eq_ok.mp hencode
    constructor
    · intro hdecode
      exact (decodeRecord_readable hdecode).2.2.2.2
    · exact decodeRecord_recordBytes hrecordable
  · intro hdecode
    obtain ⟨rfl, hreadable, hlocator⟩ := decodeRecord_eq_ok hdecode
    obtain ⟨hrow, hregistration, hversion, hkind, -⟩ := hreadable
    rw [storedLocatorLength_recordBytes hlocator, encodeRecord_eq_ok, List.length_pos_iff]
    constructor
    · rintro ⟨hrecordable, -⟩
      exact hrecordable.2.2.2.2
    · rintro ⟨hnonempty, hbound⟩
      exact ⟨⟨hrow, hregistration, hkind, hversion, hnonempty, hbound⟩, rfl⟩

/-- A row with the given locator and object length. -/
def sampleRecord (locator : Bytes) (byteLength : UInt64) : CurrentSourceRecord where
  sourceNamespaceId := Octets.replicate 16 1
  sourceId := Octets.replicate 16 2
  rowRevision := 1
  registrationRevision := 1
  locator := locator
  fileKey := .unix 1 1
  objectRef := ⟨1, .source, Octets.replicate 32 0, byteLength⟩

/-- An object one byte over the bound is written and not read back; an empty
locator is read and cannot be rewritten. -/
theorem record_codec_one_sided :
    (encodeRecord (sampleRecord [47] 8388609) = .ok (recordBytes (sampleRecord [47] 8388609)) ∧
      decodeRecord (recordBytes (sampleRecord [47] 8388609)) = .error .corrupt) ∧
    (decodeRecord (recordBytes (sampleRecord [] 5)) = .ok (sampleRecord [] 5) ∧
      encodeRecord (sampleRecord [] 5) = .error .corrupt) := by
  decide +kernel

end EliotSearch.Control
