import EliotSearch.Control.Database

/-!
# Stored generation rows

Captured sources with their staging progress, point evidence, and upload pages
of references.  Every decoder repeats the checks of its encoder, so a stored
row that decodes is one that could have been written.
-/

namespace EliotSearch.Control

open EliotSearch.Library
open EliotSearch.Library.Json
open EliotSearch.Library.Results
open EliotSearch.Library.Words

def maxPageBytes : Nat := 1048576

def maxPagePoints : Nat := 128

def maxTextBytes : Nat := 65536

def maxPreparedObjectBytes : UInt64 := 64 * 1024 * 1024

def maxSourceEntryBytes : Nat := 64 * 1024

def evidenceLength : Nat := 160

def pageMagic : Bytes := ascii "ELSUPG02"

def legacyPageMagic : Bytes := ascii "ELSUPG01"

/-! ## Rows -/

/-- One exact current source and preparation selection captured together. -/
structure CapturedSource where
  source : CurrentSourceRecord
  preparation : CurrentPreparation
  deriving DecidableEq

structure SourceEntry where
  captured : CapturedSource
  stagedUnits : UInt64
  complete : Bool
  deriving DecidableEq

/-- Actual retained-object and range binding for one backend point. -/
structure PointEvidence where
  sourceNamespaceId : SourceNamespaceId
  sourceId : SourceId
  input : ObjectRef
  prepared : ObjectRef
  unit : UInt64
  start : UInt64
  stop : UInt64
  lineStart : UInt64
  lineEnd : UInt64
  startsAtLineBoundary : Bool
  endsAtLineBoundary : Bool
  deriving DecidableEq

structure UploadPoint where
  id : Octets 16
  evidence : PointEvidence
  deriving DecidableEq

/-- A bounded durable page of references. -/
structure UploadPage where
  points : List UploadPoint
  requestBytes : Option UInt64
  deriving DecidableEq

/-- The row key of a generation sequence. -/
def key (sequence : UInt64) (suffix : Bytes) : Bytes := be64 sequence ++ suffix

theorem key_injective {left right : UInt64} {first second : Bytes}
    (heq : key left first = key right second) : left = right ∧ first = second := by
  have hparts := List.append_inj heq (by simp)
  exact ⟨be64_injective hparts.1, hparts.2⟩

/-! ## Evidence -/

def boolByte (value : Bool) : UInt8 := if value then 1 else 0

/-- A byte that is read as a flag is the byte of the flag. -/
theorem eq_boolByte {byte : UInt8} {value : Bool}
    (hvalue : (if byte = 0 then some false else if byte = 1 then some true else none) =
      some value) : byte = boolByte value := by
  split at hvalue
  · rename_i hzero
    obtain rfl := Option.some.inj hvalue
    exact hzero
  · split at hvalue
    · rename_i hone
      obtain rfl := Option.some.inj hvalue
      exact hone
    · cases hvalue

def ValidEvidence (evidence : PointEvidence) : Prop :=
  evidence.input.formatVersion = 1 ∧ evidence.input.kind = .source ∧
    evidence.input.byteLength ≤ maxSourceObjectBytes ∧
    evidence.prepared.formatVersion = 1 ∧ evidence.prepared.kind = .prepared ∧
    evidence.prepared.byteLength ≠ 0 ∧ evidence.prepared.byteLength ≤ maxPreparedObjectBytes ∧
    evidence.start < evidence.stop ∧ evidence.stop ≤ evidence.input.byteLength ∧
    (evidence.stop - evidence.start).toNat ≤ maxTextBytes ∧
    evidence.lineStart < evidence.lineEnd

instance (evidence : PointEvidence) : Decidable (ValidEvidence evidence) :=
  inferInstanceAs (Decidable (_ ∧ _))

def encodeEvidence (evidence : PointEvidence) : Bytes :=
  evidence.sourceNamespaceId.bytes ++ evidence.sourceId.bytes ++ putObject evidence.input ++
    putObject evidence.prepared ++ le64 evidence.unit ++ le64 evidence.start ++
    le64 evidence.stop ++ le64 evidence.lineStart ++ le64 evidence.lineEnd ++
    [boolByte evidence.startsAtLineBoundary] ++ [boolByte evidence.endsAtLineBoundary]

def boolean : Reader PublicationError Bool := do
  let byte ← Reader.u8 .corrupt
  Reader.okOr (if byte = 0 then some false else if byte = 1 then some true else none) .corrupt

/-- The checks an object reference of one kind must pass. -/
def AcceptsObject (kind : ObjectKind) (object : ObjectRef) : Prop :=
  object.formatVersion = 1 ∧ object.kind = kind ∧
    object.byteLength ≤ (if kind = .source then maxSourceObjectBytes else maxPreparedObjectBytes) ∧
    (kind = .prepared → object.byteLength ≠ 0)

instance (kind : ObjectKind) (object : ObjectRef) : Decidable (AcceptsObject kind object) :=
  inferInstanceAs (Decidable (_ ∧ _))

def object (kind : ObjectKind) : Reader PublicationError ObjectRef := do
  let formatVersion ← Reader.u16 .corrupt
  let tag ← Reader.u8 .corrupt
  let actualKind ← Reader.okOr (ObjectKind.fromTag tag) .corrupt
  let digest ← Reader.array .corrupt 32
  let byteLength ← Reader.u64 .corrupt
  let object : ObjectRef := { formatVersion, kind := actualKind, digest, byteLength }
  Reader.refuse (¬ AcceptsObject kind object) .corrupt
  return object

def evidenceFields : Reader PublicationError PointEvidence := do
  let sourceNamespaceId ← Reader.array .corrupt 16
  let sourceId ← Reader.array .corrupt 16
  let input ← object .source
  let prepared ← object .prepared
  let unit ← Reader.u64 .corrupt
  let start ← Reader.u64 .corrupt
  let stop ← Reader.u64 .corrupt
  let lineStart ← Reader.u64 .corrupt
  let lineEnd ← Reader.u64 .corrupt
  let startsAtLineBoundary ← boolean
  let endsAtLineBoundary ← boolean
  return {
    sourceNamespaceId, sourceId, input, prepared, unit, start, stop, lineStart, lineEnd
    startsAtLineBoundary, endsAtLineBoundary
  }

def evidence : Reader PublicationError PointEvidence := do
  let evidence ← evidenceFields
  Reader.refuse (¬ ValidEvidence evidence) .corrupt
  return evidence

def decodeEvidence (bytes : Bytes) : Except PublicationError PointEvidence := do
  refuse (bytes.length ≠ evidenceLength) .corrupt
  let (found, rest) ← evidence bytes
  refuse (rest ≠ []) .corrupt
  return found

theorem encodeEvidence_length (evidence : PointEvidence) :
    (encodeEvidence evidence).length = evidenceLength := by
  simp [encodeEvidence, putObject_length, evidenceLength]

theorem boolean_reads (value : Bool) : Reads boolean [boolByte value] value := by
  refine (Reads.u8 _ _).bind_nil (Reads.lift ?_)
  cases value <;> rfl

theorem object_reads {kind : ObjectKind} {found : ObjectRef} (haccepts : AcceptsObject kind found) :
    Reads (object kind) (putObject found) found := by
  simp only [putObject, List.append_assoc, object]
  refine (Reads.u16 _ _).bind ((Reads.u8 _ _).bind ?_)
  refine Reads.okOr_bind (ObjectKind.fromTag_tag _) ?_
  refine (Reads.array _ _).bind ((Reads.u64 _ _).bind_nil ?_)
  exact Reads.refuse_bind (not_not.mpr haccepts) (Reads.pure _)

theorem evidence_reads {found : PointEvidence} (hvalid : ValidEvidence found) :
    Reads evidence (encodeEvidence found) found := by
  obtain ⟨hinput, hinputKind, hinputBound, hprepared, hpreparedKind, hpreparedPos, hpreparedBound,
    hrest⟩ := id hvalid
  have hsource : AcceptsObject .source found.input :=
    ⟨hinput, hinputKind, hinputBound, fun heq => by cases heq⟩
  have hartifact : AcceptsObject .prepared found.prepared :=
    ⟨hprepared, hpreparedKind, hpreparedBound, fun _ => hpreparedPos⟩
  have hfields : Reads evidenceFields (encodeEvidence found) found := by
    simp only [encodeEvidence, List.append_assoc, evidenceFields]
    refine (Reads.array _ _).bind ((Reads.array _ _).bind ?_)
    refine (object_reads hsource).bind ((object_reads hartifact).bind ?_)
    refine (Reads.u64 _ _).bind ((Reads.u64 _ _).bind ((Reads.u64 _ _).bind ?_))
    refine (Reads.u64 _ _).bind ((Reads.u64 _ _).bind ?_)
    exact (boolean_reads _).bind ((boolean_reads _).bind_nil (Reads.pure _))
  exact hfields.bind_nil (Reads.refuse_bind (not_not.mpr hvalid) (Reads.pure _))

theorem evidence_valid {bytes rest : Bytes} {found : PointEvidence}
    (hread : evidence bytes = .ok (found, rest)) : ValidEvidence found := by
  rw [evidence, Reader.bind_eq_ok] at hread
  obtain ⟨fields, middle, -, hread⟩ := hread
  rw [Reader.bind_eq_ok] at hread
  obtain ⟨_, _, hguard, hread⟩ := hread
  have hvalid := (Reader.lift_eq_ok.mp hguard).1
  obtain ⟨rfl, -⟩ := Prod.mk.inj (Except.ok.inj hread)
  simpa using hvalid

/-- Valid evidence is read back exactly. -/
theorem decodeEvidence_encodeEvidence {found : PointEvidence} (hvalid : ValidEvidence found) :
    decodeEvidence (encodeEvidence found) = .ok found := by
  have hlength : ¬ (encodeEvidence found).length ≠ evidenceLength :=
    not_not.mpr (encodeEvidence_length found)
  simp only [decodeEvidence, refuse_of_not hlength, (evidence_reads hvalid).run, ok_bind]
  rfl

/-- Evidence that is read satisfies every range and object bound. -/
theorem decodeEvidence_valid {bytes : Bytes} {found : PointEvidence}
    (hdecode : decodeEvidence bytes = .ok found) : ValidEvidence found := by
  simp only [decodeEvidence, bind_eq_ok] at hdecode
  obtain ⟨_, _, ⟨other, rest⟩, hread, _, _, hfound⟩ := hdecode
  obtain rfl := Except.ok.inj hfound
  exact evidence_valid hread

/-! ## Upload pages -/

/-- Charge every point, refusing invalid evidence and an oversized page. -/
def chargePoints : Nat → List UploadPoint → Except PublicationError Nat
  | size, [] => .ok size
  | size, point :: points => do
      refuse (¬ ValidEvidence point.evidence) .corrupt
      let size := size + (16 + evidenceLength)
      refuse (size > maxPageBytes) .limit
      chargePoints size points

def pageSize (page : UploadPage) : Except PublicationError Nat := do
  refuse (page.points = [] ∨ page.points.length > maxPagePoints) .limit
  chargePoints 20 page.points

def pointBytes (point : UploadPoint) : Bytes := point.id.bytes ++ encodeEvidence point.evidence

def pageBytes (points : List UploadPoint) (requestBytes : UInt64) : Bytes :=
  pageMagic ++ le16 2 ++ le16 (UInt16.ofNat points.length) ++ le64 requestBytes ++
    points.flatMap pointBytes

def encodePage (page : UploadPage) : Except PublicationError Bytes := do
  let _size ← pageSize page
  let requestBytes ← okOr (page.requestBytes.filter fun bytes =>
    0 < bytes && decide (bytes.toNat ≤ maxPageBytes)) .corrupt
  return pageBytes page.points requestBytes

/-- The redundant text of a legacy point is checked and discarded. -/
def legacyText (found : PointEvidence) : Reader PublicationError Unit := do
  let size ← Reader.u32 .corrupt
  Reader.refuse (size.toNat > maxTextBytes ∨
    size.toNat ≠ (found.stop - found.start).toNat) .corrupt
  let text ← Reader.take .corrupt size.toNat
  Reader.refuse (ByteArray.validateUTF8 ⟨text.toArray⟩ = false) .corrupt

def pagePoint (legacy : Bool) : Reader PublicationError UploadPoint := do
  let id ← Reader.array .corrupt 16
  let evidence ← evidence
  if legacy then legacyText evidence
  return { id, evidence }

def pagePoints (legacy : Bool) : Nat → Reader PublicationError (List UploadPoint)
  | 0 => return []
  | count + 1 => do
      let point ← pagePoint legacy
      let points ← pagePoints legacy count
      return point :: points

def pageRequestBytes (legacy : Bool) : Reader PublicationError (Option UInt64) :=
  if legacy then return none
  else do
    let size ← Reader.u64 .corrupt
    Reader.refuse (size = 0 ∨ size.toNat > maxPageBytes) .corrupt
    return some size

def pageFields : Reader PublicationError (Bool × UploadPage) := do
  let magic ← Reader.take .corrupt 8
  let version ← Reader.u16 .corrupt
  let legacy := magic = legacyPageMagic ∧ version = 1
  Reader.refuse (¬ (legacy ∨ (magic = pageMagic ∧ version = 2))) .corrupt
  let count ← Reader.u16 .corrupt
  Reader.refuse (count = 0 ∨ count.toNat > maxPagePoints) .corrupt
  let requestBytes ← pageRequestBytes (decide legacy)
  let points ← pagePoints (decide legacy) count.toNat
  return (decide legacy, { points, requestBytes })

def decodePage (bytes : Bytes) : Except PublicationError UploadPage := do
  refuse (bytes.length > maxPageBytes) .corrupt
  let ((legacy, page), rest) ← pageFields bytes
  refuse (rest ≠ []) .corrupt
  if legacy then return page
  let size ← pageSize page
  refuse (size ≠ bytes.length) .corrupt
  return page

theorem pointBytes_length (point : UploadPoint) :
    (pointBytes point).length = 16 + evidenceLength := by
  simp [pointBytes, encodeEvidence_length]

theorem chargePoints_eq_ok {size total : Nat} {points : List UploadPoint}
    (hcharge : chargePoints size points = .ok total) :
    total = size + (points.flatMap pointBytes).length ∧
      ∀ point ∈ points, ValidEvidence point.evidence := by
  induction points generalizing size with
  | nil =>
      obtain rfl := Except.ok.inj hcharge
      simp
  | cons point points ih =>
      simp only [chargePoints, bind_eq_ok, refuse_eq_ok, not_not] at hcharge
      obtain ⟨_, hvalid, _, _, hrest⟩ := hcharge
      obtain ⟨htotal, hpoints⟩ := ih hrest
      refine ⟨?_, ?_⟩
      · rw [htotal, List.flatMap_cons, List.length_append, pointBytes_length]
        omega
      · intro other hmem
        rcases List.mem_cons.mp hmem with rfl | hmem
        · exact hvalid
        · exact hpoints other hmem

theorem pageSize_eq_ok {page : UploadPage} {size : Nat} (hsize : pageSize page = .ok size) :
    page.points ≠ [] ∧ page.points.length ≤ maxPagePoints ∧
      size = 20 + (page.points.flatMap pointBytes).length ∧
      ∀ point ∈ page.points, ValidEvidence point.evidence := by
  simp only [pageSize, bind_eq_ok, refuse_eq_ok, not_or, Nat.not_lt] at hsize
  obtain ⟨_, ⟨hnonempty, hcount⟩, hcharge⟩ := hsize
  exact ⟨hnonempty, hcount, chargePoints_eq_ok hcharge⟩

theorem encodePage_eq_ok {page : UploadPage} {bytes : Bytes} (hencode : encodePage page = .ok bytes) :
    ∃ size requestBytes, pageSize page = .ok size ∧ page.requestBytes = some requestBytes ∧
      requestBytes ≠ 0 ∧ requestBytes.toNat ≤ maxPageBytes ∧
      bytes = pageBytes page.points requestBytes := by
  simp only [encodePage, bind_eq_ok, okOr_eq_ok, Option.filter_eq_some_iff, Bool.and_eq_true,
    decide_eq_true_eq, pure_eq_ok, Except.ok.injEq] at hencode
  obtain ⟨size, hsize, requestBytes, ⟨hrequest, hpos, hbound⟩, rfl⟩ := hencode
  refine ⟨size, requestBytes, hsize, hrequest, ?_, hbound, rfl⟩
  rintro rfl
  exact absurd hpos (by decide)

theorem pagePoints_reads {points : List UploadPoint}
    (hvalid : ∀ point ∈ points, ValidEvidence point.evidence) :
    Reads (pagePoints false points.length) (points.flatMap pointBytes) points := by
  induction points with
  | nil => exact Reads.pure _
  | cons point points ih =>
      have hpoint : Reads (pagePoint false) (pointBytes point) point :=
        (Reads.array _ _).bind
          ((evidence_reads (hvalid point List.mem_cons_self)).bind_nil (Reads.pure _))
      have hrest := ih fun other hmem => hvalid other (List.mem_cons_of_mem _ hmem)
      exact hpoint.bind (hrest.bind_nil (Reads.pure _))

theorem pageBytes_length (points : List UploadPoint) (requestBytes : UInt64) :
    (pageBytes points requestBytes).length = 20 + (points.flatMap pointBytes).length := by
  have hmagic : pageMagic.length = 8 := rfl
  simp only [pageBytes, List.length_append, le16_length, le64_length, hmagic]

theorem flatMap_pointBytes_length (points : List UploadPoint) :
    (points.flatMap pointBytes).length = 176 * points.length := by
  induction points with
  | nil => rfl
  | cons point points ih =>
      rw [List.flatMap_cons, List.length_append, ih, pointBytes_length, List.length_cons,
        evidenceLength]
      omega

/-- Every encoded page is read back exactly. -/
theorem decodePage_encodePage {page : UploadPage} {bytes : Bytes}
    (hencode : encodePage page = .ok bytes) : decodePage bytes = .ok page := by
  obtain ⟨size, requestBytes, hsize, hrequest, hpos, hbound, rfl⟩ := encodePage_eq_ok hencode
  obtain ⟨hnonempty, hcount, htotal, hvalid⟩ := pageSize_eq_ok hsize
  have hcountWord : (UInt16.ofNat page.points.length).toNat = page.points.length :=
    UInt16.toNat_ofNat_of_lt' (Nat.lt_of_le_of_lt hcount (by decide))
  have hfields : Reads pageFields (pageBytes page.points requestBytes) (false, page) := by
    have hmagic : pageMagic.length = 8 := rfl
    simp only [pageBytes, List.append_assoc, pageFields]
    refine (Reads.take _ hmagic).bind ((Reads.u16 _ _).bind ?_)
    refine Reads.refuse_bind (by decide) ((Reads.u16 _ _).bind ?_)
    refine Reads.refuse_bind ?_ ?_
    · rintro (hzero | hmany)
      · have hlength := congrArg UInt16.toNat hzero
        rw [hcountWord] at hlength
        exact hnonempty (List.length_eq_zero_iff.mp hlength)
      · rw [hcountWord] at hmany
        exact Nat.not_lt.mpr hcount hmany
    · have hrequestReads : Reads (pageRequestBytes false) (le64 requestBytes)
          (some requestBytes) := by
        refine (Reads.u64 _ _).bind_nil (Reads.refuse_bind ?_ (Reads.pure _))
        rintro (hzero | hlarge)
        · exact hpos hzero
        · exact Nat.not_lt.mpr hbound hlarge
      refine hrequestReads.bind ?_
      rw [hcountWord]
      refine (pagePoints_reads hvalid).bind_nil ?_
      have hpage : page = { points := page.points, requestBytes := some requestBytes } := by
        rw [← hrequest]
      rw [hpage]
      exact Reads.pure _
  have hlength : (pageBytes page.points requestBytes).length = size := by
    rw [pageBytes_length, htotal]
  have hfits : ¬ (pageBytes page.points requestBytes).length > maxPageBytes := by
    have hpoints : page.points.length ≤ 128 := hcount
    rw [pageBytes_length, flatMap_pointBytes_length, maxPageBytes]
    omega
  have hsame : ¬ size ≠ (pageBytes page.points requestBytes).length := by
    rw [hlength]
    exact not_not.mpr rfl
  simp only [decodePage, refuse_of_not hfits, hfields.run, ok_bind, hsize, refuse_of_not hsame]
  rfl

/-! ## Captured sources -/

/-- What a stored capture satisfies: readable rows about one source, with an
outcome for the captured input. -/
structure CapturedSource.Coherent (captured : CapturedSource) : Prop where
  readable : ReadableRecord captured.source
  valid : captured.preparation.validate = .ok ()
  same_id : captured.source.sourceId = captured.preparation.sourceId
  same_namespace : captured.source.sourceNamespaceId = captured.preparation.sourceNamespaceId
  matched : ∃ outcome ∈ captured.preparation.outcome,
    outcome.MatchesInput captured.source captured.preparation.settings

def sourceEntryBytes (entry : SourceEntry) (source prep : Bytes) : Bytes :=
  le32 (UInt32.ofNat source.length) ++ source ++ le32 (UInt32.ofNat prep.length) ++ prep ++
    le64 entry.stagedUnits ++ [boolByte entry.complete]

def encodeSource (entry : SourceEntry) : Except PublicationError Bytes := do
  let source ← (encodeRecord entry.captured.source).mapError publicationSourceError
  let prep ← entry.captured.preparation.encode.mapError fun _ => .corrupt
  refuse (8 + source.length + prep.length + 9 > maxSourceEntryBytes) .limit
  return sourceEntryBytes entry source prep

def sourceFields : Reader PublicationError SourceEntry := do
  let sourceSize ← Reader.u32 .corrupt
  let sourceBytes ← Reader.take .corrupt sourceSize.toNat
  let source ← Reader.lift ((decodeRecord sourceBytes).mapError publicationSourceError)
  let prepSize ← Reader.u32 .corrupt
  let prepBytes ← Reader.take .corrupt prepSize.toNat
  let preparation ← Reader.lift ((CurrentPreparation.decode prepBytes).mapError fun _ => .corrupt)
  let stagedUnits ← Reader.u64 .corrupt
  let complete ← boolean
  return { captured := { source, preparation }, stagedUnits, complete }

def decodeSource (bytes : Bytes) : Except PublicationError SourceEntry := do
  refuse (bytes.length > maxSourceEntryBytes) .corrupt
  let (entry, rest) ← sourceFields bytes
  refuse (rest ≠ []) .corrupt
  let source := entry.captured.source
  let preparation := entry.captured.preparation
  refuse (source.sourceId ≠ preparation.sourceId ∨
    source.sourceNamespaceId ≠ preparation.sourceNamespaceId ∨
    ¬ ∃ outcome ∈ preparation.outcome, outcome.MatchesInput source preparation.settings) .corrupt
  return entry

theorem encodeSource_eq_ok {entry : SourceEntry} {bytes : Bytes}
    (hencode : encodeSource entry = .ok bytes) :
    Recordable entry.captured.source ∧
      8 + (recordBytes entry.captured.source).length +
        (preparationBytes entry.captured.preparation).length + 9 ≤ maxSourceEntryBytes ∧
      bytes = sourceEntryBytes entry (recordBytes entry.captured.source)
        (preparationBytes entry.captured.preparation) := by
  simp only [encodeSource, bind_eq_ok, mapError_eq_ok, encodeRecord_eq_ok,
    CurrentPreparation.encode_eq_ok, refuse_eq_ok, Nat.not_lt, pure_eq_ok, Except.ok.injEq]
    at hencode
  obtain ⟨_, ⟨hrecord, rfl⟩, _, ⟨_, rfl⟩, _, hsize, rfl⟩ := hencode
  exact ⟨hrecord, hsize, rfl⟩

/-- A stored entry of a coherent capture is read back exactly. -/
theorem decodeSource_encodeSource {entry : SourceEntry} {bytes : Bytes}
    (hencode : encodeSource entry = .ok bytes) (hcoherent : entry.captured.Coherent) :
    decodeSource bytes = .ok entry := by
  obtain ⟨hrecord, hsize, rfl⟩ := encodeSource_eq_ok hencode
  have hsource := decodeRecord_recordBytes hrecord hcoherent.readable.2.2.2.2
  have hpreparation := CurrentPreparation.decode_preparationBytes hcoherent.valid
  have hword : ∀ length, length ≤ maxSourceEntryBytes → (UInt32.ofNat length).toNat = length :=
    fun length hlength =>
      UInt32.toNat_ofNat_of_lt' (Nat.lt_of_le_of_lt hlength (by decide))
  have hsourceLength := hword (recordBytes entry.captured.source).length (by omega)
  have hprepLength := hword (preparationBytes entry.captured.preparation).length (by omega)
  have hreads : Reads sourceFields (sourceEntryBytes entry (recordBytes entry.captured.source)
      (preparationBytes entry.captured.preparation)) entry := by
    simp only [sourceEntryBytes, List.append_assoc, sourceFields]
    refine (Reads.u32 _ _).bind ((Reads.take _ hsourceLength.symm).bind ?_)
    refine Reads.lift_bind (mapError_eq_ok.mpr hsource) ?_
    refine (Reads.u32 _ _).bind ((Reads.take _ hprepLength.symm).bind ?_)
    refine Reads.lift_bind (mapError_eq_ok.mpr hpreparation) ?_
    exact (Reads.u64 _ _).bind ((boolean_reads _).bind_nil (Reads.pure _))
  have hlength : ¬ (sourceEntryBytes entry (recordBytes entry.captured.source)
      (preparationBytes entry.captured.preparation)).length > maxSourceEntryBytes := by
    simp only [sourceEntryBytes, List.length_append, le32_length, le64_length,
      List.length_singleton]
    omega
  have hguard : ¬ (entry.captured.source.sourceId ≠ entry.captured.preparation.sourceId ∨
      entry.captured.source.sourceNamespaceId ≠ entry.captured.preparation.sourceNamespaceId ∨
      ¬ ∃ outcome ∈ entry.captured.preparation.outcome,
        outcome.MatchesInput entry.captured.source entry.captured.preparation.settings) := by
    rintro (hid | hnamespace | hmatch)
    · exact hid hcoherent.same_id
    · exact hnamespace hcoherent.same_namespace
    · exact hmatch hcoherent.matched
  simp only [decodeSource, refuse_of_not hlength, hreads.run, ok_bind]
  rw [refuse_of_not (not_not.mpr rfl), ok_bind, refuse_of_not hguard, ok_bind]
  rfl

/-- Every stored entry that is read holds a coherent capture. -/
theorem decodeSource_coherent {bytes : Bytes} {entry : SourceEntry}
    (hdecode : decodeSource bytes = .ok entry) : entry.captured.Coherent := by
  simp only [decodeSource, bind_eq_ok, refuse_eq_ok] at hdecode
  obtain ⟨_, _, ⟨found, rest⟩, hread, _, _, _, hguard, hentry⟩ := hdecode
  obtain rfl := Except.ok.inj hentry
  simp only [sourceFields, Reader.bind_eq_ok] at hread
  obtain ⟨_, _, _, sourceBytes, _, _, source, _, hsource, _, _, _, prepBytes, _, _, preparation, _,
    hpreparation, _, _, _, _, _, _, hresult⟩ := hread
  obtain ⟨rfl, -⟩ := Prod.mk.inj (Except.ok.inj hresult)
  simp only [not_or, not_not] at hguard
  refine ⟨?_, ?_, hguard.1, hguard.2.1, hguard.2.2⟩
  · exact decodeRecord_readable (mapError_eq_ok.mp (Reader.lift_eq_ok.mp hsource).1)
  · exact CurrentPreparation.decode_valid (mapError_eq_ok.mp (Reader.lift_eq_ok.mp hpreparation).1)

end EliotSearch.Control
