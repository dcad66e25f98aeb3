import EliotSearch.Control.Settlement
import EliotSearch.Library.Hex
import EliotSearch.Preparation.Artifacts

/-!
# Backend batches

The texts of a page are taken from the units of a prepared source and sent as one
request that inserts its points.  The encoded length of a request is the protobuf
library's; the encoder of the backend refuses a request above its limit.
Exhausted allocations are left out.
-/

namespace EliotSearch.Corpus

open EliotSearch.Control
open EliotSearch.Library
open EliotSearch.Library.Hex
open EliotSearch.Library.Json
open EliotSearch.Library.Results
open EliotSearch.Library.Utf8
open EliotSearch.Library.Words
open EliotSearch.Preparation
open EliotSearch.Query

def maxRequestBytes : Nat := 1048576

def maxPointTextBytes : Nat := 65536

/-! ## Requests -/

/-- One publication-owned fixed point with its unit text. -/
structure PointInput where
  id : Octets 16
  sourceId : SourceId
  retrievalText : Text
  deriving DecidableEq

/-- A point as it is sent, with its identifier, its payload by key and no
vectors of its own. -/
structure PointStruct where
  id : Bytes
  payload : List (Bytes × Bytes)
  deriving DecidableEq

inductive UpdateMode where
  | insertOnly
  deriving DecidableEq

structure UpsertPoints where
  collectionName : Bytes
  wait : Option Bool
  points : List PointStruct
  updateMode : Option UpdateMode
  deriving DecidableEq

def pointStruct (point : PointInput) : PointStruct where
  id := uuidText point.id
  payload := [(ascii "source_id", uuidText point.sourceId),
    (ascii "retrieval_text", point.retrievalText.bytes)]

/-- The request that inserts the points of a batch. -/
def upsertPoints (name : Bytes) (points : List PointInput) : UpsertPoints where
  collectionName := name
  wait := some true
  points := points.map pointStruct
  updateMode := some .insertOnly

/-- The bytes of the strings of a request. -/
def UpsertPoints.strings (request : UpsertPoints) : Nat :=
  request.collectionName.length +
    (request.points.map fun point => point.id.length +
      (point.payload.map fun entry => entry.1.length + entry.2.length).sum).sum

/-- The number of messages in a request: itself, its points and their entries. -/
def UpsertPoints.messages (request : UpsertPoints) : Nat :=
  1 + (request.points.map fun point => 1 + point.payload.length).sum

/-- A protobuf encoding spells the strings of a request and frames each of its
messages with a few tags and lengths. -/
structure Framed (encodedLen : UpsertPoints → Nat) : Prop where
  spelled : ∀ request, request.strings ≤ encodedLen request
  framed : ∀ request, encodedLen request ≤ request.strings + 64 * request.messages

theorem upsertPoints_strings (name : Bytes) (points : List PointInput) :
    (upsertPoints name points).strings =
      name.length + (points.map fun point => 95 + point.retrievalText.bytes.length).sum := by
  have huuid : ∀ id : Octets 16, (uuidText id).length = 36 := fun id => (grouped_uuidText id).1
  have hkeys : (ascii "source_id").length = 9 ∧ (ascii "retrieval_text").length = 14 := by decide
  simp only [UpsertPoints.strings, upsertPoints, List.map_map]
  congr 2
  refine List.map_congr_left fun point _ => ?_
  simp only [Function.comp_apply, pointStruct, huuid, hkeys, List.map_cons, List.map_nil,
    List.sum_cons, List.sum_nil]
  omega

theorem upsertPoints_messages (name : Bytes) (points : List PointInput) :
    (upsertPoints name points).messages = 1 + 3 * points.length := by
  simp [UpsertPoints.messages, upsertPoints, pointStruct, Function.comp_def, Nat.mul_comm]

/-! ## Encoding a batch -/

/-- A byte of a collection name. -/
def IsNameByte (byte : UInt8) : Prop :=
  (48 ≤ byte.toNat ∧ byte.toNat ≤ 57) ∨ (65 ≤ byte.toNat ∧ byte.toNat ≤ 90) ∨
    (97 ≤ byte.toNat ∧ byte.toNat ≤ 122) ∨ byte = 95 ∨ byte = 45

instance (byte : UInt8) : Decidable (IsNameByte byte) :=
  inferInstanceAs (Decidable (_ ∨ _))

def collectionName (name : Bytes) : Except BackendError Unit :=
  refuse (name = [] ∨ name.length > 255 ∨ ¬ ∀ byte ∈ name, IsNameByte byte) .invalidInput

def checkBackend (env : Env) (site : Nat) : Except BackendError Unit :=
  checkWith .cancelled .deadline env site

/-- Check the points in turn, counting the bytes that a request spells at least.
The count stays far below the limit of a machine word. -/
def checkInputs (env : Env) : (site lowerBound : Nat) → (ids : List (Octets 16)) →
    List PointInput → Except BackendError Unit
  | _, _, _, [] => return ()
  | site, lowerBound, ids, point :: points => do
      checkBackend env site
      refuse (point.retrievalText.bytes = [] ∨ point.id ∈ ids) .invalidInput
      refuse (point.retrievalText.bytes.length > maxPointTextBytes) .requestTooLarge
      let lowerBound := lowerBound + point.retrievalText.bytes.length
      refuse (lowerBound > maxRequestBytes) .requestTooLarge
      checkInputs env (site + 1) lowerBound (point.id :: ids) points

/-- The checks made while the points of a request are built. -/
def checkPoints (env : Env) : (count : Nat) → Except BackendError Unit
  | 0 => return ()
  | count + 1 => do
      checkPoints env count
      checkBackend env count

section Encoding

variable (encodedLen : UpsertPoints → Nat)

def encodeBatch (env : Env) (name : Bytes) (points : List PointInput) :
    Except BackendError UpsertPoints := do
  checkBackend env 0
  collectionName name
  refuse (points = []) .invalidInput
  refuse (points.length > maxPagePoints) .requestTooLarge
  checkInputs (within env 1) 0 name.length [] points
  checkPoints (within env 2) points.length
  let request := upsertPoints name points
  refuse (encodedLen request > maxRequestBytes) .requestTooLarge
  checkBackend env 3
  return request

/-- Measures the real batch before a pending page is persisted. -/
def batchRequestBytes (env : Env) (name : Bytes) (points : List PointInput) :
    Except BackendError Nat := do
  let request ← encodeBatch encodedLen env name points
  return encodedLen request

end Encoding

/-! ## Accepted batches -/

/-- The bytes of the texts of a batch. -/
def textBytes (points : List PointInput) : Nat :=
  (points.map fun point => point.retrievalText.bytes.length).sum

/-- What the encoder checks of a batch before it measures the request. -/
structure Sendable (name : Bytes) (points : List PointInput) : Prop where
  named : collectionName name = .ok ()
  nonempty : points ≠ []
  bounded : points.length ≤ maxPagePoints
  texts : ∀ point ∈ points, point.retrievalText.bytes ≠ [] ∧
    point.retrievalText.bytes.length ≤ maxPointTextBytes
  distinct : (points.map PointInput.id).Nodup
  lowerBound : name.length + textBytes points ≤ maxRequestBytes

section Checks

variable {env : Env} {name : Bytes} {points : List PointInput} {ids : List (Octets 16)}
  {site lowerBound : Nat}

theorem checkInputs_eq_ok {result : Unit} (hbound : lowerBound ≤ maxRequestBytes)
    (hcheck : checkInputs env site lowerBound ids points = .ok result) :
    (∀ point ∈ points, point.retrievalText.bytes ≠ [] ∧
        point.retrievalText.bytes.length ≤ maxPointTextBytes) ∧
      (points.map PointInput.id).Nodup ∧ (∀ point ∈ points, point.id ∉ ids) ∧
      lowerBound + textBytes points ≤ maxRequestBytes := by
  induction points generalizing site lowerBound ids with
  | nil => exact ⟨nofun, List.nodup_nil, nofun, hbound⟩
  | cons point points ih =>
      simp only [checkInputs, bind_eq_ok, refuse_eq_ok, not_or, Nat.not_lt] at hcheck
      obtain ⟨_, _, _, ⟨htext, hfresh⟩, _, hlength, _, hlower, hrest⟩ := hcheck
      obtain ⟨htexts, hdistinct, hothers, hsum⟩ := ih hlower hrest
      refine ⟨?_, ?_, ?_, ?_⟩
      · exact List.forall_mem_cons.mpr ⟨⟨htext, hlength⟩, htexts⟩
      · rw [List.map_cons, List.nodup_cons]
        refine ⟨fun hmem => ?_, hdistinct⟩
        obtain ⟨other, hother, hsame⟩ := List.mem_map.mp hmem
        exact hothers other hother (hsame ▸ List.mem_cons_self)
      · refine List.forall_mem_cons.mpr ⟨hfresh, fun other hother hmem => ?_⟩
        exact hothers other hother (List.mem_cons_of_mem _ hmem)
      · simp only [textBytes, List.map_cons, List.sum_cons] at hsum ⊢
        omega

/-- Behind the first point the others are new besides it. -/
theorem fresh_cons {point : PointInput} (hdistinct : ((point :: points).map PointInput.id).Nodup)
    (hfresh : ∀ other ∈ point :: points, other.id ∉ ids) :
    point.id ∉ ids ∧ (points.map PointInput.id).Nodup ∧
      ∀ other ∈ points, other.id ∉ point.id :: ids := by
  obtain ⟨hpoint, hfresh⟩ := List.forall_mem_cons.mp hfresh
  rw [List.map_cons, List.nodup_cons] at hdistinct
  refine ⟨hpoint, hdistinct.2, fun other hother hmem => ?_⟩
  rcases List.mem_cons.mp hmem with hsame | hmem
  · exact hdistinct.1 (List.mem_map.mpr ⟨other, hother, hsame⟩)
  · exact hfresh other hother hmem

theorem checkInputs_ok (hquiet : Undisturbed env)
    (htexts : ∀ point ∈ points, point.retrievalText.bytes ≠ [] ∧
      point.retrievalText.bytes.length ≤ maxPointTextBytes)
    (hdistinct : (points.map PointInput.id).Nodup) (hfresh : ∀ point ∈ points, point.id ∉ ids)
    (hsum : lowerBound + textBytes points ≤ maxRequestBytes) :
    checkInputs env site lowerBound ids points = .ok () := by
  induction points generalizing site lowerBound ids with
  | nil => rfl
  | cons point points ih =>
      obtain ⟨⟨htext, hlength⟩, htexts⟩ := List.forall_mem_cons.mp htexts
      obtain ⟨hpoint, hdistinct, hothers⟩ := fresh_cons hdistinct hfresh
      simp only [textBytes, List.map_cons, List.sum_cons] at hsum
      have hlower : ¬ lowerBound + point.retrievalText.bytes.length > maxRequestBytes := by omega
      have hinvalid : ¬ (point.retrievalText.bytes = [] ∨ point.id ∈ ids) :=
        not_or.mpr ⟨htext, hpoint⟩
      have hrest : checkInputs env (site + 1) (lowerBound + point.retrievalText.bytes.length)
          (point.id :: ids) points = .ok () := by
        refine ih htexts hdistinct hothers ?_
        simp only [textBytes]
        omega
      simp only [checkInputs, checkBackend, checkWith_ok hquiet, refuse_of_not hinvalid,
        refuse_of_not (Nat.not_lt.mpr hlength), refuse_of_not hlower, ok_bind, hrest]

theorem checkPoints_ok (hquiet : Undisturbed env) (count : Nat) :
    checkPoints env count = .ok () := by
  induction count with
  | zero => rfl
  | succ count ih => simp only [checkPoints, ih, checkBackend, checkWith_ok hquiet, ok_bind]

end Checks

section Measures

variable {encodedLen : UpsertPoints → Nat} {env : Env} {name : Bytes} {points : List PointInput}

/-- A measured batch is sendable, and the measure is the length of its request. -/
theorem batchRequestBytes_eq_ok {size : Nat}
    (hsize : batchRequestBytes encodedLen env name points = .ok size) :
    Sendable name points ∧ size = encodedLen (upsertPoints name points) ∧
      size ≤ maxRequestBytes := by
  simp only [batchRequestBytes, encodeBatch, bind_eq_ok, refuse_eq_ok, Nat.not_lt] at hsize
  obtain ⟨request, ⟨_, _, _, hname, _, hnonempty, _, hbounded, _, hinputs, _, _, _, hlength, _, _,
    hrequest⟩, hsize⟩ := hsize
  obtain rfl := Except.ok.inj hrequest
  obtain rfl := Except.ok.inj hsize
  have hshort : name.length ≤ 255 := by
    simp only [collectionName, refuse_eq_ok, not_or, Nat.not_lt] at hname
    exact hname.2.1
  have hstart : name.length ≤ maxRequestBytes := Nat.le_trans hshort (by decide)
  obtain ⟨htexts, hdistinct, -, hlower⟩ := checkInputs_eq_ok hstart hinputs
  exact ⟨⟨hname, hnonempty, hbounded, htexts, hdistinct, hlower⟩, rfl, hlength⟩

/-- Undisturbed, every sendable batch whose request fits is measured. -/
theorem batchRequestBytes_ok (hquiet : Undisturbed env) (hsendable : Sendable name points)
    (hfits : encodedLen (upsertPoints name points) ≤ maxRequestBytes) :
    batchRequestBytes encodedLen env name points =
      .ok (encodedLen (upsertPoints name points)) := by
  have hinputs : checkInputs (within env 1) 0 name.length [] points = .ok () :=
    checkInputs_ok (hquiet.within 1) hsendable.texts hsendable.distinct
      (fun _ _ => List.not_mem_nil) hsendable.lowerBound
  have hpoints := checkPoints_ok (hquiet.within 2) points.length
  simp only [batchRequestBytes, encodeBatch, checkBackend, checkWith_ok hquiet, hsendable.named,
    refuse_of_not hsendable.nonempty, refuse_of_not (Nat.not_lt.mpr hsendable.bounded), hinputs,
    hpoints, refuse_of_not (Nat.not_lt.mpr hfits), ok_bind]
  rfl

theorem checkBackend_ne_tooLarge {site : Nat} :
    checkBackend env site ≠ .error .requestTooLarge := by
  intro hcheck
  rcases checkWith_eq_error hcheck with herror | herror
  · cases herror
  · cases herror

theorem checkPoints_ne_tooLarge (count : Nat) :
    checkPoints env count ≠ .error .requestTooLarge := by
  induction count with
  | zero => exact nofun
  | succ count ih =>
      intro hcheck
      rw [checkPoints, bind_eq_error] at hcheck
      rcases hcheck with hfirst | ⟨_, _, hlast⟩
      · exact ih hfirst
      · exact checkBackend_ne_tooLarge hlast

theorem checkInputs_ne_tooLarge {site lowerBound : Nat} {ids : List (Octets 16)}
    (htexts : ∀ point ∈ points, point.retrievalText.bytes.length ≤ maxPointTextBytes)
    (hsum : lowerBound + textBytes points ≤ maxRequestBytes) :
    checkInputs env site lowerBound ids points ≠ .error .requestTooLarge := by
  induction points generalizing site lowerBound ids with
  | nil => exact nofun
  | cons point points ih =>
      obtain ⟨htext, htexts⟩ := List.forall_mem_cons.mp htexts
      simp only [textBytes, List.map_cons, List.sum_cons] at hsum
      intro hcheck
      simp only [checkInputs, bind_eq_error, refuse_eq_error] at hcheck
      rcases hcheck with hcheck | ⟨_, _, ⟨-, hinvalid⟩ | ⟨_, _, ⟨hlong, -⟩ | ⟨_, _,
        ⟨hlarge, -⟩ | ⟨_, _, hrest⟩⟩⟩⟩
      · exact checkBackend_ne_tooLarge hcheck
      · cases hinvalid
      · exact absurd htext (Nat.not_le.mpr hlong)
      · omega
      · refine ih htexts ?_ hrest
        simp only [textBytes]
        omega

/-- A batch within every bound is not too large. -/
theorem batchRequestBytes_ne_tooLarge (hbounded : points.length ≤ maxPagePoints)
    (htexts : ∀ point ∈ points, point.retrievalText.bytes.length ≤ maxPointTextBytes)
    (hsum : name.length + textBytes points ≤ maxRequestBytes)
    (hfits : encodedLen (upsertPoints name points) ≤ maxRequestBytes) :
    batchRequestBytes encodedLen env name points ≠ .error .requestTooLarge := by
  intro hlarge
  simp only [batchRequestBytes, encodeBatch, collectionName, bind_eq_error,
    refuse_eq_error] at hlarge
  rcases hlarge with hlarge | ⟨_, _, hlarge⟩
  · rcases hlarge with hcheck | ⟨_, _, ⟨-, hname⟩ | ⟨_, _, ⟨-, hempty⟩ | ⟨_, _, ⟨hmany, -⟩ |
      ⟨_, _, hinputs | ⟨_, _, hpoints | ⟨_, _, ⟨hlong, -⟩ | ⟨_, _, hlast | ⟨_, _, hdone⟩⟩⟩⟩⟩⟩⟩⟩
    · exact checkBackend_ne_tooLarge hcheck
    · cases hname
    · cases hempty
    · exact absurd hbounded (Nat.not_le.mpr hmany)
    · exact checkInputs_ne_tooLarge htexts hsum hinputs
    · exact checkPoints_ne_tooLarge _ hpoints
    · exact absurd hfits (Nat.not_le.mpr hlong)
    · exact checkBackend_ne_tooLarge hlast
    · cases hdone
  · cases hlarge

theorem checkInputs_quiet (hquiet : Undisturbed env) {site lowerBound : Nat}
    {ids : List (Octets 16)} (htexts : ∀ point ∈ points, point.retrievalText.bytes ≠ [])
    (hdistinct : (points.map PointInput.id).Nodup) (hfresh : ∀ point ∈ points, point.id ∉ ids)
    {error : BackendError} (hcheck : checkInputs env site lowerBound ids points = .error error) :
    error = .requestTooLarge := by
  induction points generalizing site lowerBound ids with
  | nil => cases hcheck
  | cons point points ih =>
      obtain ⟨htext, htexts⟩ := List.forall_mem_cons.mp htexts
      obtain ⟨hpoint, hdistinct, hothers⟩ := fresh_cons hdistinct hfresh
      have hinvalid : ¬ (point.retrievalText.bytes = [] ∨ point.id ∈ ids) :=
        not_or.mpr ⟨htext, hpoint⟩
      simp only [checkInputs, checkBackend, checkWith_ok hquiet, refuse_of_not hinvalid, ok_bind,
        bind_eq_error, refuse_eq_error] at hcheck
      rcases hcheck with ⟨-, hlong⟩ | ⟨_, _, ⟨-, hlarge⟩ | ⟨_, _, hrest⟩⟩
      · exact hlong.symm
      · exact hlarge.symm
      · exact ih htexts hdistinct hothers hrest

/-- Undisturbed, a batch of distinct points with texts fails only by its size. -/
theorem batchRequestBytes_quiet (hquiet : Undisturbed env) (hname : collectionName name = .ok ())
    (hnonempty : points ≠ []) (htexts : ∀ point ∈ points, point.retrievalText.bytes ≠ [])
    (hdistinct : (points.map PointInput.id).Nodup) {error : BackendError}
    (hfailed : batchRequestBytes encodedLen env name points = .error error) :
    error = .requestTooLarge := by
  have hpoints := checkPoints_ok (hquiet.within 2) points.length
  simp only [batchRequestBytes, encodeBatch, checkBackend, checkWith_ok hquiet, hname,
    refuse_of_not hnonempty, hpoints, ok_bind, bind_eq_error, refuse_eq_error] at hfailed
  rcases hfailed with (⟨-, hmany⟩ | ⟨_, _, hinputs | ⟨_, _, ⟨-, hlong⟩ | ⟨_, _, hdone⟩⟩⟩) |
    ⟨_, _, hdone⟩
  · exact hmany.symm
  · exact checkInputs_quiet (hquiet.within 1) htexts hdistinct (fun _ _ => List.not_mem_nil) hinputs
  · exact hlong.symm
  · cases hdone
  · cases hdone

/-- A request to a named collection is not empty. -/
theorem Framed.positive (hframed : Framed encodedLen) (hname : collectionName name = .ok ()) :
    0 < encodedLen (upsertPoints name points) := by
  have hspelled := hframed.spelled (upsertPoints name points)
  rw [upsertPoints_strings] at hspelled
  simp only [collectionName, refuse_eq_ok, not_or] at hname
  have hpositive : 0 < name.length := List.length_pos_iff.mpr hname.1
  omega

/-- The request of one point fits, and so does what it spells at least. -/
theorem single_fits (hframed : Framed encodedLen) (hname : name.length ≤ 255) {point : PointInput}
    (htext : point.retrievalText.bytes.length ≤ maxPointTextBytes) :
    name.length + textBytes [point] ≤ maxRequestBytes ∧
      encodedLen (upsertPoints name [point]) ≤ maxRequestBytes := by
  have hlength := hframed.framed (upsertPoints name [point])
  rw [upsertPoints_strings, upsertPoints_messages] at hlength
  simp only [textBytes, List.map_cons, List.map_nil, List.sum_cons, List.sum_nil, List.length_cons,
    List.length_nil, maxRequestBytes, maxPointTextBytes] at hlength htext ⊢
  omega

end Measures

/-! ## Collection names -/

theorem hexByte_named (byte : UInt8) : ∀ digit ∈ Control.hexByte byte, IsNameByte digit := by
  have hdigits : ∀ value : Fin 16, IsNameByte (Control.hexDigit value.val) := by decide
  have hbyte := byte.toNat_lt
  have hhigh := hdigits ⟨byte.toNat / 16, by omega⟩
  have hlow := hdigits ⟨byte.toNat % 16, by omega⟩
  exact List.forall_mem_cons.mpr ⟨hhigh, List.forall_mem_singleton.mpr hlow⟩

/-- The collection of a generation has a name that the backend takes. -/
theorem collection_named (generation : Generation) :
    collectionName generation.collection = .ok () ∧ generation.collection.length ≤ 255 := by
  have hdigits : (decimal generation.sequence.toNat).length ≤ 20 :=
    decimal_length_le (by decide) (Nat.lt_trans generation.sequence.toNat_lt (by decide))
  have hhex : (generation.namespaceId.bytes.flatMap Control.hexByte).length = 32 := by
    simp [List.length_flatMap, Control.hexByte]
  have hlength : generation.collection.length ≤ 255 := by
    simp only [Generation.collection, List.length_append, hhex]
    have hfixed : (ascii "eliot_").length = 6 ∧ (ascii "_g").length = 2 := by decide
    omega
  have hstart : generation.collection ≠ [] := by
    intro hnil
    have hzero := congrArg List.length hnil
    simp [Generation.collection, hhex] at hzero
  have hbytes : ∀ byte ∈ generation.collection, IsNameByte byte := by
    intro byte hmem
    simp only [Generation.collection, List.mem_append, List.mem_flatMap] at hmem
    rcases hmem with ((hmem | ⟨id, -, hmem⟩) | hmem) | hmem
    · have hfixed : ∀ byte ∈ ascii "eliot_", IsNameByte byte := by decide
      exact hfixed byte hmem
    · exact hexByte_named id byte hmem
    · have hfixed : ∀ byte ∈ ascii "_g", IsNameByte byte := by decide
      exact hfixed byte hmem
    · have hdigit := isDigit_of_mem_decimal hmem
      rw [isDigit, Bool.and_eq_true, decide_eq_true_eq, decide_eq_true_eq] at hdigit
      exact Or.inl hdigit
  refine ⟨?_, hlength⟩
  exact refuse_of_not (not_or.mpr ⟨hstart, not_or.mpr ⟨Nat.not_lt.mpr hlength, not_not.mpr hbytes⟩⟩)

/-! ## Unit texts -/

/-- The unit of a prepared source that the evidence of a point describes. -/
def unitText (view : PreparedUtf8) (evidence : PointEvidence) : Except Bytes Text := do
  let unit ← okOr view.units[evidence.unit.toNat]? (ascii "PUBLICATION_CORRUPT")
  refuse (unit.sourceStart ≠ evidence.start.toNat ∨ unit.sourceEnd ≠ evidence.stop.toNat ∨
    unit.logicalLineStart ≠ evidence.lineStart.toNat ∨
    unit.logicalLineEnd ≠ evidence.lineEnd.toNat ∨
    unit.startsAtLineBoundary ≠ evidence.startsAtLineBoundary ∨
    unit.endsAtLineBoundary ≠ evidence.endsAtLineBoundary) (ascii "PUBLICATION_CORRUPT")
  okOr (view.text.get unit.sourceStart unit.sourceEnd) (ascii "PUBLICATION_CORRUPT")

def check (env : Env) (site : Nat) : Except Bytes Unit :=
  checkWith (ascii "PUBLICATION_CANCELLED") (ascii "PUBLICATION_DEADLINE") env site

end EliotSearch.Corpus
