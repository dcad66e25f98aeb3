import EliotSearch.Library.Hex
import EliotSearch.Library.Utf8
import EliotSearch.Session.Protocol

/-!
# Query values

The requests and results that the client and the daemon exchange, with the
checks that both of them make.  The raw and the decoded search share the shape
of their requests and results; what differs between their items is a `Kind`.
-/

namespace EliotSearch.Query

open EliotSearch.Library
open EliotSearch.Library.Hex
open EliotSearch.Library.Json
open EliotSearch.Library.Results
open EliotSearch.Library.Utf8
open EliotSearch.Library.Words
open EliotSearch.Session

def maxUnitTextBytes : Nat := 65536

/-! ## Identifiers and digests -/

/-- Whether the text is so many lowercase hexadecimal digits. -/
def LowerHex (value : Bytes) (length : Nat) : Prop :=
  value.length = length ∧ ∀ byte ∈ value, IsLowerHex byte

instance (value : Bytes) (length : Nat) : Decidable (LowerHex value length) :=
  inferInstanceAs (Decidable (_ ∧ _))

/-- Whether the text spells an identifier that is not nil. -/
def CanonicalUuid (value : Bytes) : Prop :=
  value.length = 36 ∧
    (∀ index < 36, if index ∈ [8, 13, 18, 23] then value[index]? = some dash
      else ∃ byte ∈ value[index]?, IsLowerHex byte) ∧
    ∃ byte ∈ value, byte ≠ 48 ∧ byte ≠ dash

instance (value : Bytes) : Decidable (CanonicalUuid value) :=
  inferInstanceAs (Decidable (_ ∧ _ ∧ _))

theorem lowerHex_hex {bytes : Bytes} {length : Nat} (hlength : 2 * bytes.length = length) :
    LowerHex (hex bytes) length :=
  ⟨hlength ▸ hex_length bytes, fun _ hmem => hex_isLowerHex hmem⟩

/-- Whether the text has the digits and the dashes of an identifier. -/
def Hyphenated (value : Bytes) : Prop :=
  value.length = 36 ∧
    ∀ index < 36, if index ∈ [8, 13, 18, 23] then value[index]? = some dash
      else ∃ byte ∈ value[index]?, IsLowerHex byte

instance (value : Bytes) : Decidable (Hyphenated value) :=
  inferInstanceAs (Decidable (_ ∧ _))

/-- A hyphenated text is parsed. -/
theorem Hyphenated.parse {value : Bytes} (hhyphenated : Hyphenated value) :
    ∃ id, parseUuid value = some id := by
  obtain ⟨hlength, hbytes⟩ := hhyphenated
  have hdash {index : Nat} (hindex : index ∈ [8, 13, 18, 23]) : value[index]? = some dash := by
    have hlt : index < 36 := by
      simp only [List.mem_cons, List.not_mem_nil, or_false] at hindex
      omega
    have hbyte := hbytes index hlt
    rwa [if_pos hindex] at hbyte
  have hgrouped : Grouped value :=
    ⟨hlength, hdash (by decide), hdash (by decide), hdash (by decide), hdash (by decide)⟩
  have hslice {start count : Nat} (hwithin : start + count ≤ 36)
      (hclear : ∀ index ∈ [8, 13, 18, 23], index < start ∨ start + count ≤ index) :
      ∀ byte ∈ (value.drop start).take count, IsLowerHex byte := by
    intro byte hmem
    obtain ⟨index, hindex, rfl⟩ := List.mem_iff_getElem.mp hmem
    rw [List.length_take, List.length_drop, hlength] at hindex
    have hout : start + index ∉ [8, 13, 18, 23] := by
      intro hinside
      have hside := hclear _ hinside
      omega
    have hbyte := hbytes (start + index) (by omega)
    rw [if_neg hout] at hbyte
    obtain ⟨found, hfound, hhex⟩ := hbyte
    rw [List.getElem_take, List.getElem_drop]
    obtain ⟨hbound, rfl⟩ := List.getElem?_eq_some_iff.mp hfound
    exact hhex
  have hwhole : compact value = (value.drop 0).take 8 ++ (value.drop 9).take 4 ++
      (value.drop 14).take 4 ++ (value.drop 19).take 4 ++ (value.drop 24).take 12 := by
    have htail : (value.drop 24).take 12 = value.drop 24 :=
      List.take_of_length_le (by rw [List.length_drop, hlength])
    rw [htail]
    rfl
  have hdigits : ∀ byte ∈ compact value, IsLowerHex byte := by
    intro byte hmem
    rw [hwhole, List.mem_append, List.mem_append, List.mem_append, List.mem_append] at hmem
    rcases hmem with (((hmem | hmem) | hmem) | hmem) | hmem
    · exact hslice (by decide) (by decide) byte hmem
    · exact hslice (by decide) (by decide) byte hmem
    · exact hslice (by decide) (by decide) byte hmem
    · exact hslice (by decide) (by decide) byte hmem
    · exact hslice (by decide) (by decide) byte hmem
  have hcount : (compact value).length = 2 * 16 := by
    simp only [hwhole, List.length_append, List.length_take, List.length_drop, hlength]
    decide
  obtain ⟨bytes, hread, hsixteen⟩ := unhex_isSome hcount hdigits
  refine ⟨⟨bytes, hsixteen⟩, ?_⟩
  rw [parseUuid, if_pos hgrouped, hread, Option.bind_some]
  exact Octets.ofBytes?_eq_some.mpr rfl

/-- A canonical text is parsed. -/
theorem CanonicalUuid.parse {value : Bytes} (hcanonical : CanonicalUuid value) :
    ∃ id, parseUuid value = some id :=
  Hyphenated.parse ⟨hcanonical.1, hcanonical.2.1⟩

theorem mem_of_mem_compact {text : Bytes} {byte : UInt8} (hmem : byte ∈ compact text) :
    byte ∈ text := by
  simp only [compact, List.mem_append] at hmem
  rcases hmem with (((hmem | hmem) | hmem) | hmem) | hmem
  · exact List.mem_of_mem_take hmem
  · exact List.mem_of_mem_drop (List.mem_of_mem_take hmem)
  · exact List.mem_of_mem_drop (List.mem_of_mem_take hmem)
  · exact List.mem_of_mem_drop (List.mem_of_mem_take hmem)
  · exact List.mem_of_mem_drop hmem

theorem digit_eq_zero {value : Nat} (hvalue : value < 16) (hzero : digit value = 48) :
    value = 0 := by
  decide +revert

theorem hyphenated_uuidText (id : Octets 16) : Hyphenated (uuidText id) := by
  refine ⟨(grouped_uuidText id).1, ?_⟩
  obtain ⟨b0, b1, b2, b3, b4, b5, b6, b7, b8, b9, b10, b11, b12, b13, b14, b15, hbytes⟩ :=
    octets_sixteen id
  have hhigh (byte : UInt8) : IsLowerHex (digit (byte.toNat / 16)) :=
    digit_isLowerHex (high_lt byte)
  have hlow (byte : UInt8) : IsLowerHex (digit (byte.toNat % 16)) :=
    digit_isLowerHex (low_lt byte)
  rw [uuidText, hbytes]
  intro index hindex
  interval_cases index <;> simp [hex_cons, hhigh, hlow]

/-- The hyphenated texts are the spellings of identifiers. -/
theorem hyphenated_iff {value : Bytes} : Hyphenated value ↔ ∃ id, uuidText id = value := by
  constructor
  · intro hhyphenated
    obtain ⟨id, hparsed⟩ := hhyphenated.parse
    exact ⟨id, parseUuid_eq_some.mp hparsed⟩
  · rintro ⟨id, rfl⟩
    exact hyphenated_uuidText id

/-- The spelling of an identifier that is not nil is canonical. -/
theorem canonicalUuid_uuidText {id : Octets 16} (hid : id ≠ Octets.replicate 16 0) :
    CanonicalUuid (uuidText id) := by
  have hcompact := compact_uuidText id
  refine ⟨(hyphenated_uuidText id).1, (hyphenated_uuidText id).2, ?_⟩
  by_contra hzeros
  rw [not_exists] at hzeros
  have hzero {value : Nat} (hvalue : value < 16) (hmem : digit value ∈ hex id.bytes) :
      value = 0 := by
    rw [← hcompact] at hmem
    have hspelled := hzeros (digit value)
    rw [not_and, not_and, not_not] at hspelled
    by_contra hne
    have hdash := hspelled (mem_of_mem_compact hmem) fun hdigit => hne (digit_eq_zero hvalue hdigit)
    have hhex := digit_isLowerHex hvalue
    rw [hdash] at hhex
    revert hhex
    decide
  have hnil : ∀ byte ∈ id.bytes, byte = 0 := by
    intro byte hbyte
    have hdigits (value : UInt8) (hvalue : value ∈ hexByte byte) : value ∈ hex id.bytes :=
      List.mem_flatMap.mpr ⟨byte, hbyte, hvalue⟩
    have hhigh := hzero (high_lt byte) (hdigits _ List.mem_cons_self)
    have hlow := hzero (low_lt byte) (hdigits _ (List.mem_cons_of_mem _ List.mem_cons_self))
    refine UInt8.toNat_inj.mp (?_ : byte.toNat = 0)
    omega
  exact hid (Octets.ext (List.eq_replicate_iff.mpr ⟨id.length_eq, hnil⟩))

/-! ## Requests -/

/-- One user query. -/
structure SearchRequest where
  query : Text
  limit : UInt8
  deriving DecidableEq

/-- Checks actual backend input bounds. -/
def SearchRequest.validate (request : SearchRequest) : Except ProtocolError Unit :=
  refuse (request.query.bytes = [] ∨ request.query.bytes.length > maxQueryBytes ∨
    0 ∈ request.query.bytes ∨ request.limit = 0 ∨ request.limit.toNat > maxItems) .invalidMessage

/-- A literal searched in selected sources; no selection means every published
source. -/
structure LiteralRequest where
  literal : Text
  sourceIds : Option (List Bytes)
  limit : UInt8
  deriving DecidableEq

/-- Each identifier is canonical and differs from those before it. -/
def validateIds : (earlier : List Bytes) → List Bytes → Except ProtocolError Unit
  | _, [] => return ()
  | earlier, id :: ids => do
      refuse (¬ CanonicalUuid id ∨ id ∈ earlier) .invalidMessage
      validateIds (earlier ++ [id]) ids

/-- Validates the literal, the selection and the output bound. -/
def LiteralRequest.validate (request : LiteralRequest) : Except ProtocolError Unit := do
  refuse (request.literal.bytes = [] ∨ request.literal.bytes.length > maxQueryBytes ∨
    request.limit = 0 ∨ request.limit.toNat > maxItems) .invalidMessage
  match request.sourceIds with
  | none => return ()
  | some ids => validateIds [] ids

/-- Literal byte search over selected sources. -/
abbrev RawExactRequest := LiteralRequest

/-- Literal search in saved unchanged UTF-8 representations. -/
abbrev DecodedUtf8Request := LiteralRequest

/-! ## Objects and sources -/

/-- Stored plain-object kind. -/
inductive ObjectKindDto where
  | source
  | prepared
  deriving DecidableEq, Repr

/-- Integrity address of an existing retained object. -/
structure ObjectRefDto where
  version : UInt16
  kind : ObjectKindDto
  digest : Bytes
  bytes : UInt64
  deriving DecidableEq

/-- The largest object of each kind. -/
def ObjectKindDto.maximum : ObjectKindDto → UInt64
  | source => 8 * 1024 * 1024
  | prepared => 64 * 1024 * 1024

def ObjectRefDto.validate (object : ObjectRefDto) (expected : ObjectKindDto) :
    Except ProtocolError Unit :=
  refuse (object.version ≠ 1 ∨ object.kind ≠ expected ∨ ¬ LowerHex object.digest 64 ∨
    object.bytes > expected.maximum ∨ (expected = .prepared ∧ object.bytes = 0)) .invalidMessage

/-- A source revision from the committed inventory. -/
structure RawSourceRef where
  sourceNamespaceId : Bytes
  sourceId : Bytes
  rowRevision : UInt64
  registrationRevision : UInt64
  input : ObjectRefDto
  deriving DecidableEq

def RawSourceRef.validate (source : RawSourceRef) : Except ProtocolError Unit := do
  refuse (¬ CanonicalUuid source.sourceNamespaceId ∨ ¬ CanonicalUuid source.sourceId ∨
    source.rowRevision = 0 ∨ source.registrationRevision = 0) .invalidMessage
  source.input.validate .source

/-! ## Raw items -/

/-- One verified raw-byte literal occurrence. -/
structure RawExactMatch where
  source : RawSourceRef
  start : UInt64
  stop : UInt64
  bytesHex : Bytes
  deriving DecidableEq

/-- An explicitly missing selected raw object. -/
structure RawExactGap where
  source : RawSourceRef
  code : FailureCode
  deriving DecidableEq

inductive RawExactItem where
  | matched (hit : RawExactMatch)
  | gap (gap : RawExactGap)
  deriving DecidableEq

namespace RawExactItem

def source : RawExactItem → RawSourceRef
  | matched hit => hit.source
  | gap missing => missing.source

def isMatch : RawExactItem → Bool
  | matched _ => true
  | gap _ => false

def validate (item : RawExactItem) : Except ProtocolError Unit := do
  item.source.validate
  match item with
  | matched hit =>
      refuse (hit.stop ≤ hit.start ∨ hit.stop > hit.source.input.bytes ∨
        (hit.stop - hit.start).toNat > maxQueryBytes ∨
        ¬ LowerHex hit.bytesHex (2 * (hit.stop - hit.start).toNat)) .invalidMessage
  | gap missing => refuse (missing.code.text ≠ ascii "SOURCE_OBJECT_MISSING") .invalidMessage

/-- Both are occurrences and the second one starts later. -/
def follows : RawExactItem → RawExactItem → Bool
  | matched first, matched second => decide (first.start < second.start)
  | _, _ => false

/-- The digits of an occurrence spell the literal. -/
def spells (literal : Text) : RawExactItem → Bool
  | matched hit => decide ((hit.stop - hit.start).toNat = literal.bytes.length ∧
      ∀ pair ∈ (pairs hit.bytesHex).zip literal.bytes, pair.1 = hexByte pair.2)
  | gap _ => true

end RawExactItem

/-! ## Decoded items -/

/-- One verified literal occurrence in a retained UTF-8 representation. -/
structure DecodedUtf8Match where
  source : RawSourceRef
  prepared : ObjectRefDto
  representationStart : UInt64
  representationEnd : UInt64
  sourceStart : UInt64
  sourceEnd : UInt64
  text : Text
  deriving DecidableEq

/-- A selected source without an available valid retained representation. -/
structure DecodedUtf8Gap where
  source : RawSourceRef
  prepared : Option ObjectRefDto
  code : FailureCode
  deriving DecidableEq

inductive DecodedUtf8Item where
  | matched (hit : DecodedUtf8Match)
  | gap (gap : DecodedUtf8Gap)
  deriving DecidableEq

namespace DecodedUtf8Item

def source : DecodedUtf8Item → RawSourceRef
  | matched hit => hit.source
  | gap missing => missing.source

def isMatch : DecodedUtf8Item → Bool
  | matched _ => true
  | gap _ => false

def validate (item : DecodedUtf8Item) : Except ProtocolError Unit := do
  item.source.validate
  match item with
  | matched hit => do
      hit.prepared.validate .prepared
      refuse (hit.representationStart ≥ hit.representationEnd ∨
        hit.sourceStart ≠ hit.representationStart ∨ hit.sourceEnd ≠ hit.representationEnd ∨
        hit.sourceEnd > hit.source.input.bytes ∨ hit.text.bytes.length > maxQueryBytes ∨
        hit.text.bytes.length ≠ (hit.sourceEnd - hit.sourceStart).toNat) .invalidMessage
  | gap missing =>
      match missing.prepared with
      | none => refuse (missing.code.text ≠ ascii "PREPARATION_GAP") .invalidMessage
      | some prepared => do
          refuse (missing.code.text ≠ ascii "SOURCE_OBJECT_MISSING" ∧
            missing.code.text ≠ ascii "PREPARED_OBJECT_MISSING") .invalidMessage
          prepared.validate .prepared

/-- Both are occurrences in one representation and the second one starts later. -/
def follows : DecodedUtf8Item → DecodedUtf8Item → Bool
  | matched first, matched second => decide (first.prepared = second.prepared ∧
      first.representationStart < second.representationStart)
  | _, _ => false

/-- The text of an occurrence is the literal. -/
def spells (literal : Text) : DecodedUtf8Item → Bool
  | matched hit => decide (hit.text = literal)
  | gap _ => true

end DecodedUtf8Item

/-! ## Results of a literal search -/

/-- What the checks of a literal search need of its items. -/
structure Kind (Item : Type) where
  source : Item → RawSourceRef
  isMatch : Item → Bool
  validate : Item → Except ProtocolError Unit
  follows : Item → Item → Bool
  spells : Text → Item → Bool

def rawKind : Kind RawExactItem :=
  ⟨RawExactItem.source, RawExactItem.isMatch, RawExactItem.validate, RawExactItem.follows,
    RawExactItem.spells⟩

def decodedKind : Kind DecodedUtf8Item :=
  ⟨DecodedUtf8Item.source, DecodedUtf8Item.isMatch, DecodedUtf8Item.validate,
    DecodedUtf8Item.follows, DecodedUtf8Item.spells⟩

/-- Accounting of an exhaustive search, separate from its bounded emitted items.
The gap sources of a raw search are its missing sources. -/
structure ExactResult (Item : Type) where
  generation : UInt64
  selectedSources : UInt64
  scannedSources : UInt64
  gapSources : UInt64
  scannedBytes : UInt64
  foundMatches : UInt64
  items : List Item
  scanComplete : Bool
  completeNegative : Bool
  stop : StopReason
  deriving DecidableEq

abbrev RawExactResult := ExactResult RawExactItem

abbrev DecodedUtf8Result := ExactResult DecodedUtf8Item

def RawExactResult.missingSources (result : RawExactResult) : UInt64 := result.gapSources

namespace Kind

variable {Item : Type} (kind : Kind Item)

/-- Items of one namespace in source order; those of one source follow each
other. -/
def InOrder (left right : Item) : Prop :=
  (kind.source left).sourceNamespaceId = (kind.source right).sourceNamespaceId ∧
    compare (kind.source left).sourceId (kind.source right).sourceId ≠ .gt ∧
    ((kind.source left).sourceId = (kind.source right).sourceId →
      kind.source left = kind.source right ∧ kind.follows left right = true)

instance (left right : Item) : Decidable (kind.InOrder left right) :=
  inferInstanceAs (Decidable (_ ∧ _))

/-- Checks items in order, the first after the previous one. -/
def validateItems : (previous : Option Item) → List Item → Except ProtocolError Unit
  | _, [] => return ()
  | previous, item :: items => do
      kind.validate item
      refuse (∃ left ∈ previous, ¬ kind.InOrder left item) .invalidMessage
      validateItems (some item) items

/-- Checks accounting, source bindings, ranges, order and complete-negative
claims. -/
def validateResult (requestedLimit : UInt8) (result : ExactResult Item) :
    Except ProtocolError Unit := do
  let total ← okOr (checkedAdd result.foundMatches result.gapSources) .invalidMessage
  refuse (result.generation = 0 ∨ requestedLimit = 0 ∨ requestedLimit.toNat > maxItems ∨
    result.items.length > requestedLimit.toNat ∨
    checkedAdd result.scannedSources result.gapSources ≠ some result.selectedSources ∨
    result.scanComplete ≠ decide (result.scannedSources = result.selectedSources) ∨
    result.completeNegative ≠ (result.scanComplete && decide (result.foundMatches = 0)) ∨
    result.foundMatches > result.scannedBytes ∨
    (result.scannedSources = 0 ∧ result.scannedBytes ≠ 0) ∨
    result.items.length > total.toNat ∨
    ¬ (result.stop = .complete ↔ result.items.length = total.toNat)) .invalidMessage
  kind.validateItems none result.items
  refuse (result.items.countP kind.isMatch > result.foundMatches.toNat ∨
    (result.items.countP fun item => !kind.isMatch item) > result.gapSources.toNat) .invalidMessage

/-- Validates a result against its exact literal and selection. -/
def validateRequest (request : LiteralRequest) (result : ExactResult Item) :
    Except ProtocolError Unit := do
  request.validate
  kind.validateResult request.limit result
  refuse (∃ ids ∈ request.sourceIds, ids.length ≠ result.selectedSources.toNat ∨
    ∃ item ∈ result.items, (kind.source item).sourceId ∉ ids) .invalidMessage
  refuse (∃ item ∈ result.items, kind.spells request.literal item = false) .invalidMessage

end Kind

def RawExactResult.validateRequest : RawExactRequest → RawExactResult → Except ProtocolError Unit :=
  rawKind.validateRequest

def DecodedUtf8Result.validateRequest :
    DecodedUtf8Request → DecodedUtf8Result → Except ProtocolError Unit :=
  decodedKind.validateRequest

end EliotSearch.Query
