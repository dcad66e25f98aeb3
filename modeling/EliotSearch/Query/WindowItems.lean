import EliotSearch.Library.Slices
import EliotSearch.Query.Terminals

/-!
# Window payloads

What a session carries in its frames: the query of a window, its items and the
context around one of them.  A client checks every page and every context
against its own request; `windowWire` is the wire of these payloads.
-/

namespace EliotSearch.Query

open EliotSearch.Library
open EliotSearch.Library.Hex
open EliotSearch.Library.Json
open EliotSearch.Library.Results
open EliotSearch.Library.Slices
open EliotSearch.Library.Utf8
open EliotSearch.Library.Words
open EliotSearch.Session

/-! ## Queries and items -/

/-- The original query, executed once when its window is opened. -/
inductive WindowQuery where
  | search (request : SearchRequest)
  | raw (request : RawExactRequest)
  | decodedUtf8 (request : DecodedUtf8Request)
  deriving DecidableEq

namespace WindowQuery

def validate : WindowQuery → Except ProtocolError Unit
  | search request => request.validate
  | raw request => request.validate
  | decodedUtf8 request => request.validate

/-- Maximum size of the retained results. -/
def limit : WindowQuery → UInt8
  | search request => request.limit
  | raw request => request.limit
  | decodedUtf8 request => request.limit

def isSearch : WindowQuery → Bool
  | search _ => true
  | _ => false

end WindowQuery

/-- An original verified item with its query mode. -/
inductive WindowItem where
  | search (item : SearchItem)
  | raw (item : RawExactItem)
  | decodedUtf8 (item : DecodedUtf8Item)
  deriving DecidableEq

namespace WindowItem

def validate (generation : UInt64) : WindowItem → Except ProtocolError Unit
  | search item => item.validate generation
  | raw item => item.validate
  | decodedUtf8 item => item.validate

/-- The rank of a ranked item. -/
def searchRank : WindowItem → Option UInt8
  | search item => some item.rank
  | _ => none

/-- The point of a ranked item. -/
def point : WindowItem → Option Bytes
  | search item => some item.evidence.pointId
  | _ => none

/-- Whether it is a literal occurrence. -/
def isMatch : WindowItem → Bool
  | search _ => false
  | raw item => item.isMatch
  | decodedUtf8 item => item.isMatch

/-- Whether it is the gap of a literal search. -/
def isGap : WindowItem → Bool
  | search _ => false
  | raw item => !item.isMatch
  | decodedUtf8 item => !item.isMatch

end WindowItem

/-- Checks an item of a literal search against the literal and the selection. -/
def Kind.validateItemRequest {Item : Type} (kind : Kind Item) (request : LiteralRequest)
    (item : Item) : Except ProtocolError Unit := do
  refuse (kind.spells request.literal item = false) .invalidMessage
  refuse (∃ ids ∈ request.sourceIds, (kind.source item).sourceId ∉ ids) .invalidMessage

/-- Checks this item against the session's query mode and literal. -/
def WindowItem.validateRequest (query : WindowQuery) (generation : UInt64) (item : WindowItem) :
    Except ProtocolError Unit := do
  item.validate generation
  match item, query with
  | .search _, .search _ => return ()
  | .raw item, .raw request => rawKind.validateItemRequest request item
  | .decodedUtf8 item, .decodedUtf8 request => decodedKind.validateItemRequest request item
  | _, _ => .error .invalidMessage

/-! ## Expansions -/

/-- Returned context bytes in the original representation domain. -/
inductive ExpansionContent where
  | raw (bytesHex : Bytes)
  | utf8 (text : Text)
  deriving DecidableEq

/-- The content is the bytes in its own spelling. -/
def ExpansionContent.Spells (bytes : Bytes) : ExpansionContent → Prop
  | raw bytesHex => bytesHex = hex bytes
  | utf8 text => text.bytes = bytes

/-- Bounded context from an already emitted item's original representation. -/
structure WindowExpansion where
  windowId : UInt64
  itemIndex : UInt8
  source : RawSourceRef
  prepared : Option ObjectRefDto
  representationStart : UInt64
  representationEnd : UInt64
  sourceStart : UInt64
  sourceEnd : UInt64
  content : ExpansionContent
  deriving DecidableEq

/-- Checks total returned size, representation kind and identity mapping. -/
def WindowExpansion.validate (expansion : WindowExpansion) : Except ProtocolError Unit := do
  validateWindowId expansion.windowId
  expansion.source.validate
  let length := expansion.representationEnd - expansion.representationStart
  refuse (expansion.representationEnd < expansion.representationStart ∨ length = 0 ∨
    length > maxExpansionBytes) .invalidMessage
  refuse (expansion.itemIndex.toNat ≥ maxItems ∨
    expansion.sourceStart ≠ expansion.representationStart ∨
    expansion.sourceEnd ≠ expansion.representationEnd ∨
    expansion.sourceEnd > expansion.source.input.bytes) .invalidMessage
  match expansion.content, expansion.prepared with
  | .raw bytesHex, none => refuse (¬ LowerHex bytesHex (2 * length.toNat)) .invalidMessage
  | .utf8 text, some prepared => do
      prepared.validate .prepared
      refuse (text.bytes.length ≠ length.toNat) .invalidMessage
  | _, _ => .error .invalidMessage

/-- What a client knows of an item that can be expanded. -/
structure Cited where
  sourceNamespaceId : Bytes
  sourceId : Bytes
  input : ObjectRefDto
  prepared : Option ObjectRefDto
  start : UInt64
  stop : UInt64
  text : Option Text
  bytesHex : Option Bytes
  source : Option RawSourceRef
  deriving DecidableEq

/-- The original is the bytes in its own spelling. -/
structure Cited.Spells (cited : Cited) (bytes : Bytes) : Prop where
  text : ∀ text ∈ cited.text, text.bytes = bytes
  bytesHex : ∀ digits ∈ cited.bytesHex, digits = hex bytes
  given : cited.text ≠ none ∨ cited.bytesHex ≠ none

/-- Only hits and occurrences can be expanded. -/
def WindowItem.cited : WindowItem → Option Cited
  | .search (.hit hit) => some {
      sourceNamespaceId := hit.evidence.sourceNamespaceId
      sourceId := hit.evidence.sourceId
      input := hit.evidence.input
      prepared := some hit.evidence.prepared
      start := hit.evidence.start
      stop := hit.evidence.stop
      text := some hit.unitText
      bytesHex := none
      source := none }
  | .raw (.matched hit) => some {
      sourceNamespaceId := hit.source.sourceNamespaceId
      sourceId := hit.source.sourceId
      input := hit.source.input
      prepared := none
      start := hit.start
      stop := hit.stop
      text := none
      bytesHex := some hit.bytesHex
      source := some hit.source }
  | .decodedUtf8 (.matched hit) => some {
      sourceNamespaceId := hit.source.sourceNamespaceId
      sourceId := hit.source.sourceId
      input := hit.source.input
      prepared := some hit.prepared
      start := hit.representationStart
      stop := hit.representationEnd
      text := some hit.text
      bytesHex := none
      source := some hit.source }
  | _ => none

/-- Subtraction that stops at zero. -/
def saturatingSub (left right : UInt64) : UInt64 := if right ≤ left then left - right else 0

/-- Binds returned context to the emitted item and the neighborhood that was
requested. -/
def WindowExpansion.validateRequest (request : SessionClientFrame WindowQuery)
    (original : WindowItem) (expansion : WindowExpansion) : Except ProtocolError Unit := do
  expansion.validate
  match request with
  | .expand _ _ windowId itemIndex beforeBytes afterBytes => do
      let cited ← okOr original.cited .invalidMessage
      let wantedStart := saturatingSub cited.start beforeBytes
      let wanted ← okOr (checkedAdd cited.stop afterBytes) .invalidMessage
      let wantedEnd := min wanted cited.input.bytes
      refuse (windowId ≠ expansion.windowId ∨ itemIndex ≠ expansion.itemIndex ∨
        expansion.source.sourceNamespaceId ≠ cited.sourceNamespaceId ∨
        expansion.source.sourceId ≠ cited.sourceId ∨ expansion.source.input ≠ cited.input ∨
        expansion.prepared ≠ cited.prepared ∨ (∃ source ∈ cited.source, source ≠ expansion.source) ∨
        expansion.representationStart ≠ wantedStart ∨ expansion.representationEnd ≠ wantedEnd)
        .invalidMessage
      let first := (cited.start - wantedStart).toNat
      let last := (cited.stop - wantedStart).toNat
      match expansion.content, cited.text, cited.bytesHex with
      | .utf8 expanded, some text, none =>
          refuse (expanded.get first last ≠ some text) .invalidMessage
      | .raw bytesHex, none, some digits =>
          refuse (slice bytesHex (first * 2) (last * 2) ≠ some digits) .invalidMessage
      | _, _, _ => .error .invalidMessage
  | _ => .error .invalidMessage

/-! ## Texts -/

namespace Texts

open EliotSearch.Session.Texts

def windowItem (scoreText : Score → Bytes) : WindowItem → Bytes
  | .search item =>
      object [member "mode" (Format.quoted "search"), member "item" (searchItem scoreText item)]
  | .raw item => object [member "mode" (Format.quoted "raw"), member "item" (rawItem item)]
  | .decodedUtf8 item =>
      object [member "mode" (Format.quoted "decoded_utf8"), member "item" (decodedItem item)]

def expansionContent : ExpansionContent → Bytes
  | .raw bytesHex =>
      object [member "kind" (Format.quoted "raw"), member "bytes_hex" (string bytesHex)]
  | .utf8 text => object [member "kind" (Format.quoted "utf8"), member "text" (string text.bytes)]

def windowExpansion (expansion : WindowExpansion) : Bytes :=
  object [member "window_id" (word64 expansion.windowId),
    member "item_index" (word8 expansion.itemIndex), member "source" (sourceRef expansion.source),
    member "prepared" (nullable objectRef expansion.prepared),
    member "representation_start" (word64 expansion.representationStart),
    member "representation_end" (word64 expansion.representationEnd),
    member "source_start" (word64 expansion.sourceStart),
    member "source_end" (word64 expansion.sourceEnd),
    member "content" (expansionContent expansion.content)]

theorem nullable_objectRef_length_le {value : Option ObjectRefDto} {expected : ObjectKindDto}
    (hvalid : ∀ object ∈ value, object.validate expected = .ok ()) :
    (nullable objectRef value).length ≤ 500 := by
  cases value with
  | none => exact of_decide_eq_true rfl
  | some object => exact objectRef_length_le (hvalid object rfl)

/-- The text of a context is bounded by its bytes. -/
theorem expansionContent_length_le {content : ExpansionContent} {bound : Nat}
    (hbound : match content with
      | .raw bytesHex => bytesHex.length ≤ bound
      | .utf8 text => text.bytes.length ≤ bound) :
    (expansionContent content).length ≤ 6 * bound + 40 := by
  cases content with
  | raw bytesHex =>
      have htext := string_length_le bytesHex
      have hmembers := object_length_le [member "kind" (Format.quoted "raw"),
        member "bytes_hex" (string bytesHex)]
      have hlabels : (Format.label "kind").length + (Format.label "bytes_hex").length = 19 := rfl
      have hkind : (Format.quoted "raw").length = 5 := rfl
      simp only [List.map_cons, List.map_nil, List.sum_cons, List.sum_nil, List.length_cons,
        List.length_nil, member_length] at hmembers
      rw [expansionContent]
      omega
  | utf8 text =>
      have htext := string_length_le text.bytes
      have hmembers := object_length_le [member "kind" (Format.quoted "utf8"),
        member "text" (string text.bytes)]
      have hlabels : (Format.label "kind").length + (Format.label "text").length = 14 := rfl
      have hkind : (Format.quoted "utf8").length = 6 := rfl
      simp only [List.map_cons, List.map_nil, List.sum_cons, List.sum_nil, List.length_cons,
        List.length_nil, member_length] at hmembers
      rw [expansionContent]
      omega

end Texts

/-- What a valid expansion satisfies. -/
structure WindowExpansion.Valid (expansion : WindowExpansion) : Prop where
  source : expansion.source.validate = .ok ()
  prepared : ∀ prepared ∈ expansion.prepared, prepared.validate .prepared = .ok ()
  bounded : match expansion.content with
    | .raw bytesHex => bytesHex.length ≤ 2 * maxExpansionBytes.toNat
    | .utf8 text => text.bytes.length ≤ 2 * maxExpansionBytes.toNat

theorem WindowExpansion.valid_of_validate {expansion : WindowExpansion}
    (hvalid : expansion.validate = .ok ()) : expansion.Valid := by
  simp only [WindowExpansion.validate, bind_eq_ok, refuse_eq_ok, not_or, UInt64.not_lt] at hvalid
  obtain ⟨_, -, _, hsource, _, ⟨-, -, hwidth⟩, _, -, hcontent⟩ := hvalid
  have hbound : (expansion.representationEnd - expansion.representationStart).toNat ≤
      maxExpansionBytes.toNat := UInt64.le_iff_toNat_le.mp hwidth
  split at hcontent
  · rename_i bytesHex hkind hprepared
    rw [refuse_eq_ok, not_not] at hcontent
    have hlength := hcontent.1
    refine ⟨hsource, ?_, ?_⟩
    · rw [hprepared]
      rintro _ ⟨⟩
    · rw [hkind]
      dsimp only
      omega
  · rename_i text prepared hkind hprepared
    simp only [bind_eq_ok, refuse_eq_ok, not_not] at hcontent
    obtain ⟨_, hobject, hlength⟩ := hcontent
    refine ⟨hsource, ?_, ?_⟩
    · rw [hprepared]
      rintro object hmem
      obtain rfl := Option.some.inj hmem
      exact hobject
    · rw [hkind]
      dsimp only
      omega
  · cases hcontent

/-- The text of a valid expansion is bounded. -/
theorem Texts.windowExpansion_length_le {expansion : WindowExpansion} (hvalid : expansion.Valid) :
    (windowExpansion expansion).length ≤ 800000 := by
  have hwindow := word64_length_le expansion.windowId
  have hindex : (Session.Texts.word8 expansion.itemIndex).length ≤ 3 :=
    Format.u8.print_length_le _
  have hsource := sourceRef_length_le hvalid.source
  have hprepared := nullable_objectRef_length_le hvalid.prepared
  have hrepresentationStart := word64_length_le expansion.representationStart
  have hrepresentationEnd := word64_length_le expansion.representationEnd
  have hsourceStart := word64_length_le expansion.sourceStart
  have hsourceEnd := word64_length_le expansion.sourceEnd
  have hcontent := expansionContent_length_le hvalid.bounded
  have hmaximum : maxExpansionBytes.toNat = 65536 := rfl
  have hmembers := object_length_le [
    Session.Texts.member "window_id" (Session.Texts.word64 expansion.windowId),
    Session.Texts.member "item_index" (Session.Texts.word8 expansion.itemIndex),
    Session.Texts.member "source" (sourceRef expansion.source),
    Session.Texts.member "prepared" (Session.Texts.nullable objectRef expansion.prepared),
    Session.Texts.member "representation_start"
      (Session.Texts.word64 expansion.representationStart),
    Session.Texts.member "representation_end" (Session.Texts.word64 expansion.representationEnd),
    Session.Texts.member "source_start" (Session.Texts.word64 expansion.sourceStart),
    Session.Texts.member "source_end" (Session.Texts.word64 expansion.sourceEnd),
    Session.Texts.member "content" (expansionContent expansion.content)]
  have hlabels : (Format.label "window_id").length + (Format.label "item_index").length +
      (Format.label "source").length + (Format.label "prepared").length +
      (Format.label "representation_start").length + (Format.label "representation_end").length +
      (Format.label "source_start").length + (Format.label "source_end").length +
      (Format.label "content").length = 127 := rfl
  simp only [List.map_cons, List.map_nil, List.sum_cons, List.sum_nil, List.length_cons,
    List.length_nil, Session.Texts.member_length] at hmembers
  rw [windowExpansion]
  omega

/-! ## The wire of a window -/

/-- The wire of window payloads; how a score is written and a client frame read
are given. -/
def windowWire (scoreText : Score → Bytes)
    (parseFrame : Bytes → Option (SessionClientFrame WindowQuery)) : Wire where
  Query := WindowQuery
  Item := WindowItem
  Expansion := WindowExpansion
  validateQuery := WindowQuery.validate
  validateItem := WindowItem.validate
  searchRank := WindowItem.searchRank
  validateExpansion := WindowExpansion.validate
  parseFrame
  printReply := Session.Texts.reply (Texts.windowItem scoreText) Texts.windowExpansion
  printBare reply hbare := by
    have hlength := Session.Texts.reply_bare_length (Texts.windowItem scoreText)
      Texts.windowExpansion hbare
    simp only [framePrefixBytes, maxFrameBytes]
    omega

theorem validateReply_expanded (wire : Wire) {requestId : UInt64} {expansion : wire.Expansion}
    (hid : requestId ≠ 0) :
    wire.validateReply ⟨requestId, .expanded expansion⟩ = wire.validateExpansion expansion := by
  rw [Wire.validateReply, refuse_of_not fun hzero => hid hzero.1, ok_bind]

/-- The reply of a valid expansion fits in one frame. -/
theorem encodeSessionReply_expanded (scoreText : Score → Bytes)
    (parseFrame : Bytes → Option (SessionClientFrame WindowQuery)) {requestId : UInt64}
    {expansion : WindowExpansion} (hid : requestId ≠ 0) (hvalid : expansion.validate = .ok ()) :
    ∃ frame, (windowWire scoreText parseFrame).encodeSessionReply
        ⟨requestId, .expanded expansion⟩ = .ok frame ∧ frame.length ≤ maxFrameBytes := by
  have hexpansion := Texts.windowExpansion_length_le (WindowExpansion.valid_of_validate hvalid)
  have hidText := Texts.word64_length_le requestId
  have houtcome := Texts.object_length_le [
    Session.Texts.member "status" (Format.quoted "expanded"),
    Session.Texts.member "expansion" (Texts.windowExpansion expansion)]
  have hreply := Texts.object_length_le [
    Session.Texts.member "request_id" (Session.Texts.word64 requestId),
    Session.Texts.member "outcome" (Session.Texts.object [
      Session.Texts.member "status" (Format.quoted "expanded"),
      Session.Texts.member "expansion" (Texts.windowExpansion expansion)])]
  have hlabels : (Format.label "status").length + (Format.quoted "expanded").length +
      (Format.label "expansion").length + (Format.label "request_id").length +
      (Format.label "outcome").length = 54 := rfl
  have hframe : maxFrameBytes = 8388608 := rfl
  simp only [List.map_cons, List.map_nil, List.sum_cons, List.sum_nil, List.length_cons,
    List.length_nil, Session.Texts.member_length] at houtcome hreply
  have hfits : framePrefixBytes + (Session.Texts.reply (Texts.windowItem scoreText)
      Texts.windowExpansion ⟨requestId, .expanded expansion⟩).length ≤ maxFrameBytes := by
    rw [Session.Texts.reply, framePrefixBytes]
    dsimp only [Session.Texts.outcome]
    omega
  obtain ⟨frame, hencode, hlength⟩ := encode_ok hfits
  have hreplyValid : (windowWire scoreText parseFrame).validateReply
      ⟨requestId, .expanded expansion⟩ = expansion.validate := validateReply_expanded _ hid
  exact ⟨frame, bind_eq_ok.mpr ⟨(), hreplyValid.trans hvalid, hencode⟩, hlength.le.trans hfits⟩

/-! ## Pages -/

/-- Items of one namespace in source order; those of one source follow each
other. -/
def Kind.Precedes {Item : Type} (kind : Kind Item) (left right : Item) : Prop :=
  (kind.source left).sourceNamespaceId = (kind.source right).sourceNamespaceId ∧
    (compare (kind.source left).sourceId (kind.source right).sourceId = .lt ∨
      (kind.source left = kind.source right ∧ kind.follows left right = true))

instance {Item : Type} (kind : Kind Item) (left right : Item) :
    Decidable (kind.Precedes left right) :=
  inferInstanceAs (Decidable (_ ∧ (_ ∨ _)))

/-- The order of neighbouring items of a window. -/
def InWindowOrder : WindowItem → WindowItem → Prop
  | .search left, .search right => left.rank.toNat + 1 = right.rank.toNat
  | .raw left, .raw right => rawKind.Precedes left right
  | .decodedUtf8 left, .decodedUtf8 right => decodedKind.Precedes left right
  | _, _ => False

instance (left right : WindowItem) : Decidable (InWindowOrder left right) := by
  unfold InWindowOrder
  split <;> infer_instance

def validateWindowOrder (left right : WindowItem) : Except ProtocolError Unit :=
  refuse (¬ InWindowOrder left right) .invalidMessage

/-- Checks items in order, after those before them. -/
def validateShown (query : WindowQuery) (generation : UInt64) :
    (earlier : List WindowItem) → List WindowItem → Except ProtocolError Unit
  | _, [] => return ()
  | earlier, item :: items => do
      item.validateRequest query generation
      refuse (∃ point ∈ item.point, some point ∈ earlier.map WindowItem.point) .invalidMessage
      match earlier.getLast? with
      | none => pure ()
      | some left => validateWindowOrder left item
      validateShown query generation (earlier ++ [item]) items

/-- What the totals of a literal search say of the items shown so far. -/
def TotalsAgree (summary : WindowSummary) (ends : Bool) (shown : List WindowItem) : Prop :=
  ∀ total ∈ summary.foundMatches,
    shown.countP WindowItem.isMatch ≤ total.toNat ∧
    ¬ (0 < shown.countP WindowItem.isGap ∧ summary.scanComplete = some true) ∧
    (ends = true → summary.resultStop = .complete →
      shown.countP WindowItem.isMatch = total.toNat ∧
        summary.scanComplete = some (decide (shown.countP WindowItem.isGap = 0)))

instance (summary : WindowSummary) (ends : Bool) (shown : List WindowItem) :
    Decidable (TotalsAgree summary ends shown) :=
  inferInstanceAs (Decidable (∀ total ∈ summary.foundMatches, _ ∧ ¬ (_ ∧ _) ∧ (_ → _ → _ ∧ _)))

/-- Checks a successive page against the original query and previously emitted
entries. -/
def WindowPage.validateRequest (scoreText : Score → Bytes)
    (parseFrame : Bytes → Option (SessionClientFrame WindowQuery)) (query : WindowQuery)
    (emitted : List (WindowEntry WindowItem)) (pageSize : UInt8) (page : WindowPage WindowItem) :
    Except ProtocolError Unit := do
  (windowWire scoreText parseFrame).validatePage page
  query.validate
  validatePageSize pageSize
  let summary := page.summary
  let expected := min pageSize.toNat (summary.retainedItems.toNat - emitted.length)
  refuse (page.startIndex.toNat ≠ emitted.length ∨ summary.retainedItems > query.limit ∨
    page.items.length > expected ∨ ¬ (page.pageStop = .complete ↔ page.items.length = expected) ∨
    query.isSearch ≠ summary.foundMatches.isNone) .invalidMessage
  let shown := (emitted ++ page.items).map WindowEntry.item
  validateShown query summary.generation [] shown
  refuse (¬ TotalsAgree summary (page.nextIndex = summary.retainedItems) shown) .invalidMessage

end EliotSearch.Query
