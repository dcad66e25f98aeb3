import EliotSearch.Library.BinarySearch
import EliotSearch.Query.Terminals

/-!
# The largest fitting prefix

A serializer hands its text to a writer piece by piece: one writer counts the pieces
up to the body ceiling, the other collects them behind the length.  However a text is
cut, a result is sent as the largest whole rank prefix whose frame fits.
-/

namespace EliotSearch.Query

open EliotSearch.Library
open EliotSearch.Library.Json
open EliotSearch.Library.Results
open EliotSearch.Library.Words
open EliotSearch.Session

/-! ## Writers -/

def maxBodyBytes : Nat := maxFrameBytes - framePrefixBytes

/-- Counts what is written, up to the body ceiling. -/
structure CountWriter where
  length : Nat
  exceeded : Bool

def CountWriter.write (writer : CountWriter) (bytes : Bytes) : Except CountWriter CountWriter :=
  if bytes.length > maxBodyBytes - writer.length then .error { writer with exceeded := true }
  else .ok { writer with length := writer.length + bytes.length }

/-- Collects what is written, up to a ceiling. -/
structure CappedWriter where
  bytes : Bytes
  maximum : Nat

def CappedWriter.write (writer : CappedWriter) (input : Bytes) :
    Except ProtocolError CappedWriter :=
  if input.length > writer.maximum - writer.bytes.length then .error .frameTooLarge
  else .ok { writer with bytes := writer.bytes ++ input }

/-- Whether the pieces of a text are within the body ceiling. -/
def fitsWritten (pieces : List Bytes) : Except ProtocolError Bool :=
  match pieces.foldlM CountWriter.write ⟨0, false⟩ with
  | .ok _ => .ok true
  | .error writer => if writer.exceeded then .ok false else .error .serialization

/-- Serialize the pieces of a text behind their length. -/
def encodeWritten (maximum : Nat) (pieces : List Bytes) : Except ProtocolError Bytes := do
  let writer ← pieces.foldlM CappedWriter.write ⟨List.replicate framePrefixBytes 0, maximum⟩
  let body := writer.bytes.length - framePrefixBytes
  refuse (body ≥ 2 ^ 32) .frameTooLarge
  return le32 (UInt32.ofNat body) ++ writer.bytes.drop framePrefixBytes

theorem countWriter_eq {pieces : List Bytes} {length : Nat} (hlength : length ≤ maxBodyBytes) :
    (length + pieces.flatten.length ≤ maxBodyBytes ∧
      pieces.foldlM CountWriter.write ⟨length, false⟩ =
        .ok ⟨length + pieces.flatten.length, false⟩) ∨
    (maxBodyBytes < length + pieces.flatten.length ∧
      ∃ reached, pieces.foldlM CountWriter.write ⟨length, false⟩ = .error ⟨reached, true⟩) := by
  induction pieces generalizing length with
  | nil => exact Or.inl ⟨hlength, rfl⟩
  | cons piece pieces ih =>
      rw [List.flatten_cons, List.length_append, ← Nat.add_assoc, List.foldlM_cons,
        CountWriter.write]
      by_cases hover : piece.length > maxBodyBytes - length
      · exact Or.inr ⟨by omega, length, by rw [if_pos hover]; rfl⟩
      · rw [if_neg hover, ok_bind]
        exact ih (by omega)

/-- Counting the pieces tells whether the whole text fits. -/
theorem fitsWritten_eq (pieces : List Bytes) :
    fitsWritten pieces = .ok (decide (Fits pieces.flatten)) := by
  have hceiling : maxBodyBytes = maxFrameBytes - framePrefixBytes := rfl
  rw [fitsWritten]
  rcases @countWriter_eq pieces 0 (Nat.zero_le _) with ⟨hfits, hwritten⟩ | ⟨hover, _, hwritten⟩
  · have hwhole : Fits pieces.flatten := by
      rwa [Nat.zero_add] at hfits
    rw [hwritten, decide_eq_true hwhole]
  · have hwhole : ¬ Fits pieces.flatten := by
      rw [Nat.zero_add] at hover
      exact not_le.mpr hover
    rw [hwritten, decide_eq_false hwhole]
    rfl

theorem cappedWriter_eq {maximum : Nat} {pieces : List Bytes} {bytes : Bytes}
    (hbytes : bytes.length ≤ maximum) :
    pieces.foldlM CappedWriter.write ⟨bytes, maximum⟩ =
      if bytes.length + pieces.flatten.length ≤ maximum then .ok ⟨bytes ++ pieces.flatten, maximum⟩
      else .error .frameTooLarge := by
  induction pieces generalizing bytes with
  | nil =>
      rw [List.flatten_nil, List.append_nil]
      exact (if_pos hbytes).symm
  | cons piece pieces ih =>
      rw [List.flatten_cons, List.length_append, ← Nat.add_assoc, List.foldlM_cons,
        CappedWriter.write]
      by_cases hover : piece.length > maximum - bytes.length
      · rw [if_pos hover, if_neg (by omega)]
        rfl
      · have hnext : (bytes ++ piece).length ≤ maximum := by
          rw [List.length_append]
          omega
        rw [if_neg hover, ok_bind, ih hnext, List.length_append, List.append_assoc]

/-- Collecting the pieces encodes the whole text. -/
theorem encodeWritten_eq {maximum : Nat} (hmark : framePrefixBytes ≤ maximum)
    (hmaximum : maximum ≤ maxFrameBytes) (pieces : List Bytes) :
    encodeWritten maximum pieces = encode maximum pieces.flatten := by
  have hzeros : (List.replicate framePrefixBytes (0 : UInt8)).length = framePrefixBytes :=
    List.length_replicate
  rw [encodeWritten, cappedWriter_eq (hzeros.trans_le hmark), hzeros, encode]
  by_cases hfits : framePrefixBytes + pieces.flatten.length ≤ maximum
  · have hlarge : maxFrameBytes < 2 ^ 32 := by decide
    have hbody : (List.replicate framePrefixBytes (0 : UInt8) ++ pieces.flatten).length -
        framePrefixBytes = pieces.flatten.length := by
      rw [List.length_append, hzeros, Nat.add_sub_cancel_left]
    rw [if_pos hfits, refuse_of_not (not_lt.mpr hfits), ok_bind, ok_bind]
    dsimp only
    rw [hbody, refuse_of_not (by omega), ok_bind, List.drop_left' hzeros]
  · rw [if_neg hfits, refuse_of (not_le.mp hfits)]
    rfl

/-! ## The serializer -/

/-- A serializer writes a text in pieces of its own choice. -/
structure Serializer where
  pieces : Bytes → List Bytes
  whole : ∀ text, (pieces text).flatten = text

/-- How scores are written and texts are cut, and how a terminal is read. -/
structure TerminalFormat where
  scoreText : Score → Bytes
  serializer : Serializer
  parse : Bytes → Option Terminal

namespace TerminalFormat

variable (format : TerminalFormat)

def text (terminal : Terminal) : Bytes := Texts.terminal format.scoreText terminal

def fits (terminal : Terminal) : Except ProtocolError Bool :=
  fitsWritten (format.serializer.pieces (format.text terminal))

def encode (terminal : Terminal) (maximum : Nat) : Except ProtocolError Bytes :=
  encodeWritten maximum (format.serializer.pieces (format.text terminal))

/-- Halve the counts from `low` to `high` until the largest that fits is left. -/
def searchCount (requestId generation : UInt64) (items : List SearchItem) (low high : Nat) :
    Except ProtocolError Nat :=
  if low < high then do
    let middle := low + (high - low + 1) / 2
    if ← format.fits (completeWire requestId generation (items.take middle)) then
      searchCount requestId generation items middle high
    else searchCount requestId generation items low (middle - 1)
  else return low
  termination_by high - low

/-- Produces a complete terminal with the largest whole rank prefix that fits. -/
def prepareComplete (requestId generation : UInt64) (items : List SearchItem) :
    Except ProtocolError Bytes := do
  let terminal : Terminal := ⟨requestId, .complete generation items .complete⟩
  terminal.validate (UInt8.ofNat maxItems)
  if ← format.fits terminal then format.encode terminal maxFrameBytes
  else
    let low ← format.searchCount requestId generation items 0 items.length
    format.encode (completeWire requestId generation (items.take low)) maxFrameBytes

/-- Decodes the whole terminal and validates it against the actual request limit. -/
def decodeTerminalFrame (frame : Bytes) (requestedLimit : UInt8) :
    Except ProtocolError Terminal := do
  let body ← decode maxFrameBytes frame
  let terminal ← okOr (format.parse body) .invalidMessage
  terminal.validate requestedLimit
  return terminal

theorem fits_eq (terminal : Terminal) :
    format.fits terminal = .ok (decide (Fits (format.text terminal))) := by
  rw [fits, fitsWritten_eq, format.serializer.whole]

theorem encode_eq (terminal : Terminal) :
    format.encode terminal maxFrameBytes =
      Session.encode maxFrameBytes (format.text terminal) := by
  rw [encode, encodeWritten_eq (by decide) le_rfl, format.serializer.whole]

/-- Whether the terminal cut after the first items fits. -/
def cutFits (requestId generation : UInt64) (items : List SearchItem) (count : Nat) : Bool :=
  decide (Fits (format.text (completeWire requestId generation (items.take count))))

/-- The search is the bisection of the counts whose cut terminal fits. -/
theorem searchCount_eq (requestId generation : UInt64) (items : List SearchItem)
    (low high : Nat) :
    format.searchCount requestId generation items low high =
      .ok (largest (format.cutFits requestId generation items) low high) := by
  induction low, high using largest.induct (format.cutFits requestId generation items) with
  | case1 low high hlt middle hmiddle ih =>
      rw [searchCount, largest, if_pos hlt, if_pos hlt]
      dsimp only
      rw [fits_eq, ok_bind, if_pos hmiddle, if_pos (show decide (Fits _) = true from hmiddle)]
      exact ih
  | case2 low high hlt middle hmiddle ih =>
      rw [searchCount, largest, if_pos hlt, if_pos hlt]
      dsimp only
      rw [fits_eq, ok_bind, if_neg hmiddle, if_neg (show ¬ decide (Fits _) = true from hmiddle)]
      exact ih
  | case3 low high hge =>
      rw [searchCount, largest, if_neg hge, if_neg hge, pure_eq_ok]

theorem fitting_eq (requestId generation : UInt64) (items : List SearchItem) (low high : Nat) :
    fitting format.scoreText requestId generation items low high =
      largest (format.cutFits requestId generation items) low high := by
  induction low, high using largest.induct (format.cutFits requestId generation items) with
  | case1 low high hlt middle hmiddle ih =>
      rw [fitting, largest, if_pos hlt, if_pos hlt]
      dsimp only
      rw [if_pos hmiddle]
      exact (if_pos (of_decide_eq_true hmiddle)).trans ih
  | case2 low high hlt middle hmiddle ih =>
      rw [fitting, largest, if_pos hlt, if_pos hlt]
      dsimp only
      rw [if_neg hmiddle]
      exact (if_neg fun hfits => hmiddle (decide_eq_true hfits)).trans ih
  | case3 low high hge => rw [fitting, largest, if_neg hge, if_neg hge]

/-- However the texts are cut, the writers prepare what the whole texts give. -/
theorem prepareComplete_eq (requestId generation : UInt64) (items : List SearchItem) :
    format.prepareComplete requestId generation items =
      Query.prepareComplete format.scoreText requestId generation items := by
  rw [prepareComplete, Query.prepareComplete]
  refine congrArg _ (funext fun _ => ?_)
  rw [fits_eq, ok_bind, searchCount_eq, ok_bind, encode_eq, encode_eq, fitting_eq]
  simp only [decide_eq_true_eq]
  rfl

end TerminalFormat

/-! ## Sizes -/

namespace Texts

open EliotSearch.Session.Texts

/-- Between two texts stands one comma. -/
theorem separated_length (texts : List Bytes) :
    (separated texts).length = (texts.map List.length).sum + (texts.length - 1) := by
  induction texts with
  | nil => rfl
  | cons text texts ih =>
      cases texts with
      | nil => rfl
      | cons next texts =>
          have hcomma : (ascii ",").length = 1 := rfl
          have htext : separated (text :: next :: texts) =
              text ++ ascii "," ++ separated (next :: texts) := rfl
          rw [htext, List.length_append, List.length_append, hcomma, ih]
          simp only [List.map_cons, List.sum_cons, List.length_cons]
          omega

theorem separated_append_length (first second : List Bytes) :
    (separated first).length ≤ (separated (first ++ second)).length := by
  rw [separated_length, separated_length, List.map_append, List.sum_append, List.length_append]
  omega

variable {scoreText : Score → Bytes} {requestId generation : UInt64}

/-- Only the items and the stop reason decide how long a complete terminal is. -/
theorem terminal_length (items others : List SearchItem) (stop other : StopReason) :
    (terminal scoreText ⟨requestId, .complete generation items stop⟩).length +
        ((separated (others.map (searchItem scoreText))).length + (stopReason other).length) =
      (terminal scoreText ⟨requestId, .complete generation others other⟩).length +
        ((separated (items.map (searchItem scoreText))).length + (stopReason stop).length) := by
  simp only [terminal, outcome, object, separated, member, array, List.length_append]
  omega

theorem terminal_append_length (items more : List SearchItem) (stop : StopReason) :
    (terminal scoreText ⟨requestId, .complete generation items stop⟩).length ≤
      (terminal scoreText ⟨requestId, .complete generation (items ++ more) stop⟩).length := by
  have hsizes := @terminal_length scoreText requestId generation items (items ++ more) stop stop
  have hitems := separated_append_length (items.map (searchItem scoreText))
    (more.map (searchItem scoreText))
  rw [← List.map_append] at hitems
  omega

/-- To say that the output was cut takes longer than to say that it is complete. -/
theorem terminal_cut_length (items : List SearchItem) :
    (terminal scoreText ⟨requestId, .complete generation items .complete⟩).length ≤
      (terminal scoreText ⟨requestId, .complete generation items .outputLimit⟩).length := by
  have hsizes := @terminal_length scoreText requestId generation items items .complete .outputLimit
  have hcomplete : (stopReason .complete).length = 10 := rfl
  have hlimit : (stopReason .outputLimit).length = 14 := rfl
  omega

theorem terminal_empty_fits (stop : StopReason) :
    Fits (terminal scoreText ⟨requestId, .complete generation [] stop⟩) := by
  have hid := word64_length_le requestId
  have hgeneration := word64_length_le generation
  have hstop := stopReason_length_le stop
  have houtcome := object_length_le [member "status" (Format.quoted "complete"),
    member "generation" (word64 generation), member "items" (array []),
    member "stop" (stopReason stop)]
  have hterminal := object_length_le [member "request_id" (word64 requestId),
    member "outcome" (outcome scoreText (.complete generation [] stop))]
  have hlabels : (Format.label "status").length + (Format.quoted "complete").length +
      (Format.label "generation").length + (Format.label "items").length + (array []).length +
      (Format.label "stop").length + (Format.label "request_id").length +
      (Format.label "outcome").length = 72 := rfl
  have hceiling : maxFrameBytes - framePrefixBytes = 8388604 := rfl
  simp only [List.map_cons, List.map_nil, List.sum_cons, List.sum_nil, List.length_cons,
    List.length_nil, member_length] at houtcome hterminal
  rw [Fits, terminal, hceiling]
  dsimp only
  rw [outcome, List.map_nil] at hterminal ⊢
  omega

end Texts

/-! ## Accepted results -/

/-- Ranks count from one, no point is returned twice and every item is valid. -/
def Presentable (requestId generation : UInt64) (items : List SearchItem) : Prop :=
  requestId = queryRequestId ∧ generation ≠ 0 ∧ items.length ≤ maxItems ∧
    ∀ index item, items[index]? = some item → item.rank.toNat = index + 1 ∧
      (∀ prior ∈ items.take index, prior.evidence.pointId ≠ item.evidence.pointId) ∧
      item.validate generation = .ok ()

theorem validateRanked_iff {generation : UInt64} {earlier items : List SearchItem} :
    validateRanked generation earlier items = .ok () ↔
      ∀ index item, items[index]? = some item → item.rank.toNat = earlier.length + index + 1 ∧
        (∀ prior ∈ earlier ++ items.take index,
          prior.evidence.pointId ≠ item.evidence.pointId) ∧
        item.validate generation = .ok () := by
  induction items generalizing earlier with
  | nil =>
      constructor
      · rintro - index item hitem
        cases hitem
      · intro
        rfl
  | cons first items ih =>
      simp only [validateRanked, bind_eq_ok, refuse_eq_ok, not_or, not_not, not_exists, not_and]
      constructor
      · rintro ⟨_, ⟨hrank, hpoint⟩, _, hfirst, hrest⟩ index item hitem
        cases index with
        | zero =>
            obtain rfl := Option.some.inj hitem
            rw [List.take_zero, List.append_nil]
            exact ⟨hrank, hpoint, hfirst⟩
        | succ index =>
            obtain ⟨hrank, hpoint, hvalid⟩ := ih.mp hrest index item hitem
            rw [List.length_append, List.length_singleton] at hrank
            rw [List.append_assoc, List.singleton_append] at hpoint
            exact ⟨by omega, hpoint, hvalid⟩
      · intro hall
        obtain ⟨hrank, hpoint, hvalid⟩ := hall 0 first rfl
        rw [List.take_zero, List.append_nil] at hpoint
        refine ⟨(), ⟨hrank, hpoint⟩, (), hvalid, ih.mpr fun index item hitem => ?_⟩
        obtain ⟨hrank, hpoint, hvalid⟩ := hall (index + 1) item hitem
        rw [List.length_append, List.length_singleton, List.append_assoc, List.singleton_append]
        exact ⟨by omega, hpoint, hvalid⟩

/-- What is checked of a complete terminal. -/
theorem Terminal.validate_complete_iff {requestId generation : UInt64} {items : List SearchItem}
    {stop : StopReason} :
    Terminal.validate (UInt8.ofNat maxItems) ⟨requestId, .complete generation items stop⟩ =
      .ok () ↔ Presentable requestId generation items := by
  have hmaximum : (UInt8.ofNat maxItems).toNat = maxItems := rfl
  have hlimit : ¬ (UInt8.ofNat maxItems = 0 ∨ (UInt8.ofNat maxItems).toNat > maxItems) := by
    decide
  simp only [Terminal.validate, bind_eq_ok, refuse_eq_ok, validateRanked_iff, hmaximum, not_or,
    not_not, not_lt, Presentable, List.length_nil, Nat.zero_add, List.nil_append]
  constructor
  · rintro ⟨_, hid, _, -, _, ⟨hgeneration, hlength⟩, hitems⟩
    exact ⟨hid, hgeneration, hlength, hitems⟩
  · rintro ⟨hid, hgeneration, hlength, hitems⟩
    exact ⟨(), hid, (), not_or.mp hlimit |>.imp_right not_lt.mp, (), ⟨hgeneration, hlength⟩,
      hitems⟩

theorem SearchItem.validate_error {item : SearchItem} {generation : UInt64}
    {error : ProtocolError} (hrefused : item.validate generation = .error error) :
    error = .invalidMessage := by
  have hobject {object : ObjectRefDto} {kind : ObjectKindDto}
      (hrefused : object.validate kind = .error error) : error = .invalidMessage :=
    (refuse_eq_error.mp hrefused).2.symm
  have hevidence (hrefused : item.evidence.validate generation = .error error) :
      error = .invalidMessage := by
    simp only [EvidenceMetadata.validate, bind_eq_error, refuse_eq_error] at hrefused
    rcases hrefused with hfields | ⟨_, -, hinput | ⟨_, -, hstop | ⟨_, -, hprepared⟩⟩⟩
    · exact hfields.2.symm
    · exact hobject hinput
    · exact hstop.2.symm
    · exact hobject hprepared
  cases item with
  | hit found =>
      simp only [SearchItem.validate, bind_eq_error, refuse_eq_error] at hrefused
      rcases hrefused with htext | ⟨_, -, hscore | ⟨_, -, hrest⟩⟩
      · exact htext.2.symm
      · exact hscore.2.symm
      · exact hevidence hrest
  | gap missing =>
      simp only [SearchItem.validate, bind_eq_error, refuse_eq_error] at hrefused
      rcases hrefused with hcode | ⟨_, -, hscore | ⟨_, -, hrest⟩⟩
      · exact hcode.2.symm
      · exact hscore.2.symm
      · exact hevidence hrest

theorem validateRanked_error {generation : UInt64} {earlier items : List SearchItem}
    {error : ProtocolError} (hrefused : validateRanked generation earlier items = .error error) :
    error = .invalidMessage := by
  induction items generalizing earlier with
  | nil => cases hrefused
  | cons item items ih =>
      simp only [validateRanked, bind_eq_error, refuse_eq_error] at hrefused
      rcases hrefused with hrank | ⟨_, -, hitem | ⟨_, -, hrest⟩⟩
      · exact hrank.2.symm
      · exact SearchItem.validate_error hitem
      · exact ih hrest

/-- A refused complete terminal is wrongly addressed or invalid. -/
theorem Terminal.validate_complete_error {requestId generation : UInt64}
    {items : List SearchItem} {stop : StopReason} {limit : UInt8} {error : ProtocolError}
    (hrefused : Terminal.validate limit ⟨requestId, .complete generation items stop⟩ =
      .error error) : error = .invalidCorrelation ∨ error = .invalidMessage := by
  simp only [Terminal.validate, bind_eq_error, refuse_eq_error] at hrefused
  rcases hrefused with hid | ⟨_, -, hlimit | ⟨_, -, hlength | ⟨_, -, hitems⟩⟩⟩
  · exact Or.inl hid.2.symm
  · exact Or.inr hlimit.2.symm
  · exact Or.inr hlength.2.symm
  · exact Or.inr (validateRanked_error hitems)

/-! ## The prepared frame -/

/-- The terminal of the first items, complete when these are all of them. -/
def rankPrefix (requestId generation : UInt64) (items : List SearchItem) (count : Nat) :
    Terminal :=
  ⟨requestId, .complete generation (items.take count)
    (if count = items.length then .complete else .outputLimit)⟩

theorem rankPrefix_all (requestId generation : UInt64) (items : List SearchItem) :
    rankPrefix requestId generation items items.length =
      ⟨requestId, .complete generation items .complete⟩ := by
  rw [rankPrefix, if_pos rfl, List.take_length]

theorem rankPrefix_cut {requestId generation : UInt64} {items : List SearchItem} {count : Nat}
    (hcount : count ≠ items.length) :
    rankPrefix requestId generation items count =
      completeWire requestId generation (items.take count) := by
  rw [rankPrefix, if_neg hcount, completeWire]

section Prepared

variable {scoreText : Score → Bytes} {requestId generation : UInt64} {items : List SearchItem}

/-- Fewer items take no more room. -/
theorem completeWire_fits {first second : Nat} (hle : first ≤ second)
    (hfits : Fits (Texts.terminal scoreText
      (completeWire requestId generation (items.take second)))) :
    Fits (Texts.terminal scoreText (completeWire requestId generation (items.take first))) := by
  have hsplit : items.take second = items.take first ++ (items.take second).drop first := by
    have htake := List.take_append_drop first (items.take second)
    rw [List.take_take, Nat.min_eq_left hle] at htake
    exact htake.symm
  rw [hsplit] at hfits
  exact (Texts.terminal_append_length _ _ _).trans hfits

/-- The bisection ends at the largest count whose terminal fits, when not all of
the items do. -/
theorem rankPrefix_greatest (format : TerminalFormat)
    (hlarge : ¬ Fits (format.text ⟨requestId, .complete generation items .complete⟩)) :
    IsGreatest {count | count ≤ items.length ∧
        Fits (format.text (rankPrefix requestId generation items count))}
      (largest (format.cutFits requestId generation items) 0 items.length) := by
  have hall : ¬ Fits (format.text (completeWire requestId generation items)) := fun hfits =>
    hlarge ((Texts.terminal_cut_length items).trans hfits)
  -- the whole list fits in neither form, and a shorter one is marked as cut
  have hsame : {count | count ≤ items.length ∧
        Fits (format.text (rankPrefix requestId generation items count))} =
      {count | count ≤ items.length ∧ format.cutFits requestId generation items count = true} := by
    ext count
    rw [Set.mem_ofPred_eq, Set.mem_ofPred_eq, TerminalFormat.cutFits, decide_eq_true_eq]
    refine and_congr_right fun _ => ?_
    by_cases hcount : count = items.length
    · rw [hcount, rankPrefix_all, List.take_length]
      exact iff_of_false hlarge hall
    · rw [rankPrefix_cut hcount]
  rw [hsame]
  apply largest_spec (Nat.zero_le _)
  · rw [TerminalFormat.cutFits, List.take_zero]
    exact decide_eq_true (Texts.terminal_empty_fits _)
  · intro first second hle hsecond hfits
    exact decide_eq_true (completeWire_fits hle (of_decide_eq_true hfits))

end Prepared

/-- A fitting text is framed, and the frame holds the text. -/
theorem decode_encode {body : Bytes} (hbody : body ≠ []) (hfits : Fits body) :
    ∃ frame, Session.encode maxFrameBytes body = .ok frame ∧ frame.length ≤ maxFrameBytes ∧
      decode maxFrameBytes frame = .ok body := by
  have hceiling : maxFrameBytes = 8388608 := rfl
  have hlength : framePrefixBytes + body.length ≤ maxFrameBytes := by
    rw [Fits] at hfits
    rw [framePrefixBytes] at hfits ⊢
    omega
  have hpositive : 0 < body.length := List.length_pos_iff.mpr hbody
  have hcount : (le32 (UInt32.ofNat body.length)).length = framePrefixBytes := le32_length _
  have hframe : (le32 (UInt32.ofNat body.length) ++ body).length =
      framePrefixBytes + body.length := by
    rw [List.length_append, le32_length, framePrefixBytes]
  have hvalue : leValue ((le32 (UInt32.ofNat body.length) ++ body).take framePrefixBytes) =
      body.length := by
    rw [List.take_left' hcount, le32, leValue_leBytes, UInt32.toNat_ofNat',
      Nat.mod_mod_of_dvd _ (by decide), Nat.mod_eq_of_lt (by omega)]
  refine ⟨le32 (UInt32.ofNat body.length) ++ body, ?_, hframe.le.trans hlength, ?_⟩
  · rw [Session.encode, refuse_of_not (not_lt.mpr hlength), ok_bind, pure_eq_ok]
  · rw [decode, refuse_of_not (by omega), ok_bind, refuse_of_not (by omega), ok_bind]
    dsimp only
    rw [hvalue, refuse_of_not (by omega), ok_bind, pure_eq_ok, List.drop_left' hcount]

namespace TerminalFormat

/-- Every presentable complete terminal is read back from its text. -/
def ReadsBack (format : TerminalFormat) (requestId generation : UInt64)
    (items : List SearchItem) : Prop :=
  Presentable requestId generation items → ∀ count ≤ items.length,
    format.parse (format.text (rankPrefix requestId generation items count)) =
      some (rankPrefix requestId generation items count)

variable {format : TerminalFormat} {requestId generation : UInt64} {items : List SearchItem}

/-- The frame of a fitting rank prefix is decoded to it. -/
theorem encode_decodes {count : Nat} (hreads : format.ReadsBack requestId generation items)
    (hvalid : Presentable requestId generation items) (hcount : count ≤ items.length)
    (hfits : Fits (format.text (rankPrefix requestId generation items count))) :
    ∃ frame, format.encode (rankPrefix requestId generation items count) maxFrameBytes =
        .ok frame ∧ frame.length ≤ maxFrameBytes ∧
      format.decodeTerminalFrame frame (UInt8.ofNat maxItems) =
        .ok (rankPrefix requestId generation items count) := by
  have hbody : format.text (rankPrefix requestId generation items count) ≠ [] :=
    List.cons_ne_nil _ _
  have hwhole : Terminal.validate (UInt8.ofNat maxItems)
      ⟨requestId, .complete generation items .complete⟩ = .ok () :=
    Terminal.validate_complete_iff.mpr hvalid
  have hshort : Terminal.validate (UInt8.ofNat maxItems)
      (rankPrefix requestId generation items count) = .ok () :=
    Terminal.validate_complete hwhole count _
  obtain ⟨frame, hencode, hlength, hdecode⟩ := decode_encode hbody hfits
  refine ⟨frame, ?_, hlength, ?_⟩
  · rw [encode_eq, hencode]
  · rw [decodeTerminalFrame, hdecode, ok_bind, hreads hvalid count hcount, okOr_some, ok_bind,
      hshort, ok_bind, pure_eq_ok]

/-- However the texts are cut, a result is refused only when it is not presentable, and
otherwise sent as its largest fitting rank prefix, which the frame is decoded to. -/
theorem prepareComplete_largest (hreads : format.ReadsBack requestId generation items) :
    (¬ Presentable requestId generation items ∧
      ∃ error, format.prepareComplete requestId generation items = .error error ∧
        (error = .invalidCorrelation ∨ error = .invalidMessage)) ∨
    (Presentable requestId generation items ∧
      ∃ frame count, format.prepareComplete requestId generation items = .ok frame ∧
        frame.length ≤ maxFrameBytes ∧
        format.decodeTerminalFrame frame (UInt8.ofNat maxItems) =
          .ok (rankPrefix requestId generation items count) ∧
        IsGreatest {count | count ≤ items.length ∧
          framePrefixBytes + (format.text (rankPrefix requestId generation items count)).length ≤
            maxFrameBytes} count) := by
  have hceiling : ∀ count, framePrefixBytes +
      (format.text (rankPrefix requestId generation items count)).length ≤ maxFrameBytes ↔
        Fits (format.text (rankPrefix requestId generation items count)) := by
    intro count
    have hlarge : maxFrameBytes = 8388608 := rfl
    rw [Fits, framePrefixBytes]
    omega
  simp only [hceiling]
  rw [prepareComplete]
  cases hvalidate : Terminal.validate (UInt8.ofNat maxItems)
      ⟨requestId, .complete generation items .complete⟩ with
  | error error =>
      refine Or.inl ⟨fun hvalid => ?_, error, rfl, Terminal.validate_complete_error hvalidate⟩
      rw [Terminal.validate_complete_iff.mpr hvalid] at hvalidate
      cases hvalidate
  | ok =>
      have hvalid := Terminal.validate_complete_iff.mp hvalidate
      refine Or.inr ⟨hvalid, ?_⟩
      rw [ok_bind, fits_eq, ok_bind, searchCount_eq, ok_bind, ← rankPrefix_all]
      by_cases hfits : Fits (format.text (rankPrefix requestId generation items items.length))
      · obtain ⟨frame, hencode, hlength, hdecode⟩ :=
          encode_decodes hreads hvalid (Nat.le_refl _) hfits
        refine ⟨frame, items.length, ?_, hlength, hdecode, ⟨Nat.le_refl _, hfits⟩, ?_⟩
        · rw [if_pos (decide_eq_true hfits), hencode]
        · exact fun count hcount => hcount.1
      · have hgreatest := rankPrefix_greatest format (rankPrefix_all .. ▸ hfits)
        have hcut : largest (format.cutFits requestId generation items) 0 items.length ≠
            items.length := fun hall => hfits (hall ▸ hgreatest.1.2)
        obtain ⟨frame, hencode, hlength, hdecode⟩ :=
          encode_decodes hreads hvalid hgreatest.1.1 hgreatest.1.2
        refine ⟨frame, _, ?_, hlength, hdecode, hgreatest⟩
        rw [if_neg (mt of_decide_eq_true hfits), ← rankPrefix_cut hcut, hencode]

/-- A hit on the one line of a small source. -/
def lineHit : SearchItem :=
  .hit {
    rank := 1
    score := ⟨0x3f800000⟩
    evidence := {
      generation := 1
      pointId := ascii "00000000000000010000000000000001"
      sourceNamespaceId := ascii "00000000-0000-4000-8000-000000000001"
      sourceId := ascii "00000000-0000-4000-8000-000000000002"
      input := ⟨1, .source, List.replicate 64 (97 : UInt8), 5⟩
      prepared := ⟨1, .prepared, List.replicate 64 (98 : UInt8), 9⟩
      unit := 0
      start := 0
      stop := 5
      lineStart := 1
      lineEnd := 2
      startsAtLineBoundary := true
      endsAtLineBoundary := true }
    unitText := ⟨ascii "fox\"\n", by decide⟩ }

/-- Texts are cut into single bytes, and the terminals of the line are read. -/
def lineFormat : TerminalFormat where
  scoreText _ := ascii "1.0"
  serializer := ⟨fun text => text.map fun byte => [byte], List.flatMap_singleton'⟩
  parse body := [rankPrefix 1 1 [lineHit] 0, rankPrefix 1 1 [lineHit] 1].find? fun terminal =>
    Texts.terminal (fun _ => ascii "1.0") terminal = body

theorem prepareComplete_largest_sample :
    ∃ frame count, lineFormat.prepareComplete 1 1 [lineHit] = .ok frame ∧
      frame.length ≤ maxFrameBytes ∧
      lineFormat.decodeTerminalFrame frame (UInt8.ofNat maxItems) =
        .ok (rankPrefix 1 1 [lineHit] count) ∧
      IsGreatest {count | count ≤ [lineHit].length ∧
        framePrefixBytes + (lineFormat.text (rankPrefix 1 1 [lineHit] count)).length ≤
          maxFrameBytes} count := by
  have hvalid : Presentable 1 1 [lineHit] :=
    Terminal.validate_complete_iff.mp (show Terminal.validate (UInt8.ofNat maxItems)
      ⟨1, .complete 1 [lineHit] .complete⟩ = .ok () by decide +kernel)
  have hreads : lineFormat.ReadsBack 1 1 [lineHit] := by
    rintro - count hcount
    have hbound : count = 0 ∨ count = 1 := by
      have hone : [lineHit].length = 1 := rfl
      omega
    rcases hbound with rfl | rfl
    · decide +kernel
    · decide +kernel
  exact ((prepareComplete_largest hreads).resolve_left fun hrefused => hrefused.1 hvalid).2

end TerminalFormat

end EliotSearch.Query
