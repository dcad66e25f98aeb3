import EliotSearch.Session.Protocol

/-!
# Length-prefixed frames

A frame is a four-byte little-endian body length and the body.  `FrameBuffer`
collects one frame from fragments of any size; it never takes a byte of the
next one.
-/

namespace EliotSearch.Session

open EliotSearch.Library
open EliotSearch.Library.Results
open EliotSearch.Library.Words

/-! ## Whole frames -/

/-- Prefix a body with its length, refusing a frame over the ceiling. -/
def encode (maximum : Nat) (body : Bytes) : Except ProtocolError Bytes := do
  refuse (framePrefixBytes + body.length > maximum) .frameTooLarge
  return le32 (UInt32.ofNat body.length) ++ body

/-- Strip the length of a complete frame. -/
def decode (maximum : Nat) (frame : Bytes) : Except ProtocolError Bytes := do
  refuse (frame.length > maximum) .frameTooLarge
  refuse (frame.length < framePrefixBytes) .invalidFrame
  let body := leValue (frame.take framePrefixBytes)
  refuse (body = 0 ∨ body + framePrefixBytes ≠ frame.length) .invalidFrame
  return frame.drop framePrefixBytes

namespace Wire

variable (wire : Wire)

/-- Decodes one complete session data/control frame. -/
def decodeSessionFrame (frame : Bytes) : Except ProtocolError wire.Frame := do
  let body ← decode maxClientFrameBytes frame
  let message ← okOr (wire.parseFrame body) .invalidMessage
  message.validate wire.validateQuery
  return message

/-- Encodes a complete session reply, refusing partial or over-limit payloads. -/
def encodeSessionReply (reply : wire.Reply) : Except ProtocolError Bytes := do
  wire.validateReply reply
  encode maxFrameBytes (wire.printReply reply)

theorem decodeSessionFrame_id {frame : Bytes} {message : wire.Frame}
    (hdecode : wire.decodeSessionFrame frame = .ok message) : message.requestId ≠ 0 := by
  simp only [decodeSessionFrame, bind_eq_ok, okOr_eq_ok, pure_eq_ok, Except.ok.injEq] at hdecode
  obtain ⟨body, -, found, -, _, hvalid, rfl⟩ := hdecode
  simp only [SessionClientFrame.validate, bind_eq_ok, refuse_eq_ok] at hvalid
  exact hvalid.choose_spec.1

end Wire

/-! ## Fragments -/

/-- The bytes of one frame received so far: those of its length and, once that
is known, those of the whole frame. -/
structure FrameBuffer where
  stem : Bytes
  bytes : Bytes
  total : Nat
  maximum : Nat
  deriving DecidableEq

namespace FrameBuffer

def new (maximum : Nat) : Except ProtocolError FrameBuffer := do
  refuse (maximum < framePrefixBytes + 1 ∨ maximum > maxFrameBytes) .frameTooLarge
  return ⟨[], [], 0, maximum⟩

/-- Copy the rest of the declared frame. -/
def fill (buffer : FrameBuffer) (consumed : Nat) (input : Bytes) : FrameBuffer × Nat :=
  let count := min (buffer.total - buffer.bytes.length) (input.length - consumed)
  ({ buffer with bytes := buffer.bytes ++ (input.drop consumed).take count }, consumed + count)

/-- Copies the next fragment, rejecting its declared length before allocating,
and returns how much of the input was taken. -/
def push (buffer : FrameBuffer) (input : Bytes) : Except ProtocolError (FrameBuffer × Nat) :=
  if buffer.stem.length < framePrefixBytes then do
    let count := min (framePrefixBytes - buffer.stem.length) input.length
    let stem := buffer.stem ++ input.take count
    if stem.length ≠ framePrefixBytes then return ({ buffer with stem }, count)
    else do
      let body := leValue stem
      refuse (body = 0) .invalidFrame
      refuse (body + framePrefixBytes > buffer.maximum) .frameTooLarge
      return fill { buffer with stem, bytes := stem, total := body + framePrefixBytes } count input
  else return fill buffer 0 input

/-- Whether no byte has yet been received. -/
def isEmpty (buffer : FrameBuffer) : Bool := buffer.stem.isEmpty

/-- Whether the declared frame has arrived in full. -/
def isComplete (buffer : FrameBuffer) : Bool :=
  !buffer.bytes.isEmpty && buffer.bytes.length == buffer.total

/-- The complete prefix and body, available only after full reception. -/
def frame (buffer : FrameBuffer) : Option Bytes :=
  if buffer.isComplete then some buffer.bytes else none

/-! ### What a buffer holds -/

/-- Every byte taken so far. -/
def received (buffer : FrameBuffer) : Bytes :=
  if buffer.stem.length < framePrefixBytes then buffer.stem else buffer.bytes

/-- A buffer with the length of its frame: the stem is the front of the bytes and
spells the total. -/
structure Sized (buffer : FrameBuffer) : Prop where
  stem : buffer.stem = buffer.bytes.take framePrefixBytes
  long : framePrefixBytes ≤ buffer.bytes.length
  total : buffer.total = leValue buffer.stem + framePrefixBytes
  bounded : buffer.bytes.length ≤ buffer.total

/-- A buffer that waits for more bytes of its frame. -/
inductive Awaits (buffer : FrameBuffer) : Prop where
  | header (hshort : buffer.stem.length < framePrefixBytes) (hbytes : buffer.bytes = [])
  | body (hsized : buffer.Sized) (hopen : buffer.bytes.length < buffer.total)

theorem Sized.received {buffer : FrameBuffer} (hsized : buffer.Sized) :
    buffer.received = buffer.bytes := by
  have hstem : ¬ buffer.stem.length < framePrefixBytes := by
    rw [hsized.stem, List.length_take]
    have hlong := hsized.long
    omega
  rw [FrameBuffer.received, if_neg hstem]

/-- A sized buffer is complete, or waits for the rest. -/
theorem Sized.cases {buffer : FrameBuffer} (hsized : buffer.Sized) :
    (buffer.Awaits ∧ buffer.frame = none) ∨ buffer.frame = some buffer.bytes := by
  have hnonempty : buffer.bytes ≠ [] := by
    have hlong := hsized.long
    rintro hempty
    rw [hempty] at hlong
    cases hlong
  have hcomplete : buffer.isComplete = decide (buffer.bytes.length = buffer.total) := by
    have hfilled : buffer.bytes.isEmpty = false := by simpa using hnonempty
    rw [Bool.eq_iff_iff, isComplete, hfilled]
    simp
  rcases hsized.bounded.lt_or_eq with hopen | hfull
  · refine Or.inl ⟨.body hsized hopen, ?_⟩
    rw [frame, hcomplete, decide_eq_false hopen.ne]
    rfl
  · refine Or.inr ?_
    rw [frame, hcomplete, decide_eq_true hfull]
    rfl

/-- A buffer that waits for more, or holds its frame. -/
def Waits (buffer : FrameBuffer) : Prop :=
  (buffer.Awaits ∧ buffer.frame = none) ∨ (buffer.Sized ∧ buffer.frame = some buffer.received)

/-- Filling takes what is left of the frame or of the input. -/
theorem fill_spec {buffer : FrameBuffer} (hsized : buffer.Sized) (consumed : Nat) (input : Bytes) :
    ∃ count, (buffer.fill consumed input).2 = consumed + count ∧
      count ≤ input.length - consumed ∧
      (buffer.fill consumed input).1.received =
        buffer.bytes ++ (input.drop consumed).take count ∧
      (buffer.bytes.length < buffer.total → consumed < input.length → 0 < count) ∧
      (buffer.fill consumed input).1.Waits := by
  have hbounded := hsized.bounded
  have hnext : (buffer.fill consumed input).1.Sized := by
    refine ⟨?_, ?_, hsized.total, ?_⟩
    · change buffer.stem = (buffer.bytes ++ _).take framePrefixBytes
      rw [List.take_append_of_le_length hsized.long]
      exact hsized.stem
    · change framePrefixBytes ≤ (buffer.bytes ++ _).length
      rw [List.length_append]
      exact hsized.long.trans (Nat.le_add_right _ _)
    · change (buffer.bytes ++ _).length ≤ buffer.total
      rw [List.length_append, List.length_take, List.length_drop]
      omega
  refine ⟨_, rfl, Nat.min_le_right _ _, hnext.received, ?_, ?_⟩
  · intro hopen hmore
    omega
  · rw [Waits, hnext.received]
    exact hnext.cases.imp_right fun hframe => ⟨hnext, hframe⟩

/-- A buffer that waits takes a part of the input that is not empty; then it
waits again, or holds the frame. -/
theorem push_spec {buffer next : FrameBuffer} {input : Bytes} {count : Nat}
    (hbuffer : buffer.Awaits) (hinput : input ≠ []) (hpush : buffer.push input = .ok (next, count)) :
    0 < count ∧ count ≤ input.length ∧
      next.received = buffer.received ++ input.take count ∧ next.Waits := by
  have hpositive : 0 < input.length := List.length_pos_iff.mpr hinput
  cases hbuffer with
  | header hshort hbytes =>
      rw [push, if_pos hshort] at hpush
      dsimp only at hpush
      have hreceived : buffer.received = buffer.stem := if_pos hshort
      rw [hreceived]
      set taken := min (framePrefixBytes - buffer.stem.length) input.length with htaken
      have hstemLength : (buffer.stem ++ input.take taken).length =
          buffer.stem.length + taken := by
        rw [List.length_append, List.length_take]
        omega
      split at hpush
      · rename_i hshorter
        obtain ⟨rfl, rfl⟩ := Prod.mk.inj (Except.ok.inj hpush)
        have hstill : (buffer.stem ++ input.take taken).length < framePrefixBytes := by
          rw [hstemLength] at hshorter ⊢
          omega
        refine ⟨by omega, by omega, if_pos hstill, Or.inl ⟨.header hstill hbytes, ?_⟩⟩
        simp [frame, isComplete, hbytes]
      · rename_i hfull
        simp only [bind_eq_ok, refuse_eq_ok] at hpush
        obtain ⟨_, hbody, _, hmaximum, hpush⟩ := hpush
        have hexact : (buffer.stem ++ input.take taken).length = framePrefixBytes :=
          not_not.mp hfull
        have hsized : Sized { buffer with
            stem := buffer.stem ++ input.take taken, bytes := buffer.stem ++ input.take taken
            total := leValue (buffer.stem ++ input.take taken) + framePrefixBytes } :=
          { stem := (List.take_of_length_le hexact.le).symm
            long := hexact.ge
            total := rfl
            bounded := hexact.le.trans (Nat.le_add_left _ _) }
        obtain ⟨more, hcount, hmore, hnext, -, hwaits⟩ := fill_spec hsized taken input
        rw [Except.ok.inj hpush] at hcount hnext hwaits
        dsimp only at hcount hnext hwaits
        rw [hcount]
        refine ⟨by omega, by omega, ?_, hwaits⟩
        rw [hnext, List.take_add, List.append_assoc]
  | body hsized hopen =>
      have hstem : ¬ buffer.stem.length < framePrefixBytes := by
        rw [hsized.stem, List.length_take]
        have hlong := hsized.long
        omega
      rw [push, if_neg hstem] at hpush
      obtain ⟨more, hcount, hmore, hnext, hmoves, hwaits⟩ := fill_spec hsized 0 input
      rw [Except.ok.inj hpush] at hcount hnext hwaits
      dsimp only at hcount hnext hwaits
      rw [hcount, Nat.zero_add]
      refine ⟨hmoves hopen hpositive, by omega, ?_, hwaits⟩
      rw [hnext, hsized.received, List.drop_zero]

theorem awaits_empty (maximum : Nat) : Awaits ⟨[], [], 0, maximum⟩ :=
  .header (Nat.zero_lt_succ 3) rfl

end FrameBuffer

end EliotSearch.Session
