import EliotSearch.Library.Indexing
import EliotSearch.Query.OneShot
import EliotSearch.Session.Exchange

/-!
# Reassembly of frames

A stream is fed to a buffer read by read, with a fresh buffer behind each frame.
The bytes of the unfinished frame determine the buffer, so the frames, the buffer
that is left and the first error are those of the whole stream, wherever the reads
end.
-/

namespace EliotSearch.Session

open EliotSearch.Library
open EliotSearch.Library.Indexing
open EliotSearch.Library.Json
open EliotSearch.Library.Results
open EliotSearch.Library.Words

namespace FrameBuffer

/-! ## The front of a stream -/

/-- What the bytes of a stream say of its first frame. -/
inductive Front where
  | partly
  | refused (error : ProtocolError)
  | whole (length : Nat)
  deriving DecidableEq

def front (maximum : Nat) (stream : Bytes) : Front :=
  if stream.length < framePrefixBytes then .partly
  else
    let body := leValue (stream.take framePrefixBytes)
    if body = 0 then .refused .invalidFrame
    else if body + framePrefixBytes > maximum then .refused .frameTooLarge
    else if stream.length < body + framePrefixBytes then .partly
    else .whole (body + framePrefixBytes)

/-- The buffer that holds the bytes of a frame. -/
def holding (maximum : Nat) (bytes : Bytes) : FrameBuffer :=
  if bytes.length < framePrefixBytes then ⟨bytes, [], 0, maximum⟩
  else
    ⟨bytes.take framePrefixBytes, bytes,
      leValue (bytes.take framePrefixBytes) + framePrefixBytes, maximum⟩

section Pushes

variable {maximum : Nat} {held input : Bytes}

theorem holding_header (hshort : held.length < framePrefixBytes) :
    holding maximum held = ⟨held, [], 0, maximum⟩ :=
  if_pos hshort

theorem holding_body (hlong : ¬ held.length < framePrefixBytes) :
    holding maximum held = ⟨held.take framePrefixBytes, held,
      leValue (held.take framePrefixBytes) + framePrefixBytes, maximum⟩ :=
  if_neg hlong

/-- The length of a frame is known from its first bytes. -/
theorem take_prefix_append (hlong : ¬ held.length < framePrefixBytes) (input : Bytes) :
    (held ++ input).take framePrefixBytes = held.take framePrefixBytes :=
  List.take_append_of_le_length (not_lt.mp hlong)

/-- Filling takes up to the end of the frame. -/
theorem fill_holding {whole : Bytes} {consumed : Nat} (hlong : ¬ held.length < framePrefixBytes)
    (hwhole : whole = held ++ input.drop consumed) (hconsumed : consumed ≤ input.length)
    (hopen : held.length ≤ leValue (held.take framePrefixBytes) + framePrefixBytes) :
    let total := leValue (held.take framePrefixBytes) + framePrefixBytes
    fill (holding maximum held) consumed input =
      if whole.length < total then (holding maximum whole, input.length)
      else (holding maximum (whole.take total), consumed + (total - held.length)) := by
  intro total
  have hlength : whole.length = held.length + (input.length - consumed) := by
    rw [hwhole, List.length_append, List.length_drop]
  have hstem : whole.take framePrefixBytes = held.take framePrefixBytes := by
    rw [hwhole, take_prefix_append hlong]
  have hlongWhole : ¬ whole.length < framePrefixBytes := by omega
  rw [holding_body hlong, fill]
  dsimp only
  by_cases hshort : whole.length < total
  · have hcount :
        min (total - held.length) (input.length - consumed) = input.length - consumed := by
      omega
    have hrest : (input.drop consumed).take (input.length - consumed) = input.drop consumed :=
      List.take_of_length_le (by rw [List.length_drop])
    rw [if_pos hshort, holding_body hlongWhole, hcount, hrest, hstem, ← hwhole]
    exact congrArg (Prod.mk _) (by omega)
  · have hcount : min (total - held.length) (input.length - consumed) = total - held.length := by
      omega
    have htaken : held ++ (input.drop consumed).take (total - held.length) = whole.take total := by
      rw [hwhole, List.take_append, List.take_of_length_le hopen]
    have htotal : (whole.take total).length = total := List.length_take_of_le (by omega)
    have hlongTaken : ¬ (whole.take total).length < framePrefixBytes := by
      rw [htotal]
      exact not_lt.mpr (Nat.le_add_left _ _)
    have hstemTaken : (whole.take total).take framePrefixBytes = held.take framePrefixBytes := by
      rw [List.take_take, Nat.min_eq_left (Nat.le_add_left _ _), hstem]
    rw [if_neg hshort, holding_body hlongTaken, hcount, hstemTaken, htaken]

/-- What a push makes of the bytes received with it. -/
def pushed (maximum : Nat) (held input : Bytes) : Except ProtocolError (FrameBuffer × Nat) :=
  match front maximum (held ++ input) with
  | .partly => .ok (holding maximum (held ++ input), input.length)
  | .refused error => .error error
  | .whole length => .ok (holding maximum ((held ++ input).take length), length - held.length)

/-- The fragment with the last byte of a length shows the length. -/
theorem push_length (hshort : held.length < framePrefixBytes)
    (hfull : ¬ (held ++ input).length < framePrefixBytes) :
    push (holding maximum held) input = pushed maximum held input := by
  have hlength : (held ++ input).length = held.length + input.length := List.length_append
  set taken := framePrefixBytes - held.length with htaken
  have hcount : min taken input.length = taken := by omega
  have hstem : held ++ input.take taken = (held ++ input).take framePrefixBytes := by
    rw [List.take_append, List.take_of_length_le hshort.le]
  have hexact : ((held ++ input).take framePrefixBytes).length = framePrefixBytes :=
    List.length_take_of_le (not_lt.mp hfull)
  rw [holding_header hshort, push, if_pos hshort]
  dsimp only
  rw [← htaken, hcount, hstem, if_neg (not_not.mpr hexact), pushed, front, if_neg hfull]
  dsimp only
  set body := leValue ((held ++ input).take framePrefixBytes) with hbody
  by_cases hzero : body = 0
  · rw [if_pos hzero, refuse_of hzero]
    rfl
  rw [refuse_of_not hzero, ok_bind, if_neg hzero]
  by_cases hlarge : body + framePrefixBytes > maximum
  · rw [if_pos hlarge, refuse_of hlarge]
    rfl
  rw [refuse_of_not hlarge, ok_bind, if_neg hlarge, pure_eq_ok]
  have hlongStem : ¬ ((held ++ input).take framePrefixBytes).length < framePrefixBytes := by
    rw [hexact]
    exact lt_irrefl _
  have hwhole : held ++ input = (held ++ input).take framePrefixBytes ++ input.drop taken := by
    rw [← hstem, List.append_assoc, List.take_append_drop]
  have hself : ((held ++ input).take framePrefixBytes).take framePrefixBytes =
      (held ++ input).take framePrefixBytes := List.take_of_length_le hexact.le
  have hholding := @holding_body maximum _ hlongStem
  have hfill := @fill_holding maximum _ _ _ _ hlongStem hwhole (by omega) (by
    rw [hexact]
    exact Nat.le_add_left _ _)
  rw [hself] at hholding hfill
  rw [← hholding, hfill, ← hbody, hexact]
  by_cases hopen : (held ++ input).length < body + framePrefixBytes
  · rw [if_pos hopen, if_pos hopen]
  · rw [if_neg hopen, if_neg hopen]
    exact congrArg (fun count => Except.ok (_, count)) (by omega)

/-- Behind its length, a frame takes what is left of it. -/
theorem push_body (hlong : ¬ held.length < framePrefixBytes)
    (hheld : front maximum held = .partly) :
    push (holding maximum held) input = pushed maximum held input := by
  have hlength : (held ++ input).length = held.length + input.length := List.length_append
  have hlongWhole : ¬ (held ++ input).length < framePrefixBytes := by omega
  have hstem := take_prefix_append hlong input
  have hlongStem : ¬ (held.take framePrefixBytes).length < framePrefixBytes := by
    rw [List.length_take_of_le (not_lt.mp hlong)]
    exact lt_irrefl _
  rw [front, if_neg hlong] at hheld
  rw [pushed, front, if_neg hlongWhole, hstem, push, holding_body hlong, if_neg hlongStem,
    ← holding_body hlong]
  dsimp only at hheld ⊢
  split at hheld
  · cases hheld
  · next hzero =>
    rw [if_neg hzero]
    split at hheld
    · cases hheld
    · next hlarge =>
      rw [if_neg hlarge]
      split at hheld
      · next hopen =>
        have hfill := @fill_holding maximum held input (held ++ input) 0 hlong
          (by rw [List.drop_zero]) (Nat.zero_le _) hopen.le
        rw [hfill, pure_eq_ok]
        by_cases hstill : (held ++ input).length <
            leValue (held.take framePrefixBytes) + framePrefixBytes
        · rw [if_pos hstill, if_pos hstill]
        · rw [if_neg hstill, if_neg hstill, Nat.zero_add]
      · cases hheld

/-- A fragment is taken up to the end of the frame that it goes on with. -/
theorem push_holding (hheld : front maximum held = .partly) (input : Bytes) :
    push (holding maximum held) input = pushed maximum held input := by
  by_cases hshort : held.length < framePrefixBytes
  · by_cases hstill : (held ++ input).length < framePrefixBytes
    · have hlength : (held ++ input).length = held.length + input.length := List.length_append
      have hcount : min (framePrefixBytes - held.length) input.length = input.length := by omega
      rw [holding_header hshort, push, if_pos hshort]
      dsimp only
      rw [hcount, List.take_length, if_pos hstill.ne, pushed, front, if_pos hstill,
        holding_header hstill]
      rfl
    · exact push_length hshort hstill
  · exact push_body hshort hheld

/-- A frame that has arrived in full takes nothing more. -/
theorem push_complete (hheld : front maximum held = .whole held.length) (input : Bytes) :
    push (holding maximum held) input = .ok (holding maximum held, 0) := by
  rw [front] at hheld
  split at hheld
  · cases hheld
  next hlong =>
  have hlongStem : ¬ (held.take framePrefixBytes).length < framePrefixBytes := by
    rw [List.length_take_of_le (not_lt.mp hlong)]
    exact lt_irrefl _
  have htotal : leValue (held.take framePrefixBytes) + framePrefixBytes = held.length := by
    dsimp only at hheld
    split at hheld
    · cases hheld
    · split at hheld
      · cases hheld
      · split at hheld
        · cases hheld
        · exact Front.whole.inj hheld
  have hfill := @fill_holding maximum held input (held ++ input.drop 0) 0 hlong rfl
    (Nat.zero_le _) htotal.ge
  have hlength : ¬ (held ++ input.drop 0).length < held.length := by
    rw [List.length_append]
    exact not_lt.mpr (Nat.le_add_right _ _)
  rw [push, holding_body hlong, if_neg hlongStem, ← holding_body hlong, hfill, htotal,
    if_neg hlength, List.take_left, Nat.sub_self]
  rfl

end Pushes

/-! ## Feeding a stream -/

/-- The frames that a stream completes, and the buffer behind them or the first error. -/
structure Parsed where
  frames : List Bytes
  ending : Except ProtocolError FrameBuffer

def Parsed.after (frame : Bytes) (parsed : Parsed) : Parsed :=
  { parsed with frames := frame :: parsed.frames }

/-- One round of `consume`: the buffer, the frame that is completed, and what is left of
the read. -/
def round {ε : Type} (report : ProtocolError → ε) (stuck : ε) (maximum : Nat)
    (buffer : FrameBuffer) (bytes : Bytes) : Except ε (FrameBuffer × Option Bytes × Bytes) := do
  let (input, count) ← (buffer.push bytes).mapError report
  refuse (count = 0) stuck
  match input.frame with
  | none => return (input, none, bytes.drop count)
  | some frame => do
      let fresh ← (FrameBuffer.new maximum).mapError report
      return (fresh, some frame, bytes.drop count)

/-- Take the frames of one read. -/
def consume (maximum : Nat) : (fuel : Nat) → FrameBuffer → Bytes → Parsed
  | 0, buffer, _ => ⟨[], .ok buffer⟩
  | fuel + 1, buffer, bytes =>
      if bytes = [] then ⟨[], .ok buffer⟩
      else
        match round id .invalidFrame maximum buffer bytes with
        | .error error => ⟨[], .error error⟩
        | .ok (buffer, none, rest) => consume maximum fuel buffer rest
        | .ok (buffer, some frame, rest) => (consume maximum fuel buffer rest).after frame

/-- Take the frames of the reads until the first error. -/
def feed (maximum : Nat) : FrameBuffer → List Bytes → Parsed
  | buffer, [] => ⟨[], .ok buffer⟩
  | buffer, read :: reads =>
      let first := consume maximum read.length buffer read
      match first.ending with
      | .error error => ⟨first.frames, .error error⟩
      | .ok buffer =>
          let rest := feed maximum buffer reads
          ⟨first.frames ++ rest.frames, rest.ending⟩

/-- The frames of a whole stream. -/
def parseStream (maximum : Nat) : (fuel : Nat) → Bytes → Parsed
  | 0, stream => ⟨[], .ok (holding maximum stream)⟩
  | fuel + 1, stream =>
      match front maximum stream with
      | .partly => ⟨[], .ok (holding maximum stream)⟩
      | .refused error => ⟨[], .error error⟩
      | .whole length =>
          (parseStream maximum fuel (stream.drop length)).after (stream.take length)

def parse (maximum : Nat) (stream : Bytes) : Parsed := parseStream maximum stream.length stream

section Streams

variable {maximum : Nat} {stream held : Bytes}

/-- A first frame is there from its length to its end. -/
theorem front_whole_iff {length : Nat} :
    front maximum stream = .whole length ↔
      framePrefixBytes < length ∧ length ≤ maximum ∧ length ≤ stream.length ∧
        length = leValue (stream.take framePrefixBytes) + framePrefixBytes := by
  unfold front
  constructor
  · intro hfront
    dsimp only at hfront
    split at hfront
    · cases hfront
    · split at hfront
      · cases hfront
      · split at hfront
        · cases hfront
        · split at hfront
          · cases hfront
          · have hlength := Front.whole.inj hfront
            omega
  · rintro ⟨hlong, hlarge, hwithin, hlength⟩
    dsimp only
    rw [if_neg (by omega), if_neg (by omega), if_neg (by omega), if_neg (by omega), hlength]

/-- What is known of the first frame does not change with what follows. -/
theorem front_append (hstream : front maximum stream ≠ .partly) (rest : Bytes) :
    front maximum (stream ++ rest) = front maximum stream := by
  by_cases hshort : stream.length < framePrefixBytes
  · exact absurd (if_pos hshort) hstream
  · have hlong : ¬ (stream ++ rest).length < framePrefixBytes := by
      rw [List.length_append]
      omega
    have hstem := take_prefix_append hshort rest
    unfold front at hstream ⊢
    rw [if_neg hshort] at hstream ⊢
    rw [if_neg hlong, hstem]
    dsimp only at hstream ⊢
    split
    · rfl
    next hzero =>
    rw [if_neg hzero] at hstream
    split
    · rfl
    next hlarge =>
    rw [if_neg hlarge] at hstream
    by_cases hopen : stream.length < leValue (stream.take framePrefixBytes) + framePrefixBytes
    · exact absurd (if_pos hopen) hstream
    · rw [if_neg hopen, if_neg (by rw [List.length_append]; omega)]

/-- A frame alone is whole. -/
theorem front_take {length : Nat} (hstream : front maximum stream = .whole length) :
    (stream.take length).length = length ∧
      front maximum (stream.take length) = .whole (stream.take length).length := by
  obtain ⟨hlong, hlarge, hwithin, hlength⟩ := front_whole_iff.mp hstream
  have htaken : (stream.take length).length = length := List.length_take_of_le hwithin
  refine ⟨htaken, ?_⟩
  rw [htaken, front_whole_iff, htaken, List.take_take, Nat.min_eq_left hlong.le]
  exact ⟨hlong, hlarge, le_rfl, hlength⟩

/-- A frame ends behind what was held before its end. -/
theorem held_lt {length : Nat} {input : Bytes} (hheld : front maximum held = .partly)
    (hstream : front maximum (held ++ input) = .whole length) : held.length < length := by
  by_contra hge
  obtain ⟨hlong, hlarge, -, hlength⟩ := front_whole_iff.mp hstream
  have hstem := take_prefix_append (by omega : ¬ held.length < framePrefixBytes) input
  have hwhole : front maximum held = .whole length :=
    front_whole_iff.mpr ⟨hlong, hlarge, not_lt.mp hge, by rw [hlength, hstem]⟩
  rw [hheld] at hwhole
  cases hwhole

theorem front_nil : front maximum [] = .partly := rfl

/-- What is held of an unfinished frame is shorter than the frame. -/
theorem partly_lt (hheld : front maximum held = .partly)
    (hlong : ¬ held.length < framePrefixBytes) :
    held.length < leValue (held.take framePrefixBytes) + framePrefixBytes := by
  by_contra hlarge
  unfold front at hheld
  rw [if_neg hlong] at hheld
  dsimp only at hheld
  split at hheld
  · cases hheld
  · split at hheld
    · cases hheld
    · cases hheld

theorem frame_partly (hheld : front maximum held = .partly) :
    (holding maximum held).frame = none := by
  by_cases hshort : held.length < framePrefixBytes
  · rw [holding_header hshort]
    rfl
  · have hopen : held.length ≠ leValue (held.take framePrefixBytes) + framePrefixBytes :=
      (partly_lt hheld hshort).ne
    rw [holding_body hshort, frame, isComplete]
    simp [hopen]

theorem frame_whole (hheld : front maximum held = .whole held.length) :
    (holding maximum held).frame = some held := by
  obtain ⟨hlong, -, -, hlength⟩ := front_whole_iff.mp hheld
  have hnonempty : held ≠ [] := by
    rintro rfl
    cases hlong
  rw [holding_body (by omega), frame, isComplete]
  simp [hnonempty, hlength.symm]

/-- Enough rounds take all frames of the stream. -/
theorem parseStream_eq (fuel : Nat) (hfuel : stream.length ≤ fuel) :
    parseStream maximum fuel stream = parse maximum stream := by
  have hgeneral : ∀ (first second : Nat) (stream : Bytes), stream.length ≤ first →
      stream.length ≤ second →
      parseStream maximum first stream = parseStream maximum second stream := by
    intro first
    induction first with
    | zero =>
        intro second stream hfirst _
        obtain rfl := List.eq_nil_of_length_eq_zero (Nat.le_zero.mp hfirst)
        cases second with
        | zero => rfl
        | succ second => rfl
    | succ first ih =>
        intro second stream hfirst hsecond
        cases second with
        | zero =>
            obtain rfl := List.eq_nil_of_length_eq_zero (Nat.le_zero.mp hsecond)
            rfl
        | succ second =>
            rw [parseStream, parseStream]
            cases hfront : front maximum stream with
            | partly => rfl
            | refused error => rfl
            | whole length =>
                obtain ⟨hlong, -, hwithin, -⟩ := front_whole_iff.mp hfront
                have hrest : (stream.drop length).length < stream.length := by
                  rw [List.length_drop]
                  omega
                exact congrArg (Parsed.after (stream.take length))
                  (ih second (stream.drop length) (by omega) (by omega))
  exact hgeneral fuel stream.length stream hfuel le_rfl

/-- A stream is parsed frame by frame. -/
theorem parse_eq :
    parse maximum stream =
      match front maximum stream with
      | .partly => ⟨[], .ok (holding maximum stream)⟩
      | .refused error => ⟨[], .error error⟩
      | .whole length => (parse maximum (stream.drop length)).after (stream.take length) := by
  rw [← parseStream_eq (stream.length + 1) (Nat.le_succ _), parseStream]
  cases hfront : front maximum stream with
  | partly => rfl
  | refused error => rfl
  | whole length =>
      dsimp only
      rw [parseStream_eq _ (by rw [List.length_drop]; exact Nat.sub_le _ _)]

theorem parse_partly (hstream : front maximum stream = .partly) :
    parse maximum stream = ⟨[], .ok (holding maximum stream)⟩ := by
  rw [parse_eq, hstream]

theorem parse_whole {length : Nat} (hstream : front maximum stream = .whole length) :
    parse maximum stream =
      (parse maximum (stream.drop length)).after (stream.take length) := by
  rw [parse_eq, hstream]

/-- A stream is parsed up to any place of it: there is its first error, or the rest of it
goes on with the unfinished frame. -/
theorem parse_append (first second : Bytes) :
    (∃ error, (parse maximum first).ending = .error error ∧
      parse maximum (first ++ second) = parse maximum first) ∨
    ∃ held, (parse maximum first).ending = .ok (holding maximum held) ∧
      front maximum held = .partly ∧
      parse maximum (first ++ second) =
        ⟨(parse maximum first).frames ++ (parse maximum (held ++ second)).frames,
          (parse maximum (held ++ second)).ending⟩ := by
  generalize hsize : first.length = size
  induction size using Nat.strong_induction_on generalizing first with
  | _ size ih =>
      subst hsize
      cases hfront : front maximum first with
      | partly =>
          rw [parse_partly hfront]
          exact Or.inr ⟨first, rfl, hfront, rfl⟩
      | refused error =>
          have hwhole := front_append (by rw [hfront]; simp) second
          refine Or.inl ⟨error, ?_, ?_⟩
          · rw [parse_eq, hfront]
          · rw [parse_eq, parse_eq, hwhole, hfront]
      | whole length =>
          obtain ⟨hlong, -, hwithin, -⟩ := front_whole_iff.mp hfront
          have hwhole : front maximum (first ++ second) = .whole length := by
            rw [front_append (by rw [hfront]; simp), hfront]
          have hrest : (first.drop length).length < first.length := by
            rw [List.length_drop]
            omega
          have hstep := ih _ hrest (first.drop length) rfl
          rw [parse_whole hfront, parse_whole hwhole, List.drop_append_of_le_length hwithin,
            List.take_append_of_le_length hwithin]
          rcases hstep with ⟨error, hending, hparse⟩ | ⟨held, hending, hheld, hparse⟩
          · exact Or.inl ⟨error, hending, congrArg _ hparse⟩
          · refine Or.inr ⟨held, hending, hheld, ?_⟩
            rw [hparse]
            rfl

end Streams

section Feeding

variable {maximum : Nat} {held : Bytes}

theorem new_eq {buffer : FrameBuffer} (hmaximum : FrameBuffer.new maximum = .ok buffer) :
    buffer = holding maximum [] := by
  simp only [FrameBuffer.new, bind_eq_ok, pure_eq_ok, Except.ok.injEq] at hmaximum
  obtain ⟨_, -, rfl⟩ := hmaximum
  rfl

theorem consume_nil (fuel : Nat) (buffer : FrameBuffer) :
    consume maximum fuel buffer [] = ⟨[], .ok buffer⟩ := by
  cases fuel with
  | zero => rfl
  | succ fuel => rw [consume, if_pos rfl]

/-- A read goes on with the stream where the reads before it stopped. -/
theorem consume_eq {fresh : FrameBuffer} {fuel : Nat} {input : Bytes}
    (hnew : FrameBuffer.new maximum = .ok fresh) (hheld : front maximum held = .partly)
    (hfuel : input.length ≤ fuel) :
    consume maximum fuel (holding maximum held) input = parse maximum (held ++ input) := by
  induction fuel generalizing held input with
  | zero =>
      obtain rfl := List.eq_nil_of_length_eq_zero (Nat.le_zero.mp hfuel)
      rw [consume_nil, List.append_nil, parse_partly hheld]
  | succ fuel ih =>
      by_cases hempty : input = []
      · rw [hempty, consume_nil, List.append_nil, parse_partly hheld]
      have hpositive : 0 < input.length := List.length_pos_iff.mpr hempty
      rw [consume, if_neg hempty, round, push_holding hheld, pushed]
      cases hfront : front maximum (held ++ input) with
      | partly =>
          have hcount : ¬ input.length = 0 := Nat.ne_of_gt hpositive
          dsimp only [Except.mapError]
          rw [ok_bind, refuse_of_not hcount, ok_bind, frame_partly hfront, List.drop_length]
          dsimp only [pure_eq_ok]
          rw [consume_nil, parse_partly hfront]
      | refused error =>
          rw [parse_eq, hfront]
          rfl
      | whole length =>
          have hlt := held_lt hheld hfront
          have hcount : ¬ length - held.length = 0 := by omega
          obtain ⟨-, hself⟩ := front_take hfront
          have hrest : (held ++ input).drop length = input.drop (length - held.length) := by
            rw [List.drop_append, List.drop_of_length_le hlt.le, List.nil_append]
          dsimp only [Except.mapError]
          rw [ok_bind, refuse_of_not hcount, ok_bind, frame_whole hself, hnew, parse_whole hfront,
            hrest]
          dsimp only [pure_eq_ok, Except.mapError]
          rw [ok_bind]
          dsimp only
          rw [new_eq hnew, ih front_nil (by rw [List.length_drop]; omega), List.nil_append]

/-- Wherever the reads end, they leave what the whole stream leaves. -/
theorem feed_eq {fresh : FrameBuffer} (hnew : FrameBuffer.new maximum = .ok fresh)
    (hheld : front maximum held = .partly) (reads : List Bytes) :
    feed maximum (holding maximum held) reads = parse maximum (held ++ reads.flatten) := by
  induction reads generalizing held with
  | nil => rw [feed, List.flatten_nil, List.append_nil, parse_partly hheld]
  | cons read reads ih =>
      rw [feed, consume_eq hnew hheld le_rfl, List.flatten_cons, ← List.append_assoc]
      rcases @parse_append maximum (held ++ read) reads.flatten with
        ⟨error, hending, hparse⟩ | ⟨left, hending, hleft, hparse⟩
      · rw [hparse, hending]
        dsimp only
        rw [← hending]
      · rw [hparse, hending]
        dsimp only
        rw [ih hleft]

end Feeding

end FrameBuffer

/-! ## Arrays -/

/-- The arrays of a buffer and how much of them is used. -/
structure RawBuffer where
  stem : Bytes
  stemUsed : Nat
  bytes : Bytes
  used : Nat
  maximum : Nat

namespace RawBuffer

/-- Copy the rest of the declared frame. -/
def fill (buffer : RawBuffer) (consumed : Nat) (input : Bytes) :
    Except (Abort ProtocolError) (RawBuffer × Nat) := do
  let open_ ← minus buffer.bytes.length buffer.used
  let left ← minus input.length consumed
  let count := min open_ left
  let fragment ← slice input consumed (consumed + count)
  let bytes ← copyInto buffer.bytes buffer.used (buffer.used + count) fragment
  return ({ buffer with bytes, used := buffer.used + count }, consumed + count)

/-- Copy what there is of the length. -/
def takeStem (buffer : RawBuffer) (input : Bytes) :
    Except (Abort ProtocolError) (RawBuffer × Nat) := do
  let missing ← minus framePrefixBytes buffer.stemUsed
  let count := min missing input.length
  let fragment ← slice input 0 count
  let stem ← copyInto buffer.stem buffer.stemUsed (buffer.stemUsed + count) fragment
  return ({ buffer with stem, stemUsed := buffer.stemUsed + count }, count)

/-- Reject the declared length, or make room for the frame. -/
def declare (buffer : RawBuffer) : Except (Abort ProtocolError) RawBuffer := do
  let body := leValue buffer.stem
  refuse (body = 0) (.failed .invalidFrame)
  refuse (body + framePrefixBytes > buffer.maximum) (.failed .frameTooLarge)
  let total := body + framePrefixBytes
  let resized := (buffer.bytes ++ List.replicate total 0).take total
  let bytes ← copyInto resized 0 framePrefixBytes buffer.stem
  return { buffer with bytes, used := framePrefixBytes }

def push (buffer : RawBuffer) (input : Bytes) : Except (Abort ProtocolError) (RawBuffer × Nat) :=
  if buffer.stemUsed < framePrefixBytes then do
    let (buffer, count) ← buffer.takeStem input
    if buffer.stemUsed ≠ framePrefixBytes then return (buffer, count)
    else do
      let buffer ← buffer.declare
      buffer.fill count input
  else buffer.fill 0 input

end RawBuffer

namespace FrameBuffer

/-- The arrays of a buffer, with zeros where nothing has been received. -/
def raw (buffer : FrameBuffer) : RawBuffer where
  stem := buffer.stem ++ List.replicate (framePrefixBytes - buffer.stem.length) 0
  stemUsed := buffer.stem.length
  bytes := buffer.bytes ++ List.replicate (buffer.total - buffer.bytes.length) 0
  used := buffer.bytes.length
  maximum := buffer.maximum

/-- The arrays behind a push. -/
def rawPushed (pushed : FrameBuffer × Nat) : RawBuffer × Nat := (pushed.1.raw, pushed.2)

section Arrays

variable {buffer : FrameBuffer} {input : Bytes} {consumed : Nat}

theorem raw_fill (hbounded : buffer.bytes.length ≤ buffer.total)
    (hconsumed : consumed ≤ input.length) :
    buffer.raw.fill consumed input = .ok (rawPushed (buffer.fill consumed input)) := by
  have hlength : buffer.raw.bytes.length = buffer.total := by
    rw [raw, List.length_append, List.length_replicate]
    omega
  set count := min (buffer.total - buffer.bytes.length) (input.length - consumed) with hcount
  have hfragment : ((input.drop consumed).take count).length = count := by
    rw [List.length_take, List.length_drop]
    omega
  have hcopy := @copyInto_append ProtocolError _ buffer.bytes ((input.drop consumed).take count)
    (List.replicate (buffer.total - buffer.bytes.length) 0) (by
      rw [hfragment, List.length_replicate]
      exact Nat.min_le_left _ _)
  rw [hfragment] at hcopy
  have hopen : buffer.raw.used ≤ buffer.raw.bytes.length := by
    rw [hlength]
    exact hbounded
  rw [RawBuffer.fill, minus_ok hopen, ok_bind, minus_ok hconsumed, ok_bind, hlength]
  change (slice input consumed (consumed + count) >>= _) = _
  rw [slice_ok (Nat.le_add_right _ _) (by omega), ok_bind, Nat.add_sub_cancel_left]
  change (copyInto (buffer.bytes ++ List.replicate _ 0) buffer.bytes.length
    (buffer.bytes.length + count) _ >>= _) = _
  rw [hcopy, ok_bind, pure_eq_ok, rawPushed, fill]
  dsimp only [raw]
  rw [← hcount, List.length_append, hfragment, List.drop_replicate, Nat.sub_sub]

theorem raw_takeStem (hshort : buffer.stem.length < framePrefixBytes) :
    let count := min (framePrefixBytes - buffer.stem.length) input.length
    buffer.raw.takeStem input =
      .ok (rawPushed ({ buffer with stem := buffer.stem ++ input.take count }, count)) := by
  intro count
  have hcount : count = min (framePrefixBytes - buffer.stem.length) input.length := rfl
  have hfragment : (input.take count).length = count := by
    rw [List.length_take]
    omega
  have hcopy := @copyInto_append ProtocolError _ buffer.stem (input.take count)
    (List.replicate (framePrefixBytes - buffer.stem.length) 0) (by
      rw [hfragment, List.length_replicate]
      exact Nat.min_le_left _ _)
  rw [hfragment, List.drop_replicate, Nat.sub_sub] at hcopy
  have hused : buffer.raw.stemUsed ≤ framePrefixBytes := hshort.le
  rw [RawBuffer.takeStem, minus_ok hused, ok_bind]
  change (slice input 0 count >>= _) = _
  rw [slice_ok (Nat.zero_le _) (by omega), ok_bind, List.drop_zero, Nat.sub_zero]
  change (copyInto (buffer.stem ++ List.replicate _ 0) buffer.stem.length
    (buffer.stem.length + count) _ >>= _) = _
  rw [hcopy, ok_bind, pure_eq_ok, rawPushed]
  simp only [raw, List.length_append, hfragment]
  rfl

/-- The buffer of a frame whose length has arrived. -/
def declared (buffer : FrameBuffer) : FrameBuffer :=
  { buffer with bytes := buffer.stem, total := leValue buffer.stem + framePrefixBytes }

theorem raw_declare (hstem : buffer.stem.length = framePrefixBytes) (hbytes : buffer.bytes = [])
    (htotal : buffer.total = 0) :
    buffer.raw.declare = inRange (do
      refuse (leValue buffer.stem = 0) ProtocolError.invalidFrame
      refuse (leValue buffer.stem + framePrefixBytes > buffer.maximum) .frameTooLarge
      return buffer.declared.raw) := by
  have hraw : buffer.raw.stem = buffer.stem := by
    rw [raw, hstem, Nat.sub_self]
    exact List.append_nil _
  have hempty : buffer.raw.bytes = [] := by
    rw [raw, hbytes, htotal]
    rfl
  rw [RawBuffer.declare, hraw, hempty]
  dsimp only [List.nil_append]
  by_cases hzero : leValue buffer.stem = 0
  · rw [refuse_of hzero, refuse_of hzero]
    rfl
  rw [refuse_of_not hzero, refuse_of_not hzero, ok_bind, ok_bind]
  by_cases hlarge : leValue buffer.stem + framePrefixBytes > buffer.maximum
  · have hlarge' : leValue buffer.stem + framePrefixBytes > buffer.raw.maximum := hlarge
    rw [refuse_of hlarge', refuse_of hlarge]
    rfl
  have hlarge' : ¬ leValue buffer.stem + framePrefixBytes > buffer.raw.maximum := hlarge
  have hzeros : (List.replicate (leValue buffer.stem + framePrefixBytes) (0 : UInt8)).length =
      leValue buffer.stem + framePrefixBytes := List.length_replicate
  have hcopy := @copyInto_append ProtocolError _ [] buffer.stem
    (List.replicate (leValue buffer.stem + framePrefixBytes) 0) (by
      rw [hzeros, hstem]
      exact Nat.le_add_left _ _)
  rw [hstem, List.nil_append, List.nil_append, List.drop_replicate, List.length_nil,
    Nat.zero_add] at hcopy
  rw [refuse_of_not hlarge', refuse_of_not hlarge, ok_bind, ok_bind,
    List.take_of_length_le hzeros.le, hcopy, ok_bind]
  simp only [pure_eq_ok, inRange_ok, raw, declared, hstem, Nat.sub_self, List.replicate_zero,
    List.append_nil]

/-- The arrays never meet an index that is out of range. -/
theorem raw_push_header (hshort : buffer.stem.length < framePrefixBytes)
    (hbytes : buffer.bytes = []) (htotal : buffer.total = 0) :
    buffer.raw.push input = (inRange (buffer.push input)).map rawPushed := by
  have hused : buffer.raw.stemUsed < framePrefixBytes := hshort
  have htaken := @raw_takeStem buffer input hshort
  rw [RawBuffer.push, if_pos hused, push, if_pos hshort]
  dsimp only at htaken ⊢
  set count := min (framePrefixBytes - buffer.stem.length) input.length with hcount
  rw [htaken, ok_bind]
  set filled : FrameBuffer := { buffer with stem := buffer.stem ++ input.take count } with hfilled
  by_cases hstill : (buffer.stem ++ input.take count).length ≠ framePrefixBytes
  · rw [if_pos hstill]
    exact if_pos hstill
  · have hexact : filled.stem.length = framePrefixBytes := not_not.mp hstill
    have hfragment : (buffer.stem ++ input.take count).length = buffer.stem.length + count := by
      rw [List.length_append, List.length_take]
      omega
    have hused : ¬ filled.raw.stemUsed ≠ framePrefixBytes := hstill
    rw [if_neg hstill]
    change (if filled.raw.stemUsed ≠ framePrefixBytes then _ else _) = _
    rw [if_neg hused]
    change (filled.raw.declare >>= fun buffer => buffer.fill count input) = _
    rw [raw_declare hexact hbytes htotal]
    change _ = Except.map rawPushed (inRange (do
      refuse (leValue filled.stem = 0) ProtocolError.invalidFrame
      refuse (leValue filled.stem + framePrefixBytes > filled.maximum) .frameTooLarge
      return fill filled.declared count input))
    by_cases hzero : leValue filled.stem = 0
    · rw [refuse_of hzero]
      rfl
    rw [refuse_of_not hzero, ok_bind, ok_bind]
    by_cases hlarge : leValue filled.stem + framePrefixBytes > filled.maximum
    · rw [refuse_of hlarge]
      rfl
    rw [refuse_of_not hlarge, ok_bind, ok_bind]
    refine raw_fill ?_ (Nat.min_le_right _ _)
    change filled.stem.length ≤ leValue filled.stem + framePrefixBytes
    rw [hexact]
    exact Nat.le_add_left _ _

theorem raw_push_holding {maximum : Nat} {held : Bytes}
    (hheld : front maximum held = .partly ∨ front maximum held = .whole held.length) :
    (holding maximum held).raw.push input =
      (inRange ((holding maximum held).push input)).map rawPushed := by
  by_cases hshort : held.length < framePrefixBytes
  · rw [holding_header hshort]
    exact raw_push_header hshort rfl rfl
  · have hstem : ¬ (held.take framePrefixBytes).length < framePrefixBytes := by
      rw [List.length_take_of_le (not_lt.mp hshort)]
      exact lt_irrefl _
    have hbounded : held.length ≤ leValue (held.take framePrefixBytes) + framePrefixBytes := by
      rcases hheld with hheld | hheld
      · exact (partly_lt hheld hshort).le
      · exact (front_whole_iff.mp hheld).2.2.2.le
    rw [holding_body hshort, RawBuffer.push, push, if_neg hstem, pure_eq_ok, inRange_ok]
    refine (if_neg hstem).trans ?_
    exact raw_fill hbounded (Nat.zero_le _)

end Arrays

/-! ## Buffers in use -/

/-- The buffers that pushes lead to. -/
inductive Reached (maximum : Nat) : FrameBuffer → Prop
  | new {fresh : FrameBuffer} (hnew : FrameBuffer.new maximum = .ok fresh) : Reached maximum fresh
  | push {buffer next : FrameBuffer} {input : Bytes} {count : Nat}
      (hbuffer : Reached maximum buffer) (hpush : buffer.push input = .ok (next, count)) :
      Reached maximum next

section Reached

variable {maximum : Nat} {buffer : FrameBuffer}

/-- A buffer in use holds an unfinished frame, or a whole one. -/
theorem Reached.holding (hreached : Reached maximum buffer) :
    ∃ held, buffer = FrameBuffer.holding maximum held ∧
      (front maximum held = .partly ∨ front maximum held = .whole held.length) := by
  induction hreached with
  | new hnew => exact ⟨[], new_eq hnew, Or.inl front_nil⟩
  | @push buffer next input count hbuffer hpush ih =>
      obtain ⟨held, rfl, hheld | hheld⟩ := ih
      · rw [push_holding hheld, pushed] at hpush
        split at hpush
        · next hfront =>
          obtain ⟨rfl, rfl⟩ := Prod.mk.inj (Except.ok.inj hpush)
          exact ⟨held ++ input, rfl, Or.inl hfront⟩
        · cases hpush
        · next hfront =>
          obtain ⟨rfl, rfl⟩ := Prod.mk.inj (Except.ok.inj hpush)
          exact ⟨_, rfl, Or.inr (front_take hfront).2⟩
      · rw [push_complete hheld] at hpush
        obtain ⟨rfl, rfl⟩ := Prod.mk.inj (Except.ok.inj hpush)
        exact ⟨held, rfl, Or.inr hheld⟩

theorem received_holding (held : Bytes) : (FrameBuffer.holding maximum held).received = held := by
  by_cases hshort : held.length < framePrefixBytes
  · rw [holding_header hshort, received, if_pos hshort]
  · have hstem : ¬ (held.take framePrefixBytes).length < framePrefixBytes := by
      rw [List.length_take_of_le (not_lt.mp hshort)]
      exact lt_irrefl _
    rw [holding_body hshort, received, if_neg hstem]

/-- What a push does with any input: it stays in range, takes a front of the input that
belongs to the frame, and takes something unless the frame is complete. -/
structure PushesExactly (maximum : Nat) (buffer : FrameBuffer) : Prop where
  inRange : ∀ input, buffer.raw.push input = (inRange (buffer.push input)).map rawPushed
  taken : ∀ input next count, buffer.push input = .ok (next, count) → count ≤ input.length ∧
    next.received = buffer.received ++ input.take count
  within : framePrefixBytes ≤ buffer.received.length → buffer.received.length ≤
    leValue (buffer.received.take framePrefixBytes) + framePrefixBytes
  frame : ∀ bytes, buffer.frame = some bytes ↔
    bytes = buffer.received ∧ front maximum bytes = .whole bytes.length
  advances : ∀ input next count, buffer.frame = none → input ≠ [] →
    buffer.push input = .ok (next, count) → 0 < count
  complete : ∀ input, buffer.frame ≠ none → buffer.push input = .ok (buffer, 0)

theorem Reached.pushesExactly (hreached : Reached maximum buffer) :
    PushesExactly maximum buffer := by
  obtain ⟨held, rfl, hheld⟩ := hreached.holding
  have hreceived := @received_holding maximum held
  constructor
  · exact fun input => raw_push_holding hheld
  · intro input next count hpush
    rw [hreceived]
    rcases hheld with hheld | hheld
    · have hlength : (held ++ input).length = held.length + input.length := List.length_append
      rw [push_holding hheld, pushed] at hpush
      split at hpush
      · obtain ⟨rfl, rfl⟩ := Prod.mk.inj (Except.ok.inj hpush)
        rw [received_holding, List.take_length]
        exact ⟨le_rfl, rfl⟩
      · cases hpush
      · next length hfront =>
        obtain ⟨rfl, rfl⟩ := Prod.mk.inj (Except.ok.inj hpush)
        have hlt := held_lt hheld hfront
        obtain ⟨-, -, hwithin, -⟩ := front_whole_iff.mp hfront
        rw [received_holding, List.take_append, List.take_of_length_le hlt.le]
        exact ⟨by omega, rfl⟩
    · rw [push_complete hheld] at hpush
      obtain ⟨rfl, rfl⟩ := Prod.mk.inj (Except.ok.inj hpush)
      rw [hreceived, List.take_zero, List.append_nil]
      exact ⟨Nat.zero_le _, rfl⟩
  · intro hlong
    rw [hreceived] at hlong ⊢
    rcases hheld with hheld | hheld
    · exact (partly_lt hheld (not_lt.mpr hlong)).le
    · exact (front_whole_iff.mp hheld).2.2.2.le
  · intro bytes
    rw [hreceived]
    rcases hheld with hheld | hheld
    · rw [frame_partly hheld]
      constructor
      · rintro ⟨⟩
      · rintro ⟨rfl, hwhole⟩
        rw [hheld] at hwhole
        cases hwhole
    · rw [frame_whole hheld, Option.some.injEq]
      constructor
      · rintro rfl
        exact ⟨rfl, hheld⟩
      · exact fun hbytes => hbytes.1.symm
  · intro input next count hnone hinput hpush
    have hpositive := List.length_pos_iff.mpr hinput
    rcases hheld with hheld | hheld
    · rw [push_holding hheld, pushed] at hpush
      split at hpush
      · obtain ⟨rfl, rfl⟩ := Prod.mk.inj (Except.ok.inj hpush)
        exact hpositive
      · cases hpush
      · next length hfront =>
        obtain ⟨rfl, rfl⟩ := Prod.mk.inj (Except.ok.inj hpush)
        exact Nat.sub_pos_of_lt (held_lt hheld hfront)
    · rw [frame_whole hheld] at hnone
      cases hnone
  · intro input hsome
    rcases hheld with hheld | hheld
    · exact absurd (frame_partly hheld) hsome
    · exact push_complete hheld input

end Reached

end FrameBuffer

/-! ## The exchanges -/

section Exchanges

open FrameBuffer

theorem new_client : FrameBuffer.new maxClientFrameBytes = .ok FrameBuffer.client := by
  decide

/-- The exchange of a session takes its frames in such rounds. -/
theorem Exchange.consume_eq {wire : Wire} (now : Instant) (alive : Bool) (bytes : Bytes)
    (state : Exchange wire) :
    state.consume now alive bytes = (do
      let frameStarted := if state.input.isEmpty then some now else state.frameStarted
      let (input, frame, rest) ← round (fun error => SessionError.reported error.code)
        .frameInvalid maxClientFrameBytes state.input bytes
      match frame with
      | none => return ({ state with input, frameStarted }, none, rest)
      | some frame => do
          let message ← (wire.decodeSessionFrame frame).mapError fun error =>
            SessionError.reported error.code
          let started ← okOr frameStarted .frameInvalid
          let (state, job) ← { state with input, frameStarted := none }.accept now alive message
            started
          return (state, job, rest)) := by
  rw [Exchange.consume, FrameBuffer.round]
  dsimp only
  cases hpush : state.input.push bytes with
  | error error => rfl
  | ok pushed =>
      obtain ⟨input, count⟩ := pushed
      dsimp only [Except.mapError]
      rw [ok_bind, ok_bind]
      by_cases hstuck : count = 0
      · rw [refuse_of hstuck]
        rfl
      · rw [refuse_of_not hstuck, ok_bind, ok_bind]
        cases input.frame with
        | none => rfl
        | some frame =>
            rw [new_client]
            rfl

/-- The exchange of a single query takes its frames in such rounds. -/
theorem oneShot_consumes (scoreText : Query.Score → Bytes)
    (parse : Bytes → Option Query.OneShot.ClientFrame) (around : Query.OneShot.Surroundings)
    (offset : Nat) (bytes : Bytes) (state : Query.OneShot.Exchange) :
    let frameStarted := if state.input.isEmpty then some (around.clock (3 * offset))
      else state.frameStarted
    let began := { state with frameStarted }
    let next := state.consumeOne scoreText parse around offset bytes
    match round ProtocolError.code (ascii "QUERY_FRAME_INVALID") maxClientFrameBytes state.input
      bytes with
    | .error code => next = (began.fail code, [])
    | .ok (input, none, rest) => next = ({ began with input }, rest)
    | .ok (input, some frame, rest) =>
        match Query.OneShot.decodeClientFrame parse frame, frameStarted with
        | .error error, _ => next.1.verdict = some (.error error.code)
        | .ok _, none => next.1.verdict = some (.error (ascii "QUERY_FRAME_INVALID"))
        | .ok message, some started =>
            next = ({ began with input, frameStarted := none }.accept scoreText
              (around.clock (3 * offset + 1)) (around.clock (3 * offset + 2)) around.spawns message
              started, rest) := by
  intro frameStarted began next
  have hnext : next = state.consumeOne scoreText parse around offset bytes := rfl
  rw [Query.OneShot.Exchange.consumeOne] at hnext
  rw [FrameBuffer.round]
  cases hpush : state.input.push bytes with
  | error error =>
      rw [hnext, hpush]
      rfl
  | ok pushed =>
      obtain ⟨input, count⟩ := pushed
      rw [hpush] at hnext
      dsimp only [Except.mapError] at hnext ⊢
      rw [ok_bind]
      by_cases hstuck : count = 0
      · rw [if_pos hstuck] at hnext
        rw [refuse_of hstuck]
        exact hnext
      · rw [if_neg hstuck] at hnext
        rw [refuse_of_not hstuck, ok_bind]
        cases hframe : input.frame with
        | none =>
            rw [hframe] at hnext
            exact hnext
        | some frame =>
            rw [hframe] at hnext
            rw [new_client]
            dsimp only [Except.mapError] at hnext ⊢
            rw [ok_bind]
            dsimp only [pure_eq_ok]
            cases hdecode : Query.OneShot.decodeClientFrame parse frame with
            | error error =>
                rw [hdecode] at hnext
                rw [hnext]
                rfl
            | ok message =>
                rw [hdecode] at hnext
                cases hstarted : frameStarted with
                | none =>
                    rw [show (if state.input.isEmpty then some (around.clock (3 * offset))
                      else state.frameStarted) = none from hstarted] at hnext
                    rw [hnext]
                    rfl
                | some started =>
                    rw [show (if state.input.isEmpty then some (around.clock (3 * offset))
                      else state.frameStarted) = some started from hstarted] at hnext
                    exact hnext

end Exchanges

namespace FrameBuffer

/-- However a stream is split into reads, they complete the frames of the whole stream
and leave its unfinished frame or its first error, and no push leaves its frame. -/
theorem reassembly_exact {maximum : Nat} {fresh : FrameBuffer}
    (hnew : FrameBuffer.new maximum = .ok fresh) :
    (∀ reads, feed maximum fresh reads = parse maximum reads.flatten) ∧
    (∀ reads others : List Bytes, reads.flatten = others.flatten →
      feed maximum fresh reads = feed maximum fresh others) ∧
    ∀ buffer, Reached maximum buffer → PushesExactly maximum buffer := by
  have hfeed : ∀ reads, feed maximum fresh reads = parse maximum reads.flatten := by
    intro reads
    rw [new_eq hnew, feed_eq hnew front_nil, List.nil_append]
  refine ⟨hfeed, fun reads others hsame => ?_, fun buffer hreached => hreached.pushesExactly⟩
  rw [hfeed, hfeed, hsame]

theorem reassembly_exact_sample :
    (feed maxClientFrameBytes client
      [[2, 0], [0, 0, 7], [8, 1, 0, 0, 0, 9, 3], [0, 0, 0, 5]]).frames =
      [[2, 0, 0, 0, 7, 8], [1, 0, 0, 0, 9]] := by
  rw [(reassembly_exact new_client).1]
  decide

end FrameBuffer

end EliotSearch.Session
