import EliotSearch.Library.Runs
import EliotSearch.Query.Terminals
import EliotSearch.Session.Exchange

/-!
# The one-shot exchange

One serviced framed query with one worker.  The loop reads frames, takes the
result of the worker, writes the one output and waits for a deadline; whichever
is ready first is served.  The terminal it writes never changes once its first
byte is out, and a cancelled query never becomes a result.

The JSON reader of client frames and the text of a score are parameters.  The
journal of an exchange is not part of the program: it lists what was accepted.
-/

namespace EliotSearch.Query.OneShot

open EliotSearch.Library
open EliotSearch.Library.Json
open EliotSearch.Library.Results
open EliotSearch.Library.Words
open EliotSearch.Session

/-! ## Client frames -/

/-- The only parent-to-child messages for one query. -/
inductive ClientFrame where
  | query (requestId remainingMs : UInt64) (request : SearchRequest)
  | rawExact (requestId remainingMs : UInt64) (request : RawExactRequest)
  | decodedUtf8 (requestId remainingMs : UInt64) (request : DecodedUtf8Request)
  | cancel (requestId : UInt64)
  deriving DecidableEq

namespace ClientFrame

def requestId : ClientFrame → UInt64
  | query requestId .. => requestId
  | rawExact requestId .. => requestId
  | decodedUtf8 requestId .. => requestId
  | cancel requestId => requestId

/-- The milliseconds that a data request leaves for its work. -/
def remainingMs : ClientFrame → Option UInt64
  | query _ remainingMs _ => some remainingMs
  | rawExact _ remainingMs _ => some remainingMs
  | decodedUtf8 _ remainingMs _ => some remainingMs
  | cancel _ => none

/-- Validates correlation, finite duration and backend query bounds. -/
def validate (message : ClientFrame) : Except ProtocolError Unit := do
  match message with
  | query _ remainingMs request => do
      validateRemaining remainingMs
      request.validate
  | rawExact _ remainingMs request => do
      validateRemaining remainingMs
      request.validate
  | decodedUtf8 _ remainingMs request => do
      validateRemaining remainingMs
      request.validate
  | cancel _ => return ()
  refuse (message.requestId ≠ queryRequestId) .invalidCorrelation

end ClientFrame

/-- Decodes and validates one complete query/control frame. -/
def decodeClientFrame (parse : Bytes → Option ClientFrame) (frame : Bytes) :
    Except ProtocolError ClientFrame := do
  let body ← decode maxClientFrameBytes frame
  let message ← okOr (parse body) .invalidMessage
  message.validate
  return message

/-! ## The worker -/

section Worker

variable (scoreText : Score → Bytes)

/-- The outcome of a query that did not complete. -/
def stoppedOutcome : QueryFailure → Except ProtocolError QueryOutcome
  | .cancelled => return .cancelled
  | .deadline => do
      let code ← FailureCode.new (ascii "QUERY_DEADLINE")
      return .failed code
  | .code text => do
      let code ← FailureCode.new text
      return .failed code

/-- The frame of a query that did not complete. -/
def stopped (reason : QueryFailure) : Except ProtocolError Bytes := do
  let outcome ← stoppedOutcome reason
  encodeTerminalFrame scoreText ⟨queryRequestId, outcome⟩

/-- What the worker comes to: a failure to open, pin or execute, or the result of
one of the three searches. -/
inductive Finding where
  | stopped (reason : QueryFailure)
  | complete (generation : UInt64) (items : List SearchItem)
  | rawExact (result : RawExactResult)
  | decodedUtf8 (result : DecodedUtf8Result)

/-- What the worker sends. -/
def Finding.encoded : Finding → Except ProtocolError Bytes
  | .stopped reason => OneShot.stopped scoreText reason
  | .complete generation items => prepareComplete scoreText queryRequestId generation items
  | .rawExact result => prepareRawExact scoreText queryRequestId result
  | .decodedUtf8 result => prepareDecodedUtf8 scoreText queryRequestId result

/-! ### What is encoded -/

/-- A frame that carries one terminal. -/
def IsTerminal (frame : Bytes) : Prop :=
  ∃ terminal, encodeTerminalFrame scoreText terminal = .ok frame

def queryDeadline : FailureCode := ⟨ascii "QUERY_DEADLINE", by decide⟩

theorem stopped_isTerminal {reason : QueryFailure} {frame : Bytes}
    (hstopped : stopped scoreText reason = .ok frame) : IsTerminal scoreText frame := by
  simp only [stopped, bind_eq_ok] at hstopped
  obtain ⟨outcome, -, hencoded⟩ := hstopped
  exact ⟨_, hencoded⟩

/-- A cancelled query always has a frame. -/
theorem stopped_cancelled : ∃ frame, stopped scoreText .cancelled = .ok frame ∧
    encodeTerminalFrame scoreText ⟨queryRequestId, .cancelled⟩ = .ok frame :=
  ⟨_, rfl, rfl⟩

/-- A query that is out of time always has a frame. -/
theorem stopped_deadline : ∃ frame, stopped scoreText .deadline = .ok frame ∧
    encodeTerminalFrame scoreText ⟨queryRequestId, .failed queryDeadline⟩ = .ok frame :=
  ⟨_, rfl, rfl⟩

theorem Finding.encoded_isTerminal {finding : Finding} {frame : Bytes}
    (hencoded : finding.encoded scoreText = .ok frame) : IsTerminal scoreText frame := by
  cases finding with
  | stopped reason => exact stopped_isTerminal scoreText hencoded
  | complete generation items =>
      obtain ⟨_, _, hterminal⟩ := prepareComplete_terminal scoreText hencoded
      exact ⟨_, hterminal⟩
  | rawExact result => exact ⟨_, hencoded⟩
  | decodedUtf8 result => exact ⟨_, hencoded⟩

end Worker

/-! ## The exchange -/

/-- What an exchange accepted, or what befell it. -/
inductive Note where
  | requested
  | started
  /-- A cancellation, and how many bytes were out when it was accepted. -/
  | cancelled (cursor : Nat)
  | expired
  deriving DecidableEq

/-- The loop state, the flag shared with the worker, the bytes that left the
process, how the loop ended, and the journal. -/
structure Exchange where
  input : FrameBuffer
  frameStarted : Option Instant
  requestDeadline : Option Instant
  cleanupDeadline : Option Instant
  admitted : Bool
  inputClosed : Bool
  output : Option Bytes
  cursor : Nat
  receiver : Bool
  cancel : Bool
  stdout : Bytes
  verdict : Option (Except Bytes Unit)
  journal : List Note

/-- The clock readings made while a chunk is consumed, and whether a thread can be
started. -/
structure Surroundings where
  clock : Nat → Instant
  spawns : Bool

inductive Event where
  /-- A chunk of input, the end of it, or a failure to read. -/
  | read (around : Surroundings) (bytes : Bytes)
  | readFailed
  /-- The worker sends its result, or is gone without one. -/
  | worker (finding : Option Finding)
  /-- Bytes are taken from the output, or it is flushed. -/
  | wrote (size : Nat)
  | flushed
  | writeFailed
  | timer (now : Instant)

namespace Exchange

def new : Exchange where
  input := FrameBuffer.client
  frameStarted := none
  requestDeadline := none
  cleanupDeadline := none
  admitted := false
  inputClosed := false
  output := none
  cursor := 0
  receiver := false
  cancel := false
  stdout := []
  verdict := none
  journal := []

def fail (code : Bytes) (state : Exchange) : Exchange := { state with verdict := some (.error code) }

def note (note : Note) (state : Exchange) : Exchange :=
  { state with journal := state.journal ++ [note] }

variable (scoreText : Score → Bytes) (parse : Bytes → Option ClientFrame)

/-- Put a frame in the output slot, or end with the failure to encode it. -/
def emit (encoded : Except ProtocolError Bytes) (state : Exchange) : Exchange :=
  match encoded with
  | .ok frame => { state with output := some frame }
  | .error error => state.fail error.code

def stop (reason : QueryFailure) (state : Exchange) : Exchange :=
  let state := { state with cancel := true }
  if state.cursor = 0 then state.emit (stopped scoreText reason) else state

/-- Take the sole data request. -/
def admitRequest (now later : Instant) (spawns : Bool) (started : Instant) (remaining : UInt64)
    (state : Exchange) : Exchange :=
  let state := state.note .requested
  if state.admitted then state.fail (ascii "QUERY_DUPLICATE_REQUEST")
  else
    let deadline := started + millis remaining
    let state := { state with admitted := true, requestDeadline := some deadline }
    if now ≥ deadline then
      let state := { state with cleanupDeadline := some (later + cleanupAllowance) }
      (state.note .expired).stop scoreText .deadline
    else if spawns then { state with receiver := true }.note .started
    else state.fail (ascii "QUERY_WORKER_START_FAILED")

def accept (now later : Instant) (spawns : Bool) (message : ClientFrame) (started : Instant)
    (state : Exchange) : Exchange :=
  match message.remainingMs with
  | some remaining => state.admitRequest scoreText now later spawns started remaining
  | none =>
      if state.admitted then (state.note (.cancelled state.cursor)).stop scoreText .cancelled
      else state.fail (ascii "QUERY_CANCEL_WITHOUT_REQUEST")

/-- One round of `consume`: take the next fragment of a chunk, and the frame it
completes.  The result carries the rest of the chunk. -/
def consumeOne (around : Surroundings) (offset : Nat) (bytes : Bytes) (state : Exchange) :
    Exchange × Bytes :=
  let frameStarted := if state.input.isEmpty then some (around.clock (3 * offset))
    else state.frameStarted
  let state := { state with frameStarted }
  match state.input.push bytes with
  | .error error => (state.fail error.code, [])
  | .ok (input, count) =>
      if count = 0 then (state.fail (ascii "QUERY_FRAME_INVALID"), [])
      else
        let state := { state with input }
        match input.frame with
        | none => (state, bytes.drop count)
        | some frame =>
            match decodeClientFrame parse frame, frameStarted with
            | .error error, _ => (state.fail error.code, [])
            | .ok _, none => (state.fail (ascii "QUERY_FRAME_INVALID"), [])
            | .ok message, some started =>
                let state := { state with input := FrameBuffer.client, frameStarted := none }
                (state.accept scoreText (around.clock (3 * offset + 1))
                  (around.clock (3 * offset + 2)) around.spawns message started, bytes.drop count)

/-- Consume a chunk until it is used up or the loop ends. -/
def consume (around : Surroundings) : (fuel offset : Nat) → Bytes → Exchange → Exchange
  | 0, _, _, state => state
  | fuel + 1, offset, bytes, state =>
      if bytes = [] ∨ state.verdict.isSome then state
      else
        let (next, rest) := state.consumeOne scoreText parse around offset bytes
        consume around fuel (offset + (bytes.length - rest.length)) rest next

/-- Take the result of the worker; a cancelled query has none. -/
def received (finding : Option Finding) (state : Exchange) : Exchange :=
  let state := { state with receiver := false }
  match finding with
  | none => state.fail (ascii "QUERY_WORKER_PANICKED")
  | some finding =>
      match finding.encoded scoreText with
      | .error error =>
          match stopped scoreText (.code error.code) with
          | .error error => state.fail error.code
          | .ok frame => state.emit (if state.cancel then stopped scoreText .cancelled else .ok frame)
      | .ok frame => state.emit (if state.cancel then stopped scoreText .cancelled else .ok frame)

/-- The instant at which the loop stops waiting. -/
def deadline (idle : Instant) (state : Exchange) : Instant :=
  match state.cleanupDeadline, state.requestDeadline, state.frameStarted with
  | some cleanup, _, _ => cleanup
  | none, some deadline, _ => deadline
  | none, none, some started => started + millis maxRemainingMs
  | none, none, none => idle

def timedOut (now : Instant) (state : Exchange) : Exchange :=
  if state.admitted = false ∨ state.cleanupDeadline.isSome ∨ state.cursor ≠ 0 then
    state.fail (ascii "QUERY_DEADLINE")
  else
    let state := (state.note .expired).stop scoreText .deadline
    { state with cleanupDeadline := some (now + cleanupAllowance) }

/-- One turn of the loop.  An event whose branch is not enabled changes nothing. -/
def step (idle : Instant) (state : Exchange) (event : Event) : Exchange :=
  if state.verdict.isSome then state
  else match event with
    | .read around bytes =>
        if state.inputClosed then state
        else if bytes = [] then
          let state := { state with inputClosed := true }
          if state.output.isNone then state.fail (ascii "QUERY_INPUT_CLOSED") else state
        else state.consume scoreText parse around bytes.length 0 bytes
    | .readFailed => if state.inputClosed then state else state.fail (ascii "QUERY_INPUT_IO")
    | .worker finding =>
        if state.output.isSome ∨ state.receiver = false then state
        else state.received scoreText finding
    | .wrote size =>
        match state.output with
        | none => state
        | some frame =>
            if state.cursor ≥ frame.length ∨ state.cursor + size > frame.length then state
            else if size = 0 then state.fail (ascii "QUERY_OUTPUT_CLOSED")
            else { state with
              cursor := state.cursor + size
              stdout := state.stdout ++ (frame.drop state.cursor).take size }
    | .flushed =>
        match state.output with
        | none => state
        | some frame =>
            if state.cursor < frame.length then state else { state with verdict := some (.ok ()) }
    | .writeFailed => if state.output.isNone then state else state.fail (ascii "QUERY_OUTPUT_IO")
    | .timer now =>
        if now < state.deadline idle then state else state.timedOut scoreText now

/-! ## What holds in every state -/

/-- The code of an exchange that a second data request ends. -/
def duplicateRequest : Bytes := ascii "QUERY_DUPLICATE_REQUEST"

/-- The output after a cancellation that no byte preceded. -/
def Withdrawn (output : Option Bytes) (later : List Note) : Prop :=
  ∃ outcome frame, output = some frame ∧
    encodeTerminalFrame scoreText ⟨queryRequestId, outcome⟩ = .ok frame ∧
    (outcome = .cancelled ∨ outcome = .failed queryDeadline ∧ .expired ∈ later)

/-- The output is a terminal of which the cursor counts the bytes that are out;
there is one worker at most; and a cancelled query stays cancelled. -/
structure Sound (state : Exchange) : Prop where
  framed : ∀ frame ∈ state.output, IsTerminal scoreText frame
  written : state.stdout = (state.output.getD []).take state.cursor
  bounded : state.cursor ≤ (state.output.getD []).length
  started : state.journal.count .started ≤ state.journal.count .requested
  once : state.journal.count .started ≤ 1
  fresh : state.admitted = false → state.journal.count .requested = 0
  requested : state.journal.count .requested ≤ 1 ∨
    state.verdict = some (.error duplicateRequest)
  withdrawn : ∀ front later, state.journal = front ++ .cancelled 0 :: later →
    Withdrawn scoreText state.output later

/-- Once a byte is out the output is fixed, and no byte is taken back. -/
structure Follows (before after : Exchange) : Prop where
  fixed : before.cursor ≠ 0 → after.output = before.output
  grown : before.cursor ≤ after.cursor

theorem Follows.refl (state : Exchange) : Follows state state := ⟨fun _ => rfl, le_rfl⟩

theorem Follows.trans {first second third : Exchange} (hfirst : Follows first second)
    (hsecond : Follows second third) : Follows first third where
  fixed hout := by
    have hgrown := hfirst.grown
    rw [hsecond.fixed (by omega), hfirst.fixed hout]
  grown := hfirst.grown.trans hsecond.grown

/-- A sound exchange that goes on soundly from another. -/
structure Leads (before after : Exchange) : Prop where
  sound : Sound scoreText after
  follows : Follows before after

section Parts

variable {scoreText} {state : Exchange}

theorem sound_new : Sound scoreText new where
  framed := by rintro _ ⟨⟩
  written := rfl
  bounded := le_rfl
  started := le_rfl
  once := Nat.zero_le 1
  fresh _ := rfl
  requested := Or.inl (Nat.zero_le 1)
  withdrawn front later hjournal := by
    cases front <;> cases hjournal

theorem Sound.requested_le (hsound : Sound scoreText state) (hopen : state.verdict = none) :
    state.journal.count .requested ≤ 1 := by
  rcases hsound.requested with hle | hended
  · exact hle
  · rw [hopen] at hended
    cases hended

/-- Soundness depends on the output, the bytes out, the admission and the journal. -/
theorem Sound.congr {other : Exchange} (hsound : Sound scoreText state)
    (hopen : state.verdict = none) (houtput : other.output = state.output)
    (hcursor : other.cursor = state.cursor) (hstdout : other.stdout = state.stdout)
    (hadmitted : other.admitted = state.admitted) (hjournal : other.journal = state.journal) :
    Leads scoreText state other := by
  refine ⟨⟨?_, ?_, ?_, ?_, ?_, ?_, ?_, ?_⟩, fun _ => houtput, hcursor.ge⟩
  · rw [houtput]
    exact hsound.framed
  · rw [houtput, hcursor, hstdout]
    exact hsound.written
  · rw [houtput, hcursor]
    exact hsound.bounded
  · rw [hjournal]
    exact hsound.started
  · rw [hjournal]
    exact hsound.once
  · rw [hadmitted, hjournal]
    exact hsound.fresh
  · rw [hjournal]
    exact Or.inl (hsound.requested_le hopen)
  · rw [hjournal, houtput]
    exact hsound.withdrawn

theorem Sound.fail (hsound : Sound scoreText state) (hopen : state.verdict = none)
    (code : Bytes) : Leads scoreText state (state.fail code) :=
  hsound.congr hopen rfl rfl rfl rfl rfl

/-- A split of a longer journal splits it before its last note or at it. -/
theorem concat_split {journal front later : List Note} {last found : Note}
    (hsplit : journal ++ [last] = front ++ found :: later) :
    (∃ rest, journal = front ++ found :: rest ∧ later = rest ++ [last]) ∨
      journal = front ∧ found = last ∧ later = [] := by
  rcases List.eq_nil_or_concat later with rfl | ⟨rest, note, rfl⟩
  · obtain ⟨hjournal, hlast⟩ := List.append_inj' hsplit rfl
    exact Or.inr ⟨hjournal, (List.cons.inj hlast).1.symm, rfl⟩
  · rw [List.concat_eq_append, ← List.cons_append, ← List.append_assoc] at hsplit
    obtain ⟨hjournal, hlast⟩ := List.append_inj' hsplit rfl
    exact Or.inl ⟨rest, hjournal, by rw [List.concat_eq_append, (List.cons.inj hlast).1]⟩

theorem Withdrawn.later {output : Option Bytes} {later : List Note}
    (hwithdrawn : Withdrawn scoreText output later) (note : Note) :
    Withdrawn scoreText output (later ++ [note]) := by
  obtain ⟨outcome, frame, houtput, hencoded, houtcome⟩ := hwithdrawn
  refine ⟨outcome, frame, houtput, hencoded, houtcome.imp_right fun hexpired => ?_⟩
  exact ⟨hexpired.1, List.mem_append_left _ hexpired.2⟩

/-- A note that starts no cancellation from nothing leaves the exchange sound. -/
theorem Sound.withdrawn_note (hsound : Sound scoreText state) {note : Note}
    (hnote : note ≠ .cancelled 0) {front later : List Note}
    (hsplit : state.journal ++ [note] = front ++ .cancelled 0 :: later) :
    Withdrawn scoreText state.output later := by
  rcases concat_split hsplit with ⟨rest, hjournal, rfl⟩ | ⟨-, hlast, -⟩
  · exact (hsound.withdrawn front rest hjournal).later note
  · exact absurd hlast.symm hnote

/-- Stopping at a cursor records what stopped the query and replaces an output of
which no byte is out. -/
theorem Sound.stop (hsound : Sound scoreText state) (hopen : state.verdict = none)
    (reason : QueryFailure) (note : Note)
    (hreason : reason = .cancelled ∧ note = .cancelled state.cursor ∨
      reason = .deadline ∧ note = .expired) :
    Leads scoreText state ((state.note note).stop scoreText reason) := by
  have hplain : note ≠ .started ∧ note ≠ .requested := by
    rcases hreason with ⟨-, rfl⟩ | ⟨-, rfl⟩
    · exact ⟨nofun, nofun⟩
    · exact ⟨nofun, nofun⟩
  have hstarted : (state.journal ++ [note]).count .started = state.journal.count .started := by
    rw [List.count_append, List.count_singleton, if_neg (by simpa using hplain.1), Nat.add_zero]
  have hrequested :
      (state.journal ++ [note]).count .requested = state.journal.count .requested := by
    rw [List.count_append, List.count_singleton, if_neg (by simpa using hplain.2), Nat.add_zero]
  by_cases hcursor : state.cursor = 0
  · obtain ⟨outcome, frame, hstopped, hencoded, houtcome⟩ : ∃ outcome frame,
        stopped scoreText reason = .ok frame ∧
        encodeTerminalFrame scoreText ⟨queryRequestId, outcome⟩ = .ok frame ∧
        (outcome = .cancelled ∨ outcome = .failed queryDeadline ∧ note = .expired) := by
      rcases hreason with ⟨rfl, -⟩ | ⟨rfl, hnote⟩
      · obtain ⟨frame, hstopped, hencoded⟩ := stopped_cancelled scoreText
        exact ⟨_, frame, hstopped, hencoded, Or.inl rfl⟩
      · obtain ⟨frame, hstopped, hencoded⟩ := stopped_deadline scoreText
        exact ⟨_, frame, hstopped, hencoded, Or.inr ⟨rfl, hnote⟩⟩
    have hafter : (state.note note).stop scoreText reason =
        { state.note note with cancel := true, output := some frame } := by
      rw [Exchange.stop, hstopped]
      exact if_pos hcursor
    rw [hafter]
    refine ⟨⟨?_, ?_, ?_, ?_, ?_, ?_, ?_, ?_⟩, fun hout => absurd hcursor hout, le_rfl⟩
    · rintro found hfound
      obtain rfl := Option.some.inj hfound
      exact ⟨_, hencoded⟩
    · have hwritten := hsound.written
      rw [hcursor, List.take_zero] at hwritten
      exact hwritten.trans (by rw [Exchange.note, hcursor, List.take_zero])
    · rw [Exchange.note, hcursor]
      exact Nat.zero_le _
    · exact (hstarted.trans_le hsound.started).trans hrequested.ge
    · exact hstarted.trans_le hsound.once
    · exact fun hfresh => hrequested.trans (hsound.fresh hfresh)
    · exact Or.inl (hrequested.trans_le (hsound.requested_le hopen))
    · intro front later hsplit
      refine ⟨outcome, frame, rfl, hencoded, houtcome.imp_right fun hexpired => ?_⟩
      rcases concat_split hsplit with ⟨rest, -, rfl⟩ | ⟨-, hlast, -⟩
      · exact ⟨hexpired.1, List.mem_append_right _ (by rw [hexpired.2]; exact List.mem_cons_self)⟩
      · rw [hexpired.2] at hlast
        cases hlast
  · have hafter : (state.note note).stop scoreText reason =
        { state.note note with cancel := true } := if_neg hcursor
    have hnote : note ≠ .cancelled 0 := by
      rcases hreason with ⟨-, rfl⟩ | ⟨-, rfl⟩
      · exact fun heq => hcursor (Note.cancelled.inj heq)
      · exact nofun
    rw [hafter]
    refine ⟨⟨hsound.framed, hsound.written, hsound.bounded, ?_, ?_, ?_, ?_, ?_⟩,
      fun _ => rfl, le_rfl⟩
    · exact (hstarted.trans_le hsound.started).trans hrequested.ge
    · exact hstarted.trans_le hsound.once
    · exact fun hfresh => hrequested.trans (hsound.fresh hfresh)
    · exact Or.inl (hrequested.trans_le (hsound.requested_le hopen))
    · exact fun front later hsplit => hsound.withdrawn_note hnote hsplit

theorem count_requested (journal : List Note) :
    (journal ++ [Note.requested]).count .requested = journal.count .requested + 1 ∧
      (journal ++ [Note.requested]).count .started = journal.count .started := by
  simp

theorem count_started (journal : List Note) :
    (journal ++ [Note.started]).count .requested = journal.count .requested ∧
      (journal ++ [Note.started]).count .started = journal.count .started + 1 := by
  simp

/-- A second data request ends the exchange. -/
theorem Sound.duplicate (hsound : Sound scoreText state) (hadmitted : state.admitted = true) :
    Leads scoreText state ((state.note .requested).fail duplicateRequest) := by
  obtain ⟨hrequested, hstarted⟩ := count_requested state.journal
  refine ⟨⟨hsound.framed, hsound.written, hsound.bounded, ?_, ?_, ?_, Or.inr rfl, ?_⟩,
    fun _ => rfl, le_rfl⟩
  · change (state.journal ++ [Note.requested]).count .started ≤
      (state.journal ++ [Note.requested]).count .requested
    rw [hrequested, hstarted]
    exact hsound.started.trans (Nat.le_succ _)
  · exact hstarted.trans_le hsound.once
  · intro hfresh
    change state.admitted = false at hfresh
    rw [hadmitted] at hfresh
    cases hfresh
  · intro front later hsplit
    exact hsound.withdrawn_note (nofun : Note.requested ≠ .cancelled 0) hsplit

/-- The first data request is admitted. -/
theorem Sound.admitted (hsound : Sound scoreText state) (next : Exchange)
    (hfresh : state.admitted = false) (houtput : next.output = state.output)
    (hcursor : next.cursor = state.cursor) (hstdout : next.stdout = state.stdout)
    (hadmitted : next.admitted = true) (hjournal : next.journal = state.journal ++ [.requested]) :
    Leads scoreText state next ∧ next.journal.count .started = 0 ∧
      next.journal.count .requested = 1 := by
  obtain ⟨hrequested, hstarted⟩ := count_requested state.journal
  have hnone := hsound.fresh hfresh
  have hle := hsound.started
  rw [hnone] at hrequested hle
  have hidle := Nat.le_zero.mp hle
  rw [hidle] at hstarted
  refine ⟨⟨⟨?_, ?_, ?_, ?_, ?_, ?_, ?_, ?_⟩, fun _ => houtput, hcursor.ge⟩, ?_, ?_⟩
  · rw [houtput]
    exact hsound.framed
  · rw [houtput, hcursor, hstdout]
    exact hsound.written
  · rw [houtput, hcursor]
    exact hsound.bounded
  · rw [hjournal, hstarted]
    exact Nat.zero_le _
  · rw [hjournal, hstarted]
    exact Nat.zero_le _
  · rw [hadmitted]
    nofun
  · rw [hjournal]
    exact Or.inl hrequested.le
  · rw [hjournal, houtput]
    intro front later hsplit
    exact hsound.withdrawn_note (nofun : Note.requested ≠ .cancelled 0) hsplit
  · rw [hjournal, hstarted]
  · rw [hjournal, hrequested]

/-- The worker of the admitted request is the only one. -/
theorem Sound.spawned (hsound : Sound scoreText state) (hadmitted : state.admitted = true)
    (hidle : state.journal.count .started = 0) (hone : state.journal.count .requested = 1) :
    Leads scoreText state ({ state with receiver := true }.note .started) := by
  obtain ⟨hrequested, hstarted⟩ := count_started state.journal
  rw [hidle] at hstarted
  rw [hone] at hrequested
  refine ⟨⟨hsound.framed, hsound.written, hsound.bounded, ?_, ?_, ?_, Or.inl ?_, ?_⟩,
    fun _ => rfl, le_rfl⟩
  · exact hstarted.trans_le hrequested.ge
  · exact hstarted.le
  · intro hfresh
    change state.admitted = false at hfresh
    rw [hadmitted] at hfresh
    cases hfresh
  · exact hrequested.le
  · intro front later hsplit
    exact hsound.withdrawn_note (nofun : Note.started ≠ .cancelled 0) hsplit

/-- A data request: the second one ends the exchange, the first one starts a
worker or is out of time. -/
theorem Sound.admitRequest (hsound : Sound scoreText state) (hopen : state.verdict = none)
    (now later : Instant) (spawns : Bool) (started : Instant) (remaining : UInt64) :
    Leads scoreText state
      (state.admitRequest scoreText now later spawns started remaining) := by
  unfold Exchange.admitRequest
  dsimp only
  split
  · rename_i hadmitted
    exact hsound.duplicate hadmitted
  · rename_i hfresh
    have hfresh : state.admitted = false := Bool.eq_false_iff.mpr hfresh
    split
    · set expiring : Exchange := { { state.note .requested with
          admitted := true, requestDeadline := some (started + millis remaining) } with
        cleanupDeadline := some (later + cleanupAllowance) } with hexpiring
      obtain ⟨hadmitted, -, -⟩ := hsound.admitted expiring hfresh rfl rfl rfl rfl rfl
      have hstopped := hadmitted.sound.stop hopen .deadline .expired (Or.inr ⟨rfl, rfl⟩)
      exact ⟨hstopped.sound, hadmitted.follows.trans hstopped.follows⟩
    · set admitted : Exchange := { state.note .requested with
        admitted := true, requestDeadline := some (started + millis remaining) } with hstate
      obtain ⟨hadmitted, hidle, hone⟩ :=
        hsound.admitted admitted hfresh rfl rfl rfl rfl rfl
      split
      · have hspawned := hadmitted.sound.spawned rfl hidle hone
        exact ⟨hspawned.sound, hadmitted.follows.trans hspawned.follows⟩
      · have hfailed := hadmitted.sound.fail hopen (ascii "QUERY_WORKER_START_FAILED")
        exact ⟨hfailed.sound, hadmitted.follows.trans hfailed.follows⟩

theorem Sound.accept (hsound : Sound scoreText state) (hopen : state.verdict = none)
    (now later : Instant) (spawns : Bool) (message : ClientFrame) (started : Instant) :
    Leads scoreText state (state.accept scoreText now later spawns message started) := by
  unfold Exchange.accept
  split
  · exact hsound.admitRequest hopen now later spawns started _
  · split
    · exact hsound.stop hopen .cancelled (.cancelled state.cursor) (Or.inl ⟨rfl, rfl⟩)
    · exact hsound.fail hopen _

variable (parse : Bytes → Option ClientFrame)

theorem Sound.consumeOne (hsound : Sound scoreText state) (hopen : state.verdict = none)
    (around : Surroundings) (offset : Nat) (bytes : Bytes) :
    Leads scoreText state (state.consumeOne scoreText parse around offset bytes).1 := by
  unfold Exchange.consumeOne
  dsimp only
  split
  · exact hsound.congr hopen rfl rfl rfl rfl rfl
  · split
    · exact hsound.congr hopen rfl rfl rfl rfl rfl
    · split
      · exact hsound.congr hopen rfl rfl rfl rfl rfl
      · split
        · exact hsound.congr hopen rfl rfl rfl rfl rfl
        · exact hsound.congr hopen rfl rfl rfl rfl rfl
        · rename_i input _ _ _ _ _ _ message started _ _
          have hready : Leads scoreText state
              { state with input := FrameBuffer.client, frameStarted := none } :=
            hsound.congr hopen rfl rfl rfl rfl rfl
          have haccepted := hready.sound.accept hopen (around.clock (3 * offset + 1))
            (around.clock (3 * offset + 2)) around.spawns message started
          exact ⟨haccepted.sound, hready.follows.trans haccepted.follows⟩

/-- A chunk is consumed soundly, whatever frames it completes. -/
theorem Sound.consume (hsound : Sound scoreText state) (around : Surroundings)
    (fuel offset : Nat) (bytes : Bytes) :
    Leads scoreText state (state.consume scoreText parse around fuel offset bytes) := by
  induction fuel generalizing state offset bytes with
  | zero => exact ⟨hsound, Follows.refl state⟩
  | succ fuel ih =>
      unfold Exchange.consume
      split
      · exact ⟨hsound, Follows.refl state⟩
      · rename_i hgoes
        have hopen : state.verdict = none := by
          rw [not_or, Bool.not_eq_true, Option.isSome_eq_false_iff, Option.isNone_iff_eq_none]
            at hgoes
          exact hgoes.2
        have hone := hsound.consumeOne parse hopen around offset bytes
        have hrest := ih hone.sound (offset + (bytes.length -
          (state.consumeOne scoreText parse around offset bytes).2.length))
          (state.consumeOne scoreText parse around offset bytes).2
        exact ⟨hrest.sound, hone.follows.trans hrest.follows⟩

/-- An empty output slot takes a terminal. -/
theorem Sound.emit (hsound : Sound scoreText state) (hopen : state.verdict = none)
    (hempty : state.output = none) (encoded : Except ProtocolError Bytes)
    (hencoded : ∀ frame, encoded = .ok frame → IsTerminal scoreText frame) :
    Leads scoreText state (state.emit encoded) := by
  have hcursor : state.cursor = 0 := by
    have hbounded := hsound.bounded
    rw [hempty] at hbounded
    exact Nat.le_zero.mp hbounded
  cases encoded with
  | error error => exact hsound.fail hopen _
  | ok frame =>
      refine ⟨⟨?_, ?_, ?_, hsound.started, hsound.once, hsound.fresh,
        Or.inl (hsound.requested_le hopen), ?_⟩, fun hout => absurd hcursor hout, le_rfl⟩
      · rintro found hfound
        obtain rfl := Option.some.inj hfound
        exact hencoded _ rfl
      · have hwritten := hsound.written
        rw [hcursor, List.take_zero] at hwritten
        exact hwritten.trans (by rw [Exchange.emit, hcursor, List.take_zero])
      · exact hcursor.trans_le (Nat.zero_le _)
      · intro front later hsplit
        obtain ⟨_, _, houtput, -⟩ := hsound.withdrawn front later hsplit
        rw [hempty] at houtput
        cases houtput

/-- The result of the worker is a terminal, and that of a cancelled query is its
cancellation. -/
theorem Sound.received (hsound : Sound scoreText state) (hopen : state.verdict = none)
    (hempty : state.output = none) (finding : Option Finding) :
    Leads scoreText state (state.received scoreText finding) := by
  have hready : Leads scoreText state { state with receiver := false } :=
    hsound.congr hopen rfl rfl rfl rfl rfl
  have hemit {frame : Bytes} (hframe : IsTerminal scoreText frame) :
      Leads scoreText state ({ state with receiver := false }.emit
        (if state.cancel then stopped scoreText .cancelled else .ok frame)) := by
    have hencoded : ∀ found, (if state.cancel then stopped scoreText .cancelled
        else .ok frame) = .ok found → IsTerminal scoreText found := by
      intro found hfound
      split at hfound
      · exact stopped_isTerminal scoreText hfound
      · exact Except.ok.inj hfound ▸ hframe
    have hemitted := hready.sound.emit hopen hempty _ hencoded
    exact ⟨hemitted.sound, hready.follows.trans hemitted.follows⟩
  unfold Exchange.received
  dsimp only
  split
  · exact hsound.congr hopen rfl rfl rfl rfl rfl
  · split
    · split
      · exact hsound.congr hopen rfl rfl rfl rfl rfl
      · rename_i hstopped
        exact hemit (stopped_isTerminal scoreText hstopped)
    · rename_i hencoded
      exact hemit (Finding.encoded_isTerminal scoreText hencoded)

theorem Sound.timedOut (hsound : Sound scoreText state) (hopen : state.verdict = none)
    (now : Instant) : Leads scoreText state (state.timedOut scoreText now) := by
  unfold Exchange.timedOut
  split
  · exact hsound.fail hopen _
  · have hstopped := hsound.stop hopen .deadline .expired (Or.inr ⟨rfl, rfl⟩)
    have hsame := hstopped.sound
    exact ⟨⟨hsame.framed, hsame.written, hsame.bounded, hsame.started, hsame.once, hsame.fresh,
      hsame.requested, hsame.withdrawn⟩, hstopped.follows.fixed, hstopped.follows.grown⟩

/-- Bytes taken from the output extend what is out. -/
theorem Sound.wrote (hsound : Sound scoreText state) (hopen : state.verdict = none)
    {frame : Bytes} (houtput : state.output = some frame) {size : Nat}
    (hfits : state.cursor + size ≤ frame.length) :
    Leads scoreText state { state with
      cursor := state.cursor + size
      stdout := state.stdout ++ (frame.drop state.cursor).take size } := by
  have hwritten := hsound.written
  rw [houtput] at hwritten
  refine ⟨⟨hsound.framed, ?_, ?_, hsound.started, hsound.once, hsound.fresh,
    Or.inl (hsound.requested_le hopen), hsound.withdrawn⟩, fun _ => rfl, Nat.le_add_right _ _⟩
  · rw [hwritten, houtput, Option.getD_some, List.take_add]
  · rw [houtput, Option.getD_some]
    exact hfits

/-- Every turn of the loop keeps the exchange sound. -/
theorem Sound.step (hsound : Sound scoreText state) (idle : Instant) (event : Event) :
    Leads scoreText state (state.step scoreText parse idle event) := by
  have hstill : Leads scoreText state state := ⟨hsound, Follows.refl state⟩
  unfold Exchange.step
  split
  · exact hstill
  · rename_i hverdict
    have hopen : state.verdict = none := by
      rwa [Bool.not_eq_true, Option.isSome_eq_false_iff, Option.isNone_iff_eq_none] at hverdict
    cases event with
    | read around bytes =>
        dsimp only
        split
        · exact hstill
        · split
          · split
            · exact hsound.congr hopen rfl rfl rfl rfl rfl
            · exact hsound.congr hopen rfl rfl rfl rfl rfl
          · exact hsound.consume parse around _ _ _
    | readFailed =>
        dsimp only
        split
        · exact hstill
        · exact hsound.fail hopen _
    | worker finding =>
        dsimp only
        split
        · exact hstill
        · rename_i hready
          rw [not_or, Bool.not_eq_true, Option.isSome_eq_false_iff, Option.isNone_iff_eq_none]
            at hready
          exact hsound.received hopen hready.1 finding
    | wrote size =>
        dsimp only
        split
        · exact hstill
        · rename_i frame houtput
          split
          · exact hstill
          · rename_i hroom
            split
            · exact hsound.fail hopen _
            · exact hsound.wrote hopen houtput (by omega)
    | flushed =>
        dsimp only
        split
        · exact hstill
        · split
          · exact hstill
          · exact hsound.congr hopen rfl rfl rfl rfl rfl
    | writeFailed =>
        dsimp only
        split
        · exact hstill
        · exact hsound.fail hopen _
    | timer now =>
        dsimp only
        split
        · exact hstill
        · exact hsound.timedOut hopen now

end Parts

end Exchange

/-! ## Runs -/

section Runs

variable (scoreText : Score → Bytes) (parse : Bytes → Option ClientFrame) (idle : Instant)

/-- The exchange after a sequence of events. -/
def after (events : List Event) : Exchange :=
  Library.Runs.run (Exchange.step scoreText parse idle) Exchange.new events

theorem after_sound (events : List Event) :
    Exchange.Sound scoreText (after scoreText parse idle events) :=
  Library.Runs.run_invariant Exchange.sound_new
    (fun _ event hsound => (hsound.step parse idle event).sound) events

theorem after_follows (events more : List Event) :
    Exchange.Follows (after scoreText parse idle events)
      (after scoreText parse idle (events ++ more)) := by
  have hrun : after scoreText parse idle (events ++ more) =
      Library.Runs.run (Exchange.step scoreText parse idle) (after scoreText parse idle events)
        more := Library.Runs.run_append _ _ _ _
  rw [hrun]
  exact Library.Runs.run_relation (Exchange.Sound scoreText) Exchange.Follows Exchange.Follows.refl
    (fun _ _ _ hfirst hsecond => hfirst.trans hsecond)
    (fun _ event hsound => (hsound.step parse idle event).sound)
    (fun _ event hsound => (hsound.step parse idle event).follows)
    (after_sound scoreText parse idle events) more

end Runs

namespace Sample

/-- A reader that knows the texts of one query and of its cancellation. -/
def parse (body : Bytes) : Option ClientFrame :=
  if body = [1] then some (.query 1 1000 ⟨⟨ascii "x", by decide⟩, 8⟩)
  else if body = [2] then some (.cancel 1)
  else none

def around : Surroundings := ⟨fun _ => 0, true⟩

/-- The query and, in two pieces, its cancellation. -/
def events : List Event :=
  [.read around (le32 1 ++ [1] ++ [1, 0]), .read around [0, 0, 2], .wrote 10]

end Sample

example : (after (fun _ => []) Sample.parse 0 Sample.events).journal =
    [.requested, .started, .cancelled 0] := by
  decide

end EliotSearch.Query.OneShot
