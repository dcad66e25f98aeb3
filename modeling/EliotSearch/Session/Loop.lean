import EliotSearch.Library.Runs
import EliotSearch.Session.Effects

/-!
# The session loop

The loop of `exchange` as a machine that takes one event at a time: a branch of
its `select!`, or the next send, check or write of the branch it is in.  What the
worker's thread, the clock and the streams do is told by the event, so a run
covers every order of them.  An event that the loop is not waiting for leaves it
as it is.
-/

namespace EliotSearch.Session

open EliotSearch.Library

/-- What the loop sends to the worker. -/
inductive Command (wire : Wire) where
  | execute (job : Job wire)
  /-- Issued only by a flush, ordered before any next operation. -/
  | commit (expected next : UInt8)
  | shutdown

/-- Where the loop is between two events. -/
inductive Phase (wire : Wire) where
  /-- Before the lifetime of the window is checked. -/
  | top
  /-- Waiting for a branch, and for the timer at the given instant. -/
  | selecting (deadline : Instant)
  /-- Taking the frames of a chunk. -/
  | consuming (rest : Bytes)
  /-- Committing an output flushed within the lifetime of the window. -/
  | flushing
  | resuming (deferred : Deferred wire)
  /-- In `expire`, waiting for the worker until the given instant. -/
  | expiring (limit : Instant)
  /-- Writing the reply of an expired window until the given instant. -/
  | draining (limit : Instant)
  | ended (result : Except SessionError Unit)

def Phase.isEnded {wire : Wire} : Phase wire → Bool
  | .ended _ => true
  | _ => false

/-- The loop with its exchange.  `farewell` is the reply of an expired window
and how much of it is written, `stdout` every byte written so far and
`delivered` the outputs that were flushed whole. -/
structure Loop (wire : Wire) where
  clock : Instant
  idle : Instant
  exchange : Exchange wire
  phase : Phase wire
  farewell : Option (Ready wire × Nat)
  stdout : Bytes
  delivered : List (Output wire)

/-- One event of the loop. -/
inductive Event (wire : Wire) where
  | look
  | read (chunk : Bytes)
  | readFailed
  | frame (alive : Bool)
  /-- The reply of the worker, or nothing when its sender was dropped. -/
  | reply (result : Option (Except Bytes (Ready wire)))
  | wrote (count : Nat)
  | writeFailed
  | flush
  | commit (alive : Bool)
  | resume (alive : Bool)
  /-- The worker's thread is done, or ended without saying so. -/
  | done (signalled : Bool)
  | timer
  | joined (signalled : Bool)

def Event.isFrame {wire : Wire} : Event wire → Bool
  | .frame _ => true
  | _ => false

def Event.isTimer {wire : Wire} : Event wire → Bool
  | .timer => true
  | _ => false

/-- The loop checks the lifetime of the window. -/
def Event.looks {wire : Wire} : Event wire → Bool
  | .look => true
  | .flush => true
  | .timer => true
  | _ => false

/-- The worker of an expired window is joined. -/
def Event.isJoined {wire : Wire} : Event wire → Bool
  | .joined signalled => signalled
  | _ => false

/-- An event and the time that passed since the one before it. -/
structure Tick (wire : Wire) where
  elapsed : Nat
  event : Event wire

namespace Loop

variable {wire : Wire}

def start (clock : Instant) : Loop wire where
  clock
  idle := clock + millis maxRemainingMs
  exchange := .new
  phase := .top
  farewell := none
  stdout := []
  delivered := []

def finish (result : Except SessionError Unit) (loop : Loop wire) : Loop wire :=
  { loop with phase := .ended result }

def fail (error : SessionError) (loop : Loop wire) : Loop wire := loop.finish (.error error)

/-- The lifetime of the window has passed. -/
def Expired (loop : Loop wire) : Prop := ∃ expires ∈ loop.exchange.expires, expires ≤ loop.clock

instance (loop : Loop wire) : Decidable loop.Expired :=
  inferInstanceAs (Decidable (∃ _ ∈ _, _))

/-- The session has not ended. -/
def Live (loop : Loop wire) : Prop := ∀ result, loop.phase ≠ .ended result

theorem live_iff (loop : Loop wire) : loop.phase.isEnded = false ↔ loop.Live := by
  unfold Live
  cases loop.phase <;> simp [Phase.isEnded]

instance (loop : Loop wire) : Decidable loop.Live := decidable_of_iff _ loop.live_iff

/-- Enter `expire`: cancel the active operation and stop the worker. -/
def expire (loop : Loop wire) : Loop wire × Option (Command wire) :=
  ({ loop with
      exchange := loop.exchange.cancelActive
      phase := .expiring (loop.clock + cleanupAllowance) },
    some .shutdown)

/-- Begin the last reply of an expired window. -/
def drain (id : UInt64) (loop : Loop wire) : Loop wire :=
  match outcome id .expired true with
  | .ok ready =>
      { loop with
        farewell := some (ready, 0)
        phase := .draining (loop.clock + cleanupAllowance) }
  | .error code => loop.fail (.reported code)

/-! ## Branches -/

def look (loop : Loop wire) : Loop wire × Option (Command wire) :=
  if loop.Expired then loop.expire
  else ({ loop with phase := .selecting (loop.exchange.deadline loop.idle) }, none)

def read (chunk : Bytes) (loop : Loop wire) : Loop wire :=
  if chunk = [] then
    if loop.exchange.input.isEmpty then loop.finish (.ok ()) else loop.fail .frameInvalid
  else { loop with phase := .consuming chunk }

def frame (alive : Bool) (bytes : Bytes) (loop : Loop wire) : Loop wire × Option (Command wire) :=
  match loop.exchange.consume loop.clock alive bytes with
  | .ok (exchange, job, rest) =>
      ({ loop with exchange, phase := if rest = [] then .top else .consuming rest },
        job.map .execute)
  | .error error => (loop.fail error, none)

def reply (result : Option (Except Bytes (Ready wire))) (loop : Loop wire) : Loop wire :=
  match result with
  | none => loop.fail .workerPanicked
  | some result =>
      match loop.exchange.received loop.clock result with
      | .ok exchange => { loop with exchange, phase := .top }
      | .error error => loop.fail error

def wrote (count : Nat) (output : Output wire) (loop : Loop wire) : Loop wire :=
  if count = 0 then loop.fail .outputClosed
  else
    { loop with
      exchange := { loop.exchange with
        output := some { output with cursor := output.cursor + count } }
      stdout := loop.stdout ++ (output.ready.bytes.drop output.cursor).take count
      phase := .top }

def flush (loop : Loop wire) : Loop wire × Option (Command wire) :=
  if loop.Expired then loop.expire else ({ loop with phase := .flushing }, none)

def commit (alive : Bool) (loop : Loop wire) : Loop wire × Option (Command wire) :=
  match loop.exchange.commitFlushed alive with
  | .ok (exchange, update, deferred, ends) =>
      ({ loop with
          exchange
          delivered := loop.delivered ++ loop.exchange.output.toList
          phase := if ends then .ended (.ok ())
            else match deferred with
              | some deferred => .resuming deferred
              | none => .top },
        update.map fun (expected, next) => .commit expected next)
  | .error error => (loop.fail error, none)

def resume (alive : Bool) (deferred : Deferred wire) (loop : Loop wire) :
    Loop wire × Option (Command wire) :=
  match loop.exchange.takeDeferred loop.clock alive deferred with
  | .ok (exchange, job) => ({ loop with exchange, phase := .top }, job.map .execute)
  | .error error => (loop.fail error, none)

def done (signalled : Bool) (loop : Loop wire) : Loop wire :=
  if signalled = true ∧ loop.Expired then loop.drain 0 else loop.fail .workerPanicked

def timer (loop : Loop wire) : Loop wire × Option (Command wire) :=
  if loop.Expired then loop.expire
  else
    match loop.exchange.timedOut loop.clock with
    | .ok exchange => ({ loop with exchange, phase := .top }, none)
    | .error error => (loop.fail error, none)

/-! ## Expiry -/

/-- The identity of the reply of an expired window. -/
def expiredId (exchange : Exchange wire) : UInt64 :=
  match exchange.active, exchange.output with
  | some active, _ => active.id
  | none, some output => output.id
  | none, none => 0

/-- The rest of `expire` once the worker is done. -/
def joined (signalled : Bool) (loop : Loop wire) : Loop wire :=
  if signalled = true then
    if ∃ output ∈ loop.exchange.output, output.cursor ≠ 0 then loop.fail .expiredPartialOutput
    else loop.drain (expiredId loop.exchange)
  else loop.fail .workerPanicked

def drained (count : Nat) (ready : Ready wire) (cursor : Nat) (loop : Loop wire) : Loop wire :=
  if count = 0 then loop.fail .outputIo
  else
    { loop with
      farewell := some (ready, cursor + count)
      stdout := loop.stdout ++ (ready.bytes.drop cursor).take count }

/-! ## Steps -/

/-- What the loop does with an event: the next state and the command it sends. -/
def react (loop : Loop wire) (event : Event wire) : Loop wire × Option (Command wire) :=
  match loop.phase, event with
  | .top, .look => loop.look
  | .selecting _, .read chunk => (loop.read chunk, none)
  | .selecting _, .readFailed => (loop.fail .inputIo, none)
  | .selecting _, .reply result =>
      match loop.exchange.output, loop.exchange.active with
      | none, some _ => (loop.reply result, none)
      | _, _ => (loop, none)
  | .selecting _, .wrote count =>
      match loop.exchange.output with
      | some output =>
          if output.cursor < output.ready.bytes.length ∧
              output.cursor + count ≤ output.ready.bytes.length then
            (loop.wrote count output, none)
          else (loop, none)
      | none => (loop, none)
  | .selecting _, .writeFailed =>
      if loop.exchange.output.isSome then (loop.fail .outputIo, none) else (loop, none)
  | .selecting _, .flush =>
      if ∃ output ∈ loop.exchange.output, output.cursor = output.ready.bytes.length then loop.flush
      else (loop, none)
  | .selecting _, .done signalled =>
      match loop.exchange.output, loop.exchange.active with
      | none, none => (loop.done signalled, none)
      | _, _ => (loop, none)
  | .selecting deadline, .timer => if deadline ≤ loop.clock then loop.timer else (loop, none)
  | .consuming rest, .frame alive => loop.frame alive rest
  | .flushing, .commit alive => loop.commit alive
  | .resuming deferred, .resume alive => loop.resume alive deferred
  | .expiring _, .joined signalled => (loop.joined signalled, none)
  | .expiring limit, .timer =>
      if limit ≤ loop.clock then (loop.fail .cleanupExpired, none) else (loop, none)
  | .draining _, .wrote count =>
      match loop.farewell with
      | some (ready, cursor) =>
          if cursor < ready.bytes.length ∧ cursor + count ≤ ready.bytes.length then
            (loop.drained count ready cursor, none)
          else (loop, none)
      | none => (loop, none)
  | .draining _, .writeFailed => (loop.fail .outputIo, none)
  | .draining _, .flush =>
      if ∃ farewell ∈ loop.farewell, farewell.2 = farewell.1.bytes.length then
        (loop.finish (.ok ()), none)
      else (loop, none)
  | .draining limit, .timer =>
      if limit ≤ loop.clock then (loop.fail .cleanupExpired, none) else (loop, none)
  | _, _ => (loop, none)

/-- The loop with its clock advanced to the event of a tick. -/
def advance (loop : Loop wire) (tick : Tick wire) : Loop wire :=
  { loop with clock := loop.clock + tick.elapsed }

def step (loop : Loop wire) (tick : Tick wire) : Loop wire × Option (Command wire) :=
  (loop.advance tick).react tick.event

def after (loop : Loop wire) (tick : Tick wire) : Loop wire := (loop.step tick).1

/-- The loop of a session after a sequence of events. -/
def run (clock : Instant) (ticks : List (Tick wire)) : Loop wire :=
  Runs.run after (start clock) ticks

theorem run_append (clock : Instant) (ticks later : List (Tick wire)) :
    run clock (ticks ++ later) = Runs.run after (run clock ticks) later :=
  Runs.run_append after (start clock) ticks later

end Loop

end EliotSearch.Session
