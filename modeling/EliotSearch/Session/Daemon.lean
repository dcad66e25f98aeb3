import EliotSearch.Session.Worker
import EliotSearch.Session.Slot

/-!
# The daemon of a session

The loop and the worker connected by the queue of commands and one reply channel
for each job.  They share a clock; everything else that one knows of the other
has to come through a channel, so a run covers every order of their steps.
-/

namespace EliotSearch.Session

open EliotSearch.Library

/-- What becomes of the reply channel of a job: it carries the reply of the
worker, or is closed without one. -/
abbrev Answer (wire : Wire) : Type := Option (Except Bytes (Ready wire))

structure Daemon (wire : Wire) where
  loop : Loop wire
  worker : Worker wire
  queue : List (Command wire)
  answers : List (Job wire × Answer wire)

/-- One step of the loop, of the worker, or of what they wait for. -/
inductive Action (wire : Wire) where
  | look
  | read (chunk : Bytes)
  | readFailed
  | frame
  | reply
  | wrote (count : Nat)
  | writeFailed
  | flush
  | commit
  | resume
  | done
  | timer
  | joined
  /-- The worker takes the next command. -/
  | take
  | finish (verdict : Verdict wire)
  /-- The worker gives up waiting for a command. -/
  | timeOut
  /-- The worker, its window dropped, says that it is done. -/
  | signal
  /-- The worker's thread ends and drops its end of the queue. -/
  | drop

/-- The action can be one of the last of an expired session. -/
def Action.isClosing {wire : Wire} : Action wire → Bool
  | .look => true
  | .wrote _ => true
  | .flush => true
  | .timer => true
  | .joined => true
  | .signal => true
  | _ => false

/-- An action and the time that passed since the one before it. -/
structure Move (wire : Wire) where
  elapsed : Nat
  action : Action wire

/-- The jobs among commands. -/
def jobsOf {wire : Wire} (commands : List (Command wire)) : List (Job wire) :=
  commands.filterMap fun command => Loop.dispatched (some command)

/-- The cursor updates among commands. -/
def commitsOf {wire : Wire} (commands : List (Command wire)) : List (UInt8 × UInt8) :=
  commands.filterMap fun
    | .commit expected next => some (expected, next)
    | _ => none

namespace Daemon

variable {wire : Wire}

def start (clock : Instant) : Daemon wire where
  loop := .start clock
  worker := .start clock
  queue := []
  answers := []

/-- The flag that cancels a job: set unless it is the active one, and set for
every job once the session has ended. -/
def cancelled (daemon : Daemon wire) (job : Job wire) : Bool :=
  match daemon.loop.phase, daemon.loop.exchange.active with
  | .ended _, _ => true
  | _, some active => active.serial != job.serial || active.cancel
  | _, none => true

/-- The answer in the reply channel of the active operation. -/
def answer (daemon : Daemon wire) : Option (Answer wire) := do
  let active ← daemon.loop.exchange.active
  let (_, answer) ← daemon.answers.find? fun (job, _) => job.serial == active.serial
  return answer

/-- The event of the loop that an action is, with what the loop sees of the
worker; nothing when it is no action of the loop or the loop sees nothing yet. -/
def event (daemon : Daemon wire) : Action wire → Option (Event wire)
  | .look => some .look
  | .read chunk => some (.read chunk)
  | .readFailed => some .readFailed
  | .frame => some (.frame daemon.worker.alive)
  | .reply => daemon.answer.map .reply
  | .wrote count => some (.wrote count)
  | .writeFailed => some .writeFailed
  | .flush => some .flush
  | .commit => some (.commit daemon.worker.alive)
  | .resume => some (.resume daemon.worker.alive)
  | .done => if daemon.worker.done then some (.done true) else none
  | .timer => some .timer
  | .joined => if daemon.worker.done then some (.joined true) else none
  | _ => none

/-! ## Steps of the worker -/

/-- A command that the loop sends arrives unless the receiving end is dropped. -/
def send (command : Option (Command wire)) (daemon : Daemon wire) : Daemon wire :=
  if daemon.worker.alive then { daemon with queue := daemon.queue ++ command.toList } else daemon

@[simp]
theorem send_loop (command : Option (Command wire)) (daemon : Daemon wire) :
    (send command daemon).loop = daemon.loop := by
  unfold send
  split <;> rfl

@[simp]
theorem send_worker (command : Option (Command wire)) (daemon : Daemon wire) :
    (send command daemon).worker = daemon.worker := by
  unfold send
  split <;> rfl

@[simp]
theorem send_answers (command : Option (Command wire)) (daemon : Daemon wire) :
    (send command daemon).answers = daemon.answers := by
  unfold send
  split <;> rfl

def take (daemon : Daemon wire) : Daemon wire :=
  match daemon.worker.stage, daemon.queue with
  | .waiting _, command :: queue =>
      let (worker, answered) := daemon.worker.take daemon.loop.clock command
      { daemon with
        worker, queue
        answers := daemon.answers ++
          answered.toList.map fun (job, result) => (job, some result) }
  | _, _ => daemon

def finish (verdict : Verdict wire) (daemon : Daemon wire) : Daemon wire :=
  match daemon.worker.stage with
  | .running job =>
      if verdict.Sound (daemon.cancelled job) (job.deadline ≤ daemon.loop.clock) then
        let (worker, result) :=
          daemon.worker.finish daemon.loop.clock (daemon.cancelled job) job verdict
        { daemon with worker, answers := daemon.answers ++ [(job, some result)] }
      else daemon
  | _ => daemon

def timeOut (daemon : Daemon wire) : Daemon wire :=
  match daemon.worker.stage with
  | .waiting limit =>
      if limit ≤ daemon.loop.clock then { daemon with worker := daemon.worker.timeOut } else daemon
  | _ => daemon

def signal (daemon : Daemon wire) : Daemon wire :=
  match daemon.worker.stage with
  | .left departure =>
      { daemon with worker := { daemon.worker with stage := .signalled departure } }
  | _ => daemon

/-- The jobs left in the queue lose their reply channels. -/
def drop (daemon : Daemon wire) : Daemon wire :=
  match daemon.worker.stage with
  | .signalled departure =>
      { daemon with
        worker := { daemon.worker with stage := .gone departure }
        queue := []
        answers := daemon.answers ++ (jobsOf daemon.queue).map fun job => (job, none) }
  | _ => daemon

/-! ## Steps -/

def advance (daemon : Daemon wire) (move : Move wire) : Daemon wire :=
  { daemon with loop := { daemon.loop with clock := daemon.loop.clock + move.elapsed } }

def perform (daemon : Daemon wire) (action : Action wire) : Daemon wire :=
  match daemon.event action with
  | some event =>
      let (loop, command) := daemon.loop.react event
      send command { daemon with loop }
  | none =>
      match action with
      | .take => daemon.take
      | .finish verdict => daemon.finish verdict
      | .timeOut => daemon.timeOut
      | .signal => daemon.signal
      | .drop => daemon.drop
      | _ => daemon

def after (daemon : Daemon wire) (move : Move wire) : Daemon wire :=
  (daemon.advance move).perform move.action

/-- The daemon after a sequence of steps. -/
def run (clock : Instant) (moves : List (Move wire)) : Daemon wire :=
  Runs.run after (start clock) moves

theorem run_append (clock : Instant) (moves later : List (Move wire)) :
    run clock (moves ++ later) = Runs.run after (run clock moves) later :=
  Runs.run_append after (start clock) moves later

/-! ## Step rules -/

/-- What a step of the daemon can do. -/
inductive Stepping (daemon : Daemon wire) : Action wire → Daemon wire → Prop where
  | idle {action : Action wire} : Stepping daemon action daemon
  | loop {action : Action wire} {event : Event wire} {next : Loop wire}
      {command : Option (Command wire)} (hevent : daemon.event action = some event)
      (hreaction : Loop.Reaction daemon.loop event next command) :
      Stepping daemon action (send command { daemon with loop := next })
  | taken {limit : Instant} {command : Command wire} {queue : List (Command wire)}
      (hstage : daemon.worker.stage = .waiting limit) (hqueue : daemon.queue = command :: queue) :
      Stepping daemon .take { daemon with
        worker := (daemon.worker.take daemon.loop.clock command).1
        queue
        answers := daemon.answers ++
          (daemon.worker.take daemon.loop.clock command).2.toList.map
            fun (job, result) => (job, some result) }
  | finished {job : Job wire} {verdict : Verdict wire} {worker : Worker wire}
      {result : Except Bytes (Ready wire)} (hstage : daemon.worker.stage = .running job)
      (hsound : verdict.Sound (daemon.cancelled job) (job.deadline ≤ daemon.loop.clock))
      (hfinishing : Worker.Finishing daemon.loop.clock job (daemon.worker.performed job verdict)
        worker result) :
      Stepping daemon (.finish verdict)
        { daemon with worker, answers := daemon.answers ++ [(job, some result)] }
  | timedOut {limit : Instant} (hstage : daemon.worker.stage = .waiting limit)
      (hlimit : limit ≤ daemon.loop.clock) :
      Stepping daemon .timeOut { daemon with worker := daemon.worker.timeOut }
  | signalled {departure : Departure} (hstage : daemon.worker.stage = .left departure) :
      Stepping daemon .signal
        { daemon with worker := { daemon.worker with stage := .signalled departure } }
  | dropped {departure : Departure} (hstage : daemon.worker.stage = .signalled departure) :
      Stepping daemon .drop { daemon with
        worker := { daemon.worker with stage := .gone departure }
        queue := []
        answers := daemon.answers ++ (jobsOf daemon.queue).map fun job => (job, none) }

theorem take_stepping (daemon : Daemon wire) : Stepping daemon .take daemon.take := by
  unfold take
  split
  · rename_i hstage hqueue
    exact .taken hstage hqueue
  · exact .idle

theorem finish_stepping (daemon : Daemon wire) (verdict : Verdict wire) :
    Stepping daemon (.finish verdict) (daemon.finish verdict) := by
  unfold finish
  split
  · rename_i job hstage
    split
    · rename_i hsound
      exact .finished hstage hsound (Worker.finish_finishing _ _ job verdict daemon.worker)
    · exact .idle
  · exact .idle

theorem timeOut_stepping (daemon : Daemon wire) : Stepping daemon .timeOut daemon.timeOut := by
  unfold timeOut
  split
  · rename_i hstage
    split
    · rename_i hlimit
      exact .timedOut hstage hlimit
    · exact .idle
  · exact .idle

theorem signal_stepping (daemon : Daemon wire) : Stepping daemon .signal daemon.signal := by
  unfold signal
  split
  · rename_i hstage
    exact .signalled hstage
  · exact .idle

theorem drop_stepping (daemon : Daemon wire) : Stepping daemon .drop daemon.drop := by
  unfold drop
  split
  · rename_i hstage
    exact .dropped hstage
  · exact .idle

/-- Every step of the daemon is one of the cases above. -/
theorem perform_stepping (daemon : Daemon wire) (action : Action wire) :
    Stepping daemon action (daemon.perform action) := by
  unfold perform
  split
  · rename_i event hevent
    exact .loop hevent (Loop.react_reaction daemon.loop event)
  · split
    · exact daemon.take_stepping
    · exact daemon.finish_stepping _
    · exact daemon.timeOut_stepping
    · exact daemon.signal_stepping
    · exact daemon.drop_stepping
    · exact .idle

/-- The loop of a daemon takes steps of its own, or only time passes for it. -/
theorem Stepping.loop_cases {daemon next : Daemon wire} {action : Action wire}
    (hstep : Stepping daemon action next) :
    next.loop = daemon.loop ∨ ∃ event command, daemon.event action = some event ∧
      Loop.Reaction daemon.loop event next.loop command := by
  cases hstep with
  | loop hevent hreaction =>
      rw [send_loop]
      exact Or.inr ⟨_, _, hevent, hreaction⟩
  | _ => exact Or.inl rfl

/-- An invariant of the loop holds in every run of the daemon. -/
theorem loop_invariant {Holds : Loop wire → Prop} (clock : Instant)
    (hstart : Holds (.start clock))
    (hadvance : ∀ loop elapsed, Holds loop → Holds { loop with clock := loop.clock + elapsed })
    (hreaction : ∀ loop event next command, Loop.Reaction loop event next command →
      Holds loop → Holds next) (moves : List (Move wire)) : Holds (run clock moves).loop := by
  refine @Runs.run_invariant _ _ after (fun daemon => Holds daemon.loop) _ hstart
    (fun daemon move hholds => ?_) moves
  have hadvanced : Holds (daemon.advance move).loop := hadvance daemon.loop move.elapsed hholds
  rcases ((daemon.advance move).perform_stepping move.action).loop_cases with
    hsame | ⟨event, command, -, hreacts⟩
  · change Holds ((daemon.advance move).perform move.action).loop
    rw [hsame]
    exact hadvanced
  · exact hreaction _ _ _ _ hreacts hadvanced

theorem integral_run (clock : Instant) (moves : List (Move wire)) :
    (run clock moves).loop.Integral :=
  loop_invariant clock (Loop.integral_start clock)
    (fun _ elapsed hloop => hloop.advance ⟨elapsed, .look⟩)
    (fun _ _ _ _ hreaction hloop => hreaction.integral hloop) moves

end Daemon

end EliotSearch.Session
