import EliotSearch.Client.Session
import EliotSearch.Session.Texts

/-!
# The session command

The command that reads one client frame a line, gives it to a session and writes one
record a line.  A read is taken apart into its bytes, and a session into the single
steps of its `receive`; every step has its own reading of the clock.
-/

namespace EliotSearch.Client

open EliotSearch.Library
open EliotSearch.Library.Json
open EliotSearch.Session

/-- One record of the output: a refusal of the client, or a reply of the daemon. -/
inductive Record (wire : Wire) where
  | client (requestId : UInt64) (code : FailureCode)
  | daemon (reply : wire.Reply)

namespace Record

variable {wire : Wire}

/-- The keys of a refusal stand in the order of a sorted map. -/
def text : Record wire → Bytes
  | client requestId code =>
      Texts.object [Texts.member "origin" (Format.quoted "client"),
        Texts.member "outcome" (Texts.object [
          Texts.member "code" (ascii "\"" ++ code.text ++ ascii "\""),
          Texts.member "status" (Format.quoted "failed")]),
        Texts.member "request_id" (Texts.word64 requestId)]
  | daemon reply => wire.printReply reply

def line (record : Record wire) : Bytes := record.text ++ [10]

/-- The command that a record of the client refuses. -/
def refused : Record wire → Option (UInt64 × Bytes)
  | client requestId code => some (requestId, code.text)
  | daemon _ => none

end Record

/-- Where the command stands: before its `select`, in it, in the bytes of a read, after
the last read, or at its end. -/
inductive Phase where
  | head
  | select
  | reading
  | stopping
  | done (result : Except ClientError Int)

/-- The state of the command and of its session.  The last three fields record what
happened: the commands refused, the records queued and the bytes printed. -/
structure Cli (wire : Wire) where
  phase : Phase
  session : Session wire
  chunk : Bytes
  line : Bytes
  lineStarted : Option Instant
  outputFrame : Option Bytes
  outputCursor : Nat
  nextOutput : Option Bytes
  deferred : Option (wire.Frame × Instant)
  inputClosed : Bool
  ending : Bool
  outputDeadline : Option Instant
  deadline : Instant
  openSeen : Bool
  exitCode : Int
  cancelled : Bool
  signalSeen : Bool
  refused : List (UInt64 × Bytes)
  records : List (Record wire)
  printed : Bytes

/-- How the child exits when it is waited for. -/
inductive ChildExit where
  | success
  | failure
  | lost
  deriving DecidableEq

/-- What happens next.  `proceed` is the next step outside `select`, and `fail` a
deadline or a failure of a pipe. -/
inductive Event (wire : Wire) where
  | proceed (exit : ChildExit)
  | read (bytes : Bytes)
  | poll
  | wrote (count : Nat)
  | reply (reply : wire.Reply) (exit : ChildExit)
  | interrupt
  | output (count : Nat)
  | flushed
  | signal (exit : ChildExit)
  | fail (error : ClientError)

namespace Cli

variable {wire : Wire} (checks : Checks wire)

def start (deadline : Instant) : Cli wire where
  phase := .head
  session := Session.start
  chunk := []
  line := []
  lineStarted := none
  outputFrame := none
  outputCursor := 0
  nextOutput := none
  deferred := none
  inputClosed := false
  ending := false
  outputDeadline := none
  deadline := deadline
  openSeen := false
  exitCode := 0
  cancelled := false
  signalSeen := false
  refused := []
  records := []
  printed := []

/-! ## Records -/

/-- Queue a record in one of the two slots.  The second slot is overwritten when it is
taken, and that is an error. -/
def queueOutput (record : Record wire) (cli : Cli wire) : Cli wire × Except ClientError Unit :=
  if cli.outputFrame = none then
    ({ cli with
      outputFrame := some record.line
      outputCursor := 0
      records := cli.records ++ [record] }, .ok ())
  else if cli.nextOutput = none then
    ({ cli with nextOutput := some record.line, records := cli.records ++ [record] }, .ok ())
  else ({ cli with nextOutput := some record.line }, .error (.protocol .invalidMessage))

/-- Explicit local origin: this record is never claimed as a daemon reply. -/
def localRejection (requestId : UInt64) (code : Bytes) (cli : Cli wire) :
    Cli wire × Except ClientError Unit :=
  let cli := { cli with refused := cli.refused ++ [(requestId, code)] }
  match FailureCode.new code with
  | .error error => (cli, .error (.protocol error))
  | .ok code => queueOutput (.client requestId code) { cli with exitCode := 2 }

/-- A reply of the daemon is queued as it is. -/
def received (now : Instant) (reply : wire.Reply) (cli : Cli wire) :
    Cli wire × Except ClientError Unit :=
  queueOutput (.daemon reply) (match reply.outcome with
    | .closed => { cli with
        inputClosed := true, ending := true, deferred := none
        outputDeadline := some (now + 2000000000) }
    | .expired => { cli with
        inputClosed := true, ending := true, deferred := none
        outputDeadline := some (now + 2000000000) }
    | .failed _ => { cli with exitCode := 2 }
    | .cancelled => if cli.exitCode = 0 then { cli with exitCode := 130 } else cli
    | _ => cli)

/-! ## Commands -/

/-- What an accepted command changes besides the session. -/
def accepted (now : Instant) (frame : wire.Frame) (cli : Cli wire) : Cli wire :=
  match frame with
  | .openWindow _ _ _ _ ttlMs =>
      if cli.openSeen then cli
      else { cli with openSeen := true, deadline := now + millis ttlMs + 2000000000 }
  | .close _ => { cli with inputClosed := true, deferred := none }
  | _ => cli

def submitFrame (now : Instant) (frame : wire.Frame) (deadline : Instant) (cli : Cli wire) :
    Cli wire × Except ClientError Unit :=
  match cli.session.submit checks now deadline frame with
  | (session, .ok ()) => (accepted now frame { cli with session }, .ok ())
  | (session, .error (.commandRejected requestId code)) =>
      localRejection requestId code { cli with session }
  | (session, .error error) => ({ cli with session }, .error error)

/-- The time until which a command may take. -/
def deadlineOf (frame : wire.Frame) (started : Instant) (cli : Cli wire) : Instant :=
  if frame.isData then started + millis frame.remainingMs else cli.deadline

/-- Data waits in its one slot while a request is in flight or a record is written. -/
def submitLine (now : Instant) (cli : Cli wire) : Cli wire × Except ClientError Unit :=
  match wire.parseFrame cli.line with
  | none => (cli, .error (.protocol .invalidMessage))
  | some frame =>
      match cli.lineStarted with
      | none => (cli, .error .io)
      | some started =>
          let deadline := deadlineOf frame started cli
          let cli := { cli with lineStarted := none, line := [] }
          match frame.validate wire.validateQuery with
          | .error error => localRejection frame.requestId error.code cli
          | .ok () =>
              if frame.isData = true ∧
                  (cli.session.active.isSome = true ∨ cli.outputFrame.isSome = true) then
                if cli.deferred.isSome then (cli, .error (.protocol .invalidMessage))
                else ({ cli with deferred := some (frame, deadline) }, .ok ())
              else cli.submitFrame checks now frame deadline

/-- One byte of a read. -/
def inputByte (now : Instant) (byte : UInt8) (cli : Cli wire) :
    Cli wire × Except ClientError Unit :=
  let cli := { cli with lineStarted := some (cli.lineStarted.getD now) }
  if byte = 10 then cli.submitLine checks now
  else if cli.line.length ≥ maxClientFrameBytes - framePrefixBytes then
    (cli, .error (.protocol .frameTooLarge))
  else ({ cli with line := cli.line ++ [byte] }, .ok ())

/-! ## The loop -/

/-- Go on at a phase, or end with the error. -/
def resume (phase : Phase) (result : Cli wire × Except ClientError Unit) : Cli wire :=
  match result with
  | (cli, .ok ()) => { cli with phase }
  | (cli, .error error) => { cli with phase := .done (.error error) }

/-- Wait for the exit of the child. -/
def stop (now : Instant) (exit : ChildExit) (cli : Cli wire) :
    Cli wire × Except ClientError Unit :=
  let cli := { cli with
    inputClosed := true
    ending := true
    deferred := none
    session := { cli.session.finish with finished := true } }
  if exit = .lost then (cli, .error .io)
  else if exit = .failure ∧ cli.exitCode = 0 then (cli, .error .childExit)
  else ({ cli with outputDeadline := some (now + 2000000000) }, .ok ())

/-- Outside `select`: the head of the loop, the next byte, or the end of the input. -/
def proceed (now : Instant) (exit : ChildExit) (cli : Cli wire) : Cli wire :=
  match cli.phase with
  | .head =>
      if cli.ending = true ∧ cli.outputFrame = none ∧ cli.nextOutput = none then
        { cli with phase := .done (.ok cli.exitCode) }
      else if cli.ending = false ∧ cli.outputFrame = none ∧ cli.session.active.isSome = false then
        match cli.deferred with
        | some (frame, deadline) =>
            resume .select (submitFrame checks now frame deadline { cli with deferred := none })
        | none => { cli with phase := .select }
      else { cli with phase := .select }
  | .reading =>
      match cli.chunk with
      | [] => { cli with phase := .head }
      | byte :: rest =>
          if cli.inputClosed then { cli with phase := .head, chunk := [] }
          else resume .reading (inputByte checks now byte { cli with chunk := rest })
  | .stopping => resume .head (cli.stop now exit)
  | _ => cli

/-- A read of no bytes ends the input, after the line it cut off. -/
def read (now : Instant) (bytes : Bytes) (cli : Cli wire) : Cli wire :=
  if bytes ≠ [] then { cli with phase := .reading, chunk := bytes }
  else if cli.line ≠ [] then resume .stopping (cli.submitLine checks now)
  else { cli with phase := .stopping }

/-- The time until which a reply is waited for. -/
def receiveEnd (cli : Cli wire) : Instant :=
  min ((cli.session.active.map PendingSessionRequest.deadline).getD cli.deadline)
    (min cli.deadline ((cli.session.lifetimeEnd.map (· + cleanupAllowance)).getD cli.deadline))

/-- A cancellation is sent once. -/
def sendCancel (now : Instant) (cli : Cli wire) : Session wire × Except ClientError Unit :=
  if cli.cancelled = true ∧ cli.session.cancelledRequest = none then
    match cli.session.active.filter PendingSessionRequest.sent with
    | none => (cli.session, .error .cancelled)
    | some pending =>
        cli.session.submit checks now cli.receiveEnd (.cancel pending.message.requestId)
  else (cli.session, .ok ())

/-- The head of `receive`: the time is checked, and a frame is filled in. -/
def poll (now : Instant) (cli : Cli wire) : Cli wire × Except ClientError Unit :=
  if now ≥ cli.receiveEnd then (cli, .error .deadline)
  else
    match cli.sendCancel checks now with
    | (session, .error error) => ({ cli with session }, .error error)
    | (session, .ok ()) =>
        match session.prepareWrite checks now with
        | .error error => ({ cli with session }, .error error)
        | .ok session => ({ cli with session }, .ok ())

def wrote (count : Nat) (cli : Cli wire) : Cli wire × Except ClientError Unit :=
  match cli.session.wrote count with
  | .error error => (cli, .error error)
  | .ok session => ({ cli with session }, .ok ())

/-- A reply is received; one that ends the session is given after the child exited. -/
def receive (now : Instant) (reply : wire.Reply) (exit : ChildExit) (cli : Cli wire) :
    Cli wire × Except ClientError Unit :=
  match cli.session.acceptReply checks reply with
  | .error error => (cli, .error error)
  | .ok session =>
      let ends : Bool := cli.session.Ends reply
      if ends = true ∧ exit ≠ .success then
        ({ cli with session := session.finish },
          .error (if exit = .lost then .io else .childExit))
      else
        let session := if ends then { session.finish with finished := true } else session
        match received now reply { cli with session } with
        | (cli, .error error) => (cli, .error error)
        | (cli, .ok ()) =>
            if cli.cancelled then
              let cli := { cli with exitCode := 130 }
              if cli.session.finished then (cli, .ok ()) else cli.stop now exit
            else (cli, .ok ())

/-- Whether `select` asks the session for a reply. -/
def Receives (cli : Cli wire) : Prop := cli.session.finished = false ∧ cli.nextOutput = none

instance (cli : Cli wire) : Decidable cli.Receives := inferInstanceAs (Decidable (_ ∧ _))

/-- One branch of `select`; a branch that is not enabled does nothing. -/
def selected (now : Instant) (event : Event wire) (cli : Cli wire) : Cli wire :=
  match event with
  | .proceed _ => cli
  | .read bytes => if cli.inputClosed then cli else cli.read checks now bytes
  | .poll => if cli.Receives then resume .select (cli.poll checks now) else cli
  | .wrote count =>
      if cli.Receives ∧ cli.session.stdin = true ∧
          cli.session.written + count ≤ cli.session.outbound.length then
        resume .select (cli.wrote count)
      else cli
  | .reply reply exit =>
      if cli.Receives then resume .head (cli.receive checks now reply exit) else cli
  | .interrupt => if cli.Receives then { cli with cancelled := true } else cli
  | .output count =>
      match cli.outputFrame with
      | none => cli
      | some frame =>
          if count = 0 ∧ cli.outputCursor < frame.length then
            { cli with phase := .done (.error .io) }
          else if cli.outputCursor + count ≤ frame.length then
            { cli with
              phase := .head
              outputCursor := cli.outputCursor + count
              printed := cli.printed ++ (frame.drop cli.outputCursor).take count }
          else cli
  | .flushed =>
      match cli.outputFrame with
      | none => cli
      | some frame =>
          if cli.outputCursor = frame.length then
            { cli with
              phase := .head
              outputFrame := cli.nextOutput
              nextOutput := none
              outputCursor := 0 }
          else cli
  | .signal exit =>
      if cli.signalSeen then cli
      else
        let cli := { cli with
          signalSeen := true, exitCode := 130, inputClosed := true, cancelled := true }
        resume .head (if cli.session.active.isSome then (cli, .ok ()) else cli.stop now exit)
  | .fail error => { cli with phase := .done (.error error) }

/-- The next step of the command. -/
def step (now : Instant) (event : Event wire) (cli : Cli wire) : Cli wire :=
  match cli.phase, event with
  | .select, event => cli.selected checks now event
  | _, .proceed exit => cli.proceed checks now exit
  | _, _ => cli

/-- Every state of a run. -/
inductive Reached : Cli wire → Prop where
  | start (deadline : Instant) : Reached (start deadline)
  | step {cli : Cli wire} (now : Instant) (event : Event wire) (hreached : Reached cli) :
      Reached (cli.step checks now event)

end Cli

end EliotSearch.Client
