import EliotSearch.Client.Cli
import EliotSearch.Client.Traffic

/-!
# Commands that the client refuses

A command that is refused on the client's side leaves one record and nothing else, as
long as one of the two output slots is free.
-/

namespace EliotSearch.Client

open EliotSearch.Library
open EliotSearch.Library.Json
open EliotSearch.Library.Results
open EliotSearch.Session

/-! ## Codes -/

/-- The text is one that a failure code can have. -/
def IsCode (text : Bytes) : Prop := ∃ code : FailureCode, FailureCode.new text = .ok code

theorem IsCode.text {text : Bytes} (hcode : IsCode text) :
    ∃ code : FailureCode, FailureCode.new text = .ok code ∧ code.text = text := by
  obtain ⟨code, hnew⟩ := hcode
  refine ⟨code, hnew, ?_⟩
  unfold FailureCode.new at hnew
  split at hnew
  · obtain rfl := Except.ok.inj hnew
    rfl
  · cases hnew

theorem isCode_of_valid {text : Bytes} (hvalid : text ≠ [] ∧ text.length ≤ 64 ∧
    ∀ byte ∈ text, (65 ≤ byte ∧ byte ≤ 90) ∨ (48 ≤ byte ∧ byte ≤ 57) ∨ byte = 95) :
    IsCode text :=
  ⟨⟨text, hvalid⟩, dif_pos hvalid⟩

theorem isCode_error (error : ProtocolError) : IsCode error.code := by
  apply isCode_of_valid
  cases error <;> decide

/-- What a failure says of a refused command can stand in a record. -/
def Nameable (error : ClientError) : Prop :=
  ∀ id code, error = .commandRejected id code → IsCode code

theorem nameable_rejected {id : UInt64} {code : String} (hcode : IsCode (ascii code)) :
    Nameable (rejected id code) := by
  rintro _ _ ⟨⟩
  exact hcode

theorem nameable_protocol (error : ProtocolError) : Nameable (.protocol error) :=
  fun _ _ hsame => nomatch hsame

section Submissions

variable {wire : Wire} {checks : Checks wire} {now deadline : Instant} {message : wire.Frame}
  {session : Session wire} {error : ClientError}

theorem Session.nameable_admissible
    (hrefused : session.admissible checks now deadline message = .error error) :
    Nameable error := by
  simp only [admissible, bind_eq_error, mapError_eq_error, refuse_eq_error] at hrefused
  rcases hrefused with ⟨reason, -, rfl⟩ | ⟨_, -, ⟨reason, -, rfl⟩ | ⟨_, -, -, rfl⟩⟩
  · rintro _ _ ⟨⟩
    exact isCode_error reason
  · split
    · rintro _ _ ⟨⟩
      exact isCode_error reason
    · exact nameable_protocol reason
  · rintro _ _ ⟨⟩

theorem Session.nameable_queueControl
    (hrefused : session.queueControl deadline message = .error error) : Nameable error := by
  cases message with
  | cancel id =>
      simp only [queueControl, bind_eq_error, refuse_eq_error, pure_eq_ok, reduceCtorEq, and_false,
        exists_false, or_false] at hrefused
      obtain ⟨-, rfl⟩ := hrefused
      exact nameable_rejected (isCode_of_valid (by decide))
  | close id =>
      simp only [queueControl, bind_eq_error, refuse_eq_error, pure_eq_ok, reduceCtorEq, and_false,
        exists_false, or_false] at hrefused
      obtain ⟨-, rfl⟩ := hrefused
      exact nameable_rejected (isCode_of_valid (by decide))
  | openWindow id remaining query pageSize ttl => cases hrefused
  | continuePage id remaining windowId pageSize => cases hrefused
  | expand id remaining windowId itemIndex before after => cases hrefused

theorem Session.nameable_validateExpand {id : UInt64} {itemIndex : UInt8} {before after : UInt64}
    (hrefused : session.validateExpand checks id itemIndex before after = .error error) :
    Nameable error := by
  simp only [validateExpand, bind_eq_error, okOr_eq_error, refuse_eq_error] at hrefused
  rcases hrefused with ⟨-, rfl⟩ | ⟨_, -, ⟨-, rfl⟩ | ⟨_, -, -, rfl⟩⟩
  · exact nameable_rejected (isCode_of_valid (by decide))
  · exact nameable_rejected (isCode_of_valid (by decide))
  · exact nameable_rejected (isCode_of_valid (by decide))

theorem Session.nameable_preflight
    (hrefused : session.preflight checks now message = .error error) : Nameable error := by
  have hclosed : ∀ id : UInt64, Nameable (rejected id "WINDOW_NOT_OPEN") :=
    fun id => nameable_rejected (isCode_of_valid (by decide))
  cases message with
  | openWindow id remaining query pageSize ttl =>
      simp only [preflight, bind_eq_error, refuse_eq_error, pure_eq_ok, reduceCtorEq, and_false,
        exists_false, or_false] at hrefused
      obtain ⟨-, rfl⟩ := hrefused
      exact nameable_rejected (isCode_of_valid (by decide))
  | expand id remaining windowId itemIndex before after =>
      simp only [preflight, bind_eq_error, refuse_eq_error, pure_eq_ok, reduceCtorEq, and_false,
        exists_false, or_false] at hrefused
      rcases hrefused with ⟨-, rfl⟩ | ⟨_, -, hexpand⟩
      · exact hclosed id
      · exact nameable_validateExpand hexpand
  | continuePage id remaining windowId pageSize =>
      simp only [preflight, bind_eq_error, refuse_eq_error, pure_eq_ok, reduceCtorEq, and_false,
        exists_false, or_false] at hrefused
      obtain ⟨-, rfl⟩ := hrefused
      exact hclosed _
  | cancel id =>
      simp only [preflight, bind_eq_error, refuse_eq_error, pure_eq_ok, reduceCtorEq, and_false,
        exists_false, or_false] at hrefused
      obtain ⟨-, rfl⟩ := hrefused
      exact hclosed _
  | close id =>
      simp only [preflight, bind_eq_error, refuse_eq_error, pure_eq_ok, reduceCtorEq, and_false,
        exists_false, or_false] at hrefused
      obtain ⟨-, rfl⟩ := hrefused
      exact hclosed _

theorem Session.nameable_submitData
    (hrefused : (session.submitData checks now deadline message).2 = .error error) :
    Nameable error := by
  unfold submitData at hrefused
  split at hrefused
  · obtain rfl := Except.error.inj hrefused
    exact nameable_rejected (isCode_of_valid (by decide))
  · split at hrefused
    · obtain rfl := Except.error.inj hrefused
      exact nameable_rejected (isCode_of_valid (by decide))
    · dsimp only at hrefused
      split at hrefused
      · rename_i found hpreflight
        obtain rfl := Except.error.inj hrefused
        exact nameable_preflight hpreflight
      · cases hrefused

theorem Session.nameable_submit
    (hrefused : (session.submit checks now deadline message).2 = .error error) :
    Nameable error := by
  unfold submit at hrefused
  split at hrefused
  · rename_i found hadmissible
    obtain rfl := Except.error.inj hrefused
    exact nameable_admissible hadmissible
  · split at hrefused
    · rename_i found hqueue
      obtain rfl := Except.error.inj hrefused
      exact nameable_queueControl hqueue
    · cases hrefused
    · exact nameable_submitData hrefused

end Submissions

/-! ## What is refused -/

namespace Cli

variable {wire : Wire} (checks : Checks wire)

/-- The command is one that the session refuses. -/
def sessionRefusal (now deadline : Instant) (frame : wire.Frame) (session : Session wire) :
    Option (UInt64 × Bytes) :=
  match (session.submit checks now deadline frame).2 with
  | .error (.commandRejected id code) => some (id, code)
  | _ => none

/-- The command on the line is refused: by its own checks, or by the session when it
need not wait. -/
def lineRefusal (now : Instant) (cli : Cli wire) : Option (UInt64 × Bytes) :=
  match wire.parseFrame cli.line, cli.lineStarted with
  | some frame, some started =>
      match frame.validate wire.validateQuery with
      | .error error => some (frame.requestId, error.code)
      | .ok () =>
          if frame.isData = true ∧
              (cli.session.active.isSome = true ∨ cli.outputFrame.isSome = true) then none
          else sessionRefusal checks now (deadlineOf frame started cli) frame cli.session
  | _, _ => none

/-- The command that the next step refuses. -/
def refusal (now : Instant) (event : Event wire) (cli : Cli wire) : Option (UInt64 × Bytes) :=
  match cli.phase, event with
  | .head, .proceed _ =>
      if cli.ending = false ∧ cli.outputFrame = none ∧ cli.session.active.isSome = false then
        cli.deferred.bind fun waiting =>
          sessionRefusal checks now waiting.2 waiting.1 cli.session
      else none
  | .reading, .proceed _ =>
      if cli.chunk.head? = some 10 ∧ cli.inputClosed = false then
        lineRefusal checks now { cli with lineStarted := some (cli.lineStarted.getD now) }
      else none
  | .select, .read [] =>
      if cli.inputClosed = false ∧ cli.line ≠ [] then cli.lineRefusal checks now else none
  | _, _ => none

/-- The command left one record of the client and nothing else: nothing was given to the
daemon, and the command goes on. -/
structure Healthy (before after : Cli wire) (command : UInt64 × Bytes) : Prop where
  recorded : ∃ record : Record wire, record.refused = some command ∧
    after.records = before.records ++ [record]
  unwritten : ∃ lastId, before.session.lastId ≤ lastId ∧
    after.session = { before.session with lastId }
  usable : (∀ result, after.phase ≠ .done result) ∧ after.inputClosed = before.inputClosed ∧
    after.ending = before.ending ∧ after.deadline = before.deadline

/-- The bytes that are queued and not printed. -/
def unprinted (cli : Cli wire) : Bytes :=
  (cli.outputFrame.getD []).drop cli.outputCursor ++ cli.nextOutput.getD []

/-- The second slot never stands without the first. -/
def Slots (cli : Cli wire) : Prop :=
  cli.outputFrame = none → cli.nextOutput = none ∧ cli.outputCursor = 0

/-- The output is the queued records in their order, and the records of the client are
the commands refused. -/
structure Tidy (cli : Cli wire) : Prop where
  slots : Slots cli
  stream : cli.printed ++ cli.unprinted = (cli.records.map Record.line).flatten
  clients : cli.records.filterMap Record.refused = cli.refused

/-- The states of the runs in which a command is refused only while the second output
slot is free. -/
inductive Calm : Cli wire → Prop where
  | start (deadline : Instant) : Calm (start deadline)
  | step {cli : Cli wire} (now : Instant) (event : Event wire) (hcalm : Calm cli)
      (hfree : cli.refusal checks now event ≠ none → cli.nextOutput = none) :
      Calm (cli.step checks now event)

variable {checks}

/-! ## Records -/

section Queue

variable {cli : Cli wire}

theorem tidy_start (deadline : Instant) : Tidy (start deadline : Cli wire) :=
  ⟨fun _ => ⟨rfl, rfl⟩, rfl, rfl⟩

theorem queueOutput_free (record : Record wire) (hslots : Slots cli)
    (hfree : cli.nextOutput = none) :
    ∃ frame cursor next, cli.queueOutput record = ({ cli with
      outputFrame := frame, outputCursor := cursor, nextOutput := next
      records := cli.records ++ [record] }, .ok ()) ∧ frame ≠ none ∧
      (frame.getD []).drop cursor ++ next.getD [] = cli.unprinted ++ record.line := by
  unfold queueOutput
  split
  · rename_i hempty
    obtain ⟨-, hcursor⟩ := hslots hempty
    refine ⟨some record.line, 0, cli.nextOutput, rfl, Option.some_ne_none _, ?_⟩
    rw [unprinted, hempty, hfree, hcursor]
    simp
  · rename_i hsome
    refine ⟨cli.outputFrame, cli.outputCursor, some record.line, rfl, hsome, ?_⟩
    rw [unprinted, hfree]
    simp

theorem queueOutput_full (record : Record wire) (hslots : Slots cli)
    (hfull : cli.nextOutput ≠ none) :
    (cli.queueOutput record).2 = .error (.protocol .invalidMessage) := by
  have hframe : cli.outputFrame ≠ none := fun hnone => hfull (hslots hnone).1
  rw [queueOutput, if_neg hframe, if_neg hfull]

/-- Nothing of the output changes. -/
structure SameOutput (before after : Cli wire) : Prop where
  frame : after.outputFrame = before.outputFrame
  cursor : after.outputCursor = before.outputCursor
  next : after.nextOutput = before.nextOutput
  refused : after.refused = before.refused
  records : after.records = before.records
  printed : after.printed = before.printed

theorem SameOutput.refl (cli : Cli wire) : SameOutput cli cli := ⟨rfl, rfl, rfl, rfl, rfl, rfl⟩

theorem SameOutput.trans {first second third : Cli wire} (hfirst : SameOutput first second)
    (hsecond : SameOutput second third) : SameOutput first third where
  frame := hsecond.frame.trans hfirst.frame
  cursor := hsecond.cursor.trans hfirst.cursor
  next := hsecond.next.trans hfirst.next
  refused := hsecond.refused.trans hfirst.refused
  records := hsecond.records.trans hfirst.records
  printed := hsecond.printed.trans hfirst.printed

theorem SameOutput.slots {after : Cli wire} (hsame : SameOutput cli after) (hslots : Slots cli) :
    Slots after := by
  unfold Slots
  rw [hsame.frame, hsame.next, hsame.cursor]
  exact hslots

theorem SameOutput.tidy {after : Cli wire} (hsame : SameOutput cli after) (htidy : Tidy cli) :
    Tidy after where
  slots := hsame.slots htidy.slots
  stream := by
    rw [unprinted, hsame.frame, hsame.cursor, hsame.next, hsame.records, hsame.printed]
    exact htidy.stream
  clients := by
    rw [hsame.records, hsame.refused]
    exact htidy.clients

theorem resume_same (phase : Phase) (result : Cli wire × Except ClientError Unit) :
    SameOutput result.1 (resume phase result) := by
  obtain ⟨next, ending⟩ := result
  cases ending with
  | ok _ => exact ⟨rfl, rfl, rfl, rfl, rfl, rfl⟩
  | error error => exact ⟨rfl, rfl, rfl, rfl, rfl, rfl⟩

/-- Queueing keeps the slots in their order. -/
theorem queueOutput_slots (record : Record wire) : Slots (cli.queueOutput record).1 := by
  unfold queueOutput
  split
  · exact fun hnone => nomatch hnone
  · rename_i hsome
    split
    · exact fun hnone => absurd hnone hsome
    · exact fun hnone => absurd hnone hsome

/-- A record that finds a slot is the last of the output. -/
theorem queueOutput_stream (record : Record wire) (htidy : Tidy cli)
    (hfree : cli.nextOutput = none) :
    (cli.queueOutput record).2 = .ok () ∧
    (cli.queueOutput record).1.records = cli.records ++ [record] ∧
    (cli.queueOutput record).1.refused = cli.refused ∧
    (cli.queueOutput record).1.printed ++ (cli.queueOutput record).1.unprinted =
      ((cli.queueOutput record).1.records.map Record.line).flatten := by
  obtain ⟨frame, cursor, next, hqueued, -, hbytes⟩ := queueOutput_free record htidy.slots hfree
  rw [hqueued]
  refine ⟨rfl, rfl, rfl, ?_⟩
  rw [List.map_append, List.flatten_append, List.map_singleton, List.flatten_singleton,
    ← htidy.stream, List.append_assoc, ← hbytes]
  rfl

/-- A refusal with a valid name is recorded when there is a slot for it. -/
theorem localRejection_tidy {id : UInt64} {code : Bytes} (htidy : Tidy cli) (hcode : IsCode code)
    (hfree : cli.nextOutput = none) : Tidy (cli.localRejection id code).1 := by
  obtain ⟨valid, hnew, htext⟩ := hcode.text
  rw [localRejection, hnew]
  dsimp only
  obtain ⟨frame, cursor, next, hqueued, hsome, hbytes⟩ :=
    @queueOutput_free wire { cli with refused := cli.refused ++ [(id, code)], exitCode := 2 }
      (.client id valid) htidy.slots hfree
  rw [hqueued]
  refine ⟨fun hnone => absurd hnone hsome, ?_, ?_⟩
  · rw [List.map_append, List.flatten_append, List.map_singleton, List.flatten_singleton,
      ← htidy.stream, List.append_assoc]
    exact congrArg (cli.printed ++ ·) hbytes
  · rw [List.filterMap_append, htidy.clients, List.filterMap_cons, List.filterMap_nil,
      Record.refused, htext]

/-- A refusal that finds a slot changes the output and the exit code alone. -/
theorem localRejection_free {id : UInt64} {code : Bytes} (hslots : Slots cli)
    (hcode : IsCode code) (hfree : cli.nextOutput = none) :
    ∃ record frame cursor next, record.refused = some (id, code) ∧
      cli.localRejection id code = ({ cli with
        refused := cli.refused ++ [(id, code)]
        exitCode := 2
        outputFrame := frame, outputCursor := cursor, nextOutput := next
        records := cli.records ++ [record] }, .ok ()) := by
  obtain ⟨valid, hnew, rfl⟩ := hcode.text
  obtain ⟨frame, cursor, next, hqueued, -, -⟩ :=
    @queueOutput_free wire { cli with refused := cli.refused ++ [(id, valid.text)], exitCode := 2 }
      (.client id valid) hslots hfree
  refine ⟨.client id valid, frame, cursor, next, rfl, ?_⟩
  rw [localRejection, hnew]
  exact hqueued

theorem localRejection_full {id : UInt64} {code : Bytes} (hslots : Slots cli)
    (hfull : cli.nextOutput ≠ none) : ∃ error, (cli.localRejection id code).2 = .error error := by
  unfold localRejection
  dsimp only
  split
  · exact ⟨_, rfl⟩
  · exact ⟨_, queueOutput_full _ hslots hfull⟩

end Queue

/-! ## Steps -/

section Steps

variable {cli : Cli wire} {now : Instant}

/-- What a refused command leaves of the state before its record is queued: the
command was taken from the line or from its slot, and its identity may be used up. -/
structure Consumed (before after : Cli wire) : Prop where
  output : SameOutput before after
  session : ∃ lastId, before.session.lastId ≤ lastId ∧
    after.session = { before.session with lastId }
  inputClosed : after.inputClosed = before.inputClosed
  ending : after.ending = before.ending
  deadline : after.deadline = before.deadline

/-- Either no command is refused and the output is as before, or the result is that of
the refusal. -/
def Refuses (command : Option (UInt64 × Bytes)) (before : Cli wire)
    (result : Cli wire × Except ClientError Unit) : Prop :=
  (command = none ∧ SameOutput before result.1) ∨
  ∃ id code base, command = some (id, code) ∧ IsCode code ∧ Consumed before base ∧
    result = base.localRejection id code

theorem submitFrame_refuses (frame : wire.Frame) (deadline : Instant) (cli : Cli wire) :
    Refuses (sessionRefusal checks now deadline frame cli.session) cli
      (cli.submitFrame checks now frame deadline) := by
  unfold sessionRefusal submitFrame
  rcases @Session.submit_cases wire checks now deadline frame cli.session with
    ⟨next, hsubmit, -, -, -⟩ | ⟨error, lastId, hid, hsubmit⟩
  · rw [hsubmit]
    left
    refine ⟨rfl, ?_⟩
    dsimp only
    unfold accepted
    split
    · split
      · exact ⟨rfl, rfl, rfl, rfl, rfl, rfl⟩
      · exact ⟨rfl, rfl, rfl, rfl, rfl, rfl⟩
    · exact ⟨rfl, rfl, rfl, rfl, rfl, rfl⟩
    · exact ⟨rfl, rfl, rfl, rfl, rfl, rfl⟩
  · rw [hsubmit]
    have hname := Session.nameable_submit (congrArg Prod.snd hsubmit)
    cases error with
    | commandRejected id code =>
        right
        refine ⟨id, code, { cli with session := { cli.session with lastId } }, rfl,
          hname id code rfl, ⟨⟨rfl, rfl, rfl, rfl, rfl, rfl⟩, ⟨lastId, hid, rfl⟩, rfl, rfl, rfl⟩,
          rfl⟩
    | protocol error => exact Or.inl ⟨rfl, ⟨rfl, rfl, rfl, rfl, rfl, rfl⟩⟩
    | io => exact Or.inl ⟨rfl, ⟨rfl, rfl, rfl, rfl, rfl, rfl⟩⟩
    | deadline => exact Or.inl ⟨rfl, ⟨rfl, rfl, rfl, rfl, rfl, rfl⟩⟩
    | cancelled => exact Or.inl ⟨rfl, ⟨rfl, rfl, rfl, rfl, rfl, rfl⟩⟩
    | childExit => exact Or.inl ⟨rfl, ⟨rfl, rfl, rfl, rfl, rfl, rfl⟩⟩

/-- What is consumed before a submission is consumed with it. -/
theorem Refuses.after {command : Option (UInt64 × Bytes)} {before base : Cli wire}
    {result : Cli wire × Except ClientError Unit} (hrefuses : Refuses command base result)
    (hbase : Consumed before base) : Refuses command before result := by
  rcases hrefuses with ⟨hnone, hsame⟩ | ⟨id, code, last, hcommand, hcode, hlast, hresult⟩
  · exact Or.inl ⟨hnone, hbase.output.trans hsame⟩
  · refine Or.inr ⟨id, code, last, hcommand, hcode, ?_, hresult⟩
    obtain ⟨first, hfirst, hbefore⟩ := hbase.session
    obtain ⟨second, hsecond, hsession⟩ := hlast.session
    refine ⟨hbase.output.trans hlast.output, ⟨second, ?_, ?_⟩,
      hlast.inputClosed.trans hbase.inputClosed, hlast.ending.trans hbase.ending,
      hlast.deadline.trans hbase.deadline⟩
    · rw [hbefore] at hsecond
      exact UInt64.le_trans hfirst hsecond
    · rw [hsession, hbefore]

theorem consumed_line {chunk line : Bytes} {lineStarted : Option Instant} (cli : Cli wire) :
    Consumed cli { cli with chunk, line, lineStarted } :=
  ⟨⟨rfl, rfl, rfl, rfl, rfl, rfl⟩, ⟨cli.session.lastId, UInt64.le_refl _, rfl⟩, rfl, rfl, rfl⟩

theorem consumed_chunk {phase : Phase} {chunk : Bytes} (cli : Cli wire) :
    Consumed cli { cli with phase, chunk } :=
  ⟨⟨rfl, rfl, rfl, rfl, rfl, rfl⟩, ⟨cli.session.lastId, UInt64.le_refl _, rfl⟩, rfl, rfl, rfl⟩

theorem consumed_deferred {phase : Phase} {deferred : Option (wire.Frame × Instant)}
    (cli : Cli wire) : Consumed cli { cli with phase, deferred } :=
  ⟨⟨rfl, rfl, rfl, rfl, rfl, rfl⟩, ⟨cli.session.lastId, UInt64.le_refl _, rfl⟩, rfl, rfl, rfl⟩

theorem submitLine_refuses (cli : Cli wire) :
    Refuses (cli.lineRefusal checks now) cli (cli.submitLine checks now) := by
  unfold lineRefusal submitLine
  cases hframe : wire.parseFrame cli.line with
  | none => exact Or.inl ⟨rfl, SameOutput.refl cli⟩
  | some frame =>
      cases hstarted : cli.lineStarted with
      | none => exact Or.inl ⟨rfl, SameOutput.refl cli⟩
      | some started =>
          dsimp only
          cases hvalid : frame.validate wire.validateQuery with
          | error error =>
              exact Or.inr ⟨frame.requestId, error.code, _, rfl, isCode_error error,
                consumed_line cli, rfl⟩
          | ok _ =>
              dsimp only
              split
              · left
                refine ⟨rfl, ?_⟩
                split
                · exact ⟨rfl, rfl, rfl, rfl, rfl, rfl⟩
                · exact ⟨rfl, rfl, rfl, rfl, rfl, rfl⟩
              · exact (submitFrame_refuses frame (deadlineOf frame started cli)
                  { cli with lineStarted := none, line := [] }).after (consumed_line cli)

/-- What a step that refuses no command does to the output. -/
inductive Outputs (before : Cli wire) : Cli wire → Prop where
  | same {after : Cli wire} (hsame : SameOutput before after) : Outputs before after
  | queued {base after : Cli wire} (record : Record wire) (hbase : SameOutput before base)
      (hfree : before.nextOutput = none) (hclient : record.refused = none)
      (hafter : SameOutput (base.queueOutput record).1 after) : Outputs before after
  | printed (frame : Bytes) (count : Nat) (hframe : before.outputFrame = some frame)
      (hwithin : before.outputCursor + count ≤ frame.length) :
      Outputs before { before with
        phase := .head
        outputCursor := before.outputCursor + count
        printed := before.printed ++ (frame.drop before.outputCursor).take count }
  | flushed (frame : Bytes) (hframe : before.outputFrame = some frame)
      (hall : before.outputCursor = frame.length) :
      Outputs before { before with
        phase := .head, outputFrame := before.nextOutput, nextOutput := none, outputCursor := 0 }

theorem Outputs.slots {after : Cli wire} (houtputs : Outputs cli after) (hslots : Slots cli) :
    Slots after := by
  cases houtputs with
  | same hsame => exact hsame.slots hslots
  | queued record hbase hfree hclient hafter => exact hafter.slots (queueOutput_slots record)
  | printed frame count hframe hwithin =>
      intro hnone
      have hnone : cli.outputFrame = none := hnone
      rw [hframe] at hnone
      cases hnone
  | flushed frame hframe hall => exact fun _ => ⟨rfl, rfl⟩

theorem Outputs.tidy {after : Cli wire} (houtputs : Outputs cli after) (htidy : Tidy cli) :
    Tidy after := by
  cases houtputs with
  | same hsame => exact hsame.tidy htidy
  | @queued base _ record hbase hfree hclient hafter =>
      have hbaseTidy := hbase.tidy htidy
      obtain ⟨-, hrecords, hrefused, hstream⟩ :=
        queueOutput_stream record hbaseTidy (hbase.next.trans hfree)
      refine hafter.tidy ⟨queueOutput_slots record, hstream, ?_⟩
      rw [hrecords, hrefused, List.filterMap_append, hbaseTidy.clients, List.filterMap_cons,
        List.filterMap_nil, hclient, List.append_nil]
  | printed frame count hframe hwithin =>
      refine ⟨fun hnone => ?_, ?_, htidy.clients⟩
      · have hnone : cli.outputFrame = none := hnone
        rw [hframe] at hnone
        cases hnone
      · have hstream := htidy.stream
        rw [unprinted, hframe, Option.getD_some] at hstream
        rw [unprinted, ← hstream]
        dsimp only
        rw [hframe, Option.getD_some, List.append_assoc, ← List.append_assoc (List.take _ _),
          ← List.drop_drop, List.take_append_drop]
  | flushed frame hframe hall =>
      refine ⟨fun _ => ⟨rfl, rfl⟩, ?_, htidy.clients⟩
      have hstream := htidy.stream
      rw [unprinted, hframe, Option.getD_some, hall, List.drop_length, List.nil_append] at hstream
      rw [unprinted, List.drop_zero, Option.getD_none, List.append_nil]
      exact hstream

/-- Going on with a result that leaves the output as it was. -/
theorem Outputs.resume {result : Cli wire × Except ClientError Unit}
    (hsame : SameOutput cli result.1) (phase : Phase) : Outputs cli (resume phase result) :=
  .same (hsame.trans (resume_same phase result))

theorem stop_same (exit : ChildExit) (cli : Cli wire) : SameOutput cli (cli.stop now exit).1 := by
  unfold stop
  dsimp only
  split
  · exact ⟨rfl, rfl, rfl, rfl, rfl, rfl⟩
  · split
    · exact ⟨rfl, rfl, rfl, rfl, rfl, rfl⟩
    · exact ⟨rfl, rfl, rfl, rfl, rfl, rfl⟩

theorem poll_same (cli : Cli wire) : SameOutput cli (cli.poll checks now).1 := by
  unfold poll
  split
  · exact SameOutput.refl cli
  · split
    · exact ⟨rfl, rfl, rfl, rfl, rfl, rfl⟩
    · split
      · exact ⟨rfl, rfl, rfl, rfl, rfl, rfl⟩
      · exact ⟨rfl, rfl, rfl, rfl, rfl, rfl⟩

theorem wrote_same (count : Nat) (cli : Cli wire) : SameOutput cli (cli.wrote count).1 := by
  unfold wrote
  split
  · exact SameOutput.refl cli
  · exact ⟨rfl, rfl, rfl, rfl, rfl, rfl⟩

/-- A reply is queued behind at most one record. -/
theorem receive_outputs (reply : wire.Reply) (exit : ChildExit) (cli : Cli wire) (phase : Phase)
    (hfree : cli.nextOutput = none) :
    Outputs cli (resume phase (cli.receive checks now reply exit)) := by
  unfold receive
  cases haccepted : cli.session.acceptReply checks reply with
  | error error => exact .resume (SameOutput.refl cli) phase
  | ok session =>
      dsimp only
      split
      · apply Outputs.resume
        exact ⟨rfl, rfl, rfl, rfl, rfl, rfl⟩
      · generalize (if (decide (cli.session.Ends reply)) = true then
            { session.finish with finished := true } else session) = session
        have hqueued : ∃ base, SameOutput cli base ∧
            received now reply { cli with session } = base.queueOutput (.daemon reply) := by
          refine ⟨_, ?_, rfl⟩
          split
          · exact ⟨rfl, rfl, rfl, rfl, rfl, rfl⟩
          · exact ⟨rfl, rfl, rfl, rfl, rfl, rfl⟩
          · exact ⟨rfl, rfl, rfl, rfl, rfl, rfl⟩
          · split
            · exact ⟨rfl, rfl, rfl, rfl, rfl, rfl⟩
            · exact ⟨rfl, rfl, rfl, rfl, rfl, rfl⟩
          · exact ⟨rfl, rfl, rfl, rfl, rfl, rfl⟩
        obtain ⟨base, hbase, hqueued⟩ := hqueued
        rw [hqueued]
        refine .queued (.daemon reply) hbase hfree rfl ?_
        refine SameOutput.trans ?_ (resume_same phase _)
        split
        · rename_i next error hresult
          rw [hresult]
          exact SameOutput.refl next
        · rename_i next hresult
          rw [hresult]
          split
          · split
            · exact ⟨rfl, rfl, rfl, rfl, rfl, rfl⟩
            · have hcode : SameOutput next { next with exitCode := 130 } :=
                ⟨rfl, rfl, rfl, rfl, rfl, rfl⟩
              exact hcode.trans (stop_same exit _)
          · exact SameOutput.refl next

/-- The phases after a step that did not end the command. -/
def Phase.Goes (phase : Phase) : Prop := ∀ result, phase ≠ .done result

/-- A step refuses a command, or it is one of the output. -/
def StepRefuses (command : Option (UInt64 × Bytes)) (before after : Cli wire) : Prop :=
  (command = none ∧ Outputs before after) ∨
  ∃ id code base phase, command = some (id, code) ∧ IsCode code ∧ Consumed before base ∧
    Phase.Goes phase ∧ after = resume phase (base.localRejection id code)

theorem Refuses.resume {command : Option (UInt64 × Bytes)} {before : Cli wire}
    {result : Cli wire × Except ClientError Unit} (hrefuses : Refuses command before result)
    {phase : Phase} (hgoes : Phase.Goes phase) :
    StepRefuses command before (resume phase result) := by
  rcases hrefuses with ⟨hnone, hsame⟩ | ⟨id, code, base, hcommand, hcode, hbase, rfl⟩
  · exact Or.inl ⟨hnone, .resume hsame phase⟩
  · exact Or.inr ⟨id, code, base, phase, hcommand, hcode, hbase, hgoes, rfl⟩

theorem phase_same {before after : Cli wire} (hsame : SameOutput before after) :
    StepRefuses none before after := Or.inl ⟨rfl, .same hsame⟩

theorem inputByte_refuses (byte : UInt8) (cli : Cli wire) :
    Refuses (if byte = 10 then
        lineRefusal checks now { cli with lineStarted := some (cli.lineStarted.getD now) }
      else none) cli (cli.inputByte checks now byte) := by
  unfold inputByte
  dsimp only
  split
  · exact (submitLine_refuses _).after (consumed_line cli)
  · left
    refine ⟨rfl, ?_⟩
    split
    · exact ⟨rfl, rfl, rfl, rfl, rfl, rfl⟩
    · exact ⟨rfl, rfl, rfl, rfl, rfl, rfl⟩

/-- The command that waits is submitted at the head of the loop. -/
theorem head_refuses (exit : ChildExit) (cli : Cli wire) (hphase : cli.phase = .head) :
    StepRefuses (cli.refusal checks now (.proceed exit)) cli (cli.proceed checks now exit) := by
  unfold refusal proceed
  rw [hphase]
  dsimp only
  by_cases hended : cli.ending = true ∧ cli.outputFrame = none ∧ cli.nextOutput = none
  · have hclosed : ¬ (cli.ending = false ∧ cli.outputFrame = none ∧
        cli.session.active.isSome = false) := fun hopen => by simp [hended.1] at hopen
    rw [if_pos hended, if_neg hclosed]
    exact phase_same ⟨rfl, rfl, rfl, rfl, rfl, rfl⟩
  · rw [if_neg hended]
    split
    · cases cli.deferred with
      | none => exact phase_same ⟨rfl, rfl, rfl, rfl, rfl, rfl⟩
      | some waiting =>
          obtain ⟨frame, deadline⟩ := waiting
          have hrefuses := (@submitFrame_refuses wire checks now frame deadline
            { cli with phase := .head, deferred := none }).after (consumed_deferred cli)
          exact hrefuses.resume fun _ hdone => Phase.noConfusion hdone
    · exact phase_same ⟨rfl, rfl, rfl, rfl, rfl, rfl⟩

/-- A line is submitted at its last byte. -/
theorem reading_refuses (exit : ChildExit) (cli : Cli wire) (hphase : cli.phase = .reading) :
    StepRefuses (cli.refusal checks now (.proceed exit)) cli (cli.proceed checks now exit) := by
  unfold refusal proceed
  rw [hphase]
  dsimp only
  cases cli.chunk with
  | nil => exact phase_same ⟨rfl, rfl, rfl, rfl, rfl, rfl⟩
  | cons byte rest =>
      dsimp only
      by_cases hclosed : cli.inputClosed = true
      · rw [if_pos hclosed, if_neg (by rw [hclosed]; simp)]
        exact phase_same ⟨rfl, rfl, rfl, rfl, rfl, rfl⟩
      · have hopen : cli.inputClosed = false := by simpa using hclosed
        rw [if_neg hclosed]
        have hcondition : (List.head? (byte :: rest) = some 10 ∧ cli.inputClosed = false) =
            (byte = 10) := by simp [hopen]
        simp only [hcondition]
        have hrefuses := (@inputByte_refuses wire checks now byte
          { cli with phase := .reading, chunk := rest }).after (consumed_chunk cli)
        exact hrefuses.resume fun _ hdone => Phase.noConfusion hdone

theorem proceed_refuses (exit : ChildExit) (cli : Cli wire) (hphase : cli.phase ≠ .select) :
    StepRefuses (cli.refusal checks now (.proceed exit)) cli (cli.proceed checks now exit) := by
  cases hcase : cli.phase with
  | head => exact head_refuses exit cli hcase
  | select => exact absurd hcase hphase
  | reading => exact reading_refuses exit cli hcase
  | stopping =>
      unfold refusal proceed
      rw [hcase]
      exact phase_same ((stop_same exit cli).trans (resume_same _ _))
  | done result =>
      unfold refusal proceed
      rw [hcase]
      exact phase_same (SameOutput.refl cli)

/-- The end of the input submits the line that it cuts off. -/
theorem read_refuses (bytes : Bytes) (cli : Cli wire) (hphase : cli.phase = .select) :
    StepRefuses (cli.refusal checks now (.read bytes)) cli
      (cli.selected checks now (.read bytes)) := by
  unfold refusal selected read
  rw [hphase]
  dsimp only
  by_cases hclosed : cli.inputClosed = true
  · rw [if_pos hclosed]
    cases bytes with
    | nil =>
        dsimp only
        rw [if_neg (by rw [hclosed]; simp)]
        exact phase_same (SameOutput.refl cli)
    | cons byte rest => exact phase_same (SameOutput.refl cli)
  · have hopen : cli.inputClosed = false := by simpa using hclosed
    rw [if_neg hclosed]
    cases bytes with
    | nil =>
        dsimp only
        rw [if_neg (not_not.mpr rfl)]
        by_cases hline : cli.line = []
        · rw [if_neg (not_not.mpr hline), if_neg (fun hboth => hboth.2 hline)]
          exact phase_same ⟨rfl, rfl, rfl, rfl, rfl, rfl⟩
        · rw [if_pos hline, if_pos ⟨hopen, hline⟩]
          exact (submitLine_refuses cli).resume fun _ hdone => Phase.noConfusion hdone
    | cons byte rest => exact phase_same ⟨rfl, rfl, rfl, rfl, rfl, rfl⟩

/-- A branch of `select` other than a read refuses no command. -/
theorem selected_outputs (event : Event wire) (cli : Cli wire)
    (hevent : ∀ bytes, event ≠ .read bytes) : Outputs cli (cli.selected checks now event) := by
  have hsame : Outputs cli cli := .same (SameOutput.refl cli)
  cases event with
  | proceed exit => exact hsame
  | read bytes => exact absurd rfl (hevent bytes)
  | poll =>
      rw [selected]
      split
      · exact .resume (poll_same cli) _
      · exact hsame
  | wrote count =>
      rw [selected]
      split
      · exact .resume (wrote_same count cli) _
      · exact hsame
  | reply reply exit =>
      rw [selected]
      split
      · rename_i hreceives
        exact receive_outputs reply exit cli _ hreceives.2
      · exact hsame
  | interrupt =>
      rw [selected]
      split
      · exact .same ⟨rfl, rfl, rfl, rfl, rfl, rfl⟩
      · exact hsame
  | output count =>
      rw [selected]
      split
      · exact hsame
      · rename_i frame hframe
        split
        · exact .same ⟨rfl, rfl, rfl, rfl, rfl, rfl⟩
        · split
          · rename_i hwithin
            exact .printed frame count hframe hwithin
          · exact hsame
  | flushed =>
      rw [selected]
      split
      · exact hsame
      · rename_i frame hframe
        split
        · rename_i hall
          exact .flushed frame hframe hall
        · exact hsame
  | signal exit =>
      rw [selected]
      split
      · exact hsame
      · apply Outputs.resume
        split
        · exact ⟨rfl, rfl, rfl, rfl, rfl, rfl⟩
        · have hmarked : SameOutput cli { cli with
              signalSeen := true, exitCode := 130, inputClosed := true, cancelled := true } :=
            ⟨rfl, rfl, rfl, rfl, rfl, rfl⟩
          exact hmarked.trans (stop_same exit _)
  | fail error => exact .same ⟨rfl, rfl, rfl, rfl, rfl, rfl⟩

/-- Every step refuses the command that is to be refused, or none. -/
theorem step_refuses (event : Event wire) (cli : Cli wire) :
    StepRefuses (cli.refusal checks now event) cli (cli.step checks now event) := by
  by_cases hphase : cli.phase = .select
  · have hstep : cli.step checks now event = cli.selected checks now event := by
      simp only [step, hphase]
    rw [hstep]
    by_cases hread : ∃ bytes, event = .read bytes
    · obtain ⟨bytes, rfl⟩ := hread
      exact read_refuses bytes cli hphase
    · refine Or.inl ⟨?_, selected_outputs event cli fun bytes hsame => hread ⟨bytes, hsame⟩⟩
      unfold refusal
      split
      · rename_i hhead
        rw [hhead] at hphase
        cases hphase
      · rename_i hreading
        rw [hreading] at hphase
        cases hphase
      · exact absurd ⟨[], rfl⟩ hread
      · rfl
  · by_cases hproceed : ∃ exit, event = .proceed exit
    · obtain ⟨exit, rfl⟩ := hproceed
      have hstep : cli.step checks now (.proceed exit) = cli.proceed checks now exit := by
        simp only [step]
      rw [hstep]
      exact proceed_refuses exit cli hphase
    · have hstep : cli.step checks now event = cli := by
        unfold step
        split
        · rename_i hselect
          exact absurd hselect hphase
        · exact absurd ⟨_, rfl⟩ hproceed
        · rfl
      rw [hstep]
      refine Or.inl ⟨?_, .same (SameOutput.refl cli)⟩
      unfold refusal
      split
      · exact absurd ⟨_, rfl⟩ hproceed
      · exact absurd ⟨_, rfl⟩ hproceed
      · rename_i hselect
        exact absurd hselect hphase
      · rfl

end Steps

/-! ## Runs -/

section Runs

variable {cli : Cli wire}

theorem slots_of_reached (hreached : Reached checks cli) : Slots cli := by
  induction hreached with
  | start deadline => exact fun _ => ⟨rfl, rfl⟩
  | @step cli now event _ ih =>
      rcases @step_refuses wire checks now event cli with
        ⟨-, houtputs⟩ | ⟨id, code, base, phase, -, -, hbase, -, hafter⟩
      · exact houtputs.slots ih
      · rw [hafter]
        apply (resume_same phase _).slots
        unfold localRejection
        dsimp only
        split
        · exact hbase.output.slots ih
        · exact queueOutput_slots _

theorem reached_of_calm (hcalm : Calm checks cli) : Reached checks cli := by
  induction hcalm with
  | start deadline => exact .start deadline
  | step now event _ _ ih => exact .step now event ih

/-- In a run whose refusals find a free slot, every refused command has its record. -/
theorem tidy_of_calm (hcalm : Calm checks cli) : Tidy cli := by
  induction hcalm with
  | start deadline => exact tidy_start deadline
  | @step cli now event _ hfree ih =>
      rcases @step_refuses wire checks now event cli with
        ⟨-, houtputs⟩ | ⟨id, code, base, phase, hcommand, hcode, hbase, -, hafter⟩
      · exact houtputs.tidy ih
      · rw [hafter]
        have hslot : cli.nextOutput = none := by
          apply hfree
          rw [hcommand]
          exact Option.some_ne_none _
        have hrefused : Tidy (base.localRejection id code).1 :=
          localRejection_tidy (hbase.output.tidy ih) hcode (hbase.output.next.trans hslot)
        exact (resume_same phase _).tidy hrefused

/-- A refusal is healthy when it finds a slot. -/
theorem healthy_of_free {now : Instant} {event : Event wire} {command : UInt64 × Bytes}
    (hslots : Slots cli) (hcommand : cli.refusal checks now event = some command)
    (hfree : cli.nextOutput = none) : Healthy cli (cli.step checks now event) command := by
  rcases @step_refuses wire checks now event cli with
    ⟨hnone, -⟩ | ⟨id, code, base, phase, hsome, hcode, hbase, hgoes, hafter⟩
  · rw [hcommand] at hnone
    cases hnone
  · rw [hcommand] at hsome
    obtain rfl := Option.some.inj hsome
    obtain ⟨record, frame, cursor, next, hrecord, hrejected⟩ :=
      localRejection_free (hbase.output.slots hslots) hcode (hbase.output.next.trans hfree)
    rw [hafter, hrejected]
    refine ⟨⟨record, hrecord, ?_⟩, hbase.session, hgoes, hbase.inputClosed, hbase.ending,
      hbase.deadline⟩
    exact congrArg (· ++ [record]) hbase.output.records

/-- A refusal that finds no slot ends the command. -/
theorem done_of_full {now : Instant} {event : Event wire} {command : UInt64 × Bytes}
    (hslots : Slots cli) (hcommand : cli.refusal checks now event = some command)
    (hfull : cli.nextOutput ≠ none) :
    ∃ error, (cli.step checks now event).phase = .done (.error error) := by
  rcases @step_refuses wire checks now event cli with
    ⟨hnone, -⟩ | ⟨id, code, base, phase, -, -, hbase, -, hafter⟩
  · rw [hcommand] at hnone
    cases hnone
  · rw [hafter]
    have hbaseFull : base.nextOutput ≠ none := by
      rw [hbase.output.next]
      exact hfull
    have hrejected : ∃ error, (base.localRejection id code).2 = .error error :=
      localRejection_full (hbase.output.slots hslots) hbaseFull
    obtain ⟨error, herror⟩ := hrejected
    refine ⟨error, ?_⟩
    generalize base.localRejection id code = result at herror
    obtain ⟨next, outcome⟩ := result
    obtain rfl := herror
    rfl

/-- A refused command leaves one record, gives nothing to the daemon and lets the session
go on exactly when the second output slot is free.  In a run where every refusal finds it
free, the records of the client are the refused commands in their order, and what is
printed and queued is the records. -/
theorem refusals_healthy (hreached : Reached checks cli) :
    (∀ now event command, cli.refusal checks now event = some command →
      (Healthy cli (cli.step checks now event) command ↔ cli.nextOutput = none)) ∧
    (Calm checks cli → Tidy cli) := by
  have hslots := slots_of_reached hreached
  refine ⟨fun now event command hcommand => ⟨fun hhealthy => ?_, ?_⟩, tidy_of_calm⟩
  · by_contra hfull
    obtain ⟨error, hdone⟩ := done_of_full hslots hcommand hfull
    exact hhealthy.usable.1 _ hdone
  · exact healthy_of_free hslots hcommand

end Runs


/-! ### Three refused lines -/

namespace RefusalSample

/-- A wire on which the one line is a Cancel of request 7. -/
def lineWire : Wire := Wire.sample [.cancel 7] Session.Sample.query [] []

def lineChecks : Checks lineWire :=
  ⟨fun _ => Session.Sample.query, fun _ => none, fun _ _ _ _ => .ok (), fun _ _ _ => .ok ()⟩

/-- The line, with its newline. -/
def cancelLine : Bytes :=
  Texts.frame (fun _ => Session.Sample.query) (.cancel 7 : SessionClientFrame Unit) ++ [10]

/-- The states of a run whose one read holds the bytes. -/
def after (bytes : Bytes) (count : Nat) : Cli lineWire :=
  (List.replicate count (Event.proceed ChildExit.success)).foldl
    (fun cli event => cli.step lineChecks 0 event)
    (((Cli.start 1000000).step lineChecks 0 (.proceed .success)).step lineChecks 0 (.read bytes))

theorem reached_after (bytes : Bytes) (count : Nat) : Reached lineChecks (after bytes count) := by
  unfold after
  induction count with
  | zero => exact .step 0 (.read bytes) (.step 0 (.proceed .success) (.start 1000000))
  | succ count ih =>
      rw [List.replicate_succ', List.foldl_append]
      exact .step 0 (.proceed .success) ih

end RefusalSample

open RefusalSample in
/-- The first line of a read is refused with a record, and the session goes on. -/
theorem refusals_healthy_sample :
    Healthy (after cancelLine 32) (after cancelLine 33) (7, ascii "SESSION_CONTROL_INVALID") := by
  have hrefusals := refusals_healthy (reached_after cancelLine 32)
  have hcommand : (after cancelLine 32).refusal lineChecks 0 (.proceed .success) =
      some (7, ascii "SESSION_CONTROL_INVALID") := by decide +kernel
  have hfree : (after cancelLine 32).nextOutput = none := by decide +kernel
  exact (hrefusals.1 0 (.proceed .success) _ hcommand).mpr hfree

open RefusalSample in
/-- The third refused line of one read ends the command. -/
theorem refusals_healthy_fails : ∃ cli : Cli lineWire, Reached lineChecks cli ∧
    cli.refusal lineChecks 0 (.proceed .success) = some (7, ascii "SESSION_CONTROL_INVALID") ∧
    ¬ Healthy cli (cli.step lineChecks 0 (.proceed .success))
      (7, ascii "SESSION_CONTROL_INVALID") := by
  have hreached := reached_after (cancelLine ++ cancelLine ++ cancelLine) 98
  have hcommand : (after (cancelLine ++ cancelLine ++ cancelLine) 98).refusal lineChecks 0
      (.proceed .success) = some (7, ascii "SESSION_CONTROL_INVALID") := by decide +kernel
  have hfull : (after (cancelLine ++ cancelLine ++ cancelLine) 98).nextOutput ≠ none := by
    decide +kernel
  refine ⟨_, hreached, hcommand, fun hhealthy => ?_⟩
  obtain ⟨error, hdone⟩ := done_of_full (slots_of_reached hreached) hcommand hfull
  exact hhealthy.usable.1 _ hdone

end Cli

end EliotSearch.Client
