import EliotSearch.Control.Outcomes
import EliotSearch.Control.Publication
import EliotSearch.Control.Selections
import EliotSearch.Library.Runs

/-!
# Runs of the control store

One action runs one transaction of one operation.  An operation with several
transactions is a call in flight between them, so every interleaving of
operations is a sequence of actions; a caller that stops, or a crash, drops
calls and leaves the database as the last transaction left it.

Callers keep every capture they ever took and pass arbitrary headers, pages,
records and guards to the other operations.  `history` is a ghost log of the
durable publication transactions; no operation reads it.
-/

namespace EliotSearch.Control

open EliotSearch.Library
open EliotSearch.Library.Results

/-! ## Chunks -/

def chunkSize : Nat := 32

/-- Consecutive groups of at most `chunkSize` elements. -/
def chunksOf {α : Type} : Nat → List α → List (List α)
  | 0, _ => []
  | _ + 1, [] => []
  | fuel + 1, values => values.take chunkSize :: chunksOf fuel (values.drop chunkSize)

/-- Each group takes at least one element, so the length bounds the groups. -/
def chunks {α : Type} (values : List α) : List (List α) := chunksOf values.length values

theorem chunksOf_flatten {α : Type} {fuel : Nat} {values : List α}
    (hfuel : values.length ≤ fuel) : (chunksOf fuel values).flatten = values := by
  induction fuel generalizing values with
  | zero =>
      have hempty : values = [] := List.length_eq_zero_iff.mp (Nat.le_zero.mp hfuel)
      subst hempty
      rfl
  | succ fuel ih =>
      cases values with
      | nil => rfl
      | cons value values =>
          have hdrop : ((value :: values).drop chunkSize).length ≤ fuel := by
            simp only [List.length_drop, List.length_cons, chunkSize] at hfuel ⊢
            omega
          rw [chunksOf, List.flatten_cons, ih hdrop, List.take_append_drop]
          exact List.cons_ne_nil value values

theorem chunks_flatten {α : Type} (values : List α) : (chunks values).flatten = values :=
  chunksOf_flatten (Nat.le_refl _)

/-! ## Worlds -/

/-- What identifies a build for its whole life. -/
structure BuildId where
  namespaceId : Octets 16
  sequence : UInt64
  deriving DecidableEq

def Generation.build (generation : Generation) : BuildId :=
  ⟨generation.namespaceId, generation.sequence⟩

def PendingGeneration.build (pending : PendingGeneration) : BuildId := pending.generation.build

/-- A durable publication transaction, as the ghost log records it. -/
inductive Event where
  | reserved (pending : PendingGeneration) (sources : List CapturedSource)
  | recorded (build : BuildId) (operation : PendingOperation) (revision : UInt64)
  | settled (build : BuildId) (operation : PendingOperation) (revision : UInt64) (applied : Bool)
  | committed (generation : Generation)
  | abandoned (build : BuildId)
  | superseded (pending : PendingGeneration)
  deriving DecidableEq

/-- An operation between two of its transactions. -/
inductive Call where
  | persisting (pending : PendingGeneration) (chunks : List (List CapturedSource))
  | confirming (pending : PendingGeneration)
  | scanning (retired : RetiredGeneration) (tables : List GenerationTable)
  | removing (retired : RetiredGeneration) (definition : GenerationTable)
      (tables : List GenerationTable) (keys : List Bytes)

structure World where
  db : Db
  captures : List CorpusCapture
  calls : List Call
  history : List Event

def World.init (db : Db) : World := ⟨db, [], [], []⟩

/-- One action of a caller, or the loss of callers. -/
inductive Command where
  | captureCorpus
  | startBuild (capture : Nat) (random : Option (Octets 16))
  | stagePage (pending : PendingGeneration) (page : UploadPage)
  | finishSource (pending : PendingGeneration) (id : SourceId) (units : UInt64)
  | completeCapture (pending : PendingGeneration)
  | recordDispatch (pending : PendingGeneration) (operation : PendingOperation)
  | finishDispatch (pending : PendingGeneration) (operation : PendingOperation)
      (operationRevision : UInt64) (applied : Bool)
  | commitGeneration (pending : PendingGeneration)
  | abandonBuild (pending : PendingGeneration)
  | supersedeUnknownBuild (expected : PendingGeneration)
  | finishRetirement (retired : RetiredGeneration)
  | advance (call : Nat)
  | abort (call : Nat)
  | crash
  | commitCurrentSource (capture : SourceCapture) (fileKey : NativeFileKey)
      (objectRef : ObjectRef)
  | removeCurrentSources (expected : List CurrentSourceRecord)
  | admitSelection (selection : AdmittedSelection) (randomId : Octets 16)
  | writeSettings (id : SourceId) (settings : PreparationSettings)
      (source : CurrentSourceRecord) (previous : Option CurrentPreparation)
  | commitPreparation (capture : PreparationCapture) (result : PreparationOutcome)

structure Action where
  env : Env
  command : Command

/-- What the caller of an action is told. -/
inductive Reply where
  | waiting
  | captured (result : Except PublicationError CorpusCapture)
  | build (result : Except PublicationError PendingGeneration)
  | dispatched (result : Except PublicationError UInt64)
  | published (result : Except PublicationError Unit)
  | committed (result : Except PublicationError Generation)
  | source (result : Except SourceControlError CurrentSourceRecord)
  | sources (result : Except SourceControlError Unit)
  | preparation (result : Except PreparationControlError CurrentPreparation)
  deriving DecidableEq

/-! ## Steps -/

namespace World

variable {α ε : Type}

/-- Take over the tables of an operation. -/
def withDb (world : World) (outcome : Outcome ε α) : World :=
  { world with db := outcome.db }

/-- Take over the tables of an operation and log its durable transaction. -/
def logged (world : World) (outcome : Outcome ε α) (event : α → Event) : World :=
  { world with
    db := outcome.db
    history := world.history ++ outcome.written.toList.map event }

def push (world : World) (call : Call) : World :=
  { world with calls := world.calls ++ [call] }

def drop (world : World) (call : Nat) : World :=
  { world with calls := world.calls.eraseIdx call }

def replace (world : World) (call : Nat) (next : Call) : World :=
  { world with calls := world.calls.set call next }

def captureCorpus (world : World) (env : Env) : World × Reply :=
  match Control.captureCorpus env world.db with
  | .error error => (world, .captured (.error error))
  | .ok capture =>
      ({ world with captures := world.captures ++ [capture] }, .captured (.ok capture))

/-- The reservation of `start_build`; the captured inputs follow in chunks. -/
def startBuild (world : World) (env : Env) (capture : CorpusCapture)
    (random : Option (Octets 16)) : World × Reply :=
  match buildNamespace capture random with
  | .error error => (world, .build (.error error))
  | .ok namespaceId =>
      let outcome := editDatabase env world.db (reserveEdit capture namespaceId)
      let world := world.logged outcome fun pending => .reserved pending capture.sources
      match outcome.reply with
      | .error error => (world, .build (.error error))
      | .ok pending =>
          match chunks capture.sources with
          | [] => (world, .build (.ok pending))
          | chunk :: chunks => (world.push (.persisting pending (chunk :: chunks)), .waiting)

/-- `commit_generation` up to its transaction; an ambiguous commit is observed
by a later transaction. -/
def commitGeneration (world : World) (env : Env) (pending : PendingGeneration) : World × Reply :=
  let outcome := Control.commitGeneration env world.db pending
  let world := world.logged outcome .committed
  match outcome.reply with
  | .error .database => (world.push (.confirming pending), .waiting)
  | reply => (world, .committed reply)

def finishRetirement (world : World) (retired : RetiredGeneration) : World × Reply :=
  if retired.unresolvedBuild.isSome then (world, .published (.error .unresolved))
  else (world.push (.scanning retired GenerationTable.all), .waiting)

/-- The next transaction of a call in flight. -/
def advance (world : World) (env : Env) (index : Nat) : Call → World × Reply
  | .persisting pending [] => (world.drop index, .build (.ok pending))
  | .persisting pending (chunk :: chunks) =>
      let outcome := persistChunk env world.db pending chunk
      let world := world.withDb outcome
      match outcome.reply, chunks with
      | .error error, _ => (world.drop index, .build (.error error))
      | .ok _, [] => (world.drop index, .build (.ok pending))
      | .ok _, chunks => (world.replace index (.persisting pending chunks), .waiting)
  | .confirming pending => (world.drop index, .committed (confirmCommit env world.db pending))
  | .scanning retired [] =>
      let outcome := editDatabase env world.db (forgetRetiredEdit retired)
      ((world.withDb outcome).drop index, .published outcome.reply)
  | .scanning retired (definition :: tables) =>
      match retirementKeys env world.db definition retired.generation.sequence with
      | .error error => (world.drop index, .published (.error error))
      | .ok [] => (world.replace index (.scanning retired tables), .waiting)
      | .ok keys => (world.replace index (.removing retired definition tables keys), .waiting)
  | .removing retired definition tables keys =>
      let outcome := editDatabase env world.db (removeKeysEdit retired definition keys)
      let world := world.withDb outcome
      match outcome.reply with
      | .error error => (world.drop index, .published (.error error))
      | .ok _ => (world.replace index (.scanning retired (definition :: tables)), .waiting)

/-- An operation with one transaction that the ghost log does not record. -/
def single (world : World) (outcome : Outcome ε α) (reply : Except ε α → Reply) : World × Reply :=
  (world.withDb outcome, reply outcome.reply)

/-- An operation with one transaction that the ghost log records. -/
def singleLogged (world : World) (outcome : Outcome ε α) (event : α → Event)
    (reply : Except ε α → Reply) : World × Reply :=
  (world.logged outcome event, reply outcome.reply)

def execute (world : World) (env : Env) : Command → World × Reply
  | .captureCorpus => world.captureCorpus env
  | .startBuild capture random =>
      match world.captures[capture]? with
      | none => (world, .waiting)
      | some capture => world.startBuild env capture random
  | .stagePage pending page =>
      world.single (Control.stagePage env world.db pending page) .published
  | .finishSource pending id units =>
      world.single (Control.finishSource env world.db pending id units) .published
  | .completeCapture pending =>
      world.single (Control.completeCapture env world.db pending) .build
  | .recordDispatch pending operation =>
      world.singleLogged (Control.recordDispatch env world.db pending operation)
        (fun revision => .recorded pending.build operation revision) .dispatched
  | .finishDispatch pending operation operationRevision applied =>
      world.singleLogged
        (Control.finishDispatch env world.db pending operation operationRevision applied)
        (fun _ => .settled pending.build operation operationRevision applied) .published
  | .commitGeneration pending => world.commitGeneration env pending
  | .abandonBuild pending =>
      world.singleLogged (Control.abandonBuild env world.db pending)
        (fun _ => .abandoned pending.build) .published
  | .supersedeUnknownBuild expected =>
      world.singleLogged (Control.supersedeUnknownBuild env world.db expected)
        (fun _ => .superseded expected) .published
  | .finishRetirement retired => world.finishRetirement retired
  | .advance call =>
      match world.calls[call]? with
      | none => (world, .waiting)
      | some found => world.advance env call found
  | .abort call => (world.drop call, .waiting)
  | .crash => ({ world with calls := [] }, .waiting)
  | .commitCurrentSource capture fileKey objectRef =>
      world.single (Control.commitCurrentSource env world.db capture fileKey objectRef) .source
  | .removeCurrentSources expected =>
      world.single (Control.removeCurrentSources env world.db expected) .sources
  | .admitSelection selection randomId =>
      world.single (Control.admitSelection env world.db selection randomId) .sources
  | .writeSettings id settings source previous =>
      world.single (Control.writeSettings env world.db id settings source previous) .preparation
  | .commitPreparation capture result =>
      world.single (Control.commitPreparation env world.db capture result) .preparation

def step (world : World) (action : Action) : World := (world.execute action.env action.command).1

def reply (world : World) (action : Action) : Reply :=
  (world.execute action.env action.command).2

/-- The world after a sequence of actions. -/
def run (world : World) (actions : List Action) : World := Runs.run step world actions

end World

/-- The publication catalogue does not exist. -/
structure Db.PublicationAbsent (db : Db) : Prop where
  header : db.publicationState = none
  sources : db.generationSources = none
  pages : db.generationPages = none
  evidence : db.generationEvidence = none
  retired : db.retiredGenerations = none

end EliotSearch.Control
