import EliotSearch.Control.StagedRows
import EliotSearch.Corpus.Backend
import EliotSearch.Library.RemoteCalls

/-!
# Uploads to the backend

The collections of the backend and the control store are two parties.  An upload
records an operation in the store, sends the requests of the operation and settles
their result; a cleanup deletes the collection of a retired generation and forgets
its row once the collection is seen to be absent.  Uploads and cleanups of any
callers, other transactions of the store, lost callers and requests that arrive
late are interleaved in any order.

An upload reloads its pending build while it holds the writer, so it records a page
only for the build that the page was read from.  The text of a point is cut from
its retained artifact, which never changes.
-/

namespace EliotSearch.Corpus

open EliotSearch.Control
open EliotSearch.Library
open EliotSearch.Library.Json
open EliotSearch.Library.RemoteCalls
open EliotSearch.Library.Utf8

/-! ## Requests -/

structure CreateCollection where
  collectionName : Bytes
  shardNumber : Option UInt32
  replicationFactor : Option UInt32
  writeConsistencyFactor : Option UInt32
  shardingMethod : Option Schema.ShardingMethod
  deriving DecidableEq

structure CreateFieldIndex where
  collectionName : Bytes
  fieldName : Bytes
  fieldType : Option Schema.PayloadSchemaType
  fieldIndexParams : Option Schema.IndexParams
  wait : Option Bool
  deriving DecidableEq

structure DeleteCollection where
  collectionName : Bytes
  deriving DecidableEq

/-- A request that changes a collection. -/
inductive Mutation where
  | createCollection (request : CreateCollection)
  | createFieldIndex (request : CreateFieldIndex)
  | upsertPoints (request : UpsertPoints)
  | deleteCollection (request : DeleteCollection)
  deriving DecidableEq

def createCollection (name : Bytes) : CreateCollection where
  collectionName := name
  shardNumber := some 1
  replicationFactor := some 1
  writeConsistencyFactor := some 1
  shardingMethod := some .auto

def createTextIndex (name : Bytes) : CreateFieldIndex where
  collectionName := name
  fieldName := textField
  fieldType := some .text
  fieldIndexParams := some (.textIndexParams Schema.textParams)
  wait := some true

/-- The requests of `create_generation`. -/
def creation (name : Bytes) : List Mutation :=
  [.createCollection (createCollection name), .createFieldIndex (createTextIndex name)]

section Insertion

variable (texts : PointEvidence → Text)

def textInputs (points : List UploadPoint) : List PointInput :=
  points.map fun point => ⟨point.id, point.evidence.sourceId, texts point.evidence⟩

/-- The request of `insert_only`. -/
def insertion (name : Bytes) (page : UploadPage) : List Mutation :=
  [.upsertPoints (upsertPoints name (textInputs texts page.points))]

end Insertion

/-- The collection was created and not deleted since. -/
def present (log : List Mutation) : Bool :=
  match log.getLast? with
  | none => false
  | some (.deleteCollection _) => false
  | some _ => true

/-! ## Sites -/

/-- An upload between the record of an operation and its settlement. -/
structure Upload where
  pending : PendingGeneration
  operation : PendingOperation
  revision : UInt64
  requests : List Mutation
  stage : Stage
  deriving DecidableEq

def Upload.call (upload : Upload) : RemoteCalls.Call Mutation :=
  ⟨upload.operation.step, upload.revision.toNat, upload.requests, upload.stage⟩

/-- What concerns one collection: the uploads that call it, the requests that lost
uploads left underway, and the mutations it applied so far. -/
structure Channel where
  calls : List Upload
  stray : List Mutation
  log : List Mutation

/-- A page as an upload read it. -/
structure PageRead where
  generation : Generation
  number : UInt64
  page : UploadPage

/-- A cleanup of one retired row that it read. -/
structure Cleanup where
  retired : RetiredGeneration
  absent : Bool
  deriving DecidableEq

/-- What a cleanup may delete: a retired generation that owns its collection and has
no unresolved build. -/
def Cleanup.Erasable (cleanup : Cleanup) : Prop :=
  cleanup.retired.unresolvedBuild = none ∧ cleanup.retired.remoteOwned = true

instance (cleanup : Cleanup) : Decidable cleanup.Erasable := inferInstanceAs (Decidable (_ ∧ _))

/-- What a cleanup may forget: it has no unresolved build, and a collection of its
own was seen to be absent. -/
def Cleanup.Finishable (cleanup : Cleanup) : Prop :=
  cleanup.retired.unresolvedBuild = none ∧
    (cleanup.retired.remoteOwned = true → cleanup.absent = true)

instance (cleanup : Cleanup) : Decidable cleanup.Finishable := inferInstanceAs (Decidable (_ ∧ _))

/-- The store, the collections by name, the pages and retired rows that uploads and
cleanups have read, and the deletions underway. -/
structure Site where
  world : World
  channels : Bytes → Channel
  reads : List PageRead
  cleanups : List Cleanup
  erasures : List Bytes

def Site.init (db : Db) : Site := ⟨World.init db, fun _ => ⟨[], [], []⟩, [], [], []⟩

/-! ## Channels -/

namespace Channel

/-- Put a call at another stage. -/
def setStage (channel : Channel) (index : Nat) (call : Upload) (stage : Stage) : Channel :=
  { channel with calls := channel.calls.set index { call with stage } }

def dropCall (channel : Channel) (index : Nat) : Channel :=
  { channel with calls := channel.calls.eraseIdx index }

/-- Hand the next request of a call to the transport. -/
def send (channel : Channel) (index : Nat) : Channel :=
  match channel.calls[index]? with
  | none => channel
  | some call =>
      match call.stage with
      | .ready done =>
          if done < call.requests.length then channel.setStage index call (.sent done) else channel
      | _ => channel

/-- The backend applies the request that a call has underway, or refuses it. -/
def handle (channel : Channel) (index : Nat) (applied : Bool) : Channel :=
  match channel.calls[index]? with
  | none => channel
  | some call =>
      match call.stage with
      | .sent done =>
          match call.requests[done]? with
          | none => channel
          | some request =>
              { channel.setStage index call (.handled done applied) with
                log := channel.log ++ effect request applied }
      | _ => channel

/-- A completed acknowledgement comes back. -/
def answer (channel : Channel) (index : Nat) : Channel :=
  match channel.calls[index]? with
  | none => channel
  | some call =>
      match call.stage with
      | .handled done true => channel.setStage index call (.ready (done + 1))
      | _ => channel

/-- An upload stops with an unknown result, or is lost. -/
def lose (channel : Channel) (index : Nat) : Channel :=
  match channel.calls[index]? with
  | none => channel
  | some upload =>
      { channel.dropCall index with
        stray := channel.stray ++ upload.call.underway.toList }

/-- A request of a lost upload arrives after all. -/
def arrive (channel : Channel) (index : Nat) (applied : Bool) : Channel :=
  match channel.stray[index]? with
  | none => channel
  | some request =>
      { channel with
        stray := channel.stray.eraseIdx index
        log := channel.log ++ effect request applied }

/-- The deletion of an existing collection. -/
def delete (channel : Channel) (name : Bytes) : Channel :=
  if present channel.log then
    { channel with log := channel.log ++ [.deleteCollection ⟨name⟩] }
  else channel

end Channel

/-! ## Steps -/

namespace Site

/-- One action of an upload, a cleanup, the backend or another caller. -/
inductive Action where
  | control (action : Control.Action)
  | readPage (env : Env) (generation : Generation) (number : UInt64)
  | create (env : Env) (pending : PendingGeneration)
  | insert (env : Env) (pending : PendingGeneration) (read : Nat)
  | send (name : Bytes) (call : Nat)
  | handle (name : Bytes) (call : Nat) (applied : Bool)
  | answer (name : Bytes) (call : Nat)
  | settle (env : Env) (name : Bytes) (call : Nat) (applied : Bool)
  | lose (name : Bytes) (call : Nat)
  | arrive (name : Bytes) (request : Nat) (applied : Bool)
  | readRetired (env : Env)
  | erase (cleanup : Nat)
  | delete (erasure : Nat) (applied : Bool)
  | observe (cleanup : Nat)
  | retire (env : Env) (cleanup : Nat)

/-- Only uploads record and settle dispatches, and only cleanups finish a
retirement. -/
def Permitted : Command → Prop
  | .recordDispatch _ _ => False
  | .finishDispatch _ _ _ _ => False
  | .finishRetirement _ => False
  | _ => True

instance (command : Command) : Decidable (Permitted command) := by
  cases command <;> unfold Permitted <;> infer_instance

section Steps

variable (texts : PointEvidence → Text)

def amend (site : Site) (name : Bytes) (change : Channel → Channel) : Site :=
  { site with channels := Function.update site.channels name (change (site.channels name)) }

/-- Record an operation and begin its call. -/
def dispatch (site : Site) (env : Env) (pending : PendingGeneration)
    (operation : PendingOperation) (requests : List Mutation) : Site :=
  let action : Control.Action := ⟨env, .recordDispatch pending operation⟩
  let recorded := { site with world := site.world.step action }
  match site.world.reply action with
  | .dispatched (.ok revision) =>
      recorded.amend pending.generation.collection fun channel =>
        { channel with
          calls := channel.calls ++ [⟨pending, operation, revision, requests, .ready 0⟩] }
  | _ => recorded

/-- Settle the result of a concluded call. -/
def settle (site : Site) (env : Env) (name : Bytes) (index : Nat) (applied : Bool) : Site :=
  match (site.channels name).calls[index]? with
  | none => site
  | some upload =>
      if upload.stage.Concludes upload.requests.length applied then
        { site with
          world := site.world.step ⟨env, .finishDispatch upload.pending upload.operation
            upload.revision applied⟩ }.amend name (·.dropCall index)
      else site

def step (site : Site) : Action → Site
  | .control action =>
      if Permitted action.command then { site with world := site.world.step action } else site
  | .readPage env generation number =>
      match observeDatabase env site.world.db fun db => readSavedPage db generation number with
      | .error _ => site
      | .ok page => { site with reads := site.reads ++ [⟨generation, number, page⟩] }
  | .create env pending =>
      site.dispatch env pending .create (creation pending.generation.collection)
  | .insert env pending read =>
      match site.reads[read]? with
      | none => site
      | some found =>
          if found.generation.build = pending.build then
            site.dispatch env pending (.insert found.number)
              (insertion texts pending.generation.collection found.page)
          else site
  | .send name call => site.amend name (·.send call)
  | .handle name call applied => site.amend name (·.handle call applied)
  | .answer name call => site.amend name (·.answer call)
  | .settle env name call applied => site.settle env name call applied
  | .lose name call => site.amend name (·.lose call)
  | .arrive name request applied => site.amend name (·.arrive request applied)
  | .readRetired env =>
      match observeDatabase env site.world.db readRetirements with
      | .error _ => site
      | .ok retired =>
          { site with cleanups := site.cleanups ++ retired.map fun retired => ⟨retired, false⟩ }
  | .erase cleanup =>
      match site.cleanups[cleanup]? with
      | none => site
      | some found =>
          if found.Erasable then
            { site with erasures := site.erasures ++ [found.retired.generation.collection] }
          else site
  | .delete erasure applied =>
      match site.erasures[erasure]? with
      | none => site
      | some name =>
          let left := { site with erasures := site.erasures.eraseIdx erasure }
          if applied then left.amend name (·.delete name) else left
  | .observe cleanup =>
      match site.cleanups[cleanup]? with
      | none => site
      | some found =>
          if present (site.channels found.retired.generation.collection).log then site
          else { site with cleanups := site.cleanups.set cleanup { found with absent := true } }
  | .retire env cleanup =>
      match site.cleanups[cleanup]? with
      | none => site
      | some found =>
          if found.Finishable then
            { site with world := site.world.step ⟨env, .finishRetirement found.retired⟩ }
          else site

/-- The site after a sequence of actions. -/
def run (site : Site) (actions : List Action) : Site := Runs.run (step texts) site actions

end Steps

end Site

end EliotSearch.Corpus
