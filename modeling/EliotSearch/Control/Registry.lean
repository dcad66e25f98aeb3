import EliotSearch.Control.Snapshots
import EliotSearch.Library.Runs

/-!
# Runs of the source registry

Callers capture registrations and preparations, work outside the database and
commit later, in any order.  One action runs one transaction.  An operation
with a second transaction, and a capture that has not been committed, is held
between its transactions; a capture is consumed by its one commit.

`drawn` records every random identity a capture drew.  No operation reads it.
-/

namespace EliotSearch.Control

open EliotSearch.Library
open EliotSearch.Library.Results

/-! ## What callers hold -/

/-- The references for which the object store has a name. -/
def NamedObject (reference : ObjectRef) (maximumBytes : UInt64) : Prop :=
  reference.formatVersion = sourceObjectFormatVersion ∧ maximumBytes ≠ 0 ∧
    reference.byteLength ≤ maximumBytes ∧
    (reference.kind ≠ .source ∨ reference.byteLength ≤ maxSourceObjectBytes)

/-- A reference returned by the object store after it retained the bytes. -/
structure RetainedObject where
  reference : ObjectRef
  named : ∃ maximumBytes, NamedObject reference maximumBytes

/-- An operation between its transactions. -/
inductive HeldCall where
  | resolvingSource (record : CurrentSourceRecord)
  | writingSettings (id : SourceId) (settings : PreparationSettings)
      (source : CurrentSourceRecord) (previous : Option CurrentPreparation) (owned : Bool)
  | resolvingPreparation (proposed : CurrentPreparation)
  deriving DecidableEq

/-- One root with what its callers hold: a slot for every source capture taken,
emptied by its commit, every preparation capture, and the calls in flight. -/
structure Registry where
  db : Db
  sources : List (Option SourceCapture)
  preparations : List PreparationCapture
  calls : List HeldCall
  drawn : List SourceId

namespace Registry

def init (db : Db) : Registry := ⟨db, [], [], [], []⟩

/-- An operation on the database of a control writer reports an ambiguous
commit as it is; one that opened the database itself observes it again. -/
inductive Command where
  | captureCurrentSource (selectedFile : Bytes) (draws : Draws)
  | commitCurrentSource (slot : Nat) (fileKey : NativeFileKey) (object : RetainedObject)
      (owned : Bool)
  | captureCurrentSources
  | removeCurrentSources (expected : List CurrentSourceRecord)
  | admitSelection (selection : AdmittedSelection) (randomId : Octets 16)
  | captureSelections
  | selectSettings (id : SourceId) (settings : PreparationSettings) (initializeOnly owned : Bool)
  | capturePreparation (id : SourceId)
  | commitPreparation (capture : Nat) (result : PreparationOutcome) (owned : Bool)
  | captureCorpus
  | advance (call : Nat)
  | abort (call : Nat)

structure Action where
  env : Env
  command : Command

/-- What the caller of an action is told. -/
inductive Reply where
  | waiting
  | captured (result : Except SourceControlError SourceCapture)
  | source (result : Except SourceControlError CurrentSourceRecord)
  | inventory (result : Except SourceControlError (List CurrentSourceRecord))
  | selections (result : Except SourceControlError (List AdmittedSelection))
  | done (result : Except SourceControlError Unit)
  | attempt (result : Except PreparationControlError PreparationCapture)
  | preparation (result : Except PreparationControlError CurrentPreparation)
  | corpus (result : Except PublicationError CorpusCapture)
  deriving DecidableEq

/-! ## Steps -/

/-- The value of a transaction whose commit reported failure. -/
def unacknowledged {ε α : Type} (env : Env) : Except ε (Option Db × α) → Option α
  | .ok (some _, value) => if env.fate = .acknowledged then none else some value
  | _ => none

def push (registry : Registry) (call : HeldCall) : Registry :=
  { registry with calls := registry.calls ++ [call] }

def drop (registry : Registry) (call : Nat) : Registry :=
  { registry with calls := registry.calls.eraseIdx call }

def captureSource (registry : Registry) (env : Env) (selectedFile : Bytes) (draws : Draws) :
    Registry × Reply :=
  let registry := { registry with drawn := registry.drawn ++ draws.sourceId.toList }
  match Control.captureCurrentSource env registry.db selectedFile draws with
  | .error error => (registry, .captured (.error error))
  | .ok capture =>
      ({ registry with sources := registry.sources ++ [some capture] }, .captured (.ok capture))

def commitSource (registry : Registry) (env : Env) (slot : Nat) (fileKey : NativeFileKey)
    (object : RetainedObject) (owned : Bool) : Registry × Reply :=
  match registry.sources[slot]?.join with
  | none => (registry, .waiting)
  | some capture =>
      let attempt :=
        commitSourceTransaction env registry.db capture fileKey object.reference
      let outcome := settle env registry.db SourceControlError.database attempt
      let registry := { registry with db := outcome.db, sources := registry.sources.set slot none }
      match unacknowledged env attempt, owned with
      | some record, false => (registry.push (.resolvingSource record), .waiting)
      | _, _ => (registry, .source outcome.reply)

/-- The read transaction of a settings selection; the write follows when the
selection changes anything. -/
def selectSettings (registry : Registry) (env : Env) (id : SourceId)
    (settings : PreparationSettings) (initializeOnly owned : Bool) : Registry × Reply :=
  if ¬ settings.IsSupported then (registry, .preparation (.error .invalidSettings))
  else
    match readPreparation env registry.db id with
    | .error error => (registry, .preparation (.error error))
    | .ok (source, previous) =>
        match previous with
        | some row =>
            if initializeOnly = true ∨ row.settings = settings then
              (registry, .preparation (.ok row))
            else
              (registry.push (.writingSettings id settings source previous owned), .waiting)
        | none => (registry.push (.writingSettings id settings source previous owned), .waiting)

def capturePreparation (registry : Registry) (env : Env) (id : SourceId) : Registry × Reply :=
  match readPreparation env registry.db id >>= fun read => captureView read.1 read.2 with
  | .error error => (registry, .attempt (.error error))
  | .ok capture =>
      ({ registry with preparations := registry.preparations ++ [capture] },
        .attempt (.ok capture))

/-- Take over a preparation write, to be observed again when it was not
acknowledged to the caller that opened the database. -/
def finishPreparation (registry : Registry) (env : Env) (owned : Bool)
    (attempt : Except PreparationControlError (Option Db × CurrentPreparation)) :
    Registry × Reply :=
  let outcome := settle env registry.db PreparationControlError.database attempt
  let registry := { registry with db := outcome.db }
  match unacknowledged env attempt, owned with
  | some proposed, false => (registry.push (.resolvingPreparation proposed), .waiting)
  | _, _ => (registry, .preparation outcome.reply)

def commitPreparation (registry : Registry) (env : Env) (capture : Nat)
    (result : PreparationOutcome) (owned : Bool) : Registry × Reply :=
  match registry.preparations[capture]? with
  | none => (registry, .waiting)
  | some capture =>
      registry.finishPreparation env owned
        (commitPreparationTransaction env registry.db capture result)

/-- What a preparation write that reported failure turns out to be. -/
def resolvePreparation (proposed : CurrentPreparation) :
    Except PreparationControlError (CurrentSourceRecord × Option CurrentPreparation) →
      Except PreparationControlError CurrentPreparation
  | .error error => .error error
  | .ok (_, observed) => if observed = some proposed then .ok proposed else .error .stale

/-- The next transaction of a call in flight. -/
def advance (registry : Registry) (env : Env) (index : Nat) : HeldCall → Registry × Reply
  | .resolvingSource record =>
      (registry.drop index, .source
        (resolveSourceCommit record (loadCurrentSource env registry.db record.locator)))
  | .writingSettings id settings source previous owned =>
      (registry.drop index).finishPreparation env owned
        (writeSettingsTransaction env registry.db id settings source previous)
  | .resolvingPreparation proposed =>
      (registry.drop index, .preparation
        (resolvePreparation proposed (readPreparation env registry.db proposed.sourceId)))

def execute (registry : Registry) (env : Env) : Command → Registry × Reply
  | .captureCurrentSource selectedFile draws => registry.captureSource env selectedFile draws
  | .commitCurrentSource slot fileKey object owned =>
      registry.commitSource env slot fileKey object owned
  | .captureCurrentSources => (registry, .inventory (Control.captureCurrentSources env registry.db))
  | .removeCurrentSources expected =>
      let outcome := Control.removeCurrentSources env registry.db expected
      ({ registry with db := outcome.db }, .done outcome.reply)
  | .admitSelection selection randomId =>
      let outcome := Control.admitSelection env registry.db selection randomId
      ({ registry with db := outcome.db }, .done outcome.reply)
  | .captureSelections => (registry, .selections (Control.captureSelections env registry.db))
  | .selectSettings id settings initializeOnly owned =>
      registry.selectSettings env id settings initializeOnly owned
  | .capturePreparation id => registry.capturePreparation env id
  | .commitPreparation capture result owned =>
      registry.commitPreparation env capture result owned
  | .captureCorpus => (registry, .corpus (Control.captureCorpus env registry.db))
  | .advance call =>
      match registry.calls[call]? with
      | none => (registry, .waiting)
      | some found => registry.advance env call found
  | .abort call => (registry.drop call, .waiting)

def step (registry : Registry) (action : Action) : Registry :=
  (registry.execute action.env action.command).1

def reply (registry : Registry) (action : Action) : Reply :=
  (registry.execute action.env action.command).2

/-- The registry of an empty root after a sequence of actions. -/
def run (actions : List Action) : Registry := Runs.run step (init Db.empty) actions

/-! ## What a step can do -/

/-- What one action does to the database and to the captures held.  Actions
that do neither are one case. -/
inductive Change (registry next : Registry) (action : Action) : Prop where
  | idle
      (hdb : next.db = registry.db)
      (hsources : next.sources = registry.sources)
      (hpreparations : next.preparations = registry.preparations ∨ ∃ id capture,
        action.command = .capturePreparation id ∧
        readPreparation action.env registry.db id >>= (fun read => captureView read.1 read.2) =
          .ok capture ∧ next.preparations = registry.preparations ++ [capture])
      (hdrawn : ∃ ids, next.drawn = registry.drawn ++ ids)
  | captured {selectedFile : Bytes} {draws : Draws} {capture : SourceCapture}
      (hcommand : action.command = .captureCurrentSource selectedFile draws)
      (hcapture : Control.captureCurrentSource action.env registry.db selectedFile draws =
        .ok capture)
      (hdb : next.db = registry.db)
      (hsources : next.sources = registry.sources ++ [some capture])
      (hpreparations : next.preparations = registry.preparations)
      (hdrawn : next.drawn = registry.drawn ++ draws.sourceId.toList)
  | spent {slot : Nat} {capture : SourceCapture}
      (hslot : registry.sources[slot]? = some (some capture))
      (hdb : next.db = registry.db)
      (hsources : next.sources = registry.sources.set slot none)
      (hpreparations : next.preparations = registry.preparations)
      (hdrawn : next.drawn = registry.drawn)
  | wroteSource {slot : Nat} {capture : SourceCapture} {fileKey : NativeFileKey}
      {object : RetainedObject} {owned : Bool} {record : CurrentSourceRecord}
      (hcommand : action.command = .commitCurrentSource slot fileKey object owned)
      (hslot : registry.sources[slot]? = some (some capture))
      (hwrite : SourceWrite registry.db next.db capture fileKey object.reference record)
      (hsources : next.sources = registry.sources.set slot none)
      (hpreparations : next.preparations = registry.preparations)
      (hdrawn : next.drawn = registry.drawn)
  | erasedSources {expected : List CurrentSourceRecord}
      (herased : SourcesErased registry.db next.db expected)
      (hsources : next.sources = registry.sources)
      (hpreparations : next.preparations = registry.preparations)
      (hdrawn : next.drawn = registry.drawn)
  | admitted {selection : AdmittedSelection} {randomId : Octets 16}
      (hadmitted : SelectionAdmitted action.env registry.db next.db selection randomId)
      (hsources : next.sources = registry.sources)
      (hpreparations : next.preparations = registry.preparations)
      (hdrawn : next.drawn = registry.drawn)
  | wroteSettings {call : Nat} {id : SourceId} {settings : PreparationSettings}
      {source : CurrentSourceRecord} {previous : Option CurrentPreparation} {owned : Bool}
      {row : CurrentPreparation}
      (hcommand : action.command = .advance call)
      (hcall : registry.calls[call]? =
        some (.writingSettings id settings source previous owned))
      (hwrite : SettingsWrite registry.db next.db id settings source previous row)
      (hsources : next.sources = registry.sources)
      (hpreparations : next.preparations = registry.preparations)
      (hdrawn : next.drawn = registry.drawn)
  | wroteOutcome {index : Nat} {capture : PreparationCapture} {result : PreparationOutcome}
      {owned : Bool} {old row : CurrentPreparation}
      (hcommand : action.command = .commitPreparation index result owned)
      (hcapture : registry.preparations[index]? = some capture)
      (hwrite : OutcomeWrite registry.db next.db capture result old row)
      (hsources : next.sources = registry.sources)
      (hpreparations : next.preparations = registry.preparations)
      (hdrawn : next.drawn = registry.drawn)

variable {registry : Registry} {env : Env}

/-- An action that leaves everything but calls and identities drawn alone. -/
theorem Change.unchanged {next : Registry} {action : Action} (hdb : next.db = registry.db)
    (hsources : next.sources = registry.sources)
    (hpreparations : next.preparations = registry.preparations)
    (hdrawn : ∃ ids, next.drawn = registry.drawn ++ ids) : Change registry next action :=
  .idle hdb hsources (Or.inl hpreparations) hdrawn

theorem Change.refl (registry : Registry) (action : Action) : Change registry registry action :=
  .unchanged rfl rfl rfl ⟨[], (List.append_nil _).symm⟩

theorem finishPreparation_frame (registry : Registry) (env : Env) (owned : Bool)
    (attempt : Except PreparationControlError (Option Db × CurrentPreparation)) :
    (registry.finishPreparation env owned attempt).1.db =
        (settle env registry.db PreparationControlError.database attempt).db ∧
      (registry.finishPreparation env owned attempt).1.sources = registry.sources ∧
      (registry.finishPreparation env owned attempt).1.preparations = registry.preparations ∧
      (registry.finishPreparation env owned attempt).1.drawn = registry.drawn := by
  unfold finishPreparation
  split
  · exact ⟨rfl, rfl, rfl, rfl⟩
  · exact ⟨rfl, rfl, rfl, rfl⟩

theorem change_captureSource (selectedFile : Bytes) (draws : Draws) :
    Change registry (registry.captureSource env selectedFile draws).1
      ⟨env, .captureCurrentSource selectedFile draws⟩ := by
  unfold captureSource
  dsimp only
  split
  · exact .unchanged rfl rfl rfl ⟨_, rfl⟩
  · rename_i capture hcapture
    exact .captured rfl hcapture rfl rfl rfl rfl

theorem commitSource_frame (env : Env) {slot : Nat} {capture : SourceCapture}
    (hslot : registry.sources[slot]? = some (some capture)) (fileKey : NativeFileKey)
    (object : RetainedObject) (owned : Bool) :
    (registry.commitSource env slot fileKey object owned).1.db =
        (settle env registry.db SourceControlError.database
          (commitSourceTransaction env registry.db capture fileKey object.reference)).db ∧
      (registry.commitSource env slot fileKey object owned).1.sources =
        registry.sources.set slot none ∧
      (registry.commitSource env slot fileKey object owned).1.preparations =
        registry.preparations ∧
      (registry.commitSource env slot fileKey object owned).1.drawn = registry.drawn := by
  have hfound : registry.sources[slot]?.join = some capture := by rw [hslot, Option.join_some]
  simp only [commitSource, hfound]
  split
  · exact ⟨rfl, rfl, rfl, rfl⟩
  · exact ⟨rfl, rfl, rfl, rfl⟩

theorem change_commitSource (slot : Nat) (fileKey : NativeFileKey) (object : RetainedObject)
    (owned : Bool) :
    Change registry (registry.commitSource env slot fileKey object owned).1
      ⟨env, .commitCurrentSource slot fileKey object owned⟩ := by
  cases hslot : registry.sources[slot]?.join with
  | none =>
      simp only [commitSource, hslot]
      exact .refl registry _
  | some capture =>
      have hheld : registry.sources[slot]? = some (some capture) := Option.join_eq_some_iff.mp hslot
      obtain ⟨hdb, hsources, hpreparations, hdrawn⟩ :=
        commitSource_frame env hheld fileKey object owned
      rcases settle_cases env registry.db SourceControlError.database
        (commitSourceTransaction env registry.db capture fileKey object.reference) with
        ⟨-, hsame, -⟩ | ⟨after, record, hattempt, hafter, -⟩
      · exact .spent hheld (hdb.trans hsame) hsources hpreparations hdrawn
      · have hwrite := commitSourceTransaction_wrote hattempt
        rw [← hafter, ← hdb] at hwrite
        exact .wroteSource rfl hheld hwrite hsources hpreparations hdrawn

theorem change_removeSources (expected : List CurrentSourceRecord) :
    Change registry (registry.execute env (.removeCurrentSources expected)).1
      ⟨env, .removeCurrentSources expected⟩ := by
  rcases settle_cases env registry.db SourceControlError.database
    (removeSourcesTransaction env registry.db expected) with
    ⟨-, hsame, -⟩ | ⟨after, value, hattempt, hafter, -⟩
  · exact .unchanged hsame rfl rfl ⟨[], (List.append_nil _).symm⟩
  · have herased := removeSourcesTransaction_erased hattempt
    rw [← hafter] at herased
    exact .erasedSources herased rfl rfl rfl

theorem change_admitSelection (selection : AdmittedSelection) (randomId : Octets 16) :
    Change registry (registry.execute env (.admitSelection selection randomId)).1
      ⟨env, .admitSelection selection randomId⟩ := by
  rcases settle_cases env registry.db SourceControlError.database
    (admitSelectionTransaction env registry.db selection randomId) with
    ⟨-, hsame, -⟩ | ⟨after, value, hattempt, hafter, -⟩
  · exact .unchanged hsame rfl rfl ⟨[], (List.append_nil _).symm⟩
  · have hadmitted := admitSelectionTransaction_admitted hattempt
    rw [← hafter] at hadmitted
    exact .admitted hadmitted rfl rfl rfl

theorem change_selectSettings (id : SourceId) (settings : PreparationSettings)
    (initializeOnly owned : Bool) (action : Action) :
    Change registry (registry.selectSettings env id settings initializeOnly owned).1 action := by
  have hnone : ∃ ids, registry.drawn = registry.drawn ++ ids := ⟨[], (List.append_nil _).symm⟩
  unfold selectSettings
  split
  · exact .refl registry action
  · split
    · exact .refl registry action
    · split
      · split
        · exact .refl registry action
        · exact .unchanged rfl rfl rfl hnone
      · exact .unchanged rfl rfl rfl hnone

theorem change_capturePreparation (id : SourceId) :
    Change registry (registry.capturePreparation env id).1 ⟨env, .capturePreparation id⟩ := by
  unfold capturePreparation
  split
  · exact .refl registry _
  · rename_i capture hcapture
    exact .idle rfl rfl (Or.inr ⟨id, capture, rfl, hcapture, rfl⟩) ⟨[], (List.append_nil _).symm⟩

theorem change_commitPreparation (index : Nat) (result : PreparationOutcome) (owned : Bool) :
    Change registry (registry.commitPreparation env index result owned).1
      ⟨env, .commitPreparation index result owned⟩ := by
  cases hcapture : registry.preparations[index]? with
  | none =>
      simp only [commitPreparation, hcapture]
      exact .refl registry _
  | some capture =>
      obtain ⟨hdb, hsources, hpreparations, hdrawn⟩ := finishPreparation_frame
        registry env owned
        (commitPreparationTransaction env registry.db capture result)
      simp only [commitPreparation, hcapture]
      rcases settle_cases env registry.db PreparationControlError.database
        (commitPreparationTransaction env registry.db capture result) with
        ⟨-, hsame, -⟩ | ⟨after, row, hattempt, hafter, -⟩
      · exact .unchanged (hdb.trans hsame) hsources hpreparations
          ⟨[], by rw [hdrawn, List.append_nil]⟩
      · obtain ⟨old, hwrite⟩ := commitPreparationTransaction_wrote hattempt
        rw [← hafter, ← hdb] at hwrite
        exact .wroteOutcome rfl hcapture hwrite hsources hpreparations hdrawn

theorem change_advance {index : Nat} {call : HeldCall} (hcall : registry.calls[index]? = some call) :
    Change registry (registry.advance env index call).1 ⟨env, .advance index⟩ := by
  have hnone : ∃ ids, registry.drawn = registry.drawn ++ ids := ⟨[], (List.append_nil _).symm⟩
  cases call with
  | resolvingSource record => exact .unchanged rfl rfl rfl hnone
  | resolvingPreparation proposed => exact .unchanged rfl rfl rfl hnone
  | writingSettings id settings source previous owned =>
      obtain ⟨hdb, hsources, hpreparations, hdrawn⟩ := finishPreparation_frame
        (registry.drop index) env owned
        (writeSettingsTransaction env registry.db id settings source previous)
      rcases settle_cases env registry.db PreparationControlError.database
        (writeSettingsTransaction env registry.db id settings source previous) with
        ⟨-, hsame, -⟩ | ⟨after, row, hattempt, hafter, -⟩
      · exact .unchanged (hdb.trans hsame) hsources hpreparations
          ⟨[], by rw [List.append_nil]; exact hdrawn⟩
      · have hwrite := writeSettingsTransaction_wrote hattempt
        rw [← hafter] at hwrite
        exact .wroteSettings rfl hcall (hdb ▸ hwrite) hsources hpreparations hdrawn

/-- Every action is one of the changes. -/
theorem step_change (registry : Registry) (action : Action) :
    Change registry (registry.step action) action := by
  obtain ⟨env, command⟩ := action
  cases command with
  | captureCurrentSource selectedFile draws => exact change_captureSource selectedFile draws
  | commitCurrentSource slot fileKey object owned =>
      exact change_commitSource slot fileKey object owned
  | captureCurrentSources => exact .refl registry _
  | removeCurrentSources expected => exact change_removeSources expected
  | admitSelection selection randomId => exact change_admitSelection selection randomId
  | captureSelections => exact .refl registry _
  | selectSettings id settings initializeOnly owned =>
      exact change_selectSettings id settings initializeOnly owned _
  | capturePreparation id => exact change_capturePreparation id
  | commitPreparation capture result owned => exact change_commitPreparation capture result owned
  | captureCorpus => exact .refl registry _
  | advance call =>
      cases hcall : registry.calls[call]? with
      | none =>
          simp only [step, execute, hcall]
          exact .refl registry _
      | some found =>
          simp only [step, execute, hcall]
          exact change_advance hcall
  | abort call => exact .unchanged rfl rfl rfl ⟨[], (List.append_nil _).symm⟩

end Registry

end EliotSearch.Control
