import EliotSearch.Control.Soundness

/-!
# Sequences that left the header

A sequence that is neither current nor pending never comes back: no transaction
adds a row of it, and its retired row goes only with the transaction that
finishes its cleanup.
-/

namespace EliotSearch.Control

open EliotSearch.Library
open EliotSearch.Library.Results
open EliotSearch.Library.Words

/-! ## Sequences that left the header -/

/-- A sequence that was reserved and that no live header names. -/
structure Dead (state : State) (sequence : UInt64) : Prop where
  issued : sequence ≤ state.nextSequence
  not_current : ∀ current ∈ state.current, current.sequence ≠ sequence
  not_pending : ∀ p ∈ state.pending, p.generation.sequence ≠ sequence

section Transitions

variable {wanted : Option ℕ} {captures : List CorpusCapture} {history : List Event}
  {rows left : Rows} {state after : State} {event : Option Event} {sequence : UInt64}

/-- The header moves on with the same build pending. -/
theorem Dead.rebuild (hdead : Dead state sequence) {p next : PendingGeneration}
    (hpending : state.pending = some p)
    (hsame : next.generation.sequence = p.generation.sequence) :
    Dead { state with pending := some next } sequence where
  issued := hdead.issued
  not_current := hdead.not_current
  not_pending := by
    intro found hfound
    obtain rfl := Option.some.inj hfound
    rw [hsame]
    exact hdead.not_pending p hpending

/-- The pending build leaves the header. -/
theorem Dead.release (hdead : Dead state sequence) :
    Dead { state with pending := none } sequence :=
  ⟨hdead.issued, hdead.not_current, fun _ hnone => (nomatch hnone)⟩

/-- A dead sequence stays dead. -/
theorem Dead.step (hdead : Dead state sequence)
    (htransition : Transition wanted captures history rows state event left after) :
    Dead after sequence := by
  cases htransition with
  | @reserve capture namespaceId reserved captured fresh idle named next room =>
      have hlarger : state.nextSequence < reserved := UInt64.lt_iff_toNat_lt.mpr (by omega)
      refine ⟨UInt64.le_trans hdead.issued (UInt64.le_of_lt hlarger), hdead.not_current, ?_⟩
      intro p hp hsame
      obtain rfl := Option.some.inj hp
      exact absurd hdead.issued (UInt64.not_le.mpr (hsame ▸ hlarger))
  | persist => exact hdead
  | stage pending => exact hdead.rebuild pending rfl
  | finish pending => exact hdead.rebuild pending rfl
  | complete pending => exact hdead.rebuild pending rfl
  | record pending => exact hdead.rebuild pending rfl
  | settle pending inFlight result =>
      refine hdead.rebuild pending ?_
      rw [Numbered.settled_generation result]
  | commit pending =>
      refine ⟨hdead.issued, ?_, fun _ hnone => (nomatch hnone)⟩
      intro current hcurrent
      obtain rfl := Option.some.inj hcurrent
      exact hdead.not_pending _ pending
  | abandon => exact hdead.release
  | supersede => exact hdead.release
  | remove => exact hdead
  | forget => exact hdead

/-- No transaction adds or changes a row of a dead sequence. -/
theorem Transition.shrinks
    (htransition : Transition wanted captures history rows state event left after)
    (hdead : Dead state sequence) {table : GenerationTable} {row value : Bytes}
    (hrow : be64 sequence <+: row) (hvalue : (left.get table)[row]? = some value) :
    (rows.get table)[row]? = some value := by
  cases htransition.edits with
  | nothing same => rwa [same table] at hvalue
  | @build p pending confined =>
      have houtside : ¬ be64 p.generation.sequence <+: row :=
        fun hstem => hdead.not_pending p pending (stem_unique hstem hrow)
      rwa [confined table row houtside] at hvalue
  | @cleanup retired definition keys removable owned erased =>
      rw [erased, Rows.get_set] at hvalue
      split at hvalue
      · rename_i hsame
        rw [hsame]
        exact Table.get_of_get_eraseAll hvalue
      · exact hvalue

/-- A logged transaction keeps the retired row of a dead sequence. -/
theorem Transition.keeps_retired {logged : Event}
    (htransition : Transition wanted captures history rows state (some logged) left after)
    (hdead : Dead state sequence) :
    left.retired[be64 sequence]? = rows.retired[be64 sequence]? := by
  have hretire : ∀ retired : RetiredGeneration, retired.generation.sequence ≠ sequence →
      (rows.retire retired).retired[be64 sequence]? = rows.retired[be64 sequence]? :=
    fun retired hne => Table.get_insert_of_ne _ _ fun hsame => hne (be64_injective hsame)
  cases htransition with
  | reserve => rfl
  | record => rfl
  | settle => rfl
  | commit pending =>
      cases hcurrent : state.current with
      | none => rfl
      | some old => exact hretire _ (hdead.not_current old hcurrent)
  | abandon pending => exact hretire _ (hdead.not_pending _ pending)
  | supersede pending => exact hretire _ (hdead.not_pending _ pending)

end Transitions

/-- The stored header names the sequence no more. -/
def DeadIn (db : Db) (sequence : UInt64) : Prop :=
  ∃ state, readState db = .ok state ∧ Dead state sequence

/-- The row of a retired generation is stored. -/
def RetiredIn (db : Db) (retired : RetiredGeneration) : Prop :=
  ∃ value, db.rows.retired[be64 retired.generation.sequence]? = some value ∧
    retiredFormat.decode value = some retired

/-- A table holds no row of a sequence. -/
def Cleared (sequence : UInt64) (table : Table) : Prop :=
  ∀ row, be64 sequence <+: row → table[row]? = none

/-- A table that keeps or erases the rows of the sequence stays clear of it. -/
theorem Cleared.erased {sequence : UInt64} {before after : Table}
    (hcleared : Cleared sequence before)
    (herases : ∀ row value, be64 sequence <+: row → after[row]? = some value →
      before[row]? = some value) : Cleared sequence after := by
  intro row hrow
  cases hvalue : after[row]? with
  | none => rfl
  | some value =>
      have hbefore := herases row value hrow hvalue
      rw [hcleared row hrow] at hbefore
      cases hbefore

/-! ## What other callers do -/

namespace World

variable {world next : World} {sequence : UInt64}

/-- A publication transaction reads the stored header and stores its own. -/
theorem Sound.published {event : Option Event} (hsound : world.Sound)
    (hpublishes : Publishes world next event) :
    ∃ state after, readState world.db = .ok state ∧ readState next.db = .ok after ∧
      Transition (corpusStore.version world.db) world.captures world.history world.db.rows state
        event next.db.rows after := by
  obtain ⟨state, hstate, hconsistent⟩ := hsound.header
  obtain ⟨found, after, hfound, htransition, hstored⟩ := hpublishes.moves.moved
  obtain rfl : state = found := Except.ok.inj (hstate.symm.trans hfound)
  have hcaptures : ∀ capture ∈ world.captures, Admissible capture.sources :=
    fun capture hmem => (hsound.captured capture hmem).1
  have hreadable := (hconsistent.step hcaptures htransition).readable
    (hconsistent.named_after htransition)
  exact ⟨state, after, hstate, hstored hreadable, htransition⟩

end World

/-- The sequence stays dead and its rows only disappear. -/
structure Fades (sequence : UInt64) (before after : Db) : Prop where
  dead : DeadIn before sequence → DeadIn after sequence
  rows : DeadIn before sequence → ∀ table row value, be64 sequence <+: row →
    (after.rows.get table)[row]? = some value → (before.rows.get table)[row]? = some value

theorem Fades.refl (sequence : UInt64) (db : Db) : Fades sequence db db :=
  ⟨fun hdead => hdead, fun _ _ _ _ _ hvalue => hvalue⟩

theorem Fades.trans {sequence : UInt64} {first second third : Db}
    (hfirst : Fades sequence first second) (hsecond : Fades sequence second third) :
    Fades sequence first third where
  dead := fun hdead => hsecond.dead (hfirst.dead hdead)
  rows := fun hdead table row value hrow hvalue =>
    hfirst.rows hdead table row value hrow
      (hsecond.rows (hfirst.dead hdead) table row value hrow hvalue)

theorem Fades.cleared {sequence : UInt64} {before after : Db} (hfades : Fades sequence before after)
    (hdead : DeadIn before sequence) {table : GenerationTable}
    (hcleared : Cleared sequence (before.rows.get table)) :
    Cleared sequence (after.rows.get table) :=
  hcleared.erased fun row value => hfades.rows hdead table row value

namespace World

variable {world next : World} {sequence : UInt64}

theorem Sound.fades (hsound : world.Sound) (hstep : StepOk world next) :
    Fades sequence world.db next.db := by
  rcases hstep.cases with hquiet | ⟨event, hpublishes⟩
  · have hkeeps := hquiet.corpus.keeps
    refine ⟨?_, ?_⟩
    · rintro ⟨state, hstate, hdead⟩
      exact ⟨state, hkeeps.readState_eq.trans hstate, hdead⟩
    · intro _ table row value _ hvalue
      rwa [hkeeps.rows_eq] at hvalue
  · obtain ⟨state, after, hstate, hafter, htransition⟩ := hsound.published hpublishes
    refine ⟨?_, ?_⟩
    · rintro ⟨found, hfound, hdead⟩
      obtain rfl : state = found := Except.ok.inj (hstate.symm.trans hfound)
      exact ⟨after, hafter, hdead.step htransition⟩
    · rintro ⟨found, hfound, hdead⟩ table row value hrow hvalue
      obtain rfl : state = found := Except.ok.inj (hstate.symm.trans hfound)
      exact htransition.shrinks hdead hrow hvalue

theorem Sound.run (hsound : world.Sound) (actions : List Action) : (world.run actions).Sound :=
  Runs.run_invariant hsound (fun _ action hholds => hholds.step action) actions

/-- Whatever other callers do, a dead sequence fades. -/
theorem Sound.fades_run (hsound : world.Sound) (actions : List Action) :
    Fades sequence world.db (world.run actions).db :=
  Runs.run_relation Sound (fun before after => Fades sequence before.db after.db)
    (fun state => Fades.refl sequence state.db) (fun _ _ _ => Fades.trans)
    (fun _ action hholds => hholds.step action)
    (fun _ action hholds => hholds.fades (step_stepOk hholds.calls action)) hsound actions

end World

/-! ## The retired row -/

/-- An edit that leaves the retired rows alone. -/
def KeepsRetired {α : Type} (write : Edit α) : Prop :=
  ∀ db state left after value, write db state = .ok (left, after, value) →
    left.retiredGenerations = db.retiredGenerations

theorem persistEdit_keepsRetired (expected : PendingGeneration) (inputs : List (Bytes × Bytes)) :
    KeepsRetired (persistEdit expected inputs) := by
  intro db state left after value hwrite
  simp only [persistEdit, bind_eq_ok, pure_eq_ok, Except.ok.injEq, Prod.mk.injEq] at hwrite
  obtain ⟨_, _, _, _, rfl, -⟩ := hwrite
  rfl

theorem stagePageEdit_keepsRetired (env : Env) (expected : PendingGeneration) (page : UploadPage)
    (bytes : Bytes) : KeepsRetired (stagePageEdit env expected page bytes) := by
  intro db state left after value hwrite
  simp only [stagePageEdit, bind_eq_ok, pure_eq_ok, Except.ok.injEq, Prod.mk.injEq] at hwrite
  obtain ⟨_, _, _, _, _, _, _, _, _, _, rfl, -⟩ := hwrite
  rfl

theorem finishSourceEdit_keepsRetired (expected : PendingGeneration) (id : SourceId)
    (units : UInt64) : KeepsRetired (finishSourceEdit expected id units) := by
  intro db state left after value hwrite
  simp only [finishSourceEdit, bind_eq_ok, pure_eq_ok, Except.ok.injEq, Prod.mk.injEq] at hwrite
  obtain ⟨_, _, _, _, _, _, _, _, _, _, _, _, _, _, rfl, -⟩ := hwrite
  rfl

theorem completeCaptureEdit_keepsRetired (expected : PendingGeneration) :
    KeepsRetired (completeCaptureEdit expected) := by
  intro db state left after value hwrite
  simp only [completeCaptureEdit, bind_eq_ok, pure_eq_ok, Except.ok.injEq, Prod.mk.injEq] at hwrite
  obtain ⟨_, _, _, _, _, _, rfl, -⟩ := hwrite
  rfl

theorem removeKeysEdit_keepsRetired (retired : RetiredGeneration) (definition : GenerationTable)
    (keys : List Bytes) : KeepsRetired (removeKeysEdit retired definition keys) := by
  intro db state left after value hwrite
  simp only [removeKeysEdit, bind_eq_ok, pure_eq_ok, Except.ok.injEq, Prod.mk.injEq] at hwrite
  obtain ⟨_, _, rfl, -⟩ := hwrite
  cases definition <;> rfl

theorem KeepsRetired.editDatabase {α : Type} {write : Edit α} (hkeeps : KeepsRetired write)
    (env : Env) (db : Db) : (editDatabase env db write).db.rows.retired = db.rows.retired := by
  rcases editDatabase_cases env db write with ⟨-, hdb, -⟩ | hdurable
  · rw [hdb]
  · obtain ⟨state, left, after, value, -, hwrite, hdb, -⟩ := hdurable
    have hretired := hkeeps _ _ _ _ _ hwrite
    rw [hdb]
    exact (congrArg openTable hretired).trans (openTable_some _)

theorem persistChunk_retired (env : Env) (db : Db) (pending : PendingGeneration)
    (chunk : List CapturedSource) :
    (persistChunk env db pending chunk).db.rows.retired = db.rows.retired := by
  unfold persistChunk
  cases chunk.mapM (capturedRow pending.generation.sequence) with
  | error error => rfl
  | ok inputs => exact (persistEdit_keepsRetired pending inputs).editDatabase env db

theorem stagePage_retired (env : Env) (db : Db) (pending : PendingGeneration)
    (page : UploadPage) :
    (stagePage env db pending page).db.rows.retired = db.rows.retired := by
  unfold stagePage
  cases encodePage page with
  | error error => rfl
  | ok bytes => exact (stagePageEdit_keepsRetired env pending page bytes).editDatabase env db

namespace World

variable {world : World} {sequence : UInt64}

/-- A logged transaction keeps the retired row of a dead sequence. -/
theorem logged_retired {α : Type} (env : Env) {write : Edit α} {event : α → Event}
    (hdead : DeadIn world.db sequence)
    (heffect : ∀ state left after value,
      write world.db.openPublication state = .ok (left, after, value) →
        Effect world.captures world.history world.db state (some (event value)) left after) :
    (editDatabase env world.db write).db.rows.retired[be64 sequence]? =
      world.db.rows.retired[be64 sequence]? := by
  rcases editDatabase_moves (fun value => some (event value)) heffect with ⟨-, hdb, -⟩ | hmoved
  · rw [hdb]
  · obtain ⟨value, -, hmoves, -⟩ := hmoved
    obtain ⟨state, after, hstate, htransition, -⟩ := hmoves.moved
    obtain ⟨found, hfound, hdead⟩ := hdead
    obtain rfl : state = found := Except.ok.inj (hstate.symm.trans hfound)
    exact htransition.keeps_retired hdead

/-- The last transaction of a cleanup of the sequence. -/
def Finishes (sequence : UInt64) (world : World) (action : Action) : Prop :=
  ∃ index retired, action.command = .advance index ∧
    world.calls[index]? = some (.scanning retired []) ∧ retired.generation.sequence = sequence

/-- Forgetting one retired row keeps the others. -/
theorem forget_retired (env : Env) {retired : RetiredGeneration}
    (hne : retired.generation.sequence ≠ sequence) :
    (editDatabase env world.db (forgetRetiredEdit retired)).db.rows.retired[be64 sequence]? =
      world.db.rows.retired[be64 sequence]? := by
  rcases editDatabase_cases env world.db (forgetRetiredEdit retired) with ⟨-, hdb, -⟩ | hdurable
  · rw [hdb]
  · obtain ⟨state, left, after, value, -, hwrite, hdb, -⟩ := hdurable
    simp only [forgetRetiredEdit, bind_eq_ok, pure_eq_ok, Except.ok.injEq, Prod.mk.injEq] at hwrite
    obtain ⟨_, -, rfl, -⟩ := hwrite
    rw [hdb]
    exact Table.get_erase_of_ne _ fun hsame => hne (be64_injective hsame)

/-- A call in flight keeps the retired row, unless it finishes its cleanup. -/
theorem advance_retired (env : Env) (index : Nat) (call : Call)
    (hother : ∀ retired, call = .scanning retired [] → retired.generation.sequence ≠ sequence) :
    (world.advance env index call).1.db.rows.retired[be64 sequence]? =
      world.db.rows.retired[be64 sequence]? := by
  cases call with
  | persisting pending groups =>
      cases groups with
      | nil => rfl
      | cons chunk rest =>
          have hdb : (world.advance env index (.persisting pending (chunk :: rest))).1.db =
              (persistChunk env world.db pending chunk).db := by
            simp only [advance]
            split <;> rfl
          rw [hdb, persistChunk_retired]
  | confirming pending => rfl
  | scanning retired tables =>
      cases tables with
      | nil => exact forget_retired env (hother retired rfl)
      | cons definition tables =>
          have hdb : (world.advance env index (.scanning retired (definition :: tables))).1.db =
              world.db := by
            simp only [advance]
            split <;> rfl
          rw [hdb]
  | removing retired definition tables keys =>
      have hdb : (world.advance env index (.removing retired definition tables keys)).1.db =
          (editDatabase env world.db (removeKeysEdit retired definition keys)).db := by
        simp only [advance]
        split <;> rfl
      rw [hdb, (removeKeysEdit_keepsRetired retired definition keys).editDatabase]

/-- An action of another caller keeps the retired row of a dead sequence,
unless it finishes a cleanup of that sequence itself. -/
theorem step_retired (hdead : DeadIn world.db sequence)
    {action : Action} (hother : ¬ Finishes sequence world action) :
    (world.step action).db.rows.retired[be64 sequence]? =
      world.db.rows.retired[be64 sequence]? := by
  obtain ⟨env, command⟩ := action
  have hcorpus : ∀ {ε α : Type} {outcome : Outcome ε α}, CorpusStep world.db outcome.db →
      (world.withDb outcome).db.rows.retired[be64 sequence]? =
        world.db.rows.retired[be64 sequence]? :=
    fun hstep => congrArg (fun rows : Rows => rows.retired[be64 sequence]?) hstep.keeps.rows_eq
  cases command with
  | captureCorpus =>
      simp only [World.step, World.execute, World.captureCorpus]
      split <;> rfl
  | startBuild index random =>
      simp only [World.step, World.execute]
      cases hcapture : world.captures[index]? with
      | none => rfl
      | some capture =>
          cases hbuild : buildNamespace capture random with
          | error error =>
              simp only [World.startBuild, hbuild]
          | ok namespaceId =>
              have hdb : (world.startBuild env capture random).1.db =
                  (editDatabase env world.db (reserveEdit capture namespaceId)).db := by
                simp only [World.startBuild, hbuild]
                split
                · rfl
                · split <;> rfl
              rw [hdb]
              exact logged_retired env hdead fun _ _ _ _ hedit =>
                reserveEdit_effect (List.mem_of_getElem? hcapture) hbuild hedit
  | stagePage pending page =>
      exact congrArg (fun table : Table => table[be64 sequence]?)
        (stagePage_retired env world.db pending page)
  | finishSource pending id units =>
      exact congrArg (fun table : Table => table[be64 sequence]?)
        ((finishSourceEdit_keepsRetired pending id units).editDatabase env world.db)
  | completeCapture pending =>
      exact congrArg (fun table : Table => table[be64 sequence]?)
        ((completeCaptureEdit_keepsRetired pending).editDatabase env world.db)
  | recordDispatch pending operation =>
      exact logged_retired env hdead fun _ _ _ _ hedit => recordDispatchEdit_effect hedit
  | finishDispatch pending operation revision applied =>
      exact logged_retired env hdead fun _ _ _ _ hedit => finishDispatchEdit_effect hedit
  | commitGeneration pending =>
      have hdb : (world.commitGeneration env pending).1.db =
          (editDatabase env world.db (commitEdit pending)).db := by
        simp only [World.commitGeneration]
        split <;> rfl
      simp only [World.step, World.execute, hdb]
      exact logged_retired env hdead fun _ _ _ _ hedit => commitEdit_effect hedit
  | abandonBuild pending =>
      exact logged_retired env hdead fun _ _ _ _ hedit => abandonEdit_effect hedit
  | supersedeUnknownBuild expected =>
      exact logged_retired env hdead fun _ _ _ _ hedit => supersedeEdit_effect hedit
  | finishRetirement retired =>
      simp only [World.step, World.execute, World.finishRetirement]
      split <;> rfl
  | advance index =>
      simp only [World.step, World.execute]
      cases hcall : world.calls[index]? with
      | none => rfl
      | some call =>
          refine advance_retired env index call ?_
          rintro retired rfl hsame
          exact hother ⟨index, retired, rfl, hcall, hsame⟩
  | abort index => rfl
  | crash => rfl
  | commitCurrentSource capture fileKey objectRef =>
      exact hcorpus (commitCurrentSource_step env world.db capture fileKey objectRef)
  | removeCurrentSources expected =>
      exact hcorpus (removeCurrentSources_step env world.db expected)
  | admitSelection selection randomId =>
      exact hcorpus (admitSelection_step env world.db selection randomId)
  | writeSettings id settings source previous =>
      exact hcorpus (writeSettings_step env world.db id settings source previous)
  | commitPreparation capture result =>
      exact hcorpus (commitPreparation_step env world.db capture result)

/-- While no other cleanup of the sequence finishes, its retired row stays. -/
theorem Sound.run_retired (hsound : world.Sound) (hdead : DeadIn world.db sequence)
    {actions : List Action}
    (hothers : Runs.Throughout World.step (fun world action => ¬ Finishes sequence world action)
      world actions) :
    (world.run actions).db.rows.retired[be64 sequence]? =
      world.db.rows.retired[be64 sequence]? := by
  have hreached := Runs.run_invariant_throughout
    (fun reached : World => reached.Sound ∧ DeadIn reached.db sequence ∧
      reached.db.rows.retired[be64 sequence]? = world.db.rows.retired[be64 sequence]?)
    ⟨hsound, hdead, rfl⟩ ?_ hothers
  · exact hreached.2.2
  · rintro reached action ⟨hreached, hdead, hrow⟩ hother
    refine ⟨hreached.step action, ?_, (step_retired hdead hother).trans hrow⟩
    exact (hreached.fades (step_stepOk hreached.calls action)).dead hdead

end World

end EliotSearch.Control
