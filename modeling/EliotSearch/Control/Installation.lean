import EliotSearch.Control.Soundness

/-!
# Installed generations

A commit installs the generation of the pending build.  Its saved rows are the
ones captured when it was reserved, and the wanted revision that the commit
compares has not moved since, so they are the live corpus of that moment.
-/

namespace EliotSearch.Control

open EliotSearch.Library
open EliotSearch.Library.Results

/-- The current generation is the given one. -/
def Serves (db : Db) (generation : Generation) : Prop :=
  ∃ state, readState db = .ok state ∧ state.current = some generation

/-- The generation is current and its rows are exactly the given pairs, which
are those of the current source and preparation tables. -/
def InstalledLive (db : Db) (generation : Generation) (sources : List CapturedSource) : Prop :=
  Serves db generation ∧ LiveCorpus (corpusStore.content db) sources ∧
    SavedCorpus db.rows.sources generation.sequence sources

section Transitions

variable {wanted : Option ℕ} {captures : List CorpusCapture} {history : List Event}
  {rows left : Rows} {state after : State} {event : Option Event}

/-- Only a commit changes the current generation, to the one it logs. -/
theorem Transition.current_eq
    (htransition : Transition wanted captures history rows state event left after) :
    after.current = state.current ∨
      ∃ generation, event = some (.committed generation) ∧ after.current = some generation := by
  cases htransition with
  | commit => exact Or.inr ⟨_, rfl, rfl⟩
  | _ => exact Or.inl rfl

theorem Transition.committed_current {generation : Generation}
    (htransition : Transition wanted captures history rows state (some (.committed generation))
      left after) :
    after.current = some generation ∧ wanted = some generation.wantedRevision.toNat := by
  cases htransition with
  | commit pending fresh => exact ⟨rfl, fresh⟩

end Transitions

namespace World

variable {world next : World} {generation : Generation}

/-- A published commit installs the live corpus. -/
theorem Sound.installs (hsound : world.Sound) (hnext : next.Sound)
    (hpublishes : Publishes world next (some (.committed generation))) :
    Serves next.db generation ∧ ∃ sources, Reserved next.history generation sources ∧
      InstalledLive next.db generation sources := by
  obtain ⟨state, after, hstate, htransition, hstored⟩ := hpublishes.moves.moved
  obtain ⟨hcurrent, hwanted⟩ := htransition.committed_current
  obtain ⟨found, hfound, hconsistent⟩ := hsound.header
  obtain rfl : state = found := Except.ok.inj (hstate.symm.trans hfound)
  have hcaptures : ∀ capture ∈ world.captures, Admissible capture.sources :=
    fun capture hmem => (hsound.captured capture hmem).1
  have hafter := hconsistent.step hcaptures htransition
  have hread := hstored (hafter.readable (hconsistent.named_after htransition))
  obtain ⟨sources, ⟨reserved, hmem, hsame⟩, hsaved⟩ := hafter.filled.current generation hcurrent
  have hlogged : Event.reserved reserved sources ∈ next.history := by
    rw [hpublishes.history]
    exact hmem
  have hcorpus := hnext.reserved reserved sources hlogged
  have hrevision : corpusStore.version next.db = some reserved.generation.wantedRevision.toNat := by
    have hkeeps := hpublishes.moves.sources
    rw [← hsame.wanted_eq, ← hwanted]
    simp only [corpusStore, writeWantedRevision, hkeeps.state]
  exact ⟨⟨after, hread, hcurrent⟩, sources, ⟨reserved, hlogged, hsame⟩,
    ⟨after, hread, hcurrent⟩, hcorpus.live hrevision, hsaved⟩

/-- A step that starts to serve a generation publishes its commit. -/
theorem Sound.publishes_of_serves (hsound : world.Sound) {action : Action}
    (hbefore : ¬ Serves world.db generation) (hafter : Serves (world.step action).db generation) :
    Publishes world (world.step action) (some (.committed generation)) := by
  obtain ⟨state, hstate, hcurrent⟩ := hafter
  rcases (step_stepOk hsound.calls action).cases with hquiet | ⟨event, hpublishes⟩
  · rw [hquiet.corpus.keeps.readState_eq] at hstate
    exact absurd ⟨state, hstate, hcurrent⟩ hbefore
  · obtain ⟨before, after, hread, htransition, hstored⟩ := hpublishes.moves.moved
    obtain ⟨found, hfound, hconsistent⟩ := hsound.header
    obtain rfl : before = found := Except.ok.inj (hread.symm.trans hfound)
    have hcaptures : ∀ capture ∈ world.captures, Admissible capture.sources :=
      fun capture hmem => (hsound.captured capture hmem).1
    have hreadable := (hconsistent.step hcaptures htransition).readable
      (hconsistent.named_after htransition)
    obtain rfl : after = state := Except.ok.inj ((hstored hreadable).symm.trans hstate)
    rcases htransition.current_eq with hsame | ⟨committed, rfl, hcommitted⟩
    · exact absurd ⟨before, hread, hsame ▸ hcurrent⟩ hbefore
    · rw [hcurrent] at hcommitted
      obtain rfl := Option.some.inj hcommitted
      exact hpublishes

/-- A step that logs a commit publishes it. -/
theorem publishes_of_logged (hcalls : CallsOk world) {action : Action}
    (hlogged : (world.step action).history = world.history ++ [.committed generation]) :
    Publishes world (world.step action) (some (.committed generation)) := by
  rcases (step_stepOk hcalls action).cases with hquiet | ⟨event, hpublishes⟩
  · rw [hquiet.history, List.self_eq_append_right] at hlogged
    cases hlogged
  · have hevent := hpublishes.history
    rw [hlogged, List.append_cancel_left_eq] at hevent
    cases event with
    | none => cases hevent
    | some found =>
        obtain rfl : .committed generation = found := by simpa using hevent
        exact hpublishes

/-- A commit that answers with a generation logged it. -/
theorem logged_of_commit_reply {env : Env} {pending : PendingGeneration}
    (hreply : (world.commitGeneration env pending).2 = .committed (.ok generation)) :
    (world.commitGeneration env pending).1.history =
      world.history ++ [.committed generation] := by
  simp only [World.commitGeneration] at hreply ⊢
  cases hresult : (Control.commitGeneration env world.db pending).reply with
  | error error =>
      rw [hresult] at hreply
      cases error <;> cases hreply
  | ok found =>
      rw [hresult] at hreply
      simp only [Reply.committed.injEq, Except.ok.injEq] at hreply
      obtain rfl := hreply
      rcases editDatabase_cases env world.db (commitEdit pending) with
        ⟨-, -, error, herror⟩ | ⟨_, _, _, value, _, _, _, hwritten, hvalue⟩
      · rw [Control.commitGeneration, herror] at hresult
        cases hresult
      · have hsame : value = found := by
          rw [Control.commitGeneration] at hresult
          rcases hvalue with hvalue | hvalue
          · rw [hvalue] at hresult
            exact Except.ok.inj hresult
          · rw [hvalue] at hresult
            cases hresult
        rw [← hsame]
        simp [World.logged, Control.commitGeneration, hwritten]

/-- Of the calls in flight only a confirmation answers with a generation. -/
theorem serves_of_advance_reply {env : Env} {index : Nat} {call : Call}
    (hreply : (world.advance env index call).2 = .committed (.ok generation)) :
    Serves (world.advance env index call).1.db generation := by
  cases call with
  | confirming pending =>
      simp only [World.advance, Reply.committed.injEq, confirmCommit, observeDatabase, bind_eq_ok,
        refuse_eq_ok, not_not] at hreply
      obtain ⟨_, _, found, ⟨state, hstate, _, ⟨hcurrent, _⟩, hfound⟩, _, _, hresult⟩ := hreply
      obtain rfl := Except.ok.inj hfound
      obtain rfl := Except.ok.inj hresult
      exact ⟨state, hstate, hcurrent⟩
  | persisting pending groups =>
      cases groups with
      | nil => cases hreply
      | cons chunk rest =>
          simp only [World.advance] at hreply
          split at hreply <;> cases hreply
  | scanning retired tables =>
      cases tables with
      | nil => cases hreply
      | cons definition tables =>
          simp only [World.advance] at hreply
          split at hreply <;> cases hreply
  | removing retired definition tables keys =>
      simp only [World.advance] at hreply
      split at hreply <;> cases hreply

/-- A caller is told of a success only when the generation is current. -/
theorem Sound.serves_of_reply (hsound : world.Sound) {action : Action}
    (hreply : world.reply action = .committed (.ok generation)) :
    Serves (world.step action).db generation := by
  obtain ⟨env, command⟩ := action
  cases command with
  | commitGeneration pending =>
      have hlogged : (world.step ⟨env, .commitGeneration pending⟩).history =
          world.history ++ [.committed generation] := logged_of_commit_reply hreply
      have hpublishes := publishes_of_logged hsound.calls hlogged
      obtain ⟨hserves, -⟩ := hsound.installs (hsound.step _) hpublishes
      exact hserves
  | advance index =>
      simp only [World.reply, World.execute, World.step] at hreply ⊢
      cases hcall : world.calls[index]? with
      | none =>
          rw [hcall] at hreply
          cases hreply
      | some call =>
          rw [hcall] at hreply
          exact serves_of_advance_reply hreply
  | captureCorpus =>
      simp only [World.reply, World.execute, World.captureCorpus] at hreply
      split at hreply <;> cases hreply
  | startBuild index random =>
      simp only [World.reply, World.execute, World.startBuild] at hreply
      split at hreply
      · cases hreply
      · split at hreply
        · cases hreply
        · split at hreply
          · cases hreply
          · split at hreply <;> cases hreply
  | finishRetirement retired =>
      simp only [World.reply, World.execute, World.finishRetirement] at hreply
      split at hreply <;> cases hreply
  | _ => cases hreply

/-- The log only grows. -/
theorem history_step (hcalls : CallsOk world) (action : Action) :
    ∃ more, (world.step action).history = world.history ++ more := by
  rcases (step_stepOk hcalls action).cases with hquiet | ⟨event, hpublishes⟩
  · exact ⟨[], by rw [hquiet.history, List.append_nil]⟩
  · exact ⟨event.toList, hpublishes.history⟩

/-- A served generation keeps the rows it was reserved for. -/
theorem Sound.saved_of_serves (hsound : world.Sound) (hserves : Serves world.db generation)
    {sources : List CapturedSource} (hreserved : Reserved world.history generation sources) :
    SavedCorpus world.db.rows.sources generation.sequence sources := by
  obtain ⟨state, hstate, hconsistent⟩ := hsound.header
  obtain ⟨found, hfound, hcurrent⟩ := hserves
  obtain rfl : state = found := Except.ok.inj (hstate.symm.trans hfound)
  obtain ⟨saved, hsaved, hrows⟩ := hconsistent.filled.current generation hcurrent
  obtain ⟨rfl, -⟩ := hsaved.unique hconsistent.numbered.increasing hreserved rfl
  exact hrows

end World

/-! ## Runs -/

theorem World.run_concat (world : World) (actions : List Action) (action : Action) :
    world.run (actions ++ [action]) = (world.run actions).step action :=
  Runs.run_concat World.step world actions action

/-- The log of a longer run extends the log of a shorter one. -/
theorem World.Sound.history_run {world : World} (hsound : world.Sound) (actions : List Action) :
    ∀ event ∈ world.history, event ∈ (world.run actions).history := by
  refine Runs.run_relation World.Sound
    (fun before after : World => ∀ event ∈ before.history, event ∈ after.history)
    (fun _ _ hmem => hmem) (fun _ _ _ hfirst hsecond event hmem => hsecond event (hfirst event hmem))
    (fun _ action hholds => hholds.step action) ?_ hsound actions
  intro before action hholds event hmem
  obtain ⟨more, hmore⟩ := World.history_step hholds.calls action
  rw [hmore]
  exact List.mem_append_left _ hmem

/-- A generation that is served was committed in the log. -/
theorem World.Sound.committed_of_serves {world : World} (hsound : world.Sound)
    {generation : Generation} (hbefore : ¬ Serves world.db generation) {actions : List Action}
    (hserves : Serves (world.run actions).db generation) :
    Event.committed generation ∈ (world.run actions).history := by
  have hrun : ∀ actions, (world.run actions).Sound :=
    Runs.run_invariant hsound fun _ action hholds => hholds.step action
  obtain ⟨before, commit, later, rfl, hnot, hholds⟩ :=
    Runs.exists_establishing_step (fun world : World => Serves world.db generation)
      hbefore hserves
  have hpublishes := (hrun before).publishes_of_serves hnot hholds
  have hend : world.run (before ++ commit :: later) =
      ((world.run before).step commit).run later :=
    Runs.run_append World.step world before (commit :: later)
  rw [hend]
  refine ((hrun before).step commit).history_run later _ ?_
  rw [hpublishes.history]
  exact List.mem_append_right _ List.mem_cons_self

theorem not_serves_of_absent {db : Db} (habsent : db.PublicationAbsent) (generation : Generation) :
    ¬ Serves db generation := by
  rintro ⟨state, hstate, hcurrent⟩
  obtain rfl := Except.ok.inj (habsent.readState_eq.symm.trans hstate)
  cases hcurrent

/-- A commit that a caller is told of is in the log. -/
theorem World.committed_of_reply {db : Db} (habsent : db.PublicationAbsent)
    (actions : List Action) {action : Action} {generation : Generation}
    (hreply : ((World.init db).run actions).reply action = .committed (.ok generation)) :
    Event.committed generation ∈ ((World.init db).run (actions ++ [action])).history := by
  have hserves := (World.sound_run habsent actions).serves_of_reply hreply
  rw [← World.run_concat] at hserves
  exact (World.sound_init habsent).committed_of_serves (not_serves_of_absent habsent generation)
    hserves

/-- In every run each commit installs the live corpus of its moment.  A caller
is told of a success only for a generation that is current, that an earlier or
this step committed, and whose rows are still those of that moment. -/
theorem commit_installs_live_corpus {db : Db} (habsent : db.PublicationAbsent)
    (actions : List Action) (action : Action) (generation : Generation) :
    (((World.init db).run (actions ++ [action])).history =
        ((World.init db).run actions).history ++ [.committed generation] →
      ∃ sources, InstalledLive ((World.init db).run (actions ++ [action])).db generation sources) ∧
    (((World.init db).run actions).reply action = .committed (.ok generation) →
      ∃ before commit later sources, actions ++ [action] = before ++ commit :: later ∧
        ((World.init db).run (before ++ [commit])).history =
          ((World.init db).run before).history ++ [.committed generation] ∧
        InstalledLive ((World.init db).run (before ++ [commit])).db generation sources ∧
        Serves ((World.init db).run (actions ++ [action])).db generation ∧
        SavedCorpus ((World.init db).run (actions ++ [action])).db.rows.sources
          generation.sequence sources) := by
  have hsound := World.sound_run habsent
  constructor
  · intro hlogged
    rw [World.run_concat] at hlogged ⊢
    have hpublishes := World.publishes_of_logged (hsound actions).calls hlogged
    obtain ⟨-, sources, -, hinstalled⟩ :=
      (hsound actions).installs ((hsound actions).step action) hpublishes
    exact ⟨sources, hinstalled⟩
  · intro hreply
    have hserves := (hsound actions).serves_of_reply hreply
    rw [← World.run_concat] at hserves
    have hinitial : ¬ Serves (World.init db).db generation :=
      not_serves_of_absent habsent generation
    obtain ⟨before, commit, later, hsplit, hnot, hholds⟩ :=
      Runs.exists_establishing_step (fun world : World => Serves world.db generation)
        hinitial hserves
    have hpublishes := (hsound before).publishes_of_serves hnot hholds
    obtain ⟨-, sources, hreserved, hinstalled⟩ :=
      (hsound before).installs ((hsound before).step commit) hpublishes
    refine ⟨before, commit, later, sources, hsplit, ?_, ?_, hserves, ?_⟩
    · rw [World.run_concat]
      exact hpublishes.history
    · rw [World.run_concat]
      exact hinstalled
    · have hend : (World.init db).run (actions ++ [action]) =
          (((World.init db).run before).step commit).run later := by
        rw [hsplit]
        exact Runs.run_append World.step (World.init db) before (commit :: later)
      have hlater := ((hsound before).step commit).history_run later
      rw [← hend] at hlater
      exact (hsound _).saved_of_serves hserves (hreserved.mono hlater)

/-! ## A run with one source -/

namespace Sample

def namespaceId : Octets 16 := ⟨List.replicate 16 1, rfl⟩

def sourceId : SourceId := ⟨List.replicate 16 2, rfl⟩

def object : ObjectRef := ⟨1, .source, ⟨List.replicate 32 3, rfl⟩, 5⟩

def source : CurrentSourceRecord :=
  ⟨namespaceId, sourceId, 1, 1, Json.ascii "/a", .unix 1 2, object⟩

/-- The header of the first build over one gap source. -/
def reserved : PendingGeneration where
  generation := ⟨namespaceId, 1, 3, 1, 1, 0, 0⟩
  captureComplete := false
  created := false
  uploadedPages := 0
  inFlight := none
  operationRevision := 0
  completedSources := 0
  stagedBytes := 0
  sourceNamespace := some namespaceId
  expectedCurrentRevision := 0
  expectedCurrent := none

/-- The same header once the collection exists. -/
def created : PendingGeneration :=
  { reserved with
    captureComplete := true, created := true, operationRevision := 1, completedSources := 1 }

def act (command : Command) : Action := ⟨Env.quiet, command⟩

/-- Register a source, select settings, install a gap and capture the corpus. -/
def captured : List Action :=
  [act (.commitCurrentSource ⟨namespaceId, sourceId, Json.ascii "/a", none, none, none⟩
      (.unix 1 2) object),
    act (.writeSettings sourceId .default source none),
    act (.commitPreparation ⟨source, .default, 1, 0, none⟩ (.gap .binaryContent)),
    act .captureCorpus]

/-- Reserve a build, save its input and seal it. -/
def sealed : List Action :=
  captured ++ [act (.startBuild 0 (some namespaceId)), act (.advance 0),
    act (.finishSource reserved sourceId 0), act (.completeCapture reserved)]

/-- Create the collection. -/
def uploaded : List Action :=
  sealed ++ [act (.recordDispatch reserved .create), act (.finishDispatch reserved .create 1 true)]

def commit : Action := act (.commitGeneration created)

theorem absent : Db.empty.PublicationAbsent :=
  ⟨rfl, rfl, rfl, rfl, rfl⟩

end Sample

theorem commit_installs_live_corpus_sample :
    (∃ sources, InstalledLive ((World.init Db.empty).run (Sample.uploaded ++ [Sample.commit])).db
      Sample.created.generation sources) ∧
    ∃ before commit later sources,
      Sample.uploaded ++ [Sample.commit] = before ++ commit :: later ∧
        ((World.init Db.empty).run (before ++ [commit])).history =
          ((World.init Db.empty).run before).history ++ [.committed Sample.created.generation] ∧
        InstalledLive ((World.init Db.empty).run (before ++ [commit])).db
          Sample.created.generation sources ∧
        Serves ((World.init Db.empty).run (Sample.uploaded ++ [Sample.commit])).db
          Sample.created.generation ∧
        SavedCorpus
          ((World.init Db.empty).run (Sample.uploaded ++ [Sample.commit])).db.rows.sources
          Sample.created.generation.sequence sources :=
  ⟨(commit_installs_live_corpus Sample.absent Sample.uploaded Sample.commit _).1
      (by decide +kernel),
    (commit_installs_live_corpus Sample.absent Sample.uploaded Sample.commit _).2
      (by decide +kernel)⟩

end EliotSearch.Control
