import EliotSearch.Control.Dispatching
import EliotSearch.Control.Matching

/-!
# Superseded builds

A remote writer may still target the collection of a build whose operation was
never resolved.  Its name is never reserved again, and whatever happens later,
its retired row and the rows of its sequence stay as they were.
-/

namespace EliotSearch.Control

open EliotSearch.Library
open EliotSearch.Library.Results
open EliotSearch.Library.Words

/-- What a later world keeps of an earlier one. -/
structure Preserves (before after : World) : Prop where
  history : ∀ event ∈ before.history, event ∈ after.history
  named : ∀ state, readState before.db = .ok state → ∀ namespaceId,
    state.namespaceId = some namespaceId →
      ∃ later, readState after.db = .ok later ∧ later.namespaceId = some namespaceId
  rows : ∀ p, Event.superseded p ∈ before.history → ∀ table,
    SameUnder p.generation.sequence (before.db.rows.get table) (after.db.rows.get table)

theorem Preserves.refl (world : World) : Preserves world world where
  history := fun _ hmem => hmem
  named := fun state hstate _ hnamed => ⟨state, hstate, hnamed⟩
  rows := fun _ _ _ _ => rfl

theorem Preserves.trans {first second third : World} (hfirst : Preserves first second)
    (hsecond : Preserves second third) : Preserves first third where
  history := fun event hmem => hsecond.history event (hfirst.history event hmem)
  named := by
    intro state hstate namespaceId hnamed
    obtain ⟨middle, hmiddle, hkept⟩ := hfirst.named state hstate namespaceId hnamed
    exact hsecond.named middle hmiddle namespaceId hkept
  rows := by
    intro p hmem table suffix
    rw [hsecond.rows p (hfirst.history _ hmem) table suffix, hfirst.rows p hmem table suffix]

theorem Transition.named {wanted : Option ℕ} {captures : List CorpusCapture}
    {history : List Event} {rows left : Rows} {state after : State} {event : Option Event}
    (htransition : Transition wanted captures history rows state event left after)
    {namespaceId : Octets 16} (hnamed : state.namespaceId = some namespaceId) :
    after.namespaceId = some namespaceId := by
  cases htransition with
  | reserve captured fresh idle named => exact congrArg some (named namespaceId hnamed).symm
  | _ => exact hnamed

/-- The rows of a superseded build are never edited. -/
theorem Retired.not_edited {history : List Event} {rows : Rows} {state : State}
    (hretired : Retired history rows state) {p : PendingGeneration}
    (hlogged : Event.superseded p ∈ history) : ¬ Edited rows state p.generation.sequence := by
  rintro (⟨live, hlive, hsame⟩ | ⟨retired, hremovable, hsame⟩)
  · exact (hretired.of_superseded hlogged).2.2.2.2.2.1 live hlive hsame
  · exact hretired.not_removable hlogged hremovable hsame

namespace World

variable {world : World}

theorem Sound.preserves_step (hsound : world.Sound) (action : Action) :
    Preserves world (world.step action) := by
  obtain ⟨state, hstate, hconsistent⟩ := hsound.header
  obtain ⟨more, hmore⟩ := history_step hsound.calls action
  have hhistory : ∀ event ∈ world.history, event ∈ (world.step action).history := by
    intro event hmem
    rw [hmore]
    exact List.mem_append_left _ hmem
  rcases (step_stepOk hsound.calls action).cases with hquiet | ⟨event, hpublishes⟩
  · have hkeeps := hquiet.corpus.keeps
    refine ⟨hhistory, ?_, ?_⟩
    · intro found hfound namespaceId hnamed
      exact ⟨found, hkeeps.readState_eq.trans hfound, hnamed⟩
    · intro p hmem table suffix
      rw [hkeeps.rows_eq]
  · obtain ⟨before, after, hbefore, htransition, hstored⟩ := hpublishes.moves.moved
    obtain rfl : state = before := Except.ok.inj (hstate.symm.trans hbefore)
    have hcaptures : ∀ capture ∈ world.captures, Admissible capture.sources :=
      fun capture hmem => (hsound.captured capture hmem).1
    have hreadable := (hconsistent.step hcaptures htransition).readable
      (hconsistent.named_after htransition)
    refine ⟨hhistory, ?_, ?_⟩
    · intro found hfound namespaceId hnamed
      obtain rfl : state = found := Except.ok.inj (hstate.symm.trans hfound)
      exact ⟨after, hstored hreadable, htransition.named hnamed⟩
    · intro p hmem table
      exact htransition.sameUnder (hconsistent.retired.not_edited hmem) table

theorem Sound.preserves_run (hsound : world.Sound) (actions : List Action) :
    Preserves world (world.run actions) :=
  Runs.run_relation Sound Preserves Preserves.refl (fun _ _ _ => Preserves.trans)
    (fun _ action hholds => hholds.step action) (fun _ action hholds => hholds.preserves_step action)
    hsound actions

/-- A superseding caller that is told of success logged its build. -/
theorem superseded_of_reply {env : Env} {expected : PendingGeneration}
    (hreply : world.reply ⟨env, .supersedeUnknownBuild expected⟩ = .published (.ok ())) :
    Event.superseded expected ∈ (world.step ⟨env, .supersedeUnknownBuild expected⟩).history := by
  have hresult : (editDatabase env world.db (supersedeEdit expected)).reply = .ok () :=
    Reply.published.inj hreply
  exact mem_logged_of_reply (fun _ => .superseded expected) hresult

end World

/-- A superseded build is out of the header for good, and its retired row is in
place. -/
structure Superseded (db : Db) (p : PendingGeneration) : Prop where
  not_pending : ∀ state, readState db = .ok state → ∀ live ∈ state.pending,
    live.generation.sequence ≠ p.generation.sequence
  not_current : ∀ state, readState db = .ok state → ∀ live ∈ state.current,
    live.sequence ≠ p.generation.sequence
  stored : db.rows.retired[be64 p.generation.sequence]? =
    some (retiredFormat.print ⟨p.generation, p.created, some p⟩)

theorem World.Sound.superseded {world : World} (hsound : world.Sound) {p : PendingGeneration}
    (hlogged : Event.superseded p ∈ world.history) : Superseded world.db p := by
  obtain ⟨state, hstate, hconsistent⟩ := hsound.header
  have haccepts := hconsistent.retired.of_superseded hlogged
  refine ⟨?_, ?_, hconsistent.retired.kept p hlogged⟩
  · intro found hfound live hlive
    obtain rfl : state = found := Except.ok.inj (hstate.symm.trans hfound)
    exact haccepts.2.2.2.2.2.1 live hlive
  · intro found hfound live hlive
    obtain rfl : state = found := Except.ok.inj (hstate.symm.trans hfound)
    exact haccepts.2.2.2.2.1 live hlive

/-- Reservations are numbered upwards and never share a collection name. -/
theorem World.Sound.reservations {world : World} (hsound : world.Sound)
    {before between after : List Event} {p q : PendingGeneration}
    {sources others : List CapturedSource}
    (hsplit : world.history = before ++ .reserved p sources :: (between ++ .reserved q others :: after)) :
    p.generation.sequence < q.generation.sequence ∧ p.build ≠ q.build ∧
      p.generation.collection ≠ q.generation.collection := by
  obtain ⟨state, -, hconsistent⟩ := hsound.header
  have hlater : world.history =
      (before ++ .reserved p sources :: between) ++ .reserved q others :: after := by
    rw [hsplit]
    simp
  have hbelow : p.generation.sequence < q.generation.sequence :=
    hconsistent.numbered.increasing _ _ _ hlater (.reserved p sources)
      (List.mem_append_right _ List.mem_cons_self)
  have hne : p.generation.sequence ≠ q.generation.sequence := by
    intro hsame
    rw [hsame] at hbelow
    exact absurd hbelow (UInt64.lt_irrefl _)
  refine ⟨hbelow, fun hsame => hne (congrArg BuildId.sequence hsame), fun hsame => hne ?_⟩
  exact (collection_injective hsame).2

/-- Over every run and every continuation of it: the namespace stays, later
reservations have larger sequences and other names, and a superseded build
never returns to the header while its retired row and all its rows stay. -/
theorem superseded_builds_stay {db : Db} (habsent : db.PublicationAbsent)
    (actions later : List Action) :
    (∀ state namespaceId, readState ((World.init db).run actions).db = .ok state →
      state.namespaceId = some namespaceId →
        ∃ after, readState ((World.init db).run (actions ++ later)).db = .ok after ∧
          after.namespaceId = some namespaceId) ∧
    (∀ before p sources between q others after,
      ((World.init db).run actions).history =
          before ++ .reserved p sources :: (between ++ .reserved q others :: after) →
        p.generation.sequence < q.generation.sequence ∧ p.build ≠ q.build ∧
          p.generation.collection ≠ q.generation.collection) ∧
    (∀ env expected,
      ((World.init db).run actions).reply ⟨env, .supersedeUnknownBuild expected⟩ =
          .published (.ok ()) →
        Event.superseded expected ∈
          ((World.init db).run (actions ++ [⟨env, .supersedeUnknownBuild expected⟩])).history) ∧
    ∀ p, Event.superseded p ∈ ((World.init db).run actions).history →
      Superseded ((World.init db).run actions).db p ∧
      Superseded ((World.init db).run (actions ++ later)).db p ∧
      ∀ table, SameUnder p.generation.sequence
        (((World.init db).run actions).db.rows.get table)
        (((World.init db).run (actions ++ later)).db.rows.get table) := by
  have hsound := World.sound_run habsent
  have hpreserves : Preserves ((World.init db).run actions)
      ((World.init db).run (actions ++ later)) := by
    have hend : (World.init db).run (actions ++ later) = ((World.init db).run actions).run later :=
      Runs.run_append World.step (World.init db) actions later
    rw [hend]
    exact (hsound actions).preserves_run later
  refine ⟨?_, ?_, ?_, ?_⟩
  · intro state namespaceId hstate hnamed
    exact hpreserves.named state hstate namespaceId hnamed
  · intro before p sources between q others after hsplit
    exact (hsound actions).reservations hsplit
  · intro env expected hreply
    rw [World.run_concat]
    exact World.superseded_of_reply hreply
  · intro p hlogged
    exact ⟨(hsound actions).superseded hlogged,
      (hsound (actions ++ later)).superseded (hpreserves.history _ hlogged),
      hpreserves.rows p hlogged⟩

namespace Sample

/-- The recorded build is superseded, then a caller forges its cleanup and
another build is reserved. -/
def unresolved : PendingGeneration :=
  { reserved with
    captureComplete := true, completedSources := 1
    operationRevision := 1, inFlight := some .create }

def superseded : List Action :=
  recorded ++ [act (.supersedeUnknownBuild unresolved)]

def forged : List Action :=
  [act (.finishRetirement ⟨reserved.generation, false, none⟩), act (.advance 0), act .captureCorpus,
    act (.startBuild 1 none)]

def rebuilt : PendingGeneration :=
  { reserved with generation := { reserved.generation with sequence := 2 } }

end Sample

theorem superseded_builds_stay_sample :
    (∃ after, readState ((World.init Db.empty).run (Sample.superseded ++ Sample.forged)).db =
      .ok after ∧ after.namespaceId = some Sample.namespaceId) ∧
    Sample.reserved.generation.collection ≠ Sample.rebuilt.generation.collection ∧
    Event.superseded Sample.unresolved ∈ ((World.init Db.empty).run Sample.superseded).history ∧
    Superseded ((World.init Db.empty).run (Sample.superseded ++ Sample.forged)).db
      Sample.unresolved ∧
    ∀ table, SameUnder Sample.unresolved.generation.sequence
      (((World.init Db.empty).run Sample.superseded).db.rows.get table)
      (((World.init Db.empty).run (Sample.superseded ++ Sample.forged)).db.rows.get table) := by
  have hsuperseded := superseded_builds_stay Sample.absent Sample.superseded Sample.forged
  have hforged := superseded_builds_stay Sample.absent (Sample.superseded ++ Sample.forged) []
  have hrecorded := superseded_builds_stay Sample.absent Sample.recorded []
  have hbuild := hsuperseded.2.2.2 Sample.unresolved (by decide +kernel)
  refine ⟨hsuperseded.1 ⟨1, some Sample.namespaceId, 1, 0, none, none⟩ _ (by decide +kernel) rfl,
    ?_, hrecorded.2.2.1 Env.quiet _ (by decide +kernel), hbuild.2.1, hbuild.2.2⟩
  exact (hforged.2.1 [] Sample.reserved [Sample.row]
    [.recorded Sample.reserved.build .create 1, .superseded Sample.unresolved] Sample.rebuilt
    [Sample.row] [] (by decide +kernel)).2.2

end EliotSearch.Control
