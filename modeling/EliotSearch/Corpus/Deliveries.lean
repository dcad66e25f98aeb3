import EliotSearch.Control.LiveBuilds
import EliotSearch.Corpus.Hydration
import EliotSearch.Corpus.Uploads

/-!
# What the backend receives

Each collection is a target of serial dispatch: every action is a step of its
protocol, deletes it after its build left the store, or leaves it alone.  In every
run the collection of the served generation has therefore received its creation and
each of its pages once, in order and nothing else, and no collection is left without
a build or a retired row that names it.
-/

namespace EliotSearch.Corpus

open EliotSearch.Control
open EliotSearch.Library
open EliotSearch.Library.RemoteCalls
open EliotSearch.Library.Results
open EliotSearch.Library.SerialDispatch
open EliotSearch.Library.Utf8
open EliotSearch.Library.Words

/-! ## Channels as targets -/

namespace Channel

/-- A collection as the target of the steps recorded for it. -/
def target (channel : Channel) (progress : Progress) : Target Mutation where
  progress := progress
  calls := channel.calls.map Upload.call
  stray := channel.stray
  log := channel.log

def empty : Channel := ⟨[], [], []⟩

/-- The uploads after a change, but for their stages. -/
def SameUploads (before after : Channel) : Prop :=
  ∀ upload ∈ after.calls, ∃ earlier ∈ before.calls, upload.pending = earlier.pending ∧
    upload.operation = earlier.operation ∧ upload.requests = earlier.requests

/-- A change of one channel that the store takes no part in. -/
structure Moves (before after : Channel) : Prop where
  step : ∀ progress, after = before ∨ Step (before.target progress) (after.target progress)
  uploads : SameUploads before after
  silent : before = empty → after = empty

theorem SameUploads.refl (channel : Channel) : SameUploads channel channel :=
  fun upload hmem => ⟨upload, hmem, rfl, rfl, rfl⟩

theorem Moves.refl (channel : Channel) : Moves channel channel :=
  ⟨fun _ => Or.inl rfl, SameUploads.refl channel, id⟩

theorem setStage_uploads {channel : Channel} {index : Nat} {upload : Upload}
    (hfound : channel.calls[index]? = some upload) (stage : Stage) (log : List Mutation) :
    SameUploads channel { channel.setStage index upload stage with log } := by
  intro found hmem
  rcases List.mem_or_eq_of_mem_set hmem with hold | rfl
  · exact ⟨found, hold, rfl, rfl, rfl⟩
  · exact ⟨upload, List.mem_of_getElem? hfound, rfl, rfl, rfl⟩

theorem dropCall_uploads (channel : Channel) (index : Nat) (stray : List Mutation) :
    SameUploads channel { channel.dropCall index with stray } :=
  fun upload hmem => ⟨upload, List.mem_of_mem_eraseIdx hmem, rfl, rfl, rfl⟩

variable {channel : Channel} {index : Nat} {upload : Upload}

theorem target_call (hfound : channel.calls[index]? = some upload) (progress : Progress) :
    (channel.target progress).calls[index]? = some upload.call := by
  rw [target, List.getElem?_map, hfound]
  rfl

theorem not_empty_of_call (hfound : channel.calls[index]? = some upload) : channel ≠ empty := by
  rintro rfl
  cases hfound

/-- Another stage of a call at the target. -/
theorem setStage_target (channel : Channel) (index : Nat) (upload : Upload) (progress : Progress)
    (stage : Stage) (log : List Mutation) :
    ({ channel.setStage index upload stage with log } : Channel).target progress =
      { channel.target progress with
        calls := (channel.target progress).calls.set index { upload.call with stage }, log } := by
  simp only [target, setStage, List.map_set]
  rfl

theorem send_moves (channel : Channel) (index : Nat) : Moves channel (channel.send index) := by
  unfold send
  split
  · exact Moves.refl channel
  · rename_i upload hfound
    split
    · rename_i done hstage
      split
      · rename_i hmore
        refine ⟨fun progress => Or.inr ?_, setStage_uploads hfound _ channel.log, ?_⟩
        · have htarget := setStage_target channel index upload progress (.sent done) channel.log
          exact htarget ▸ Step.send (target_call hfound progress) hstage hmore
        · exact fun hempty => absurd hempty (not_empty_of_call hfound)
      · exact Moves.refl channel
    · exact Moves.refl channel

theorem handle_moves (channel : Channel) (index : Nat) (applied : Bool) :
    Moves channel (channel.handle index applied) := by
  unfold handle
  split
  · exact Moves.refl channel
  · rename_i upload hfound
    split
    · rename_i done hstage
      split
      · exact Moves.refl channel
      · rename_i request hrequest
        refine ⟨fun progress => Or.inr ?_, setStage_uploads hfound _ _, ?_⟩
        · rw [setStage_target]
          exact Step.handle applied (target_call hfound progress) hstage hrequest
        · exact fun hempty => absurd hempty (not_empty_of_call hfound)
    · exact Moves.refl channel

theorem answer_moves (channel : Channel) (index : Nat) : Moves channel (channel.answer index) := by
  unfold answer
  split
  · exact Moves.refl channel
  · rename_i upload hfound
    split
    · rename_i done hstage
      refine ⟨fun progress => Or.inr ?_, setStage_uploads hfound _ channel.log, ?_⟩
      · have htarget :=
          setStage_target channel index upload progress (.ready (done + 1)) channel.log
        exact htarget ▸ Step.answer (target_call hfound progress) hstage
      · exact fun hempty => absurd hempty (not_empty_of_call hfound)
    · exact Moves.refl channel

/-- A call that is gone at the target. -/
theorem dropCall_target (progress : Progress) (stray : List Mutation) :
    ({ channel.dropCall index with stray } : Channel).target progress =
      { channel.target progress with
        calls := (channel.target progress).calls.eraseIdx index, stray } := by
  simp only [target, dropCall, List.eraseIdx_map]

theorem lose_moves (channel : Channel) (index : Nat) : Moves channel (channel.lose index) := by
  unfold lose
  split
  · exact Moves.refl channel
  · rename_i upload hfound
    refine ⟨fun progress => Or.inr ?_, dropCall_uploads channel index _, ?_⟩
    · rw [dropCall_target]
      exact Step.lose (target_call hfound progress)
    · exact fun hempty => absurd hempty (not_empty_of_call hfound)

theorem arrive_moves (channel : Channel) (index : Nat) (applied : Bool) :
    Moves channel (channel.arrive index applied) := by
  unfold arrive
  split
  · exact Moves.refl channel
  · rename_i request hfound
    refine ⟨fun progress => Or.inr (Step.arrive applied hfound), SameUploads.refl channel, ?_⟩
    rintro rfl
    cases hfound

end Channel

/-! ## The target of a build -/

namespace Site

variable {texts : PointEvidence → Text} {site next : Site} {build : BuildId}

/-- The collection of a build as a target. -/
def target (site : Site) (build : BuildId) : Target Mutation :=
  (site.channels build.collection).target (site.world.progress build)

/-- The log of the collection of a build. -/
def log (site : Site) (build : BuildId) : List Mutation := (site.channels build.collection).log

/-- What an action may do to the target of a build. -/
inductive Evolves (site next : Site) (build : BuildId) : Prop
  | same (target : next.target build = site.target build)
  | step (step : Step (site.target build) (next.target build))
  | deleted (erased : build.collection ∈ site.erasures) (present : present (site.log build) = true)
      (target : next.target build = { site.target build with
        log := site.log build ++ [.deleteCollection ⟨build.collection⟩] })

/-- Uploads belong to the build of their collection, and every collection is a target
of serial dispatch. -/
structure Ordered (site : Site) : Prop where
  sound : site.world.Sound
  named : ∀ name, site.channels name = Channel.empty ∨ ∃ build : BuildId, build.collection = name
  owned : ∀ (build : BuildId), ∀ upload ∈ (site.channels build.collection).calls,
    upload.pending.build = build
  serial : ∀ build, Serial (site.target build)

/-- A call at a collection is one of its build. -/
theorem Ordered.owner (hordered : Ordered site) {name : Bytes} {index : Nat} {upload : Upload}
    (hfound : (site.channels name).calls[index]? = some upload) :
    upload.pending.build.collection = name := by
  rcases hordered.named name with hempty | ⟨owner, rfl⟩
  · rw [hempty] at hfound
    cases hfound
  · rw [hordered.owned owner upload (List.mem_of_getElem? hfound)]

theorem channels_amend (site : Site) (name other : Bytes) (change : Channel → Channel) :
    (site.amend name change).channels other =
      if other = name then change (site.channels name) else site.channels other := by
  by_cases hsame : other = name
  · subst hsame
    rw [if_pos rfl]
    exact Function.update_self _ _ _
  · rw [if_neg hsame]
    exact Function.update_of_ne hsame _ _

theorem target_of_channel {progress : Progress}
    (hprogress : next.world.progress build = progress)
    (hchannel : next.channels build.collection = site.channels build.collection)
    (hsame : site.world.progress build = progress) : next.target build = site.target build := by
  rw [target, target, hchannel, hprogress, hsame]

/-- A channel moves while the store rests. -/
theorem evolves_amend (name : Bytes) (change : Channel → Channel)
    (hmoves : Channel.Moves (site.channels name) (change (site.channels name)))
    (build : BuildId) : Evolves site (site.amend name change) build := by
  by_cases hname : build.collection = name
  · have hchannel := channels_amend site name build.collection change
    rw [if_pos hname] at hchannel
    rcases hmoves.step (site.world.progress build) with hsame | hstep
    · refine .same (target_of_channel rfl ?_ rfl)
      rw [hchannel, hsame, hname]
    · refine .step ?_
      have hbefore : site.target build =
          (site.channels name).target (site.world.progress build) := by
        rw [target, hname]
      have hafter : (site.amend name change).target build =
          (change (site.channels name)).target (site.world.progress build) := by
        rw [target, hchannel]
        rfl
      rw [hbefore, hafter]
      exact hstep
  · refine .same (target_of_channel rfl ?_ rfl)
    rw [channels_amend, if_neg hname]

/-- The store moves on without a dispatch. -/
theorem evolves_world {world : World}
    (hprogress : world.progress build = site.world.progress build) :
    Evolves site { site with world } build :=
  .same (target_of_channel hprogress rfl rfl)

/-- An event of another build is silent for a build. -/
theorem progress_other {world : World} {event : Event} {other : BuildId} {entry : Entry}
    (hhistory : world.history = site.world.history ++ [event])
    (hentry : event.dispatch build = if other = build then some entry else none)
    (hother : other ≠ build) : world.progress build = site.world.progress build := by
  apply World.progress_of_dispatches
  rw [hhistory]
  exact dispatches_silent _ (by rw [hentry, if_neg hother])

theorem evolves_dispatch (hsound : site.world.Sound) (env : Env) (pending : PendingGeneration)
    (operation : PendingOperation) (requests : List Mutation) (build : BuildId) :
    Evolves site (site.dispatch env pending operation requests) build := by
  have hnext := hsound.step ⟨env, .recordDispatch pending operation⟩
  rcases World.step_record site.world env pending operation with
    ⟨hhistory, error, hreply⟩ | ⟨revision, hhistory, hreply, -⟩
  · have hdispatch : site.dispatch env pending operation requests =
        { site with world := site.world.step ⟨env, .recordDispatch pending operation⟩ } := by
      simp only [dispatch, hreply]
    rw [hdispatch]
    exact evolves_world (World.progress_of_dispatches (by rw [hhistory]))
  · by_cases hbuild : pending.build = build
    · subst hbuild
      have hentry : (Event.recorded pending.build operation revision).dispatch pending.build =
          some (.recorded operation.step revision.toNat) := if_pos rfl
      have hprogress := hsound.progress_next hnext hhistory hentry
      refine .step ?_
      rcases hreply with hreply | ⟨error, hreply⟩
      · have hchannel : (site.dispatch env pending operation requests).channels
            pending.build.collection =
              { site.channels pending.build.collection with
                calls := (site.channels pending.build.collection).calls ++
                  [⟨pending, operation, revision, requests, .ready 0⟩] } := by
          simp only [dispatch, hreply]
          exact Function.update_self _ _ _
        have htarget : (site.dispatch env pending operation requests).target pending.build =
            { site.target pending.build with
              progress := (site.world.step ⟨env, .recordDispatch pending operation⟩).progress
                pending.build
              calls := (site.target pending.build).calls ++
                [⟨operation.step, revision.toNat, requests, .ready 0⟩] } := by
          rw [target, hchannel]
          simp only [dispatch, hreply, target, Channel.target, List.map_append]
          rfl
        rw [htarget]
        exact Step.begin requests hprogress
      · have hdispatch : site.dispatch env pending operation requests =
            { site with world := site.world.step ⟨env, .recordDispatch pending operation⟩ } := by
          simp only [dispatch, hreply]
        rw [hdispatch]
        exact Step.record hprogress
    · have hprogress : _ = site.world.progress build := progress_other hhistory rfl hbuild
      refine .same (target_of_channel ?_ ?_ rfl)
      · rw [← hprogress]
        simp only [dispatch]
        split <;> rfl
      · have hname : build.collection ≠ pending.generation.collection := by
          intro hsame
          exact hbuild (BuildId.collection_injective hsame).symm
        simp only [dispatch]
        split
        · exact Function.update_of_ne hname _ _
        · rfl

theorem evolves_settle (hordered : Ordered site) (env : Env) (name : Bytes) (index : Nat)
    (applied : Bool) (build : BuildId) :
    Evolves site (site.settle env name index applied) build := by
  unfold settle
  split
  · exact .same rfl
  · rename_i upload hfound
    split
    · rename_i hconcludes
      let action : Control.Action :=
        ⟨env, .finishDispatch upload.pending upload.operation upload.revision applied⟩
      have hnext := hordered.sound.step action
      have hhistory := World.step_finish site.world env upload.pending upload.operation
        upload.revision applied
      have hchannel := channels_amend { site with world := site.world.step action } name
        build.collection (·.dropCall index)
      by_cases hname : build.collection = name
      · subst hname
        rw [if_pos rfl] at hchannel
        have howned : upload.pending.build = build :=
          hordered.owned build upload (List.mem_of_getElem? hfound)
        have hcall := Channel.target_call hfound (site.world.progress build)
        have htarget : ∀ progress, (site.world.step action).progress build = progress →
            ({ site with world := site.world.step action }.amend build.collection
              (·.dropCall index)).target build = { site.target build with
                progress := progress
                calls := (site.target build).calls.eraseIdx index } := by
          rintro progress rfl
          rw [target, hchannel]
          simp only [target, Channel.target, Channel.dropCall, List.eraseIdx_map]
          rfl
        rcases hhistory with hquiet | hlogged
        · have hprogress : (site.world.step action).progress build = site.world.progress build :=
            World.progress_of_dispatches (congrArg (dispatches build) hquiet)
          have hunderway : upload.call.underway = none := Call.underway_of_concludes hconcludes
          have hlost := Step.lose hcall
          rw [hunderway, Option.toList_none, List.append_nil] at hlost
          refine .step ?_
          rw [htarget _ hprogress]
          exact hlost
        · have hentry : (Event.settled upload.pending.build upload.operation upload.revision
              applied).dispatch build =
                some (.settled upload.operation.step upload.revision.toNat applied) :=
            if_pos howned
          have hprogress := hordered.sound.progress_next hnext hlogged hentry
          refine .step ?_
          rw [htarget _ rfl]
          exact Step.settle hcall hconcludes hprogress
      · rw [if_neg hname] at hchannel
        refine .same (target_of_channel ?_ hchannel rfl)
        rcases hhistory with hquiet | hlogged
        · exact World.progress_of_dispatches (congrArg (dispatches build) hquiet)
        · refine progress_other hlogged rfl fun hsame => hname ?_
          rw [← hsame, hordered.owner hfound]
    · exact .same rfl

theorem Permitted.silent {command : Command} (hpermitted : Permitted command) :
    command.Silent := by
  cases command with
  | recordDispatch => exact hpermitted
  | finishDispatch => exact hpermitted
  | _ => trivial

theorem evolves_delete (site : Site) {name : Bytes} (hmem : name ∈ site.erasures)
    (erasures : List Bytes) (build : BuildId) :
    Evolves site ({ site with erasures }.amend name (·.delete name)) build := by
  have hchannel := channels_amend { site with erasures } name build.collection (·.delete name)
  by_cases hname : build.collection = name
  · subst hname
    rw [if_pos rfl, Channel.delete] at hchannel
    split at hchannel
    · rename_i hpresent
      refine .deleted hmem hpresent ?_
      rw [target, hchannel]
      rfl
    · exact .same (target_of_channel rfl hchannel rfl)
  · rw [if_neg hname] at hchannel
    exact .same (target_of_channel rfl hchannel rfl)

/-- Every action is a step of the protocol of a target, a deletion, or leaves the
target alone. -/
theorem evolves (texts : PointEvidence → Text) (hordered : Ordered site) (action : Action)
    (build : BuildId) :
    Evolves site (site.step texts action) build := by
  cases action with
  | control action =>
      simp only [step]
      split
      · rename_i hpermitted
        exact evolves_world (World.step_silent hpermitted.silent)
      · exact .same rfl
  | readPage env generation number =>
      simp only [step]
      split <;> exact .same rfl
  | create env pending => exact evolves_dispatch hordered.sound env pending _ _ build
  | insert env pending read =>
      simp only [step]
      split
      · exact .same rfl
      · split
        · exact evolves_dispatch hordered.sound env pending _ _ build
        · exact .same rfl
  | send name call =>
      exact evolves_amend name (·.send call) (Channel.send_moves _ call) build
  | handle name call applied =>
      exact evolves_amend name (·.handle call applied) (Channel.handle_moves _ call applied) build
  | answer name call =>
      exact evolves_amend name (·.answer call) (Channel.answer_moves _ call) build
  | settle env name call applied => exact evolves_settle hordered env name call applied build
  | lose name call =>
      exact evolves_amend name (·.lose call) (Channel.lose_moves _ call) build
  | arrive name request applied =>
      exact evolves_amend name (·.arrive request applied)
        (Channel.arrive_moves _ request applied) build
  | readRetired env =>
      simp only [step]
      split <;> exact .same rfl
  | erase cleanup =>
      simp only [step]
      split
      · exact .same rfl
      · split <;> exact .same rfl
  | delete erasure applied =>
      simp only [step]
      split
      · exact .same rfl
      · rename_i name hfound
        split
        · exact evolves_delete site (List.mem_of_getElem? hfound) _ build
        · exact .same rfl
  | observe cleanup =>
      simp only [step]
      split
      · exact .same rfl
      · split <;> exact .same rfl
  | retire env cleanup =>
      simp only [step]
      split
      · exact .same rfl
      · split
        · exact evolves_world (World.step_silent trivial)
        · exact .same rfl

/-! ## Who acts -/

/-- An action that runs one transaction of the store. -/
structure StoreStep (site next : Site) (action : Control.Action) : Prop where
  world : next.world = site.world.step action
  logs : ∀ name, (next.channels name).log = (site.channels name).log
  reads : next.reads = site.reads
  cleanups : next.cleanups = site.cleanups
  erasures : next.erasures = site.erasures
  finishable : ∀ retired, action.command = .finishRetirement retired →
    ∃ cleanup ∈ site.cleanups, cleanup.retired = retired ∧ cleanup.Finishable

/-- An action that leaves the store alone. -/
structure LocalStep (site next : Site) : Prop where
  world : next.world = site.world
  reads : ∀ read ∈ next.reads, read ∈ site.reads ∨
    readSavedPage site.world.db read.generation read.number = .ok read.page
  cleanups : ∀ cleanup ∈ next.cleanups, cleanup ∈ site.cleanups ∨
    (cleanup.absent = false ∧
      ∃ retired, readRetirements site.world.db = .ok retired ∧ cleanup.retired ∈ retired) ∨
    ∃ earlier ∈ site.cleanups, cleanup.retired = earlier.retired ∧
      present (site.channels cleanup.retired.generation.collection).log = false
  erasures : ∀ name ∈ next.erasures, name ∈ site.erasures ∨
    ∃ cleanup ∈ site.cleanups, cleanup.Erasable ∧ name = cleanup.retired.generation.collection

theorem LocalStep.refl (site : Site) : LocalStep site site :=
  ⟨rfl, fun _ hmem => Or.inl hmem, fun _ hmem => Or.inl hmem, fun _ hmem => Or.inl hmem⟩

theorem LocalStep.amend (site : Site) (name : Bytes) (change : Channel → Channel) :
    LocalStep site (site.amend name change) :=
  ⟨rfl, fun _ hmem => Or.inl hmem, fun _ hmem => Or.inl hmem, fun _ hmem => Or.inl hmem⟩

theorem dispatch_store (site : Site) (env : Env) (pending : PendingGeneration)
    (operation : PendingOperation) (requests : List Mutation) :
    StoreStep site (site.dispatch env pending operation requests)
      ⟨env, .recordDispatch pending operation⟩ := by
  unfold dispatch
  simp only
  split
  · refine ⟨rfl, ?_, rfl, rfl, rfl, ?_⟩
    · intro name
      rw [channels_amend]
      split
      · rename_i hname
        rw [hname]
      · rfl
    · rintro retired ⟨⟩
  · refine ⟨rfl, fun _ => rfl, rfl, rfl, rfl, ?_⟩
    rintro retired ⟨⟩

/-- Every action runs one transaction of the store or leaves it alone. -/
theorem step_cases (texts : PointEvidence → Text) (site : Site) (action : Action) :
    (∃ performed, StoreStep site (site.step texts action) performed) ∨
      LocalStep site (site.step texts action) := by
  cases action with
  | control action =>
      simp only [step]
      split
      · rename_i hpermitted
        refine Or.inl ⟨action, rfl, fun _ => rfl, rfl, rfl, rfl, ?_⟩
        intro retired hcommand
        rw [hcommand] at hpermitted
        exact absurd hpermitted id
      · exact Or.inr (LocalStep.refl site)
  | readPage env generation number =>
      simp only [step]
      split
      · exact Or.inr (LocalStep.refl site)
      · rename_i page hread
        refine Or.inr ⟨rfl, ?_, fun _ hmem => Or.inl hmem, fun _ hmem => Or.inl hmem⟩
        intro read hmem
        rcases List.mem_append.mp hmem with hold | hnew
        · exact Or.inl hold
        · obtain rfl := List.mem_singleton.mp hnew
          exact Or.inr (observeDatabase_eq_ok hread)
  | create env pending => exact Or.inl ⟨_, dispatch_store site env pending _ _⟩
  | insert env pending read =>
      simp only [step]
      split
      · exact Or.inr (LocalStep.refl site)
      · split
        · exact Or.inl ⟨_, dispatch_store site env pending _ _⟩
        · exact Or.inr (LocalStep.refl site)
  | send name call => exact Or.inr (LocalStep.amend site name (·.send call))
  | handle name call applied => exact Or.inr (LocalStep.amend site name (·.handle call applied))
  | answer name call => exact Or.inr (LocalStep.amend site name (·.answer call))
  | settle env name call applied =>
      simp only [step, settle]
      split
      · exact Or.inr (LocalStep.refl site)
      · split
        · refine Or.inl ⟨_, rfl, ?_, rfl, rfl, rfl, ?_⟩
          · intro other
            rw [channels_amend]
            split
            · rename_i hname
              rw [hname]
              rfl
            · rfl
          · rintro retired ⟨⟩
        · exact Or.inr (LocalStep.refl site)
  | lose name call => exact Or.inr (LocalStep.amend site name (·.lose call))
  | arrive name request applied =>
      exact Or.inr (LocalStep.amend site name (·.arrive request applied))
  | readRetired env =>
      simp only [step]
      split
      · exact Or.inr (LocalStep.refl site)
      · rename_i retired hread
        refine Or.inr ⟨rfl, fun _ hmem => Or.inl hmem, ?_, fun _ hmem => Or.inl hmem⟩
        intro cleanup hmem
        rcases List.mem_append.mp hmem with hold | hnew
        · exact Or.inl hold
        · obtain ⟨found, hfound, rfl⟩ := List.mem_map.mp hnew
          exact Or.inr (Or.inl ⟨rfl, retired, observeDatabase_eq_ok hread, hfound⟩)
  | erase cleanup =>
      simp only [step]
      split
      · exact Or.inr (LocalStep.refl site)
      · rename_i found hfound
        split
        · rename_i herasable
          refine Or.inr ⟨rfl, fun _ hmem => Or.inl hmem, fun _ hmem => Or.inl hmem, ?_⟩
          intro name hmem
          rcases List.mem_append.mp hmem with hold | hnew
          · exact Or.inl hold
          · exact Or.inr ⟨found, List.mem_of_getElem? hfound, herasable,
              List.mem_singleton.mp hnew⟩
        · exact Or.inr (LocalStep.refl site)
  | delete erasure applied =>
      simp only [step]
      split
      · exact Or.inr (LocalStep.refl site)
      · have herasures : ∀ name ∈ site.erasures.eraseIdx erasure, name ∈ site.erasures ∨
            ∃ cleanup ∈ site.cleanups, cleanup.Erasable ∧
              name = cleanup.retired.generation.collection :=
          fun name hmem => Or.inl (List.mem_of_mem_eraseIdx hmem)
        split
        · exact Or.inr ⟨rfl, fun _ hmem => Or.inl hmem, fun _ hmem => Or.inl hmem, herasures⟩
        · exact Or.inr ⟨rfl, fun _ hmem => Or.inl hmem, fun _ hmem => Or.inl hmem, herasures⟩
  | observe cleanup =>
      simp only [step]
      split
      · exact Or.inr (LocalStep.refl site)
      · rename_i found hfound
        split
        · exact Or.inr (LocalStep.refl site)
        · rename_i habsent
          refine Or.inr ⟨rfl, fun _ hmem => Or.inl hmem, ?_, fun _ hmem => Or.inl hmem⟩
          intro cleanup hmem
          rcases List.mem_or_eq_of_mem_set hmem with hold | rfl
          · exact Or.inl hold
          · exact Or.inr (Or.inr ⟨found, List.mem_of_getElem? hfound, rfl,
              Bool.eq_false_iff.mpr habsent⟩)
  | retire env cleanup =>
      simp only [step]
      split
      · exact Or.inr (LocalStep.refl site)
      · rename_i found hfound
        split
        · rename_i hfinishable
          refine Or.inl ⟨_, rfl, fun _ => rfl, rfl, rfl, rfl, ?_⟩
          intro retired hcommand
          have hsame : found.retired = retired := by
            injection hcommand
          exact ⟨found, List.mem_of_getElem? hfound, hsame, hfinishable⟩
        · exact Or.inr (LocalStep.refl site)

/-! ## Uploads -/

/-- An upload that an action may begin: it creates the collection of a build that the
header names, or inserts a page that was read from it. -/
structure Begun (texts : PointEvidence → Text) (site : Site) (upload : Upload) : Prop where
  live : ∃ state, readState site.world.db = .ok state ∧ state.Names upload.pending.build
  requests : (upload.operation = .create ∧
      upload.requests = creation upload.pending.build.collection) ∨
    ∃ read ∈ site.reads, read.generation.build = upload.pending.build ∧
      upload.operation = .insert read.number ∧
      upload.requests = insertion texts upload.pending.build.collection read.page

/-- What an action does to one channel, as far as its uploads go. -/
structure Calls (texts : PointEvidence → Text) (site next : Site) (name : Bytes) : Prop where
  uploads : ∀ upload ∈ (next.channels name).calls,
    (∃ earlier ∈ (site.channels name).calls, upload.pending = earlier.pending ∧
      upload.operation = earlier.operation ∧ upload.requests = earlier.requests) ∨
    upload.pending.build.collection = name ∧ Begun texts site upload
  named : site.channels name = Channel.empty → next.channels name = Channel.empty ∨
    ∃ build : BuildId, build.collection = name

theorem Calls.same {name : Bytes} (hsame : next.channels name = site.channels name) :
    Calls texts site next name where
  uploads := by
    rw [hsame]
    exact fun upload hmem => Or.inl ⟨upload, hmem, rfl, rfl, rfl⟩
  named := by
    intro hempty
    left
    rw [hsame, hempty]

theorem calls_amend (name : Bytes) (change : Channel → Channel)
    (hmoves : Channel.Moves (site.channels name) (change (site.channels name))) (other : Bytes) :
    Calls texts site (site.amend name change) other := by
  have hchannel := channels_amend site name other change
  by_cases hname : other = name
  · subst hname
    rw [if_pos rfl] at hchannel
    refine ⟨?_, ?_⟩
    · rw [hchannel]
      exact fun upload hmem => Or.inl (hmoves.uploads upload hmem)
    · rw [hchannel]
      exact fun hempty => Or.inl (hmoves.silent hempty)
  · rw [if_neg hname] at hchannel
    exact Calls.same hchannel

theorem calls_dispatch (env : Env) (pending : PendingGeneration) (operation : PendingOperation)
    (requests : List Mutation)
    (hbegun : ∀ revision, (∃ state, readState site.world.db = .ok state ∧
      state.Names pending.build) →
        Begun texts site ⟨pending, operation, revision, requests, .ready 0⟩)
    (name : Bytes) : Calls texts site (site.dispatch env pending operation requests) name := by
  by_cases hname : name = pending.generation.collection
  · refine ⟨?_, fun _ => Or.inr ⟨pending.build, hname.symm⟩⟩
    subst hname
    intro upload hmem
    rcases World.step_record site.world env pending operation with
      ⟨-, error, hreply⟩ | ⟨revision, -, hreply, hlive⟩
    · simp only [dispatch, hreply] at hmem
      exact Or.inl ⟨upload, hmem, rfl, rfl, rfl⟩
    · rcases hreply with hreply | ⟨error, hreply⟩
      · simp only [dispatch, hreply] at hmem
        rw [channels_amend, if_pos rfl] at hmem
        rcases List.mem_append.mp hmem with hold | hnew
        · exact Or.inl ⟨upload, hold, rfl, rfl, rfl⟩
        · obtain rfl := List.mem_singleton.mp hnew
          exact Or.inr ⟨rfl, hbegun revision hlive⟩
      · simp only [dispatch, hreply] at hmem
        exact Or.inl ⟨upload, hmem, rfl, rfl, rfl⟩
  · refine Calls.same ?_
    simp only [dispatch]
    split
    · rw [channels_amend, if_neg hname]
    · rfl

theorem calls_settle (hordered : Ordered site) (env : Env) (name : Bytes) (index : Nat)
    (applied : Bool) (other : Bytes) :
    Calls texts site (site.settle env name index applied) other := by
  unfold settle
  split
  · exact Calls.same rfl
  · rename_i upload hfound
    split
    · refine ⟨?_, ?_⟩
      · intro found hmem
        rw [channels_amend] at hmem
        split at hmem
        · rename_i hname
          subst hname
          exact Or.inl ⟨found, List.mem_of_mem_eraseIdx hmem, rfl, rfl, rfl⟩
        · exact Or.inl ⟨found, hmem, rfl, rfl, rfl⟩
      · intro hempty
        rw [channels_amend]
        split
        · rename_i hname
          exact Or.inr ⟨_, (hordered.owner hfound).trans hname.symm⟩
        · exact Or.inl hempty
    · exact Calls.same rfl

theorem calls_delete (site : Site) (name : Bytes) (erasures : List Bytes) (other : Bytes) :
    Calls texts site ({ site with erasures }.amend name (·.delete name)) other := by
  have hchannel := channels_amend { site with erasures } name other (·.delete name)
  by_cases hname : other = name
  · subst hname
    rw [if_pos rfl, Channel.delete] at hchannel
    split at hchannel
    · rename_i hpresent
      refine ⟨?_, ?_⟩
      · rw [hchannel]
        exact fun upload hmem => Or.inl ⟨upload, hmem, rfl, rfl, rfl⟩
      · intro hempty
        have hpresent : present (site.channels other).log = true := hpresent
        rw [hempty] at hpresent
        cases hpresent
    · exact Calls.same hchannel
  · rw [if_neg hname] at hchannel
    exact Calls.same hchannel

theorem calls_step (hordered : Ordered site) (action : Action) (name : Bytes) :
    Calls texts site (site.step texts action) name := by
  cases action with
  | create env pending =>
      refine calls_dispatch env pending _ _ (fun revision hlive => ⟨hlive, Or.inl ⟨rfl, rfl⟩⟩) name
  | insert env pending read =>
      simp only [step]
      split
      · exact Calls.same rfl
      · rename_i found hfound
        split
        · rename_i hbuild
          refine calls_dispatch env pending _ _ (fun revision hlive => ⟨hlive, Or.inr ?_⟩) name
          exact ⟨found, List.mem_of_getElem? hfound, hbuild, rfl, rfl⟩
        · exact Calls.same rfl
  | send target call => exact calls_amend target (·.send call) (Channel.send_moves _ call) name
  | handle target call applied =>
      exact calls_amend target (·.handle call applied) (Channel.handle_moves _ call applied) name
  | answer target call =>
      exact calls_amend target (·.answer call) (Channel.answer_moves _ call) name
  | settle env target call applied => exact calls_settle hordered env target call applied name
  | lose target call => exact calls_amend target (·.lose call) (Channel.lose_moves _ call) name
  | arrive target request applied =>
      exact calls_amend target (·.arrive request applied)
        (Channel.arrive_moves _ request applied) name
  | delete erasure applied =>
      simp only [step]
      split
      · exact Calls.same rfl
      · split
        · exact calls_delete site _ _ name
        · exact Calls.same rfl
  | control action =>
      simp only [step]
      split <;> exact Calls.same rfl
  | readPage env generation number =>
      simp only [step]
      split <;> exact Calls.same rfl
  | readRetired env =>
      simp only [step]
      split <;> exact Calls.same rfl
  | erase cleanup =>
      simp only [step]
      split
      · exact Calls.same rfl
      · split <;> exact Calls.same rfl
  | observe cleanup =>
      simp only [step]
      split
      · exact Calls.same rfl
      · split <;> exact Calls.same rfl
  | retire env cleanup =>
      simp only [step]
      split
      · exact Calls.same rfl
      · split <;> exact Calls.same rfl

/-! ## Every collection is a target -/

theorem ordered_init {db : Db} (habsent : db.PublicationAbsent) : Ordered (Site.init db) where
  sound := World.sound_init habsent
  named := fun _ => Or.inl rfl
  owned := by
    intro build upload hmem
    cases hmem
  serial := by
    intro build
    refine ⟨Nat.zero_le _, ?_, ?_, ?_, fun _ => rfl⟩
    · intro call hmem
      cases hmem
    · exact fun hsome => absurd rfl hsome
    · rintro _ _ ⟨⟩

theorem Ordered.step (hordered : Ordered site) (action : Action) :
    Ordered (site.step texts action) where
  sound := by
    rcases step_cases texts site action with ⟨performed, hstore⟩ | hlocal
    · rw [hstore.world]
      exact hordered.sound.step performed
    · rw [hlocal.world]
      exact hordered.sound
  named := by
    intro name
    rcases hordered.named name with hempty | hnamed
    · exact (calls_step hordered action name).named hempty
    · exact Or.inr hnamed
  owned := by
    intro build upload hmem
    rcases (calls_step hordered action build.collection).uploads upload hmem with
      ⟨earlier, hearlier, hpending, -⟩ | ⟨hcollection, -⟩
    · rw [hpending]
      exact hordered.owned build earlier hearlier
    · exact BuildId.collection_injective hcollection
  serial := by
    intro build
    have hserial := hordered.serial build
    cases evolves texts hordered action build with
    | same htarget => exact htarget ▸ hserial
    | step hstep => exact hserial.step hstep
    | deleted erased hpresent htarget =>
        rw [htarget]
        refine hserial.relog fun hzero => ?_
        have hlog : site.log build = [] := hserial.untouched hzero
        rw [hlog] at hpresent
        cases hpresent

/-! ## Planned requests -/

/-- The requests of each step of a build, read off its saved pages. -/
def plan (texts : PointEvidence → Text) (rows : Rows) (build : BuildId) : ℕ → List Mutation
  | 0 => creation build.collection
  | number + 1 =>
      match rows.page build.sequence number with
      | none => []
      | some page => insertion texts build.collection page

theorem plan_same {rows left : Rows}
    (hsame : SameUnder build.sequence rows.pages left.pages) :
    plan texts left build = plan texts rows build := by
  funext step
  cases step with
  | zero => rfl
  | succ number => rw [plan, plan, Rows.page_same hsame]

/-- What a live build has received is what was planned, and what was read of a build is
still saved or the build is dead. -/
structure Mirrored (texts : PointEvidence → Text) (site : Site) (state : State) : Prop where
  staged : LiveStaged site.world.db.rows state
  reads : ∀ read ∈ site.reads, Dead state read.generation.sequence ∨
    site.world.db.rows.page read.generation.sequence read.number.toNat = some read.page
  follows : ∀ build, state.Names build →
    Follows (plan texts site.world.db.rows build) (site.target build)
  landed : ∀ build, state.Names build →
    Landed (plan texts site.world.db.rows build) (site.target build)

/-- A page that is read is the saved one. -/
theorem readSavedPage_page {db : Db} {generation : Generation} {number : UInt64}
    {page : UploadPage} (hread : readSavedPage db generation number = .ok page) :
    db.rows.page generation.sequence number.toNat = some page := by
  simp only [readSavedPage, bind_eq_ok, refuse_eq_ok, okOr_eq_ok] at hread
  obtain ⟨state, -, _, -, table, htable, value, hvalue, hdecode⟩ := hread
  have hrows : db.rows.pages = table := by simp [Db.rows, htable]
  rw [Rows.page, hrows, UInt64.ofNat_toNat, hvalue, Option.bind_some, hdecode]
  rfl

/-- What one action does to the store. -/
theorem Ordered.moved (hordered : Ordered site) {state : State}
    (hstate : readState site.world.db = .ok state) (hstaged : LiveStaged site.world.db.rows state)
    (texts : PointEvidence → Text) (action : Action) :
    ∃ after, Moved site.world (site.step texts action).world state after := by
  rcases step_cases texts site action with ⟨performed, hstore⟩ | hlocal
  · rw [hstore.world]
    exact hordered.sound.moved hstate hstaged performed
  · rw [hlocal.world]
    exact ⟨state, Moved.refl hstate hstaged⟩

theorem Mirrored.step {state after : State} (hmirrored : Mirrored texts site state)
    (hordered : Ordered site) {action : Action}
    (hmoved : Moved site.world (site.step texts action).world state after)
    (herasures : ∀ name ∈ site.erasures, ∃ build : BuildId, build.collection = name ∧
      Dead state build.sequence) :
    Mirrored texts (site.step texts action) after := by
  have hnext : Ordered (site.step texts action) := hordered.step action
  have huntouched : ∀ build, (site.step texts action).world.progress build = Progress.start →
      ((site.step texts action).target build).calls = [] := by
    intro build hstart
    refine ((hnext.serial build).idle ?_).1
    have hprogress : ((site.step texts action).target build).progress = Progress.start := hstart
    rw [hprogress]
    rfl
  refine ⟨hmoved.staged, ?_, ?_, ?_⟩
  · intro read hmem
    have hread : read ∈ site.reads ∨
        readSavedPage site.world.db read.generation read.number = .ok read.page := by
      rcases step_cases texts site action with ⟨performed, hstore⟩ | hlocal
      · rw [hstore.reads] at hmem
        exact Or.inl hmem
      · exact hlocal.reads read hmem
    have hpage : Dead state read.generation.sequence ∨
        site.world.db.rows.page read.generation.sequence read.number.toNat = some read.page := by
      rcases hread with hold | hnew
      · exact hmirrored.reads read hold
      · exact Or.inr (readSavedPage_page hnew)
    rcases hpage with hdead | hpage
    · exact Or.inl (hmoved.dead _ hdead)
    · exact (hmoved.pages _ _ _ hpage).symm
  · intro build hnames
    rcases hmoved.names build hnames with ⟨hbefore, hsame⟩ | hstart
    · rw [plan_same hsame]
      intro call hmem
      obtain ⟨upload, hupload, rfl⟩ := List.mem_map.mp hmem
      rcases (calls_step hordered action build.collection).uploads upload hupload with
        ⟨earlier, hearlier, -, hoperation, hrequests⟩ | ⟨hcollection, hbegun⟩
      · have hfollows := hmirrored.follows build hbefore earlier.call
          (List.mem_map_of_mem hearlier)
        simp only [Upload.call] at hfollows ⊢
        rw [hrequests, hoperation]
        exact hfollows
      · have hbuild := BuildId.collection_injective hcollection
        rcases hbegun.requests with ⟨hcreate, hrequests⟩ | ⟨read, hread, howner, hinsert, hrequests⟩
        · simp only [Upload.call, hcreate, PendingOperation.step, plan]
          rw [hrequests, hcollection]
        · have hsequence : read.generation.sequence = build.sequence := by
            rw [← hbuild, ← howner]
            rfl
          have hpage :
              site.world.db.rows.page build.sequence read.number.toNat = some read.page := by
            rcases hmirrored.reads read hread with hdead | hpage
            · rw [hsequence] at hdead
              exact absurd hbefore hdead.not_names
            · rw [← hsequence]
              exact hpage
          simp only [Upload.call, hinsert, PendingOperation.step, plan, hpage]
          rw [hrequests, hcollection]
    · intro call hmem
      rw [huntouched build hstart] at hmem
      cases hmem
  · intro build hnames
    rcases hmoved.names build hnames with ⟨hbefore, hsame⟩ | hstart
    · rw [plan_same hsame]
      have hlanded := hmirrored.landed build hbefore
      cases evolves texts hordered action build with
      | same htarget =>
          rw [htarget]
          exact hlanded
      | step hstep =>
          exact hlanded.step (hordered.serial build) (hmirrored.follows build hbefore) hstep
      | deleted erased =>
          obtain ⟨other, hother, hdead⟩ := herasures _ erased
          rw [BuildId.collection_injective hother] at hdead
          exact absurd hbefore hdead.not_names
    · exact Landed.untouched (hnext.serial build) hstart

end Site

end EliotSearch.Corpus
