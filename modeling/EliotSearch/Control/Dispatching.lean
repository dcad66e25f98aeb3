import EliotSearch.Control.Installation

/-!
# The dispatch protocol

Whatever headers and revisions callers hold, and however late or often a
callback arrives, the log of every run dispatches one operation at a time, in
order, and settles each exactly once before a commit.
-/

namespace EliotSearch.Control

open EliotSearch.Library
open EliotSearch.Library.Results
open EliotSearch.Library.SerialDispatch

/-- The event settles the operation of the build as applied. -/
def Event.applies (build : BuildId) (operation : PendingOperation) : Event → Bool
  | .settled owner found _ true => owner = build && found = operation
  | _ => false

/-- The operation was settled as applied exactly once. -/
def AppliedOnce (history : List Event) (build : BuildId) (operation : PendingOperation) : Prop :=
  history.countP (Event.applies build operation) = 1

/-- The record at the end of `before` has no settlement in the log. -/
def InFlightAt (history before : List Event) (build : BuildId) (operation : PendingOperation)
    (revision : UInt64) : Prop :=
  ∃ after, history = before ++ .recorded build operation revision :: after ∧
    ∀ applied, Event.settled build operation revision applied ∉ after

/-- The event commits or abandons the build or records one more operation of it. -/
def Event.Advances (build : BuildId) : Event → Prop
  | .committed generation => generation.build = build
  | .abandoned closed => closed = build
  | .recorded owner _ _ => owner = build
  | _ => False

/-- The order of dispatch in a log. -/
structure DispatchDiscipline (history : List Event) : Prop where
  /-- At most one operation is in flight: of one build, and of all builds that
  were not superseded. -/
  single : ∀ before other left right leftOperation rightOperation leftRevision rightRevision,
    InFlightAt history before left leftOperation leftRevision →
      InFlightAt history other right rightOperation rightRevision →
        (left = right ∨ ∀ p, Event.superseded p ∈ history → p.build ≠ left ∧ p.build ≠ right) →
          before = other
  /-- A page is recorded after the creation and every page before it. -/
  ordered : ∀ before build page revision after,
    history = before ++ .recorded build (.insert page) revision :: after →
      AppliedOnce before build .create ∧
        ∀ earlier, earlier < page → AppliedOnce before build (.insert earlier)
  /-- A commit comes after the creation and every page, with nothing in flight. -/
  complete : ∀ before generation after,
    history = before ++ .committed generation :: after →
      AppliedOnce before generation.build .create ∧
        (∀ page, page < generation.pageCount →
          AppliedOnce before generation.build (.insert page)) ∧
        ∀ earlier operation revision,
          ¬ InFlightAt before earlier generation.build operation revision
  /-- A record that is not settled blocks its build. -/
  blocked : ∀ before build operation revision between event after,
    history = before ++ .recorded build operation revision :: (between ++ event :: after) →
      (∀ applied, Event.settled build operation revision applied ∉ between) →
        ¬ event.Advances build

namespace Dispatched

variable {history : List Event} {state : State}

/-- Counting applied settlements is counting applied steps. -/
theorem countP_applies (history : List Event) (build : BuildId) (operation : PendingOperation) :
    history.countP (Event.applies build operation) =
      (appliedSteps (dispatches build history)).count operation.step := by
  induction history with
  | nil => rfl
  | cons event history ih =>
      have hsplit : dispatches build (event :: history) =
          (event.dispatch build).toList ++ dispatches build history := by
        cases hentry : event.dispatch build <;> simp [dispatches, hentry]
      rw [hsplit, appliedSteps, List.filterMap_append, List.count_append, ← appliedSteps,
        ← appliedSteps, ← ih, List.countP_cons, Nat.add_comm]
      congr 1
      cases event with
      | settled owner found revision applied =>
          by_cases howner : owner = build
          · cases applied with
            | false =>
                simp only [Event.applies, Event.dispatch, howner, if_true]
                rfl
            | true =>
                by_cases hfound : found = operation
                · simp [Event.applies, Event.dispatch, howner, hfound, appliedSteps,
                    Entry.appliedStep]
                · have hstep : found.step ≠ operation.step :=
                    fun heq => hfound (PendingOperation.step_injective heq)
                  simp [Event.applies, Event.dispatch, howner, hfound, hstep, appliedSteps,
                    Entry.appliedStep]
          · cases applied <;> simp [Event.applies, Event.dispatch, howner, appliedSteps]
      | recorded owner found revision =>
          simp only [Event.applies, Event.dispatch]
          by_cases howner : owner = build
          · rw [if_pos howner]
            rfl
          · rw [if_neg howner]
            rfl
      | reserved p sources => rfl
      | committed generation => rfl
      | abandoned closed => rfl
      | superseded p => rfl

/-- In a log that replays, the steps below the progress were applied once. -/
theorem appliedOnce {build : BuildId} {progress : Progress}
    (hreplay : replay (dispatches build history) = some progress) {operation : PendingOperation}
    (hstep : operation.step < progress.applied) : AppliedOnce history build operation := by
  rw [AppliedOnce, countP_applies, count_appliedSteps hreplay, if_pos hstep]

/-- Every part of the log up to some event replays. -/
theorem replays_initial (hdispatched : Dispatched history state) {before after : List Event}
    (hsplit : history = before ++ after) (build : BuildId) :
    ∃ progress, replay (dispatches build before) = some progress := by
  obtain ⟨progress, hreplay⟩ := hdispatched.replays build
  rw [hsplit, dispatches_append] at hreplay
  exact replay_initial hreplay

/-- After an unsettled record the log of the build is silent. -/
theorem silent_after {build : BuildId} {operation : PendingOperation} {revision : UInt64}
    {before after : List Event} {progress : Progress}
    (hreplay : replay (dispatches build
      (before ++ .recorded build operation revision :: after)) = some progress)
    (hunsettled : ∀ applied, Event.settled build operation revision applied ∉ after) :
    dispatches build after = [] ∧
      progress.inFlight = some (operation.step, revision.toNat) := by
  have hsplit : dispatches build (before ++ .recorded build operation revision :: after) =
      dispatches build before ++
        .recorded operation.step revision.toNat :: dispatches build after := by
    rw [dispatches_append]
    simp [dispatches, Event.dispatch]
  rw [hsplit] at hreplay
  refine replay_after_recorded hreplay ?_
  intro entry hmem hsettles
  obtain ⟨event, hevent, hentry⟩ := List.mem_filterMap.mp hmem
  cases event with
  | settled owner found other applied =>
      simp only [Event.dispatch, Option.ite_none_right_eq_some] at hentry
      obtain ⟨rfl, hentry⟩ := hentry
      obtain rfl := Option.some.inj hentry
      obtain ⟨hstep, hrevision⟩ := hsettles
      rw [PendingOperation.step_injective hstep, UInt64.toNat_inj.mp hrevision] at hevent
      exact hunsettled applied hevent
  | recorded owner found other =>
      simp only [Event.dispatch, Option.ite_none_right_eq_some] at hentry
      obtain ⟨_, hentry⟩ := hentry
      obtain rfl := Option.some.inj hentry
      exact hsettles
  | reserved p sources => cases hentry
  | committed generation => cases hentry
  | abandoned closed => cases hentry
  | superseded p => cases hentry

/-- A record in flight is in flight in the replayed log of its build. -/
theorem inFlight_of_inFlightAt (hdispatched : Dispatched history state) {before : List Event}
    {build : BuildId} {operation : PendingOperation} {revision : UInt64}
    (hflight : InFlightAt history before build operation revision) :
    ∃ progress, replay (dispatches build history) = some progress ∧
      progress.inFlight = some (operation.step, revision.toNat) := by
  obtain ⟨after, hsplit, hunsettled⟩ := hflight
  obtain ⟨progress, hreplay⟩ := hdispatched.replays build
  refine ⟨progress, hreplay, ?_⟩
  rw [hsplit] at hreplay
  exact (silent_after hreplay hunsettled).2

/-- Two records in flight of one build are one record. -/
theorem single_build (hdispatched : Dispatched history state) {before other : List Event}
    {build : BuildId} {left right : PendingOperation} {leftRevision rightRevision : UInt64}
    (hleft : InFlightAt history before build left leftRevision)
    (hright : InFlightAt history other build right rightRevision) : before = other := by
  obtain ⟨progress, hreplay⟩ := hdispatched.replays build
  obtain ⟨leftRest, hleftSplit, hleftUnsettled⟩ := hleft
  obtain ⟨rightRest, hrightSplit, hrightUnsettled⟩ := hright
  have hleftSilent := (silent_after (hleftSplit ▸ hreplay) hleftUnsettled).1
  have hrightSilent := (silent_after (hrightSplit ▸ hreplay) hrightUnsettled).1
  have hnot : ∀ operation revision rest, dispatches build rest = [] →
      Event.recorded build operation revision ∉ rest := by
    intro operation revision rest hsilent hmem
    have hentry := List.filterMap_eq_nil_iff.mp hsilent _ hmem
    simp [Event.dispatch] at hentry
  rcases Lists.split_cases (hleftSplit.symm.trans hrightSplit) with hsame | hlater | hlater
  · exact hsame
  · exact absurd hlater (hnot _ _ _ hleftSilent)
  · exact absurd hlater (hnot _ _ _ hrightSilent)

theorem single (hdispatched : Dispatched history state) {before other : List Event}
    {left right : BuildId} {leftOperation rightOperation : PendingOperation}
    {leftRevision rightRevision : UInt64}
    (hleft : InFlightAt history before left leftOperation leftRevision)
    (hright : InFlightAt history other right rightOperation rightRevision)
    (hopen : left = right ∨ ∀ p, Event.superseded p ∈ history → p.build ≠ left ∧ p.build ≠ right) :
    before = other := by
  rcases hopen with rfl | hopen
  · exact hdispatched.single_build hleft hright
  · obtain ⟨leftProgress, hleftReplay, hleftFlight⟩ := hdispatched.inFlight_of_inFlightAt hleft
    obtain ⟨rightProgress, hrightReplay, hrightFlight⟩ := hdispatched.inFlight_of_inFlightAt hright
    have hleftLive := hdispatched.idle left _ hleftReplay (by simp [hleftFlight])
    have hrightLive := hdispatched.idle right _ hrightReplay (by simp [hrightFlight])
    rcases hleftLive with ⟨p, hp, rfl⟩ | ⟨p, hmem, hsame⟩
    · rcases hrightLive with ⟨q, hq, rfl⟩ | ⟨q, hmem, hsame⟩
      · obtain rfl : p = q := Option.some.inj (hp.symm.trans hq)
        exact hdispatched.single_build hleft hright
      · exact absurd hsame (hopen q hmem).2
    · exact absurd hsame (hopen p hmem).1

theorem ordered (hdispatched : Dispatched history state) {before after : List Event}
    {build : BuildId} {page revision : UInt64}
    (hsplit : history = before ++ .recorded build (.insert page) revision :: after) :
    AppliedOnce before build .create ∧
      ∀ earlier, earlier < page → AppliedOnce before build (.insert earlier) := by
  obtain ⟨progress, hreplay⟩ := hdispatched.replays build
  have hdispatches : dispatches build history = dispatches build before ++
      .recorded (page.toNat + 1) revision.toNat :: dispatches build after := by
    rw [hsplit, dispatches_append]
    simp [dispatches, Event.dispatch, PendingOperation.step]
  rw [hdispatches] at hreplay
  obtain ⟨earlier, hearlier, -, happlied, -⟩ := replay_before_recorded hreplay
  refine ⟨appliedOnce hearlier ?_, fun number hnumber => appliedOnce hearlier ?_⟩
  · rw [happlied]
    exact Nat.succ_pos _
  · rw [happlied]
    exact Nat.succ_lt_succ (UInt64.lt_iff_toNat_lt.mp hnumber)

theorem complete (hdispatched : Dispatched history state) {before after : List Event}
    {generation : Generation} (hsplit : history = before ++ .committed generation :: after) :
    AppliedOnce before generation.build .create ∧
      (∀ page, page < generation.pageCount →
        AppliedOnce before generation.build (.insert page)) ∧
      ∀ earlier operation revision,
        ¬ InFlightAt before earlier generation.build operation revision := by
  obtain ⟨revision, hreplay⟩ := hdispatched.closed before _ after hsplit
  refine ⟨appliedOnce hreplay (Nat.succ_pos _), fun page hpage => appliedOnce hreplay ?_, ?_⟩
  · exact Nat.succ_lt_succ (UInt64.lt_iff_toNat_lt.mp hpage)
  · rintro earlier operation found ⟨rest, hrest, hunsettled⟩
    rw [hrest] at hreplay
    cases (silent_after hreplay hunsettled).2

theorem blocked (hdispatched : Dispatched history state) {before between after : List Event}
    {build : BuildId} {operation : PendingOperation} {revision : UInt64} {event : Event}
    (hsplit : history = before ++ .recorded build operation revision :: (between ++ event :: after))
    (hunsettled : ∀ applied, Event.settled build operation revision applied ∉ between) :
    ¬ event.Advances build := by
  have hstem : history =
      (before ++ .recorded build operation revision :: between) ++ event :: after := by
    rw [hsplit]
    simp
  obtain ⟨progress, hreplay⟩ := hdispatched.replays_initial hstem build
  have hinFlight := (silent_after hreplay hunsettled).2
  intro hadvances
  cases event with
  | committed generation =>
      obtain rfl : generation.build = build := hadvances
      obtain ⟨found, hidle⟩ := hdispatched.closed _ _ _ hstem
      rw [hreplay] at hidle
      rw [Option.some.inj hidle] at hinFlight
      cases hinFlight
  | abandoned closed =>
      obtain rfl : closed = build := hadvances
      obtain ⟨found, hfound, hidle⟩ := hdispatched.closed _ _ _ hstem
      rw [hreplay] at hfound
      rw [Option.some.inj hfound, hidle] at hinFlight
      cases hinFlight
  | recorded owner other later =>
      obtain rfl : owner = build := hadvances
      obtain ⟨final, hfinal⟩ := hdispatched.replays owner
      rw [hstem, dispatches_append] at hfinal
      have hhead : dispatches owner (.recorded owner other later :: after) =
          .recorded other.step later.toNat :: dispatches owner after := by
        simp [dispatches, Event.dispatch]
      rw [hhead] at hfinal
      obtain ⟨earlier, hearlier, hidle, -⟩ := replay_before_recorded hfinal
      rw [hreplay] at hearlier
      rw [Option.some.inj hearlier, hidle] at hinFlight
      cases hinFlight
  | reserved p sources => exact hadvances
  | settled owner other later applied => exact hadvances
  | superseded p => exact hadvances

theorem discipline (hdispatched : Dispatched history state) : DispatchDiscipline history where
  single := fun _ _ _ _ _ _ _ _ hleft hright hopen => hdispatched.single hleft hright hopen
  ordered := fun _ _ _ _ _ hsplit => hdispatched.ordered hsplit
  complete := fun _ _ _ hsplit => hdispatched.complete hsplit
  blocked := fun _ _ _ _ _ _ _ hsplit hunsettled => hdispatched.blocked hsplit hunsettled

end Dispatched

/-! ## Calls against the header -/

/-- The operation in flight is exactly the one a callback settles. -/
def Settleable (db : Db) (build : BuildId) (operation : PendingOperation) (revision : UInt64) :
    Prop :=
  ∃ state p, readState db = .ok state ∧ state.pending = some p ∧ p.build = build ∧
    p.inFlight = some operation ∧ p.operationRevision = revision

/-- The transaction failed and left nothing behind. -/
def Refused {α : Type} (outcome : Outcome PublicationError α) (db : Db) : Prop :=
  outcome.db = db ∧ outcome.written = none ∧ ∃ error, outcome.reply = .error error

/-- An edit that its closure refuses for the stored header is refused. -/
theorem editDatabase_refused {α : Type} {env : Env} {db : Db} {write : Edit α}
    (hrefuses : ∀ state left after value, readState db = .ok state →
      write db.openPublication state ≠ .ok (left, after, value)) :
    Refused (editDatabase env db write) db := by
  rcases editDatabase_cases env db write with ⟨hwritten, hdb, hreply⟩ | hdurable
  · exact ⟨hdb, hwritten, hreply⟩
  · obtain ⟨state, left, after, value, hstate, hwrite, -⟩ := hdurable
    exact absurd hwrite (hrefuses state left after value hstate)

/-- A callback for anything but the operation in flight is refused. -/
theorem finishDispatch_refused {env : Env} {db : Db} {pending : PendingGeneration}
    {operation : PendingOperation} {revision : UInt64} {applied : Bool}
    (hother : ¬ Settleable db pending.build operation revision) :
    Refused (finishDispatch env db pending operation revision applied) db := by
  refine editDatabase_refused fun state left after value hstate hwrite => hother ?_
  simp only [finishDispatchEdit, bind_eq_ok, pendingMut_eq_ok, refuse_eq_ok, not_or, not_not]
    at hwrite
  obtain ⟨p, ⟨hpending, hnamespace, hsequence⟩, _, ⟨hinFlight, hrevision⟩, -⟩ := hwrite
  refine ⟨state, p, hstate, hpending, ?_, hinFlight, hrevision⟩
  simp only [PendingGeneration.build, Generation.build, hnamespace, hsequence]

section Blocked

variable {env : Env} {db : Db} {state : State} {p expected : PendingGeneration}

theorem commitGeneration_refused (hstate : readState db = .ok state)
    (hpending : state.pending = some p) (hinFlight : p.inFlight ≠ none) :
    Refused (commitGeneration env db expected) db := by
  refine editDatabase_refused fun found left after value hfound hwrite => hinFlight ?_
  obtain rfl : state = found := Except.ok.inj (hstate.symm.trans hfound)
  simp only [commitEdit, bind_eq_ok, pendingMut_eq_ok, refuse_eq_ok, Bool.not_eq_true] at hwrite
  obtain ⟨stored, ⟨hstored, -⟩, _, -, _, -, _, hidle, -⟩ := hwrite
  obtain rfl : p = stored := Option.some.inj (hpending.symm.trans hstored)
  simpa using hidle

theorem abandonBuild_refused (hstate : readState db = .ok state)
    (hpending : state.pending = some p) (hinFlight : p.inFlight ≠ none) :
    Refused (abandonBuild env db expected) db := by
  refine editDatabase_refused fun found left after value hfound hwrite => hinFlight ?_
  obtain rfl : state = found := Except.ok.inj (hstate.symm.trans hfound)
  simp only [abandonEdit, bind_eq_ok, pendingMut_eq_ok, refuse_eq_ok, Bool.not_eq_true] at hwrite
  obtain ⟨stored, ⟨hstored, -⟩, _, -, _, hidle, -⟩ := hwrite
  obtain rfl : p = stored := Option.some.inj (hpending.symm.trans hstored)
  simpa using hidle

theorem recordDispatch_refused {operation : PendingOperation} (hstate : readState db = .ok state)
    (hpending : state.pending = some p) (hinFlight : p.inFlight ≠ none) :
    Refused (recordDispatch env db expected operation) db := by
  refine editDatabase_refused fun found left after value hfound hwrite => hinFlight ?_
  obtain rfl : state = found := Except.ok.inj (hstate.symm.trans hfound)
  simp only [recordDispatchEdit, bind_eq_ok, pendingMut_eq_ok, refuse_eq_ok, Bool.not_eq_true]
    at hwrite
  obtain ⟨stored, ⟨hstored, -⟩, _, -, _, hidle, -⟩ := hwrite
  obtain rfl : p = stored := Option.some.inj (hpending.symm.trans hstored)
  simpa using hidle

end Blocked

/-! ## Runs -/

/-- In every run the log obeys the dispatch order; a callback that is not for
the operation in flight is refused; a commit that succeeds is in the log; and
while an operation is in flight, commits, abandonments and further records are
refused. -/
theorem dispatch_protocol {db : Db} (habsent : db.PublicationAbsent) (actions : List Action) :
    DispatchDiscipline ((World.init db).run actions).history ∧
    (∀ env pending operation revision applied,
      ¬ Settleable ((World.init db).run actions).db pending.build operation revision →
        Refused
          (finishDispatch env ((World.init db).run actions).db pending operation revision applied)
          ((World.init db).run actions).db) ∧
    (∀ action generation,
      ((World.init db).run actions).reply action = .committed (.ok generation) →
        ∃ before after, ((World.init db).run (actions ++ [action])).history =
          before ++ .committed generation :: after) ∧
    ∀ state p, readState ((World.init db).run actions).db = .ok state → state.pending = some p →
      p.inFlight ≠ none → ∀ env expected operation,
        Refused (commitGeneration env ((World.init db).run actions).db expected)
          ((World.init db).run actions).db ∧
        Refused (abandonBuild env ((World.init db).run actions).db expected)
          ((World.init db).run actions).db ∧
        Refused (recordDispatch env ((World.init db).run actions).db expected operation)
          ((World.init db).run actions).db := by
  have hsound := World.sound_run habsent
  obtain ⟨found, -, hconsistent⟩ := (hsound actions).header
  refine ⟨hconsistent.dispatched.discipline, ?_, ?_, ?_⟩
  · exact fun env pending operation revision applied hother => finishDispatch_refused hother
  · intro action generation hreply
    have hmem := World.committed_of_reply habsent actions hreply
    exact List.append_of_mem hmem
  · intro state p hstate hpending hinFlight env expected operation
    exact ⟨commitGeneration_refused hstate hpending hinFlight,
      abandonBuild_refused hstate hpending hinFlight,
      recordDispatch_refused hstate hpending hinFlight⟩

namespace Sample

/-- The creation is recorded and not settled. -/
def recorded : List Action :=
  sealed ++ [act (.recordDispatch reserved .create)]

def recordedState : State :=
  ⟨1, some namespaceId, 1, 0, none,
    some { reserved with
      captureComplete := true, completedSources := 1
      operationRevision := 1, inFlight := some .create }⟩

def uploadedState : State :=
  ⟨1, some namespaceId, 1, 0, none, some created⟩

end Sample

/-- A stale callback and a blocked commit of the sample build. -/
theorem dispatch_protocol_sample :
    DispatchDiscipline ((World.init Db.empty).run Sample.uploaded).history ∧
    Refused
      (finishDispatch Env.quiet ((World.init Db.empty).run Sample.uploaded).db Sample.reserved
        .create 1 true)
      ((World.init Db.empty).run Sample.uploaded).db ∧
    (∃ before after, ((World.init Db.empty).run (Sample.uploaded ++ [Sample.commit])).history =
      before ++ .committed Sample.created.generation :: after) ∧
    Refused (commitGeneration Env.quiet ((World.init Db.empty).run Sample.recorded).db
      Sample.created) ((World.init Db.empty).run Sample.recorded).db := by
  have huploaded := dispatch_protocol Sample.absent Sample.uploaded
  have hrecorded := dispatch_protocol Sample.absent Sample.recorded
  refine ⟨huploaded.1, huploaded.2.1 _ _ _ _ _ ?_, huploaded.2.2.1 _ _ (by decide +kernel),
    (hrecorded.2.2.2 Sample.recordedState _ (by decide +kernel) rfl (by decide) _ _ .create).1⟩
  rintro ⟨state, p, hstate, hpending, -, hinFlight, -⟩
  have huploadedState : readState ((World.init Db.empty).run Sample.uploaded).db =
      .ok Sample.uploadedState := by decide +kernel
  obtain rfl := Except.ok.inj (huploadedState.symm.trans hstate)
  obtain rfl := Option.some.inj hpending
  cases hinFlight

end EliotSearch.Control
