import EliotSearch.Control.Cleanup
import EliotSearch.Control.Settlement
import EliotSearch.Control.StagedRows

/-!
# Live builds

A build is live while the header names it.  What a transaction does to the live
builds, to their saved pages and to the logs of their dispatches is said here once,
and what it does to the row of a build that left the header.
-/

namespace EliotSearch.Control

open EliotSearch.Library
open EliotSearch.Library.Results
open EliotSearch.Library.SerialDispatch
open EliotSearch.Library.Words

/-! ## Names of builds -/

/-- The collection name of a build. -/
def BuildId.collection (build : BuildId) : Bytes :=
  Generation.collection ⟨build.namespaceId, build.sequence, 0, 0, 0, 0, 0⟩

theorem Generation.collection_build (generation : Generation) :
    generation.build.collection = generation.collection :=
  rfl

theorem BuildId.collection_injective {left right : BuildId}
    (hsame : left.collection = right.collection) : left = right := by
  obtain ⟨leftNamespace, leftSequence⟩ := left
  obtain ⟨rightNamespace, rightSequence⟩ := right
  obtain ⟨hnamespace, hsequence⟩ := Control.collection_injective hsame
  exact congrArg₂ BuildId.mk hnamespace hsequence

/-- The header names the build, as the pending or the current one. -/
def State.Names (state : State) (build : BuildId) : Prop :=
  (∃ p ∈ state.pending, p.build = build) ∨ ∃ g ∈ state.current, g.build = build

theorem Dead.not_names {state : State} {build : BuildId} (hdead : Dead state build.sequence) :
    ¬ state.Names build := by
  rintro (⟨p, hp, hbuild⟩ | ⟨g, hg, hbuild⟩)
  · exact hdead.not_pending p hp (congrArg BuildId.sequence hbuild)
  · exact hdead.not_current g hg (congrArg BuildId.sequence hbuild)

/-! ## Saved pages -/

/-- The saved page under a number. -/
def Rows.page (rows : Rows) (sequence : UInt64) (number : ℕ) : Option UploadPage :=
  (rows.pages[key sequence (be64 (UInt64.ofNat number))]?).bind fun value =>
    (decodePage value).toOption

theorem Rows.page_same {rows left : Rows} {sequence : UInt64}
    (hsame : SameUnder sequence rows.pages left.pages) (number : ℕ) :
    left.page sequence number = rows.page sequence number := by
  rw [Rows.page, hsame, ← Rows.page]

theorem StagedBuild.page_eq {rows : Rows} {g : Generation} {pages : List UploadPage}
    (hstaged : StagedBuild rows g pages) {number : ℕ} {page : UploadPage}
    (hpage : pages[number]? = some page) : rows.page g.sequence number = some page := by
  obtain ⟨value, hvalue, hdecode⟩ := hstaged.saved number page hpage
  rw [Rows.page, hvalue, Option.bind_some, hdecode]
  rfl

section Transitions

variable {wanted : Option ℕ} {captures : List CorpusCapture} {history : List Event}
  {rows left : Rows} {state after : State} {event : Option Event} {sequence : UInt64}

theorem unsealed_progress {p : PendingGeneration} (hprogress : Progressing p)
    (hunsealed : p.captureComplete = false) : p.progress = Progress.start := by
  obtain ⟨hcreated, hinFlight, hrevision⟩ := hprogress.unsealed hunsealed
  simp [PendingGeneration.progress, Progress.start, hcreated, hinFlight, hrevision]

/-- A build that the header names after a transaction was named before, with the same
pages, or nothing was dispatched for it yet. -/
theorem Transition.names_before (hconsistent : Consistent history rows state)
    (htransition : Transition wanted captures history rows state event left after)
    {build : BuildId} (hnames : after.Names build) :
    (state.Names build ∧ SameUnder build.sequence rows.pages left.pages) ∨
      ∃ p ∈ after.pending, p.build = build ∧ p.progress = Progress.start := by
  have hpages : ∀ {p next : PendingGeneration}, state.pending = some p → next.build = p.build →
      State.Names { state with pending := some next } build → state.Names build := by
    rintro p next hpending hbuild (⟨found, hfound, hsame⟩ | hcurrent)
    · obtain rfl := Option.some.inj hfound
      exact Or.inl ⟨p, hpending, hbuild.symm.trans hsame⟩
    · exact Or.inr hcurrent
  have hreleased : State.Names { state with pending := none } build → state.Names build := by
    rintro (⟨found, hfound, -⟩ | hcurrent)
    · cases hfound
    · exact Or.inr hcurrent
  have hself : SameUnder build.sequence rows.pages rows.pages := fun _ => rfl
  cases htransition with
  | reserve =>
      rcases hnames with ⟨p, hp, hbuild⟩ | hcurrent
      · refine Or.inr ⟨p, hp, hbuild, ?_⟩
        obtain rfl := Option.some.inj hp
        rfl
      · exact Or.inl ⟨Or.inr hcurrent, hself⟩
  | persist => exact Or.inl ⟨hnames, hself⟩
  | @stage p env page bytes stagedBytes pageCount staging pending unsealed idle encoded charged
      staged counted =>
      rcases hnames with ⟨found, hfound, hbuild⟩ | ⟨g, hg, hbuild⟩
      · refine Or.inr ⟨found, hfound, hbuild, ?_⟩
        obtain rfl := Option.some.inj hfound
        have hstart := unsealed_progress (hconsistent.progressed.pending p pending) unsealed
        exact hstart
      · refine Or.inl ⟨Or.inr ⟨g, hg, hbuild⟩, ?_⟩
        have hne : build.sequence ≠ p.generation.sequence := by
          rw [← hbuild]
          exact UInt64.ne_of_lt (hconsistent.numbered.ordered g hg p pending)
        exact fun suffix => Table.get_insert_of_ne _ _ fun hsame =>
          hne (key_injective hsame).1.symm
  | finish pending => exact Or.inl ⟨hpages pending (by rfl) hnames, hself⟩
  | complete pending => exact Or.inl ⟨hpages pending (by rfl) hnames, hself⟩
  | record pending => exact Or.inl ⟨hpages pending (by rfl) hnames, hself⟩
  | settle pending inFlight result =>
      exact Or.inl ⟨hpages pending (Dispatched.settled_build result) hnames, hself⟩
  | @commit p revision pending =>
      refine Or.inl ⟨?_, ?_⟩
      · rcases hnames with ⟨found, hfound, -⟩ | ⟨g, hg, hbuild⟩
        · cases hfound
        · obtain rfl := Option.some.inj hg
          exact Or.inl ⟨p, pending, hbuild⟩
      · cases state.current <;> exact hself
  | abandon => exact Or.inl ⟨hreleased hnames, hself⟩
  | supersede => exact Or.inl ⟨hreleased hnames, hself⟩
  | @remove retired definition keys removable owned =>
      refine Or.inl ⟨hnames, ?_⟩
      have hne : build.sequence ≠ retired.generation.sequence := by
        intro hsame
        rcases hnames with ⟨p, hp, hbuild⟩ | ⟨g, hg, hbuild⟩
        · exact removable.not_pending p hp ((congrArg BuildId.sequence hbuild).trans hsame)
        · exact removable.not_current g hg ((congrArg BuildId.sequence hbuild).trans hsame)
      cases definition with
      | sources => exact hself
      | pages => exact SameUnder.of_confined (Table.confined_eraseAll owned _) hne
      | evidence => exact hself
  | forget => exact Or.inl ⟨hnames, hself⟩

/-- A saved page stays, unless its sequence is dead. -/
theorem Transition.page_kept (hconsistent : Consistent history rows state)
    (hstaged : LiveStaged rows state)
    (htransition : Transition wanted captures history rows state event left after) {number : ℕ}
    {page : UploadPage} (hpage : rows.page sequence number = some page) :
    left.page sequence number = some page ∨ Dead state sequence := by
  cases htransition with
  | @stage p env found bytes stagedBytes pageCount staging pending unsealed idle encoded charged
      staged counted =>
      left
      obtain ⟨pages, hpages⟩ := hstaged.pending p pending
      have hne : key p.generation.sequence (be64 p.generation.pageCount) ≠
          key sequence (be64 (UInt64.ofNat number)) := by
        intro hsame
        obtain ⟨hsequence, hsuffix⟩ := key_injective hsame
        obtain ⟨value, hvalue, -⟩ := Option.bind_eq_some_iff.mp hpage
        rw [← hsequence] at hvalue
        obtain ⟨index, hindex, hword⟩ := hpages.only _ _ hvalue
        rw [← hsuffix] at hword
        have hcount := congrArg UInt64.toNat (be64_injective hword)
        have hlarge := p.generation.pageCount.toNat_lt
        rw [hpages.pageCount] at hindex
        rw [UInt64.toNat_ofNat_of_lt' (Nat.lt_trans hindex hlarge)] at hcount
        omega
      rw [Rows.page, Table.get_insert_of_ne _ _ hne]
      exact hpage
  | @remove retired definition keys removable owned =>
      by_cases hsame : sequence = retired.generation.sequence
      · right
        rw [hsame]
        exact ⟨hconsistent.retired.removable_le removable, removable.not_current,
          removable.not_pending⟩
      · left
        cases definition with
        | sources => exact hpage
        | pages =>
            rw [Rows.page_same (SameUnder.of_confined (Table.confined_eraseAll owned _) hsame)]
            exact hpage
        | evidence => exact hpage
  | @commit p =>
      left
      cases state.current <;> exact hpage
  | reserve => exact Or.inl hpage
  | persist => exact Or.inl hpage
  | finish => exact Or.inl hpage
  | complete => exact Or.inl hpage
  | record => exact Or.inl hpage
  | settle => exact Or.inl hpage
  | abandon => exact Or.inl hpage
  | supersede => exact Or.inl hpage
  | forget => exact Or.inl hpage

/-- A transaction dispatches for the pending build only. -/
theorem Transition.dispatches_kept
    (htransition : Transition wanted captures history rows state event left after)
    {build : BuildId} (hother : ∀ p ∈ state.pending, p.build ≠ build) :
    dispatches build (history ++ event.toList) = dispatches build history := by
  cases htransition with
  | record pending =>
      exact dispatches_silent history (if_neg (hother _ pending))
  | settle pending =>
      exact dispatches_silent history (if_neg (hother _ pending))
  | reserve => exact dispatches_silent history rfl
  | commit => exact dispatches_silent history rfl
  | abandon => exact dispatches_silent history rfl
  | supersede => exact dispatches_silent history rfl
  | persist => rw [Option.toList_none, List.append_nil]
  | stage => rw [Option.toList_none, List.append_nil]
  | finish => rw [Option.toList_none, List.append_nil]
  | complete => rw [Option.toList_none, List.append_nil]
  | remove => rw [Option.toList_none, List.append_nil]
  | forget => rw [Option.toList_none, List.append_nil]

/-- The row of a retired generation is stored. -/
def Rows.Retires (rows : Rows) (retired : RetiredGeneration) : Prop :=
  ∃ value, rows.retired[be64 retired.generation.sequence]? = some value ∧
    retiredFormat.decode value = some retired

theorem Rows.retires_retire {rows : Rows} {retired found : RetiredGeneration}
    (hfound : (rows.retire retired).Retires found) : found = retired ∨ rows.Retires found := by
  obtain ⟨value, hvalue, hdecode⟩ := hfound
  rw [Rows.retire, Table.get_insert] at hvalue
  split at hvalue
  · obtain rfl := Option.some.inj hvalue
    rw [Json.Format.decode_print] at hdecode
    exact Or.inl (Option.some.inj hdecode).symm
  · exact Or.inr ⟨value, hvalue, hdecode⟩

/-- Why a generation may be retired: a later one took its place, nothing of it was in
flight, or it was superseded. -/
inductive State.MayRetire (state : State) : RetiredGeneration → Prop
  | replaced {g : Generation} (current : state.current = some g) :
      State.MayRetire state ⟨g, true, none⟩
  | abandoned {p : PendingGeneration} (pending : state.pending = some p)
      (idle : p.inFlight = none) : State.MayRetire state ⟨p.generation, p.created, none⟩
  | superseded {p : PendingGeneration} (pending : state.pending = some p) :
      State.MayRetire state ⟨p.generation, p.created, some p⟩

/-- A stored retired row was stored before, or the transaction retired it and
dispatched nothing. -/
theorem Transition.retires_before
    (htransition : Transition wanted captures history rows state event left after)
    {retired : RetiredGeneration} (hretires : left.Retires retired) :
    rows.Retires retired ∨ state.MayRetire retired ∧ ∀ build,
      dispatches build (history ++ event.toList) = dispatches build history := by
  cases htransition with
  | commit =>
      cases hcurrent : state.current with
      | none =>
          rw [hcurrent] at hretires
          exact Or.inl hretires
      | some old =>
          rw [hcurrent] at hretires
          rcases Rows.retires_retire hretires with rfl | hstored
          · exact Or.inr ⟨.replaced hcurrent, fun _ => dispatches_silent history rfl⟩
          · exact Or.inl hstored
  | abandon pending idle =>
      rcases Rows.retires_retire hretires with rfl | hstored
      · exact Or.inr ⟨.abandoned pending idle, fun _ => dispatches_silent history rfl⟩
      · exact Or.inl hstored
  | supersede pending =>
      rcases Rows.retires_retire hretires with rfl | hstored
      · exact Or.inr ⟨.superseded pending, fun _ => dispatches_silent history rfl⟩
      · exact Or.inl hstored
  | remove definition =>
      cases definition <;> exact Or.inl hretires
  | forget removable =>
      obtain ⟨value, hvalue, hdecode⟩ := hretires
      rw [Table.get_erase] at hvalue
      split at hvalue
      · cases hvalue
      · exact Or.inl ⟨value, hvalue, hdecode⟩
  | reserve => exact Or.inl hretires
  | persist => exact Or.inl hretires
  | stage => exact Or.inl hretires
  | finish => exact Or.inl hretires
  | complete => exact Or.inl hretires
  | record => exact Or.inl hretires
  | settle => exact Or.inl hretires

/-- A build leaves the header with a retired row. -/
theorem Transition.names_after
    (htransition : Transition wanted captures history rows state event left after)
    {build : BuildId} (hnames : state.Names build) :
    after.Names build ∨ left.retired[be64 build.sequence]? ≠ none := by
  have hupdate : ∀ {p next : PendingGeneration}, state.pending = some p → next.build = p.build →
      State.Names { state with pending := some next } build := by
    intro p next hpending hbuild
    rcases hnames with ⟨found, hfound, hsame⟩ | hcurrent
    · obtain rfl := Option.some.inj (hpending.symm.trans hfound)
      exact Or.inl ⟨next, rfl, hbuild.trans hsame⟩
    · exact Or.inr hcurrent
  have hretire : ∀ retired : RetiredGeneration, retired.generation.build = build →
      (rows.retire retired).retired[be64 build.sequence]? ≠ none := by
    rintro retired rfl
    rw [Rows.retire]
    simp [Generation.build]
  have hrelease : ∀ {p : PendingGeneration}, state.pending = some p → ∀ retired : RetiredGeneration,
      retired.generation = p.generation → State.Names { state with pending := none } build ∨
        (rows.retire retired).retired[be64 build.sequence]? ≠ none := by
    intro p hpending retired hgeneration
    rcases hnames with ⟨found, hfound, hsame⟩ | hcurrent
    · obtain rfl := Option.some.inj (hpending.symm.trans hfound)
      exact Or.inr (hretire retired ((congrArg Generation.build hgeneration).trans hsame))
    · exact Or.inl (Or.inr hcurrent)
  cases htransition with
  | reserve captured fresh idle =>
      rcases hnames with ⟨found, hfound, -⟩ | hcurrent
      · rw [idle] at hfound
        cases hfound
      · exact Or.inl (Or.inr hcurrent)
  | stage pending => exact Or.inl (hupdate pending (by rfl))
  | finish pending => exact Or.inl (hupdate pending (by rfl))
  | complete pending => exact Or.inl (hupdate pending (by rfl))
  | record pending => exact Or.inl (hupdate pending (by rfl))
  | settle pending inFlight result =>
      exact Or.inl (hupdate pending (Dispatched.settled_build result))
  | @commit p revision pending =>
      rcases hnames with ⟨found, hfound, hsame⟩ | ⟨g, hg, hsame⟩
      · obtain rfl := Option.some.inj (pending.symm.trans hfound)
        exact Or.inl (Or.inr ⟨p.generation, rfl, hsame⟩)
      · right
        rw [Option.mem_def] at hg
        rw [hg]
        exact hretire _ hsame
  | abandon pending => exact hrelease pending _ rfl
  | supersede pending => exact hrelease pending _ rfl
  | persist => exact Or.inl hnames
  | remove => exact Or.inl hnames
  | forget => exact Or.inl hnames

/-- The generation that is served after a transaction was served before, or its build
was complete, and nothing was dispatched for it. -/
theorem Transition.current_before (hconsistent : Consistent history rows state)
    (htransition : Transition wanted captures history rows state event left after) {g : Generation}
    (hcurrent : after.current = some g) :
    dispatches g.build (history ++ event.toList) = dispatches g.build history ∧
      (state.current = some g ∨ ∃ p ∈ state.pending, p.generation = g ∧ p.inFlight = none ∧
        p.created = true ∧ p.uploadedPages = p.generation.pageCount) := by
  have hother : state.current = some g → ∀ p ∈ state.pending, p.build ≠ g.build := by
    intro hserved p hp hsame
    have hlt := hconsistent.numbered.ordered g hserved p hp
    rw [← show p.generation.sequence = g.sequence from congrArg BuildId.sequence hsame] at hlt
    exact absurd hlt (UInt64.lt_irrefl _)
  have hkept : state.current = some g →
      dispatches g.build (history ++ event.toList) = dispatches g.build history :=
    fun hserved => htransition.dispatches_kept (hother hserved)
  cases htransition with
  | @commit p revision pending fresh idle sealed created uploaded =>
      obtain rfl := Option.some.inj hcurrent
      exact ⟨dispatches_silent history rfl, Or.inr ⟨p, pending, rfl, idle, created, uploaded⟩⟩
  | _ => exact ⟨hkept hcurrent, Or.inl hcurrent⟩

/-- A dispatch is recorded for the pending build. -/
theorem Transition.recorded_names {build : BuildId} {operation : PendingOperation}
    {revision : UInt64} (htransition : Transition wanted captures history rows state
      (some (.recorded build operation revision)) left after) : state.Names build := by
  cases htransition with
  | record pending => exact Or.inl ⟨_, pending, rfl⟩

end Transitions

/-! ## Progress of a build -/

namespace World

variable {world : World} {build : BuildId}

/-- How far the log of a build got. -/
def progress (world : World) (build : BuildId) : Progress :=
  (replay (dispatches build world.history)).getD Progress.start

theorem Sound.replay_eq (hsound : world.Sound) (build : BuildId) :
    replay (dispatches build world.history) = some (world.progress build) := by
  obtain ⟨state, -, hconsistent⟩ := hsound.header
  obtain ⟨progress, hprogress⟩ := hconsistent.dispatched.replays build
  rw [World.progress, hprogress]
  rfl

theorem progress_of_dispatches {next : World}
    (hsame : dispatches build next.history = dispatches build world.history) :
    next.progress build = world.progress build := by
  rw [World.progress, hsame, ← World.progress]

/-- The progress of the pending build is that of its header. -/
theorem Sound.progress_pending (hsound : world.Sound) {state : State}
    (hstate : readState world.db = .ok state) {p : PendingGeneration} (hp : p ∈ state.pending) :
    world.progress p.build = p.progress := by
  obtain ⟨found, hfound, hconsistent⟩ := hsound.header
  obtain rfl : state = found := Except.ok.inj (hstate.symm.trans hfound)
  have hreplay := hsound.replay_eq p.build
  rw [hconsistent.dispatched.pending p hp] at hreplay
  exact (Option.some.inj hreplay).symm

/-- One more entry in the log of a build is one step of its progress. -/
theorem Sound.progress_next (hsound : world.Sound) {next : World} (hnext : next.Sound)
    {event : Event} (hhistory : next.history = world.history ++ [event]) {entry : Entry}
    (hentry : event.dispatch build = some entry) :
    (world.progress build).next entry = some (next.progress build) := by
  have hreplay := hnext.replay_eq build
  rw [hhistory, dispatches_concat, hentry] at hreplay
  obtain ⟨progress, hprogress, hstep⟩ := replay_concat.mp hreplay
  rw [hsound.replay_eq build] at hprogress
  rw [Option.some.inj hprogress]
  exact hstep

/-- The progress of a dead build stays. -/
theorem Sound.progress_dead (hsound : world.Sound) (hdead : DeadIn world.db build.sequence)
    (action : Control.Action) : (world.step action).progress build = world.progress build := by
  apply progress_of_dispatches
  rcases (step_stepOk hsound.calls action).cases with hquiet | ⟨event, hpublishes⟩
  · rw [hquiet.history]
  · obtain ⟨found, hfound, hdead⟩ := hdead
    obtain ⟨state, after, hstate, -, htransition⟩ := hsound.published hpublishes
    obtain rfl : state = found := Except.ok.inj (hstate.symm.trans hfound)
    rw [hpublishes.history]
    refine htransition.dispatches_kept fun p hp hsame => ?_
    exact hdead.not_pending p hp (congrArg BuildId.sequence hsame)

end World

/-! ## One transaction -/

/-- What one transaction does to the header, the saved pages and the progress of the
builds. -/
structure Moved (world next : World) (state after : State) : Prop where
  header : readState next.db = .ok after
  staged : LiveStaged next.db.rows after
  dead : ∀ sequence, Dead state sequence → Dead after sequence
  pages : ∀ sequence number page, world.db.rows.page sequence number = some page →
    next.db.rows.page sequence number = some page ∨ Dead after sequence
  names : ∀ build, after.Names build →
    (state.Names build ∧ SameUnder build.sequence world.db.rows.pages next.db.rows.pages) ∨
      next.progress build = Progress.start

theorem Moved.refl {world : World} {state : State} (hstate : readState world.db = .ok state)
    (hstaged : LiveStaged world.db.rows state) : Moved world world state state :=
  ⟨hstate, hstaged, fun _ hdead => hdead, fun _ _ _ hpage => Or.inl hpage,
    fun _ hnames => Or.inl ⟨hnames, fun _ => rfl⟩⟩

theorem World.Sound.moved {world : World} (hsound : world.Sound) {state : State}
    (hstate : readState world.db = .ok state) (hstaged : LiveStaged world.db.rows state)
    (action : Control.Action) : ∃ after, Moved world (world.step action) state after := by
  rcases (step_stepOk hsound.calls action).cases with hquiet | ⟨event, hpublishes⟩
  · have hkeeps := hquiet.corpus.keeps
    refine ⟨state, hkeeps.readState_eq.trans hstate, ?_, fun _ hdead => hdead, ?_, ?_⟩
    · rw [hkeeps.rows_eq]
      exact hstaged
    · rw [hkeeps.rows_eq]
      exact fun _ _ _ hpage => Or.inl hpage
    · rw [hkeeps.rows_eq]
      exact fun _ hnames => Or.inl ⟨hnames, fun _ => rfl⟩
  · obtain ⟨found, hfound, hconsistent⟩ := hsound.header
    obtain rfl : state = found := Except.ok.inj (hstate.symm.trans hfound)
    obtain ⟨before, after, hbefore, hafter, htransition⟩ := hsound.published hpublishes
    obtain rfl : state = before := Except.ok.inj (hstate.symm.trans hbefore)
    have hnext := hsound.step action
    refine ⟨after, hafter, hstaged.step hconsistent htransition, ?_, ?_, ?_⟩
    · exact fun _ hdead => hdead.step htransition
    · intro sequence number page hpage
      rcases htransition.page_kept hconsistent hstaged hpage with hkept | hdead
      · exact Or.inl hkept
      · exact Or.inr (hdead.step htransition)
    · intro build hnames
      rcases htransition.names_before hconsistent hnames with hbefore | ⟨p, hp, rfl, hstart⟩
      · exact Or.inl hbefore
      · exact Or.inr ((hnext.progress_pending hafter hp).trans hstart)

namespace World

variable {world : World} {state after : State} {build : BuildId}

/-- Every page of the served generation was settled as applied, and nothing is in
flight. -/
def Served (world : World) (state : State) : Prop :=
  ∀ g ∈ state.current, ∃ revision, world.progress g.build = ⟨g.pageCount.toNat + 1, none, revision⟩

theorem Sound.served_step (hsound : world.Sound) (hstate : readState world.db = .ok state)
    (hserved : world.Served state) (action : Control.Action)
    (hafter : readState (world.step action).db = .ok after) : (world.step action).Served after := by
  intro g hg
  rcases (step_stepOk hsound.calls action).cases with hquiet | ⟨event, hpublishes⟩
  · rw [hquiet.corpus.keeps.readState_eq, hstate] at hafter
    obtain rfl := Except.ok.inj hafter
    rw [progress_of_dispatches (congrArg (dispatches g.build) hquiet.history)]
    exact hserved g hg
  · obtain ⟨found, hfound, hconsistent⟩ := hsound.header
    obtain rfl : state = found := Except.ok.inj (hstate.symm.trans hfound)
    obtain ⟨before, later, hbefore, hlater, htransition⟩ := hsound.published hpublishes
    obtain rfl : state = before := Except.ok.inj (hstate.symm.trans hbefore)
    obtain rfl : after = later := Except.ok.inj (hafter.symm.trans hlater)
    obtain ⟨hsilent, horigin⟩ := htransition.current_before hconsistent hg
    rw [← hpublishes.history] at hsilent
    rw [progress_of_dispatches hsilent]
    rcases horigin with hcurrent | ⟨p, hp, rfl, hidle, hcreated, huploaded⟩
    · exact hserved g hcurrent
    · have hprogress := hsound.progress_pending hstate hp
      refine ⟨p.operationRevision.toNat, hprogress.trans ?_⟩
      simp [PendingGeneration.progress, hidle, hcreated, huploaded]

theorem Sound.retires_before (hsound : world.Sound) (hstate : readState world.db = .ok state)
    (action : Control.Action) {retired : RetiredGeneration}
    (hretires : (world.step action).db.rows.Retires retired) :
    world.db.rows.Retires retired ∨ state.MayRetire retired ∧
      ∀ build, (world.step action).progress build = world.progress build := by
  rcases (step_stepOk hsound.calls action).cases with hquiet | ⟨event, hpublishes⟩
  · rw [hquiet.corpus.keeps.rows_eq] at hretires
    exact Or.inl hretires
  · obtain ⟨before, later, hbefore, -, htransition⟩ := hsound.published hpublishes
    obtain rfl : state = before := Except.ok.inj (hstate.symm.trans hbefore)
    rcases htransition.retires_before hretires with hstored | ⟨hmay, hsilent⟩
    · exact Or.inl hstored
    · refine Or.inr ⟨hmay, fun build => progress_of_dispatches ?_⟩
      rw [hpublishes.history]
      exact hsilent build

theorem Sound.names_after (hsound : world.Sound) (hstate : readState world.db = .ok state)
    (action : Control.Action) (hafter : readState (world.step action).db = .ok after)
    (hnames : state.Names build) :
    after.Names build ∨ (world.step action).db.rows.retired[be64 build.sequence]? ≠ none := by
  rcases (step_stepOk hsound.calls action).cases with hquiet | ⟨event, hpublishes⟩
  · rw [hquiet.corpus.keeps.readState_eq, hstate] at hafter
    obtain rfl := Except.ok.inj hafter
    exact Or.inl hnames
  · obtain ⟨before, later, hbefore, hlater, htransition⟩ := hsound.published hpublishes
    obtain rfl : state = before := Except.ok.inj (hstate.symm.trans hbefore)
    obtain rfl : after = later := Except.ok.inj (hafter.symm.trans hlater)
    exact htransition.names_after hnames

/-- A build with entries in its log was reserved. -/
theorem Sound.reserved_of_progress (hsound : world.Sound)
    (hprogress : world.progress build ≠ Progress.start) :
    ∃ p sources, Event.reserved p sources ∈ world.history ∧ p.build = build := by
  obtain ⟨state, -, hconsistent⟩ := hsound.header
  by_contra hnone
  apply hprogress
  rw [World.progress, hconsistent.dispatched.unreserved build]
  · rfl
  · intro p sources hmem hsame
    exact hnone ⟨p, sources, hmem, hsame⟩

/-- A stored retired row names a generation of the root that left the header. -/
theorem Sound.retired_row (hsound : world.Sound) (hstate : readState world.db = .ok state)
    {sequence : UInt64} (hrow : world.db.rows.retired[be64 sequence]? ≠ none) :
    ∃ retired, world.db.rows.Retires retired ∧ retired.generation.sequence = sequence ∧
      state.namespaceId = some retired.generation.namespaceId ∧ Dead state sequence := by
  obtain ⟨found, hfound, hconsistent⟩ := hsound.header
  obtain rfl : state = found := Except.ok.inj (hstate.symm.trans hfound)
  obtain ⟨value, hvalue⟩ := Option.ne_none_iff_exists'.mp hrow
  obtain ⟨retired, rfl, hid, hnamespace, -, hbound, hcurrent, hpending, -⟩ :=
    hconsistent.retired.accepted _ _ hvalue
  obtain rfl := be64_injective hid
  exact ⟨retired, ⟨_, hvalue, Json.Format.decode_print _ _⟩, rfl, hnamespace, hbound, hcurrent,
    hpending⟩

/-- A build with a step in flight is live or its retired row is stored. -/
theorem Sound.named_of_inFlight (hsound : world.Sound) (hstate : readState world.db = .ok state)
    (hinFlight : (world.progress build).inFlight ≠ none) :
    state.Names build ∨ world.db.rows.retired[be64 build.sequence]? ≠ none := by
  obtain ⟨found, hfound, hconsistent⟩ := hsound.header
  obtain rfl : state = found := Except.ok.inj (hstate.symm.trans hfound)
  rcases hconsistent.dispatched.idle build _ (hsound.replay_eq build) hinFlight with
    hpending | ⟨p, hmem, rfl⟩
  · exact Or.inl (Or.inl hpending)
  · right
    rw [show p.build.sequence = p.generation.sequence from rfl, hconsistent.retired.kept p hmem]
    exact Option.some_ne_none _

/-- Two builds of one sequence that the root reserved or retired are one build. -/
theorem Sound.build_eq (hsound : world.Sound) (hstate : readState world.db = .ok state)
    (hprogress : world.progress build ≠ Progress.start) {generation : Generation}
    (hnamespace : state.namespaceId = some generation.namespaceId)
    (hsequence : generation.sequence = build.sequence) : generation.build = build := by
  obtain ⟨found, hfound, hconsistent⟩ := hsound.header
  obtain rfl : state = found := Except.ok.inj (hstate.symm.trans hfound)
  obtain ⟨p, sources, hmem, rfl⟩ := hsound.reserved_of_progress hprogress
  have hreserved := (hconsistent.numbered.reserved p sources hmem).1
  rw [hnamespace] at hreserved
  exact congrArg₂ BuildId.mk (Option.some.inj hreserved) hsequence

end World

/-! ## Silent commands -/

/-- A command that neither records nor settles a dispatch. -/
def Command.Silent : Command → Prop
  | .recordDispatch _ _ => False
  | .finishDispatch _ _ _ _ => False
  | _ => True

namespace World

variable {world : World} {build : BuildId}

theorem logged_silent {ε α : Type} (outcome : Outcome ε α) (event : α → Event)
    (hsilent : ∀ value, (event value).dispatch build = none) :
    dispatches build (world.logged outcome event).history = dispatches build world.history := by
  simp only [World.logged]
  cases outcome.written with
  | none => rw [Option.toList_none, List.map_nil, List.append_nil]
  | some value => exact dispatches_silent _ (hsilent value)

theorem startBuild_silent (env : Env) (capture : CorpusCapture) (random : Option (Octets 16)) :
    dispatches build (world.startBuild env capture random).1.history =
      dispatches build world.history := by
  cases hbuild : buildNamespace capture random with
  | error error => simp only [startBuild, hbuild]
  | ok namespaceId =>
      have hhistory : (world.startBuild env capture random).1.history =
          (world.logged (editDatabase env world.db (reserveEdit capture namespaceId))
            fun pending => .reserved pending capture.sources).history := by
        simp only [startBuild, hbuild]
        split
        · rfl
        · split <;> rfl
      rw [hhistory]
      exact logged_silent _ _ fun _ => rfl

theorem advance_silent (env : Env) (index : Nat) (call : Call) :
    (world.advance env index call).1.history = world.history := by
  cases call with
  | persisting pending groups =>
      cases groups with
      | nil => rfl
      | cons chunk rest =>
          simp only [advance]
          split <;> rfl
  | confirming pending => rfl
  | scanning retired tables =>
      cases tables with
      | nil => rfl
      | cons definition tables =>
          simp only [advance]
          split <;> rfl
  | removing retired definition tables keys =>
      simp only [advance]
      split <;> rfl

/-- Only records and settlements dispatch. -/
theorem step_silent {action : Control.Action} (hsilent : action.command.Silent) :
    (world.step action).progress build = world.progress build := by
  apply progress_of_dispatches
  obtain ⟨env, command⟩ := action
  cases command with
  | captureCorpus =>
      simp only [World.step, World.execute, World.captureCorpus]
      split <;> rfl
  | startBuild index random =>
      simp only [World.step, World.execute]
      cases world.captures[index]? with
      | none => rfl
      | some capture => exact startBuild_silent env capture random
  | commitGeneration pending =>
      have hhistory : (world.commitGeneration env pending).1.history =
          (world.logged (Control.commitGeneration env world.db pending) .committed).history := by
        simp only [World.commitGeneration]
        split <;> rfl
      simp only [World.step, World.execute, hhistory]
      exact logged_silent _ _ fun _ => rfl
  | recordDispatch => exact absurd hsilent id
  | finishDispatch => exact absurd hsilent id
  | abandonBuild => exact logged_silent _ _ fun _ => rfl
  | supersedeUnknownBuild => exact logged_silent _ _ fun _ => rfl
  | finishRetirement retired =>
      simp only [World.step, World.execute, World.finishRetirement]
      split <;> rfl
  | advance index =>
      simp only [World.step, World.execute]
      cases world.calls[index]? with
      | none => rfl
      | some call => rw [advance_silent]
  | stagePage => rfl
  | finishSource => rfl
  | completeCapture => rfl
  | abort => rfl
  | crash => rfl
  | commitCurrentSource => rfl
  | removeCurrentSources => rfl
  | admitSelection => rfl
  | writeSettings => rfl
  | commitPreparation => rfl

/-! ## Records and settlements -/

/-- A record is durable for the pending build, or leaves the store as it was. -/
theorem step_record (world : World) (env : Env) (pending : PendingGeneration)
    (operation : PendingOperation) :
    ((world.step ⟨env, .recordDispatch pending operation⟩).history = world.history ∧
      ∃ error, world.reply ⟨env, .recordDispatch pending operation⟩ = .dispatched (.error error)) ∨
    ∃ revision, (world.step ⟨env, .recordDispatch pending operation⟩).history =
        world.history ++ [.recorded pending.build operation revision] ∧
      (world.reply ⟨env, .recordDispatch pending operation⟩ = .dispatched (.ok revision) ∨
        ∃ error, world.reply ⟨env, .recordDispatch pending operation⟩ =
          .dispatched (.error error)) ∧
      ∃ state, readState world.db = .ok state ∧ state.Names pending.build := by
  have heffect : ∀ state left after revision,
      recordDispatchEdit pending operation world.db.openPublication state =
        .ok (left, after, revision) → Effect world.captures world.history world.db state
          (some (.recorded pending.build operation revision)) left after :=
    fun _ _ _ _ hedit => recordDispatchEdit_effect hedit
  have hmoves : _ ∨ ∃ revision,
      (editDatabase env world.db (recordDispatchEdit pending operation)).written =
        some revision ∧ _ :=
    editDatabase_moves (fun revision => some (.recorded pending.build operation revision)) heffect
  rcases hmoves with ⟨hwritten, -, error, hreply⟩ | ⟨revision, hwritten, hmoves, hreply⟩
  · left
    refine ⟨?_, error, congrArg Reply.dispatched hreply⟩
    simp [World.step, World.execute, World.singleLogged, World.logged, recordDispatch, hwritten]
  · right
    refine ⟨revision, ?_, ?_, ?_⟩
    · simp [World.step, World.execute, World.singleLogged, World.logged, recordDispatch, hwritten]
    · rcases hreply with hreply | hreply
      · exact Or.inl (congrArg Reply.dispatched hreply)
      · exact Or.inr ⟨_, congrArg Reply.dispatched hreply⟩
    · obtain ⟨state, after, hstate, htransition, -⟩ := hmoves.moved
      exact ⟨state, hstate, htransition.recorded_names⟩

/-- A settlement is durable, or leaves the log as it was. -/
theorem step_finish (world : World) (env : Env) (pending : PendingGeneration)
    (operation : PendingOperation) (revision : UInt64) (applied : Bool) :
    (world.step ⟨env, .finishDispatch pending operation revision applied⟩).history =
        world.history ∨
      (world.step ⟨env, .finishDispatch pending operation revision applied⟩).history =
        world.history ++ [.settled pending.build operation revision applied] := by
  simp only [World.step, World.execute, World.singleLogged, World.logged]
  cases (finishDispatch env world.db pending operation revision applied).written with
  | none =>
      left
      rw [Option.toList_none, List.map_nil, List.append_nil]
  | some value => exact Or.inr rfl

/-! ## Cleanups in flight -/

/-- The row that a call cleans up. -/
def Cleans (retired : RetiredGeneration) : Call → Prop
  | .scanning found _ => found = retired
  | .removing found _ _ _ => found = retired
  | _ => False

theorem cleans_drop {retired : RetiredGeneration} {calls : List Call} {index : Nat} {call : Call}
    (hmem : call ∈ calls.eraseIdx index) (hcleans : Cleans retired call) :
    ∃ call ∈ calls, Cleans retired call :=
  ⟨call, List.mem_of_mem_eraseIdx hmem, hcleans⟩

theorem cleans_replace {retired : RetiredGeneration} {calls : List Call} {index : Nat}
    {call found next : Call} (hfound : calls[index]? = some found)
    (hmem : call ∈ calls.set index next) (hcleans : Cleans retired call)
    (hsame : Cleans retired next → Cleans retired found) :
    ∃ call ∈ calls, Cleans retired call := by
  rcases List.mem_or_eq_of_mem_set hmem with hold | rfl
  · exact ⟨call, hold, hcleans⟩
  · exact ⟨found, List.mem_of_getElem? hfound, hsame hcleans⟩

/-- A call that goes on cleans up what it did before. -/
theorem advance_cleans {retired : RetiredGeneration} (env : Env) {index : Nat} {found call : Call}
    (hfound : world.calls[index]? = some found)
    (hmem : call ∈ (world.advance env index found).1.calls) (hcleans : Cleans retired call) :
    ∃ call ∈ world.calls, Cleans retired call := by
  cases found with
  | persisting pending groups =>
      cases groups with
      | nil => exact cleans_drop hmem hcleans
      | cons chunk rest =>
          simp only [advance] at hmem
          split at hmem
          · exact cleans_drop hmem hcleans
          · exact cleans_drop hmem hcleans
          · exact cleans_replace hfound hmem hcleans (by exact id)
  | confirming pending => exact cleans_drop hmem hcleans
  | scanning other tables =>
      cases tables with
      | nil => exact cleans_drop hmem hcleans
      | cons definition tables =>
          simp only [advance] at hmem
          split at hmem
          · exact cleans_drop hmem hcleans
          · exact cleans_replace hfound hmem hcleans (by exact id)
          · exact cleans_replace hfound hmem hcleans (by exact id)
  | removing other definition tables keys =>
      simp only [advance] at hmem
      split at hmem
      · exact cleans_drop hmem hcleans
      · exact cleans_replace hfound hmem hcleans (by exact id)

/-- Cleanups begin with `finishRetirement` only. -/
theorem step_cleans {retired : RetiredGeneration} {action : Control.Action} {call : Call}
    (hmem : call ∈ (world.step action).calls) (hcleans : Cleans retired call) :
    (∃ call ∈ world.calls, Cleans retired call) ∨ action.command = .finishRetirement retired := by
  have hpush : ∀ {next : Call}, ¬ Cleans retired next → call ∈ world.calls ++ [next] →
      ∃ call ∈ world.calls, Cleans retired call := by
    intro next hother hmem
    rcases List.mem_append.mp hmem with hold | hnew
    · exact ⟨call, hold, hcleans⟩
    · rw [List.mem_singleton.mp hnew] at hcleans
      exact absurd hcleans hother
  obtain ⟨env, command⟩ := action
  cases command with
  | captureCorpus =>
      simp only [World.step, World.execute, World.captureCorpus] at hmem
      split at hmem <;> exact Or.inl ⟨call, hmem, hcleans⟩
  | startBuild index random =>
      left
      simp only [World.step, World.execute] at hmem
      cases hcapture : world.captures[index]? with
      | none =>
          rw [hcapture] at hmem
          exact ⟨call, hmem, hcleans⟩
      | some capture =>
          simp only [hcapture, World.startBuild] at hmem
          split at hmem
          · exact ⟨call, hmem, hcleans⟩
          · split at hmem
            · exact ⟨call, hmem, hcleans⟩
            · split at hmem
              · exact ⟨call, hmem, hcleans⟩
              · exact hpush id hmem
  | commitGeneration pending =>
      left
      simp only [World.step, World.execute, World.commitGeneration] at hmem
      split at hmem
      · exact hpush id hmem
      · exact ⟨call, hmem, hcleans⟩
  | finishRetirement found =>
      simp only [World.step, World.execute, World.finishRetirement] at hmem
      split at hmem
      · exact Or.inl ⟨call, hmem, hcleans⟩
      · rcases List.mem_append.mp hmem with hold | hnew
        · exact Or.inl ⟨call, hold, hcleans⟩
        · rw [List.mem_singleton.mp hnew] at hcleans
          have hsame : found = retired := hcleans
          exact Or.inr (congrArg Command.finishRetirement hsame)
  | advance index =>
      left
      simp only [World.step, World.execute] at hmem
      cases hfound : world.calls[index]? with
      | none =>
          rw [hfound] at hmem
          exact ⟨call, hmem, hcleans⟩
      | some found =>
          rw [hfound] at hmem
          exact advance_cleans env hfound hmem hcleans
  | abort index => exact Or.inl (cleans_drop hmem hcleans)
  | crash => cases hmem
  | recordDispatch => exact Or.inl ⟨call, hmem, hcleans⟩
  | finishDispatch => exact Or.inl ⟨call, hmem, hcleans⟩
  | stagePage => exact Or.inl ⟨call, hmem, hcleans⟩
  | finishSource => exact Or.inl ⟨call, hmem, hcleans⟩
  | completeCapture => exact Or.inl ⟨call, hmem, hcleans⟩
  | abandonBuild => exact Or.inl ⟨call, hmem, hcleans⟩
  | supersedeUnknownBuild => exact Or.inl ⟨call, hmem, hcleans⟩
  | commitCurrentSource => exact Or.inl ⟨call, hmem, hcleans⟩
  | removeCurrentSources => exact Or.inl ⟨call, hmem, hcleans⟩
  | admitSelection => exact Or.inl ⟨call, hmem, hcleans⟩
  | writeSettings => exact Or.inl ⟨call, hmem, hcleans⟩
  | commitPreparation => exact Or.inl ⟨call, hmem, hcleans⟩

/-- The row of a dead sequence stays, unless a cleanup forgets exactly the stored row. -/
theorem Sound.row_kept (hsound : world.Sound) {sequence : UInt64}
    (hdead : DeadIn world.db sequence) (action : Control.Action) :
    (world.step action).db.rows.retired[be64 sequence]? = world.db.rows.retired[be64 sequence]? ∨
      ∃ retired, retired.generation.sequence = sequence ∧ world.db.rows.Retires retired ∧
        retired.unresolvedBuild = none ∧ ∃ call ∈ world.calls, Cleans retired call := by
  by_cases hfinishes : Finishes sequence world action
  · obtain ⟨index, retired, hcommand, hcall, rfl⟩ := hfinishes
    obtain ⟨env, command⟩ := action
    obtain rfl : command = .advance index := hcommand
    have hmem : Call.scanning retired [] ∈ world.calls := List.mem_of_getElem? hcall
    have hsettled : retired.unresolvedBuild = none := hsound.calls _ hmem
    have hdb : (world.step ⟨env, .advance index⟩).db =
        (editDatabase env world.db (forgetRetiredEdit retired)).db := by
      simp only [World.step, World.execute, hcall]
      rfl
    rw [hdb]
    rcases editDatabase_cases env world.db (forgetRetiredEdit retired) with ⟨-, hsame, -⟩ | hdurable
    · exact Or.inl (by rw [hsame])
    · obtain ⟨state, left, after, value, -, hwrite, -⟩ := hdurable
      simp only [forgetRetiredEdit, bind_eq_ok] at hwrite
      obtain ⟨_, hguard, -⟩ := hwrite
      have hretired := (checkRetired_removable hsettled hguard).stored
      exact Or.inr ⟨retired, rfl, hretired, hsettled, _, hmem, rfl⟩
  · exact Or.inl (step_retired hdead hfinishes)

end World

end EliotSearch.Control
