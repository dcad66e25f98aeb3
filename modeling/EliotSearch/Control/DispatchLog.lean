import EliotSearch.Control.Progress
import EliotSearch.Library.SerialDispatch

/-!
# The dispatch log of a build

The records and settlements of one build, read off the ghost log, replay as
serial dispatch: creating the collection is step zero and inserting a page is
the step after its number.  The header of the pending build is the state its
replayed log has reached.
-/

namespace EliotSearch.Control

open EliotSearch.Library
open EliotSearch.Library.Results
open EliotSearch.Library.Words
open EliotSearch.Library.SerialDispatch

def PendingOperation.step : PendingOperation → ℕ
  | .create => 0
  | .insert page => page.toNat + 1

theorem PendingOperation.step_injective {left right : PendingOperation}
    (hstep : left.step = right.step) : left = right := by
  cases left with
  | create =>
      cases right with
      | create => rfl
      | insert page => cases hstep
  | insert page =>
      cases right with
      | create => cases hstep
      | insert other => rw [UInt64.toNat_inj.mp (Nat.succ.inj hstep)]

/-- What an event says about the operations of a build. -/
def Event.dispatch (build : BuildId) : Event → Option Entry
  | .recorded owner operation revision =>
      if owner = build then some (.recorded operation.step revision.toNat) else none
  | .settled owner operation revision applied =>
      if owner = build then some (.settled operation.step revision.toNat applied) else none
  | _ => none

def dispatches (build : BuildId) (history : List Event) : List Entry :=
  history.filterMap (Event.dispatch build)

/-- How far the header of a build says it got. -/
def PendingGeneration.progress (p : PendingGeneration) : Progress where
  applied := if p.created then p.uploadedPages.toNat + 1 else 0
  inFlight := p.inFlight.map fun operation => (operation.step, p.operationRevision.toNat)
  revision := p.operationRevision.toNat

/-- The builds of an event that closes one. -/
def Event.AllowedBy (before : List Event) : Event → Prop
  | .committed generation => ∃ revision,
      replay (dispatches generation.build before) =
        some ⟨generation.pageCount.toNat + 1, none, revision⟩
  | .abandoned build => ∃ progress, replay (dispatches build before) = some progress ∧
      progress.inFlight = none
  | _ => True

/-- The log of every build replays, the header agrees with the log of its
build, and only the pending build or a superseded one has a step in flight. -/
structure Dispatched (history : List Event) (state : State) : Prop where
  pending : ∀ p ∈ state.pending, replay (dispatches p.build history) = some p.progress
  unreserved : ∀ build,
    (∀ p sources, Event.reserved p sources ∈ history → p.build ≠ build) →
      dispatches build history = []
  replays : ∀ build, ∃ progress, replay (dispatches build history) = some progress
  idle : ∀ build progress, replay (dispatches build history) = some progress →
    progress.inFlight ≠ none →
      (∃ p ∈ state.pending, p.build = build) ∨
        ∃ p, Event.superseded p ∈ history ∧ p.build = build
  closed : Justified Event.AllowedBy history

theorem dispatches_append (build : BuildId) (first second : List Event) :
    dispatches build (first ++ second) = dispatches build first ++ dispatches build second :=
  List.filterMap_append

theorem dispatches_concat (build : BuildId) (history : List Event) (event : Event) :
    dispatches build (history ++ [event]) =
      dispatches build history ++ (event.dispatch build).toList := by
  rw [dispatches_append]
  cases hentry : event.dispatch build <;> simp [dispatches, hentry]

/-- An event that says nothing about a build leaves its log alone. -/
theorem dispatches_silent {build : BuildId} {event : Event} (history : List Event)
    (hsilent : event.dispatch build = none) :
    dispatches build (history ++ [event]) = dispatches build history := by
  rw [dispatches_concat, hsilent]
  exact List.append_nil _

namespace Dispatched

variable {wanted : Option ℕ} {captures : List CorpusCapture} {history : List Event}
  {rows left : Rows} {state after : State} {event : Option Event}

theorem initial : Dispatched [] State.default where
  pending := fun _ hnone => (nomatch hnone)
  unreserved := fun _ _ => rfl
  replays := fun _ => ⟨Progress.start, rfl⟩
  idle := fun build progress hreplay hinFlight => by
    obtain rfl : Progress.start = progress := Option.some.inj hreplay
    exact absurd rfl hinFlight
  closed := Justified.nil

theorem log_none (hdispatched : Dispatched history state) :
    Dispatched (history ++ (none : Option Event).toList) state := by
  simpa using hdispatched

/-- The header moves on without dispatching. -/
theorem update (hdispatched : Dispatched history state) {p next : PendingGeneration}
    (hpending : state.pending = some p) (hbuild : next.build = p.build)
    (hprogress : next.progress = p.progress) :
    Dispatched history { state with pending := some next } := by
  refine ⟨?_, hdispatched.unreserved, hdispatched.replays, ?_, hdispatched.closed⟩
  · intro found hfound
    obtain rfl := Option.some.inj hfound
    rw [hbuild, hprogress]
    exact hdispatched.pending p hpending
  · intro build progress hreplay hinFlight
    rcases hdispatched.idle build progress hreplay hinFlight with ⟨found, hfound, hsame⟩ | hclosed
    · obtain rfl : p = found := Option.some.inj (hpending.symm.trans hfound)
      exact Or.inl ⟨next, rfl, hbuild.trans hsame⟩
    · exact Or.inr hclosed

/-- An event that dispatches nothing extends the log. -/
theorem log (hdispatched : Dispatched history state) {last : Event}
    (hsilent : ∀ build, last.dispatch build = none) (hallowed : last.AllowedBy history) :
    Dispatched (history ++ [last]) state := by
  refine ⟨?_, ?_, ?_, ?_, hdispatched.closed.concat hallowed⟩
  · intro p hp
    rw [dispatches_silent history (hsilent _)]
    exact hdispatched.pending p hp
  · intro build hnone
    rw [dispatches_silent history (hsilent _)]
    exact hdispatched.unreserved build
      fun p sources hmem => hnone p sources (List.mem_append_left _ hmem)
  · intro build
    rw [dispatches_silent history (hsilent _)]
    exact hdispatched.replays build
  · intro build progress hreplay hinFlight
    rw [dispatches_silent history (hsilent _)] at hreplay
    rcases hdispatched.idle build progress hreplay hinFlight with hlive | ⟨p, hmem, hsame⟩
    · exact Or.inl hlive
    · exact Or.inr ⟨p, List.mem_append_left _ hmem, hsame⟩

/-- The pending build dispatches one entry. -/
theorem dispatch (hdispatched : Dispatched history state) {p next : PendingGeneration}
    {last : Event} {entry : Entry} (hpending : state.pending = some p)
    (hlogged : ∃ q sources, Event.reserved q sources ∈ history ∧ q.build = p.build)
    (hbuild : next.build = p.build)
    (hentry : ∀ build, last.dispatch build = if p.build = build then some entry else none)
    (hallowed : last.AllowedBy history) (hnext : p.progress.next entry = some next.progress) :
    Dispatched (history ++ [last]) { state with pending := some next } := by
  have hown : replay (dispatches p.build (history ++ [last])) = some next.progress := by
    rw [dispatches_concat, hentry, if_pos rfl]
    exact replay_concat.mpr ⟨p.progress, hdispatched.pending p hpending, hnext⟩
  have hother : ∀ build, p.build ≠ build →
      dispatches build (history ++ [last]) = dispatches build history := by
    intro build hne
    exact dispatches_silent history (by rw [hentry, if_neg hne])
  refine ⟨?_, ?_, ?_, ?_, hdispatched.closed.concat hallowed⟩
  · intro found hfound
    obtain rfl := Option.some.inj hfound
    rw [hbuild]
    exact hown
  · intro build hnone
    obtain ⟨q, sources, hmem, hsame⟩ := hlogged
    have hne : p.build ≠ build := hsame ▸ hnone q sources (List.mem_append_left _ hmem)
    rw [hother build hne]
    exact hdispatched.unreserved build
      fun r others hlater => hnone r others (List.mem_append_left _ hlater)
  · intro build
    by_cases hsame : p.build = build
    · exact ⟨next.progress, hsame ▸ hown⟩
    · rw [hother build hsame]
      exact hdispatched.replays build
  · intro build progress hreplay hinFlight
    by_cases hsame : p.build = build
    · exact Or.inl ⟨next, rfl, hbuild.trans hsame⟩
    · rw [hother build hsame] at hreplay
      rcases hdispatched.idle build progress hreplay hinFlight with ⟨found, hfound, heq⟩ | hclosed
      · obtain rfl : p = found := Option.some.inj (hpending.symm.trans hfound)
        exact absurd heq hsame
      · obtain ⟨q, hmem, heq⟩ := hclosed
        exact Or.inr ⟨q, List.mem_append_left _ hmem, heq⟩

/-- The pending build is closed: nothing of it is in flight, or it is superseded. -/
theorem close (hdispatched : Dispatched history state) {p : PendingGeneration} {last : Event}
    (hpending : state.pending = some p) (hreleased : after.pending = none)
    (hsilent : ∀ build, last.dispatch build = none) (hallowed : last.AllowedBy history)
    (hclosed : p.inFlight = none ∨ last = .superseded p) :
    Dispatched (history ++ [last]) after := by
  have hlogged := hdispatched.log hsilent hallowed
  refine ⟨?_, hlogged.unreserved, hlogged.replays, ?_, hlogged.closed⟩
  · rw [hreleased]
    exact fun _ hnone => (nomatch hnone)
  · intro build progress hreplay hinFlight
    rcases hlogged.idle build progress hreplay hinFlight with ⟨found, hfound, rfl⟩ | hsuperseded
    · obtain rfl : p = found := Option.some.inj (hpending.symm.trans hfound)
      rcases hclosed with hidle | rfl
      · rw [hlogged.pending p hpending] at hreplay
        obtain rfl := Option.some.inj hreplay
        exact absurd (by simp [PendingGeneration.progress, hidle]) hinFlight
      · exact Or.inr ⟨p, List.mem_append_right _ List.mem_cons_self, rfl⟩
    · exact Or.inr hsuperseded

/-- A recorded operation is the next step of its build. -/
theorem progress_record {p : PendingGeneration} {operation : PendingOperation} {revision : UInt64}
    (hidle : p.inFlight = none) (hnext : NextOperation p operation)
    (hcounted : revision.toNat = p.operationRevision.toNat + 1) :
    p.progress.next (.recorded operation.step revision.toNat) =
      some { p with operationRevision := revision, inFlight := some operation }.progress := by
  rw [next_recorded]
  refine ⟨by simp [PendingGeneration.progress, hidle], ?_, hcounted, rfl⟩
  cases operation with
  | create =>
      have hcreated : p.created = false := hnext
      simp [PendingGeneration.progress, PendingOperation.step, hcreated]
  | insert page =>
      obtain ⟨hcreated, rfl, -⟩ := hnext
      simp [PendingGeneration.progress, PendingOperation.step, hcreated]

/-- A settled operation is the step in flight of its build. -/
theorem progress_settle {p next : PendingGeneration} {operation : PendingOperation}
    {applied : Bool} (hinFlight : p.inFlight = some operation)
    (huncreated : p.created = false → p.uploadedPages = 0) (hnext : NextOperation p operation)
    (hresult : settled p operation applied = .ok next) :
    p.progress.next (.settled operation.step p.operationRevision.toNat applied) =
      some next.progress := by
  rw [next_settled]
  refine ⟨by simp [PendingGeneration.progress, hinFlight], ?_⟩
  cases applied with
  | false =>
      obtain rfl := Except.ok.inj hresult
      rfl
  | true =>
      cases operation with
      | create =>
          obtain rfl := Except.ok.inj hresult
          have hcreated : p.created = false := hnext
          simp [PendingGeneration.progress, hcreated, huncreated hcreated]
      | insert page =>
          simp only [settled, bind_eq_ok, okOr_eq_ok] at hresult
          obtain ⟨uploadedPages, hcount, hafter⟩ := hresult
          obtain rfl := Except.ok.inj hafter
          have hone : uploadedPages.toNat = p.uploadedPages.toNat + 1 := by
            simpa using checkedAdd_eq_some.mp hcount
          simp [PendingGeneration.progress, hnext.1, hone]

theorem settled_build {p next : PendingGeneration} {operation : PendingOperation} {applied : Bool}
    (hresult : settled p operation applied = .ok next) : next.build = p.build := by
  rw [PendingGeneration.build, Numbered.settled_generation hresult]
  rfl

/-- A live build was reserved under its own identity. -/
theorem reserved_build {generation : Generation} {sources : List CapturedSource}
    (hreserved : Reserved history generation sources) :
    ∃ q sources, Event.reserved q sources ∈ history ∧ q.build = generation.build := by
  obtain ⟨reserved, hmem, hsame⟩ := hreserved
  refine ⟨reserved, sources, hmem, ?_⟩
  rw [PendingGeneration.build, Generation.build, Generation.build, hsame.namespace_eq,
    hsame.sequence_eq]

/-- A new reservation opens a build without a log. -/
theorem reserve (hdispatched : Dispatched history state) {p : PendingGeneration}
    {sources : List CapturedSource} (hidle : state.pending = none)
    (hfresh : ∀ q others, Event.reserved q others ∈ history → q.build ≠ p.build)
    (hstart : p.progress = Progress.start) (hpending : after.pending = some p) :
    Dispatched (history ++ [.reserved p sources]) after := by
  have hlogged : Dispatched (history ++ [.reserved p sources]) state :=
    hdispatched.log (fun _ => rfl) trivial
  refine ⟨?_, hlogged.unreserved, hlogged.replays, ?_, hlogged.closed⟩
  · intro found hfound
    obtain rfl : p = found := Option.some.inj (hpending.symm.trans hfound)
    rw [dispatches_silent history rfl, hdispatched.unreserved p.build hfresh, hstart]
    rfl
  · intro build progress hreplay hinFlight
    rcases hlogged.idle build progress hreplay hinFlight with ⟨found, hfound, -⟩ | hclosed
    · rw [hidle] at hfound
      cases hfound
    · exact Or.inr hclosed

/-- Every publication transaction keeps the logs in step with the header. -/
theorem step (hdispatched : Dispatched history state) (hnumbered : Numbered history state)
    (hprogressed : Progressed state)
    (htransition : Transition wanted captures history rows state event left after) :
    Dispatched (history ++ event.toList) after := by
  have hlogged : ∀ p, state.pending = some p →
      ∃ q sources, Event.reserved q sources ∈ history ∧ q.build = p.build := by
    intro p hpending
    obtain ⟨-, sources, hreserved⟩ := hnumbered.pending p hpending
    exact reserved_build hreserved
  cases htransition with
  | @reserve capture namespaceId sequence captured fresh idle named next room =>
      refine hdispatched.reserve idle ?_ rfl rfl
      intro q others hmem hsame
      have hle := (hnumbered.reserved q others hmem).2.2
      have hsequence : q.generation.sequence = sequence := congrArg BuildId.sequence hsame
      rw [hsequence, UInt64.le_iff_toNat_le] at hle
      omega
  | persist => exact hdispatched.log_none
  | stage pending =>
      refine Dispatched.log_none (hdispatched.update pending ?_ ?_)
      · rfl
      · rfl
  | finish pending =>
      refine Dispatched.log_none (hdispatched.update pending ?_ ?_)
      · rfl
      · rfl
  | complete pending =>
      refine Dispatched.log_none (hdispatched.update pending ?_ ?_)
      · rfl
      · rfl
  | @record p operation revision pending fresh idle sealed next counted =>
      exact hdispatched.dispatch pending (hlogged p pending) rfl (fun _ => rfl) trivial
        (progress_record idle next counted)
  | @settle p next operation applied pending inFlight result =>
      have hprogress := hprogressed.pending p pending
      exact hdispatched.dispatch pending (hlogged p pending) (settled_build result) (fun _ => rfl)
        trivial (progress_settle inFlight hprogress.uncreated (hprogress.next operation inFlight)
          result)
  | @commit p revision pending fresh idle sealed created uploaded same counted =>
      refine hdispatched.close pending rfl (fun _ => rfl) ?_ (Or.inl idle)
      refine ⟨p.operationRevision.toNat, ?_⟩
      have hreplay := hdispatched.pending p pending
      rw [PendingGeneration.progress, idle, created, uploaded] at hreplay
      exact hreplay
  | @abandon p pending idle =>
      refine hdispatched.close pending rfl (fun _ => rfl) ?_ (Or.inl idle)
      exact ⟨p.progress, hdispatched.pending p pending, by simp [PendingGeneration.progress, idle]⟩
  | supersede pending => exact hdispatched.close pending rfl (fun _ => rfl) trivial (Or.inr rfl)
  | remove => exact hdispatched.log_none
  | forget => exact hdispatched.log_none

end Dispatched

end EliotSearch.Control
