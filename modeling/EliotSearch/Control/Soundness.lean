import EliotSearch.Control.DispatchLog
import EliotSearch.Control.SavedRows

/-!
# Sound worlds

The invariant of every run: the stored header is consistent with the rows and
the log, every capture ever taken and every reservation is a snapshot of the
corpus at its wanted revision, and calls in flight only carry what they were
given.  It holds before the publication catalogue exists and survives every
action.
-/

namespace EliotSearch.Control

open EliotSearch.Library
open EliotSearch.Library.Results
open EliotSearch.Library.Words

/-- The header, the rows and the log agree. -/
structure Consistent (history : List Event) (rows : Rows) (state : State) : Prop where
  numbered : Numbered history state
  progressed : Progressed state
  retired : Retired history rows state
  tallied : Tallied history
  filled : Filled history rows state
  dispatched : Dispatched history state

namespace Consistent

variable {wanted : Option ℕ} {captures : List CorpusCapture} {history : List Event}
  {rows left : Rows} {state after : State} {event : Option Event}

theorem initial {rows : Rows} (hempty : ∀ table, rows.get table = ∅) (hretired : rows.retired = ∅) :
    Consistent [] rows State.default where
  numbered := Numbered.initial
  progressed := Progressed.initial
  retired := Retired.initial hretired
  tallied := fun _ _ hnone => (nomatch hnone)
  filled := Filled.initial hempty
  dispatched := Dispatched.initial

theorem step (hconsistent : Consistent history rows state)
    (hcaptures : ∀ capture ∈ captures, Admissible capture.sources)
    (htransition : Transition wanted captures history rows state event left after) :
    Consistent (history ++ event.toList) left after where
  numbered := hconsistent.numbered.step htransition
  progressed := hconsistent.progressed.step htransition
  retired := hconsistent.retired.step hconsistent.numbered htransition
  tallied := hconsistent.tallied.step hcaptures htransition
  filled := hconsistent.filled.step hconsistent.numbered hconsistent.progressed
    hconsistent.retired hconsistent.tallied htransition
  dispatched := hconsistent.dispatched.step hconsistent.numbered hconsistent.progressed htransition

/-- A header with a reserved build has a namespace. -/
theorem named_of_pending (hconsistent : Consistent history rows state) {p : PendingGeneration}
    (hpending : state.pending = some p) : state.namespaceId ≠ none := by
  obtain ⟨-, sources, hreserved⟩ := hconsistent.numbered.pending p hpending
  rw [(hconsistent.numbered.of_reserved hreserved).1]
  exact Option.some_ne_none _

/-- Every transaction leaves a header with a namespace. -/
theorem named_after (hconsistent : Consistent history rows state)
    (htransition : Transition wanted captures history rows state event left after) :
    after.namespaceId ≠ none := by
  cases htransition with
  | reserve => exact Option.some_ne_none _
  | persist pending => exact hconsistent.named_of_pending pending
  | stage pending => exact hconsistent.named_of_pending pending
  | finish pending => exact hconsistent.named_of_pending pending
  | complete pending => exact hconsistent.named_of_pending pending
  | record pending => exact hconsistent.named_of_pending pending
  | settle pending => exact hconsistent.named_of_pending pending
  | commit pending => exact hconsistent.named_of_pending pending
  | abandon pending => exact hconsistent.named_of_pending pending
  | supersede pending => exact hconsistent.named_of_pending pending
  | remove definition keys removable => simp [removable.namespace_eq]
  | forget removable => simp [removable.namespace_eq]

/-- What the header reader checks on a generation. -/
theorem accepts (hconsistent : Consistent history rows state) {g : Generation}
    {sources : List CapturedSource} (hreserved : Reserved history g sources)
    (hmeasured : Measured g) : state.AcceptsGeneration g := by
  obtain ⟨hnamespace, hpositive, hbound⟩ := hconsistent.numbered.of_reserved hreserved
  obtain ⟨hadmissible, hsources, hgaps⟩ := hconsistent.tallied.of_reserved hreserved
  refine ⟨hnamespace.symm, hpositive, hbound, hsources ▸ hadmissible.bounded, ?_,
    hmeasured.points, UInt64.le_trans hmeasured.pages hmeasured.points⟩
  rw [UInt64.le_iff_toNat_le, hgaps, hsources]
  exact List.countP_le_length

/-- The counted sources of a build never exceed its source count. -/
theorem completed_le (hconsistent : Consistent history rows state) {p : PendingGeneration}
    (hpending : state.pending = some p) : p.completedSources ≤ p.generation.sourceCount := by
  obtain ⟨sources, hreserved, hfilling⟩ := hconsistent.filled.pending p hpending
  obtain ⟨-, hcount, -⟩ := hconsistent.tallied.of_reserved hreserved
  rw [UInt64.le_iff_toNat_le, ← hfilling.count, hcount]
  exact List.countP_le_length

/-- A consistent header is accepted by its own reader. -/
theorem readable (hconsistent : Consistent history rows state)
    (hnamed : state.namespaceId ≠ none) : state.Readable := by
  have hnumbered := hconsistent.numbered
  refine ⟨hnumbered.version, hnamed, ?_, ?_, ?_, hnumbered.present⟩
  · exact fun hzero => hnamed (hnumbered.named.mpr hzero)
  · intro g hg
    obtain ⟨sources, hreserved⟩ := hnumbered.current g hg
    exact hconsistent.accepts hreserved (hconsistent.progressed.current g hg)
  · intro p hp
    obtain ⟨-, sources, hreserved⟩ := hnumbered.pending p hp
    have hprogress := hconsistent.progressed.pending p hp
    refine ⟨hconsistent.accepts hreserved hprogress.measured, hconsistent.completed_le hp,
      hprogress.uploaded, hprogress.charged, ?_, hprogress.finished⟩
    intro g hg hsame
    have hlt := hnumbered.ordered g hg p hp
    rw [hsame] at hlt
    exact absurd hlt (UInt64.lt_irrefl _)

end Consistent

/-! ## Worlds -/

/-- The corpus had these sources when its wanted revision was the given one. -/
abbrev CorpusAt (db : Db) (revision : UInt64) (sources : List CapturedSource) : Prop :=
  corpusStore.Snapshot db revision.toNat fun content => LiveCorpus content sources

structure World.Sound (world : World) : Prop where
  header : ∃ state, readState world.db = .ok state ∧
    Consistent world.history world.db.rows state
  opened : world.db.PublicationAbsent ∨ world.db.Opened
  captured : ∀ capture ∈ world.captures, Admissible capture.sources ∧
    CorpusAt world.db capture.wantedRevision capture.sources
  agree : ∀ first ∈ world.captures, ∀ second ∈ world.captures,
    first.wantedRevision = second.wantedRevision → first.sources = second.sources
  reserved : ∀ p sources, Event.reserved p sources ∈ world.history →
    CorpusAt world.db p.generation.wantedRevision sources
  calls : CallsOk world

theorem CaptureOf.admissible {db : Db} {capture : CorpusCapture} (hcapture : CaptureOf db capture) :
    Admissible capture.sources where
  coherent := hcapture.coherent
  distinct := liveCorpus_ids_nodup hcapture.live
  bounded := hcapture.bounded

theorem CaptureOf.corpusAt {db : Db} {capture : CorpusCapture} (hcapture : CaptureOf db capture) :
    CorpusAt db capture.wantedRevision capture.sources :=
  Versioned.Snapshot.taken (corpusStore_version hcapture.revision) hcapture.live

/-- While the wanted revision is the captured one, the corpus is the captured one. -/
theorem CorpusAt.live {db : Db} {revision : UInt64} {sources : List CapturedSource}
    (hcorpus : CorpusAt db revision sources)
    (hrevision : corpusStore.version db = some revision.toNat) :
    LiveCorpus (corpusStore.content db) sources :=
  Versioned.Snapshot.fact hcorpus hrevision

/-- The log reserves only what was captured. -/
theorem Transition.reserved_capture {wanted : Option ℕ} {captures : List CorpusCapture}
    {history : List Event} {rows left : Rows} {state after : State} {p : PendingGeneration}
    {sources : List CapturedSource}
    (htransition : Transition wanted captures history rows state (some (.reserved p sources))
      left after) :
    ∃ capture ∈ captures, capture.sources = sources ∧
      capture.wantedRevision = p.generation.wantedRevision := by
  cases htransition with
  | reserve captured => exact ⟨_, captured, rfl, rfl⟩

theorem Db.PublicationAbsent.readState_eq {db : Db} (habsent : db.PublicationAbsent) :
    readState db = .ok State.default := by
  rw [readState, habsent.header]

theorem Db.PublicationAbsent.rows_empty {db : Db} (habsent : db.PublicationAbsent) :
    (∀ table, db.rows.get table = ∅) ∧ db.rows.retired = ∅ := by
  refine ⟨fun table => ?_, ?_⟩
  · cases table with
    | sources => simp [Db.rows, Rows.get, habsent.sources]
    | pages => simp [Db.rows, Rows.get, habsent.pages]
    | evidence => simp [Db.rows, Rows.get, habsent.evidence]
  · simp [Db.rows, habsent.retired]

theorem KeepsPublication.opened {before after : Db} (hkeeps : KeepsPublication before after)
    (hopened : before.PublicationAbsent ∨ before.Opened) :
    after.PublicationAbsent ∨ after.Opened := by
  rcases hopened with habsent | hopened
  · exact Or.inl ⟨hkeeps.header.trans habsent.header, hkeeps.sources.trans habsent.sources,
      hkeeps.pages.trans habsent.pages, hkeeps.evidence.trans habsent.evidence,
      hkeeps.retired.trans habsent.retired⟩
  · refine Or.inr ⟨?_, ?_, ?_, ?_⟩
    · rw [hkeeps.sources]
      exact hopened.sources
    · rw [hkeeps.pages]
      exact hopened.pages
    · rw [hkeeps.evidence]
      exact hopened.evidence
    · rw [hkeeps.retired]
      exact hopened.retired

namespace World

variable {world next : World}

/-- Before the publication catalogue exists, every world is sound. -/
theorem sound_init {db : Db} (habsent : db.PublicationAbsent) : (World.init db).Sound where
  header := ⟨State.default, habsent.readState_eq,
    Consistent.initial habsent.rows_empty.1 habsent.rows_empty.2⟩
  opened := Or.inl habsent
  captured := fun _ hmem => absurd hmem List.not_mem_nil
  agree := fun _ hmem => absurd hmem List.not_mem_nil
  reserved := fun _ _ hmem => absurd hmem List.not_mem_nil
  calls := fun _ hmem => absurd hmem List.not_mem_nil

theorem Sound.quiet (hsound : world.Sound) (hquiet : Quiet world next) (hcalls : CallsOk next) :
    next.Sound := by
  obtain ⟨state, hstate, hconsistent⟩ := hsound.header
  have hkeeps := hquiet.corpus.keeps
  have hevolves := hquiet.corpus.evolves
  have hcaptured : ∀ capture ∈ world.captures, Admissible capture.sources ∧
      CorpusAt next.db capture.wantedRevision capture.sources := by
    intro capture hmem
    obtain ⟨hadmissible, hcorpus⟩ := hsound.captured capture hmem
    exact ⟨hadmissible, hcorpus.evolves hevolves⟩
  refine ⟨⟨state, hkeeps.readState_eq.trans hstate, ?_⟩, hkeeps.opened hsound.opened, ?_, ?_, ?_,
    hcalls⟩
  · rw [hquiet.history, hkeeps.rows_eq]
    exact hconsistent
  · rcases hquiet.captures with hsame | ⟨env, capture, hcapture, hdb, hadded⟩
    · rw [hsame]
      exact hcaptured
    · intro found hmem
      rw [hadded] at hmem
      rcases List.mem_append.mp hmem with hold | hnew
      · exact hcaptured found hold
      · obtain rfl := List.mem_singleton.mp hnew
        have htaken := captureCorpus_eq_ok hcapture
        rw [hdb]
        exact ⟨htaken.admissible, htaken.corpusAt⟩
  · rcases hquiet.captures with hsame | ⟨env, capture, hcapture, hdb, hadded⟩
    · rw [hsame]
      exact hsound.agree
    · have htaken := captureCorpus_eq_ok hcapture
      have hnow := corpusStore_version htaken.revision
      have hold : ∀ found ∈ world.captures, found.wantedRevision = capture.wantedRevision →
          found.sources = capture.sources := by
        intro found hmem hrevision
        have hcorpus := (hsound.captured found hmem).2
        rw [hrevision] at hcorpus
        exact liveCorpus_unique (hcorpus.live hnow) htaken.live
      intro first hfirst second hsecond hrevision
      rw [hadded] at hfirst hsecond
      rcases List.mem_append.mp hfirst with hfirstOld | hfirstNew
      · rcases List.mem_append.mp hsecond with hsecondOld | hsecondNew
        · exact hsound.agree first hfirstOld second hsecondOld hrevision
        · obtain rfl := List.mem_singleton.mp hsecondNew
          exact hold first hfirstOld hrevision
      · obtain rfl := List.mem_singleton.mp hfirstNew
        rcases List.mem_append.mp hsecond with hsecondOld | hsecondNew
        · exact (hold second hsecondOld hrevision.symm).symm
        · obtain rfl := List.mem_singleton.mp hsecondNew
          rfl
  · intro p sources hmem
    rw [hquiet.history] at hmem
    exact (hsound.reserved p sources hmem).evolves hevolves

theorem Sound.publishes {event : Option Event} (hsound : world.Sound)
    (hpublishes : Publishes world next event) (hcalls : CallsOk next) : next.Sound := by
  obtain ⟨state, hstate, hconsistent⟩ := hsound.header
  obtain ⟨found, after, hfound, htransition, hstored⟩ := hpublishes.moves.moved
  obtain rfl : state = found := Except.ok.inj (hstate.symm.trans hfound)
  have hevolves := hpublishes.moves.sources.evolves
  have hcaptures : ∀ capture ∈ world.captures, Admissible capture.sources :=
    fun capture hmem => (hsound.captured capture hmem).1
  have hafter := hconsistent.step hcaptures htransition
  have hreadable := hafter.readable (hconsistent.named_after htransition)
  refine ⟨⟨after, hstored hreadable, ?_⟩, Or.inr hpublishes.moves.opened.1, ?_, ?_, ?_, hcalls⟩
  · rw [hpublishes.history]
    exact hafter
  · intro capture hmem
    rw [hpublishes.captures] at hmem
    obtain ⟨hadmissible, hcorpus⟩ := hsound.captured capture hmem
    exact ⟨hadmissible, hcorpus.evolves hevolves⟩
  · rw [hpublishes.captures]
    exact hsound.agree
  · intro p sources hmem
    rw [hpublishes.history] at hmem
    rcases List.mem_append.mp hmem with hold | hnew
    · exact (hsound.reserved p sources hold).evolves hevolves
    · obtain rfl : event = some (.reserved p sources) := Option.mem_toList.mp hnew
      obtain ⟨capture, hcapture, rfl, hrevision⟩ := htransition.reserved_capture
      have hcorpus := (hsound.captured capture hcapture).2
      rw [hrevision] at hcorpus
      exact hcorpus.evolves hevolves

/-- Every action keeps a world sound. -/
theorem Sound.step (hsound : world.Sound) (action : Action) : (world.step action).Sound := by
  have hstep := step_stepOk hsound.calls action
  rcases hstep.cases with hquiet | ⟨event, hpublishes⟩
  · exact hsound.quiet hquiet hstep.calls
  · exact hsound.publishes hpublishes hstep.calls

/-- Every run from an absent publication catalogue is sound. -/
theorem sound_run {db : Db} (habsent : db.PublicationAbsent) (actions : List Action) :
    ((World.init db).run actions).Sound :=
  Runs.run_invariant (sound_init habsent) (fun _ action hsound => hsound.step action) actions

end World

end EliotSearch.Control
