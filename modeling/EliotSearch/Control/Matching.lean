import EliotSearch.Control.Installation

/-!
# Matching captures

A capture compares one counter with the builds that the header names.  Since
the counter moves with every change of the corpus, equal counters mean equal
corpora, however long the run between the two captures was.
-/

namespace EliotSearch.Control

open EliotSearch.Library
open EliotSearch.Library.Results

/-! ## Preparing a view -/

/-- What `prepare_view` does with a capture. -/
inductive ViewPlan where
  | supersede (pending : PendingGeneration)
  | abandon (pending : PendingGeneration)
  | serve (generation : Generation)
  | resume (pending : PendingGeneration)
  | build
  deriving DecidableEq

/-- The branches of `prepare_view`; after a supersession the corpus is captured
again, and nothing but a resumed or new build is served. -/
def planView (superseded : Bool) (capture : CorpusCapture) : ViewPlan :=
  match capture.pending with
  | some pending =>
      if superseded = false ∧ pending.inFlight.isSome = true then .supersede pending
      else if pending.captureComplete = false ∨ ¬ capture.PendingMatches then .abandon pending
      else .resume pending
  | none =>
      match capture.current with
      | some generation =>
          if capture.CurrentMatches ∧ superseded = false then .serve generation else .build
      | none => .build

theorem planView_serve {superseded : Bool} {capture : CorpusCapture} {generation : Generation}
    (hplan : planView superseded capture = .serve generation) :
    capture.current = some generation ∧ generation.wantedRevision = capture.wantedRevision := by
  unfold planView at hplan
  cases hpending : capture.pending with
  | some pending =>
      rw [hpending] at hplan
      simp only at hplan
      split at hplan
      · cases hplan
      · split at hplan <;> cases hplan
  | none =>
      cases hcurrent : capture.current with
      | none =>
          rw [hpending, hcurrent] at hplan
          cases hplan
      | some current =>
          rw [hpending, hcurrent] at hplan
          simp only at hplan
          split at hplan
          · rename_i hmatches
            obtain rfl := ViewPlan.serve.inj hplan
            obtain ⟨⟨found, hfound, hrevision⟩, -⟩ := hmatches
            rw [hcurrent] at hfound
            obtain rfl := Option.some.inj hfound
            exact ⟨rfl, hrevision⟩
          · cases hplan

theorem planView_resume {superseded : Bool} {capture : CorpusCapture} {pending : PendingGeneration}
    (hplan : planView superseded capture = .resume pending) :
    capture.pending = some pending ∧ pending.captureComplete = true ∧ capture.PendingMatches := by
  unfold planView at hplan
  cases hpending : capture.pending with
  | some found =>
      rw [hpending] at hplan
      simp only at hplan
      split at hplan
      · cases hplan
      · split at hplan
        · cases hplan
        · rename_i hmatches
          obtain rfl := ViewPlan.resume.inj hplan
          simpa using hmatches
  | none =>
      rw [hpending] at hplan
      simp only at hplan
      split at hplan
      · split at hplan <;> cases hplan
      · cases hplan

/-! ## Saved corpora of matching captures -/

namespace World

variable {world : World} {env : Env} {capture : CorpusCapture}

/-- A build that was reserved for the captured revision was reserved for the
captured sources. -/
theorem Sound.sources_eq (hsound : world.Sound) (hcapture : CaptureOf world.db capture)
    {generation : Generation} {sources : List CapturedSource}
    (hreserved : Reserved world.history generation sources)
    (hrevision : generation.wantedRevision = capture.wantedRevision) :
    sources = capture.sources := by
  obtain ⟨reserved, hmem, hsame⟩ := hreserved
  have hcorpus := hsound.reserved reserved sources hmem
  rw [← hsame.wanted_eq, hrevision] at hcorpus
  exact liveCorpus_unique (hcorpus.live (corpusStore_version hcapture.revision)) hcapture.live

/-- A current generation that matches has the captured corpus saved. -/
theorem Sound.current_saved (hsound : world.Sound) (hcapture : CaptureOf world.db capture)
    {generation : Generation} (hcurrent : capture.current = some generation)
    (hrevision : generation.wantedRevision = capture.wantedRevision) :
    SavedCorpus world.db.rows.sources generation.sequence capture.sources := by
  obtain ⟨state, hstate, hconsistent⟩ := hsound.header
  obtain rfl : state = capture.state := Except.ok.inj (hstate.symm.trans hcapture.header)
  rw [hcapture.current_eq] at hcurrent
  obtain ⟨sources, hreserved, hsaved⟩ := hconsistent.filled.current generation hcurrent
  rw [← hsound.sources_eq hcapture hreserved hrevision]
  exact hsaved

/-- A sealed pending build that matches has the captured corpus saved. -/
theorem Sound.pending_saved (hsound : world.Sound) (hcapture : CaptureOf world.db capture)
    {pending : PendingGeneration} (hpending : capture.pending = some pending)
    (hrevision : pending.generation.wantedRevision = capture.wantedRevision)
    (hsealed : pending.captureComplete = true) :
    SavedCorpus world.db.rows.sources pending.generation.sequence capture.sources := by
  obtain ⟨state, hstate, hconsistent⟩ := hsound.header
  obtain rfl : state = capture.state := Except.ok.inj (hstate.symm.trans hcapture.header)
  rw [hcapture.pending_eq] at hpending
  obtain ⟨sources, hreserved, hfilling⟩ := hconsistent.filled.pending pending hpending
  obtain ⟨hadmissible, hcount, -⟩ := hconsistent.tallied.of_reserved hreserved
  rw [(hconsistent.progressed.pending pending hpending).finished hsealed, hcount] at hfilling
  rw [← hsound.sources_eq hcapture hreserved hrevision]
  exact hfilling.saved hadmissible.distinct

end World

/-- In every run, captures of one wanted revision have one list of sources, even
without comparing their namespaces.  A capture that matches the current
generation finds its own corpus saved under it, and one that matches a sealed
pending build finds it saved under that build; these are the two ways a view is
prepared without staging a corpus. -/
theorem matching_captures {db : Db} (habsent : db.PublicationAbsent) (actions : List Action) :
    (∀ first ∈ ((World.init db).run actions).captures,
      ∀ second ∈ ((World.init db).run actions).captures,
        first.wantedRevision = second.wantedRevision → first.sources = second.sources) ∧
    ∀ env capture, captureCorpus env ((World.init db).run actions).db = .ok capture →
      (∀ earlier ∈ ((World.init db).run actions).captures,
        earlier.wantedRevision = capture.wantedRevision → earlier.sources = capture.sources) ∧
      LiveCorpus (corpusStore.content ((World.init db).run actions).db) capture.sources ∧
      (capture.CurrentMatches → ∃ generation, capture.current = some generation ∧
        SavedCorpus ((World.init db).run actions).db.rows.sources generation.sequence
          capture.sources) ∧
      (capture.PendingMatches → ∃ pending, capture.pending = some pending ∧
        (pending.captureComplete = true →
          SavedCorpus ((World.init db).run actions).db.rows.sources pending.generation.sequence
            capture.sources)) ∧
      (∀ superseded generation, planView superseded capture = .serve generation →
        SavedCorpus ((World.init db).run actions).db.rows.sources generation.sequence
          capture.sources) ∧
      ∀ superseded pending, planView superseded capture = .resume pending →
        SavedCorpus ((World.init db).run actions).db.rows.sources pending.generation.sequence
          capture.sources := by
  have hsound := World.sound_run habsent actions
  refine ⟨hsound.agree, ?_⟩
  intro env capture hsuccess
  have hcapture := captureCorpus_eq_ok hsuccess
  have hnow := corpusStore_version hcapture.revision
  refine ⟨?_, hcapture.live, ?_, ?_, ?_, ?_⟩
  · intro earlier hmem hrevision
    have hcorpus := (hsound.captured earlier hmem).2
    rw [hrevision] at hcorpus
    exact liveCorpus_unique (hcorpus.live hnow) hcapture.live
  · rintro ⟨generation, hcurrent, hrevision⟩
    exact ⟨generation, hcurrent, hsound.current_saved hcapture hcurrent hrevision⟩
  · rintro ⟨pending, hpending, -, hrevision, -⟩
    exact ⟨pending, hpending, hsound.pending_saved hcapture hpending hrevision⟩
  · intro superseded generation hplan
    obtain ⟨hcurrent, hrevision⟩ := planView_serve hplan
    exact hsound.current_saved hcapture hcurrent hrevision
  · intro superseded pending hplan
    obtain ⟨hpending, hsealed, found, hfound, -, hrevision, -⟩ := planView_resume hplan
    obtain rfl : pending = found := Option.some.inj (hpending.symm.trans hfound)
    exact hsound.pending_saved hcapture hpending hrevision hsealed

namespace Sample

/-- The pair that the sample run captures. -/
def row : CapturedSource where
  source := source
  preparation := {
    sourceNamespaceId := namespaceId
    sourceId
    settingsRevision := 1
    settings := .default
    outcomeRevision := 1
    outcome := some ⟨1, 1, object, .default, .gap .binaryContent⟩
  }

/-- A capture taken while the header is the given one. -/
def capture (state : State) : CorpusCapture where
  sources := [row]
  current := state.current
  pending := state.pending
  sourceNamespace := some namespaceId
  wantedRevision := 3
  state

def servedState : State :=
  ⟨1, some namespaceId, 1, 1, some created.generation, none⟩

def sealedState : State :=
  ⟨1, some namespaceId, 1, 0, none,
    some { reserved with captureComplete := true, completedSources := 1 }⟩

end Sample

/-- After the sample commit a new capture matches the current generation, and
before it one matches the sealed build. -/
theorem matching_captures_sample :
    (∃ generation, (Sample.capture Sample.servedState).current = some generation ∧
      SavedCorpus ((World.init Db.empty).run (Sample.uploaded ++ [Sample.commit])).db.rows.sources
        generation.sequence [Sample.row]) ∧
    (∃ pending, (Sample.capture Sample.sealedState).pending = some pending ∧
      SavedCorpus ((World.init Db.empty).run Sample.sealed).db.rows.sources
        pending.generation.sequence [Sample.row]) ∧
    SavedCorpus ((World.init Db.empty).run Sample.sealed).db.rows.sources 1 [Sample.row] := by
  have hserved := (matching_captures Sample.absent (Sample.uploaded ++ [Sample.commit])).2
    Env.quiet (Sample.capture Sample.servedState) (by decide +kernel)
  have hsealed := (matching_captures Sample.absent Sample.sealed).2
    Env.quiet (Sample.capture Sample.sealedState) (by decide +kernel)
  obtain ⟨pending, hpending, hsaved⟩ := hsealed.2.2.2.1 (by decide)
  obtain rfl := Option.some.inj hpending
  exact ⟨hserved.2.2.1 (by decide), ⟨_, hpending, hsaved rfl⟩,
    hsealed.2.2.2.2.2 false
      { Sample.reserved with captureComplete := true, completedSources := 1 } (by decide +kernel)⟩

end EliotSearch.Control
