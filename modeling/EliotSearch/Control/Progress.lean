import EliotSearch.Control.GenerationRows
import EliotSearch.Control.Numbering

/-!
# Progress of the pending build

The counters of a pending header move together: a page carries at least one
point, nothing is dispatched before the capture is sealed, and the operation in
flight is always the next one the build may dispatch.
-/

namespace EliotSearch.Control

open EliotSearch.Library
open EliotSearch.Library.Results
open EliotSearch.Library.Words

/-- The content dimensions of a generation. -/
structure Measured (g : Generation) : Prop where
  points : g.pointCount ≤ maxPoints
  pages : g.pageCount ≤ g.pointCount
  empty : g.pageCount = 0 ↔ g.pointCount = 0

/-- The relations between the fields of a pending header. -/
structure Progressing (p : PendingGeneration) : Prop where
  measured : Measured p.generation
  charged : p.stagedBytes ≤ maxStagedBytes
  uploaded : p.uploadedPages ≤ p.generation.pageCount
  unsealed : p.captureComplete = false →
    p.created = false ∧ p.inFlight = none ∧ p.operationRevision = 0
  finished : p.captureComplete = true → p.completedSources = p.generation.sourceCount
  uncreated : p.created = false → p.uploadedPages = 0
  next : ∀ operation ∈ p.inFlight, NextOperation p operation
  dispatched : p.inFlight ≠ none → p.operationRevision ≠ 0

structure Progressed (state : State) : Prop where
  pending : ∀ p ∈ state.pending, Progressing p
  current : ∀ g ∈ state.current, Measured g

theorem reservedBuild_progressing (capture : CorpusCapture) (state : State)
    (namespaceId : Octets 16) (sequence : UInt64) :
    Progressing (reservedBuild capture state namespaceId sequence) where
  measured := ⟨UInt64.zero_le, UInt64.le_refl _, Iff.rfl⟩
  charged := UInt64.zero_le
  uploaded := UInt64.le_refl _
  unsealed := fun _ => ⟨rfl, rfl, rfl⟩
  finished := nofun
  uncreated := fun _ => rfl
  next := nofun
  dispatched := fun hinFlight => absurd rfl hinFlight

/-- A staged page keeps the dimensions in step. -/
theorem Progressing.stage {p : PendingGeneration} {env : Env} {page : UploadPage} {bytes : Bytes}
    {stagedBytes pageCount : UInt64} {rows : Rows} {staging : Staging}
    (hprogress : Progressing p) (hunsealed : p.captureComplete = false)
    (hencoded : encodePage page = .ok bytes) (hcharged : stagedBytes ≤ maxStagedBytes)
    (hstaged : stagePoints env p.generation.sequence 2
      ⟨rows.sources, rows.evidence, p.generation.pointCount⟩ page.points = .ok staging)
    (hcounted : pageCount.toNat = p.generation.pageCount.toNat + 1) :
    Progressing { p with
      generation := { p.generation with pointCount := staging.pointCount, pageCount }
      stagedBytes } := by
  obtain ⟨_, _, hsize, _, _, _, _⟩ := encodePage_eq_ok hencoded
  have hpoints : page.points ≠ [] := (pageSize_eq_ok hsize).1
  have hpositive : 0 < page.points.length := List.length_pos_iff.mpr hpoints
  obtain ⟨hcount, hbound⟩ := stagePoints_count hstaged
  obtain ⟨hcreated, hinFlight, hrevision⟩ := hprogress.unsealed hunsealed
  have hpages := UInt64.le_iff_toNat_le.mp hprogress.measured.pages
  refine ⟨⟨hbound hpoints, ?_, ?_⟩, hcharged, ?_, fun _ => ⟨hcreated, hinFlight, hrevision⟩, ?_,
    hprogress.uncreated, ?_, fun hsome => absurd hinFlight hsome⟩
  · rw [UInt64.le_iff_toNat_le]
    simp only [hcount, hcounted]
    omega
  · rw [← UInt64.toNat_inj, ← UInt64.toNat_inj]
    simp only [hcount, hcounted, UInt64.toNat_zero]
    omega
  · rw [hprogress.uncreated hcreated]
    exact UInt64.zero_le
  · intro hsealed
    rw [hunsealed] at hsealed
    cases hsealed
  · intro operation hmem
    rw [hinFlight] at hmem
    cases hmem

/-- Settling keeps the uploaded pages within the page count. -/
theorem Progressing.settle {p after : PendingGeneration} {operation : PendingOperation}
    {applied : Bool} (hprogress : Progressing p) (hinFlight : p.inFlight = some operation)
    (hresult : settled p operation applied = .ok after) : Progressing after := by
  have hnext := hprogress.next operation hinFlight
  have hidle : ∀ found : PendingOperation, found ∈ (none : Option PendingOperation) → False :=
    nofun
  have hsealed : p.captureComplete = true := by
    by_contra hunsealed
    have hnone := (hprogress.unsealed (by simpa using hunsealed)).2.1
    rw [hinFlight] at hnone
    cases hnone
  have hvacuous : p.captureComplete = false → False := by simp [hsealed]
  cases applied with
  | false =>
      obtain rfl := Except.ok.inj hresult
      exact ⟨hprogress.measured, hprogress.charged, hprogress.uploaded,
        fun hunsealed => (hvacuous hunsealed).elim, hprogress.finished, hprogress.uncreated,
        fun _ hmem => (hidle _ hmem).elim, fun hsome => absurd rfl hsome⟩
  | true =>
      cases operation with
      | create =>
          obtain rfl := Except.ok.inj hresult
          exact ⟨hprogress.measured, hprogress.charged, hprogress.uploaded,
            fun hunsealed => (hvacuous hunsealed).elim, hprogress.finished,
            nofun, fun _ hmem => (hidle _ hmem).elim,
            fun hsome => absurd rfl hsome⟩
      | insert page =>
          simp only [settled, bind_eq_ok, okOr_eq_ok] at hresult
          obtain ⟨uploadedPages, hcount, hafter⟩ := hresult
          obtain rfl := Except.ok.inj hafter
          obtain ⟨hcreated, rfl, hpage⟩ := hnext
          refine ⟨hprogress.measured, hprogress.charged, ?_,
            fun hunsealed => (hvacuous hunsealed).elim, hprogress.finished, ?_,
            fun _ hmem => (hidle _ hmem).elim, fun hsome => absurd rfl hsome⟩
          · have hone := checkedAdd_eq_some.mp hcount
            rw [UInt64.lt_iff_toNat_lt] at hpage
            rw [UInt64.le_iff_toNat_le, hone]
            exact hpage
          · intro huncreated
            have huncreated : p.created = false := huncreated
            rw [hcreated] at huncreated
            cases huncreated

theorem settled_completedSources {p after : PendingGeneration} {operation : PendingOperation}
    {applied : Bool} (hsettled : settled p operation applied = .ok after) :
    after.completedSources = p.completedSources := by
  cases applied with
  | false =>
      obtain rfl := Except.ok.inj hsettled
      rfl
  | true =>
      cases operation with
      | create =>
          obtain rfl := Except.ok.inj hsettled
          rfl
      | insert page =>
          simp only [settled, bind_eq_ok] at hsettled
          obtain ⟨uploadedPages, _, hafter⟩ := hsettled
          obtain rfl := Except.ok.inj hafter
          rfl

namespace Progressed

variable {wanted : Option ℕ} {captures : List CorpusCapture} {history : List Event}
  {rows left : Rows} {state after : State} {event : Option Event}

theorem initial : Progressed State.default where
  pending := fun _ hnone => (nomatch hnone)
  current := fun _ hnone => (nomatch hnone)

theorem update (hprogressed : Progressed state) {p : PendingGeneration} (hp : Progressing p) :
    Progressed { state with pending := some p } where
  pending := fun _ hmem => Option.some.inj hmem ▸ hp
  current := hprogressed.current

theorem release (hprogressed : Progressed state) : Progressed { state with pending := none } where
  pending := fun _ hnone => (nomatch hnone)
  current := hprogressed.current

/-- Every publication transaction keeps the progress relations. -/
theorem step (hprogressed : Progressed state)
    (htransition : Transition wanted captures history rows state event left after) :
    Progressed after := by
  cases htransition with
  | reserve =>
      refine ⟨?_, hprogressed.current⟩
      intro p hp
      obtain rfl := Option.some.inj hp
      exact reservedBuild_progressing _ _ _ _
  | persist => exact hprogressed
  | stage pending unsealed idle encoded charged staged counted =>
      exact hprogressed.update
        ((hprogressed.pending _ pending).stage unsealed encoded charged staged counted)
  | finish pending unsealed =>
      have hp := hprogressed.pending _ pending
      refine hprogressed.update ⟨hp.measured, hp.charged, hp.uploaded, hp.unsealed, ?_,
        hp.uncreated, hp.next, hp.dispatched⟩
      intro hsealed
      have hsealed : _ = true := hsealed
      rw [unsealed] at hsealed
      cases hsealed
  | complete pending fresh finished =>
      have hp := hprogressed.pending _ pending
      refine hprogressed.update ⟨hp.measured, hp.charged, hp.uploaded, ?_, fun _ => finished,
        hp.uncreated, hp.next, hp.dispatched⟩
      intro hunsealed
      cases hunsealed
  | @record p operation revision pending fresh idle sealed next counted =>
      have hp := hprogressed.pending _ pending
      refine hprogressed.update ⟨hp.measured, hp.charged, hp.uploaded, ?_, hp.finished,
        hp.uncreated, ?_, ?_⟩
      · intro hunsealed
        have hunsealed : p.captureComplete = false := hunsealed
        rw [sealed] at hunsealed
        cases hunsealed
      · intro found hmem
        obtain rfl := Option.some.inj hmem
        exact next
      · rintro - rfl
        simp at counted
  | settle pending inFlight result =>
      exact hprogressed.update ((hprogressed.pending _ pending).settle inFlight result)
  | commit pending =>
      refine ⟨fun _ hnone => (nomatch hnone), ?_⟩
      intro g hg
      obtain rfl := Option.some.inj hg
      exact (hprogressed.pending _ pending).measured
  | abandon => exact hprogressed.release
  | supersede => exact hprogressed.release
  | remove => exact hprogressed
  | forget => exact hprogressed

end Progressed

end EliotSearch.Control
