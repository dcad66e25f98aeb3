import EliotSearch.Control.DeadSequences
import EliotSearch.Control.SavedPages

/-!
# Staged rows

Whatever the callers of staging pass and in whatever order, the pages of a live
build are numbered from zero, its points are numbered over the pages, and each
point has its evidence row and is the next unit of its source.
-/

namespace EliotSearch.Control

open EliotSearch.Library
open EliotSearch.Library.Results
open EliotSearch.Library.Words
open Verify

/-- The points saved under a sequence: each is placed with its evidence, belongs
to a saved source and is the next unit of it, and no other evidence is saved. -/
structure StagedPoints (sources evidence : Table) (sequence : UInt64) (points : List UploadPoint) :
    Prop where
  placed : ∀ (ordinal : Nat) point, points[ordinal]? = some point →
    PointPlaced evidence sequence ordinal point
  only : ∀ suffix value, evidence[key sequence suffix]? = some value →
    ∃ ordinal < points.length, suffix = be64 sequence ++ be64 (UInt64.ofNat ordinal)
  owned : ∀ point ∈ points, ∃ entry,
    entryAt sources sequence point.evidence.sourceId = some entry ∧ point.evidence.BoundTo entry
  units : ∀ id entry, entryAt sources sequence id = some entry → entry.id = id ∧
    (pointsOf id points).map (fun evidence => evidence.unit.toNat) =
      List.range entry.stagedUnits.toNat

namespace StagedPoints

variable {sources evidence : Table} {sequence : UInt64} {points : List UploadPoint}

theorem empty (hevidence : ∀ suffix, evidence[key sequence suffix]? = none)
    (hsources : ∀ suffix, sources[key sequence suffix]? = none) :
    StagedPoints sources evidence sequence [] where
  placed := by
    intro ordinal point hpoint
    cases hpoint
  only := by
    intro suffix value hvalue
    rw [hevidence] at hvalue
    cases hvalue
  owned := by
    intro point hmem
    cases hmem
  units := by
    intro id entry hentry
    rw [entryAt, hsources] at hentry
    cases hentry

theorem same {otherSources otherEvidence : Table}
    (hstaged : StagedPoints sources evidence sequence points)
    (hsources : SameUnder sequence sources otherSources)
    (hevidence : SameUnder sequence evidence otherEvidence) :
    StagedPoints otherSources otherEvidence sequence points where
  placed := by
    intro ordinal point hpoint
    obtain ⟨hid, value, hvalue, hdecode⟩ := hstaged.placed ordinal point hpoint
    exact ⟨hid, value, (hevidence _).trans hvalue, hdecode⟩
  only := fun suffix value hvalue =>
    hstaged.only suffix value ((hevidence suffix).symm.trans hvalue)
  owned := by
    intro point hmem
    rw [entryAt_same hsources]
    exact hstaged.owned point hmem
  units := by
    intro id entry hentry
    rw [entryAt_same hsources] at hentry
    exact hstaged.units id entry hentry

/-- A source without a row has no points. -/
theorem pointsOf_none (hstaged : StagedPoints sources evidence sequence points) {id : SourceId}
    (hnone : entryAt sources sequence id = none) : pointsOf id points = [] := by
  rw [pointsOf, List.filter_eq_nil_iff]
  intro found hmem hid
  obtain ⟨point, hpoint, rfl⟩ := List.mem_map.mp hmem
  obtain ⟨entry, hentry, -⟩ := hstaged.owned point hpoint
  rw [of_decide_eq_true hid, hnone] at hentry
  cases hentry

/-- A captured input is saved under a free key before any of its units. -/
theorem persist (hstaged : StagedPoints sources evidence sequence points)
    {captured : CapturedSource} {bytes : Bytes}
    (hfree : sources[key sequence captured.source.sourceId.bytes]? = none)
    (hdecode : decodeSource bytes = .ok ⟨captured, 0, false⟩) :
    StagedPoints (sources.insert (key sequence captured.source.sourceId.bytes) bytes) evidence
      sequence points := by
  have hnone : entryAt sources sequence captured.source.sourceId = none := by
    rw [entryAt, hfree]
    rfl
  refine ⟨hstaged.placed, hstaged.only, ?_, ?_⟩
  · intro point hmem
    obtain ⟨entry, hentry, hbound⟩ := hstaged.owned point hmem
    have hother : captured.source.sourceId ≠ point.evidence.sourceId := by
      intro hsame
      rw [← hsame, hnone] at hentry
      cases hentry
    exact ⟨entry, by rw [entryAt_insert hdecode, if_neg hother, hentry], hbound⟩
  · intro id entry hentry
    rw [entryAt_insert hdecode] at hentry
    split at hentry
    · rename_i hsame
      obtain rfl := Option.some.inj hentry
      rw [← hsame, hstaged.pointsOf_none hnone]
      exact ⟨rfl, rfl⟩
    · exact hstaged.units id entry hentry

/-- A point that its source accepts is bound to the source. -/
theorem bound_of_accepts {entry : SourceEntry} {found : PointEvidence}
    (haccepts : AcceptsPoint entry found) (hid : entry.id = found.sourceId) :
    found.BoundTo entry := by
  obtain ⟨-, hnamespace, hinput, -, hready⟩ := haccepts
  refine ⟨hid.symm, hnamespace, hinput, ?_⟩
  obtain ⟨outcome, houtcome, hresult⟩ := Option.map_eq_some_iff.mp hready
  rw [SourceEntry.artifact, houtcome, Option.bind_some, hresult]
  rfl

/-- A stored entry is rewritten with its source: bound points stay bound. -/
theorem owned_insert {entry next : SourceEntry} {id : SourceId} {bytes : Bytes}
    (hstored : entryAt sources sequence id = some entry) (hdecode : decodeSource bytes = .ok next)
    (hcaptured : next.captured = entry.captured) {found : PointEvidence}
    (hfound : ∃ saved, entryAt sources sequence found.sourceId = some saved ∧
      found.BoundTo saved) :
    ∃ saved, entryAt (sources.insert (key sequence id.bytes) bytes) sequence found.sourceId =
      some saved ∧ found.BoundTo saved := by
  obtain ⟨saved, hsaved, hbound⟩ := hfound
  rw [entryAt_insert hdecode]
  split
  · rename_i hsame
    rw [← hsame, hstored] at hsaved
    obtain rfl := Option.some.inj hsaved
    obtain ⟨hsource, hnamespace, hinput, hprepared⟩ := hbound
    refine ⟨next, rfl, ?_, ?_, ?_, ?_⟩
    · rw [hsource, SourceEntry.id, SourceEntry.id, hcaptured]
    · rw [hnamespace, SourceEntry.namespaceId, SourceEntry.namespaceId, hcaptured]
    · rw [hinput, SourceEntry.input, SourceEntry.input, hcaptured]
    · rw [hprepared, SourceEntry.artifact, SourceEntry.artifact, hcaptured]
  · exact ⟨saved, hsaved, hbound⟩

/-- A source is completed. -/
theorem finish (hstaged : StagedPoints sources evidence sequence points) {id : SourceId}
    {value bytes : Bytes} {entry : SourceEntry}
    (hvalue : sources[key sequence id.bytes]? = some value)
    (hentry : decodeSource value = .ok entry)
    (hencode : encodeSource { entry with complete := true } = .ok bytes) :
    StagedPoints (sources.insert (key sequence id.bytes) bytes) evidence sequence points := by
  have hstored := entryAt_eq_some hvalue hentry
  have hcoherent : entry.captured.Coherent := decodeSource_coherent hentry
  have hdecode := decodeSource_encodeSource hencode hcoherent
  refine ⟨hstaged.placed, hstaged.only, ?_, ?_⟩
  · exact fun point hmem => owned_insert hstored hdecode rfl (hstaged.owned point hmem)
  · intro other found hfound
    rw [entryAt_insert hdecode] at hfound
    split at hfound
    · rename_i hsame
      obtain rfl := Option.some.inj hfound
      exact hsame ▸ hstaged.units id entry hstored
    · exact hstaged.units other found hfound

/-- One more point is staged. -/
theorem point {staging next : Staging} {point : UploadPoint}
    (hstaged : StagedPoints staging.sources staging.evidence sequence points)
    (hcount : points.length = staging.pointCount.toNat) (hvalid : ValidEvidence point.evidence)
    (hpoint : PointStaged sequence staging point next) :
    StagedPoints next.sources next.evidence sequence (points ++ [point]) := by
  obtain ⟨value, entry, stagedUnits, bytes, hvalue, hentry, haccepts, hunits, hencode, hsources⟩ :=
    hpoint.row
  have hstored := entryAt_eq_some hvalue hentry
  obtain ⟨hid, hstagedUnits⟩ := hstaged.units _ _ hstored
  have hcoherent : entry.captured.Coherent := decodeSource_coherent hentry
  have hdecode := decodeSource_encodeSource hencode hcoherent
  have hword : UInt64.ofNat points.length = staging.pointCount := by
    rw [hcount, UInt64.ofNat_toNat]
  refine ⟨?_, ?_, ?_, ?_⟩
  · intro ordinal found hfound
    rw [hpoint.evidence_eq]
    rcases Nat.lt_or_ge ordinal points.length with hold | hlast
    · rw [List.getElem?_append_left hold] at hfound
      obtain ⟨hfoundId, saved, hsaved, hdecoded⟩ := hstaged.placed ordinal found hfound
      have hother : key sequence point.id.bytes ≠ key sequence found.id.bytes := by
        intro hsame
        rw [← hsame, hpoint.fresh] at hsaved
        cases hsaved
      exact ⟨hfoundId, saved, by rw [Table.get_insert_of_ne _ _ hother, hsaved], hdecoded⟩
    · rw [List.getElem?_append_right hlast] at hfound
      obtain ⟨hzero, rfl⟩ := List.getElem?_eq_some_iff.mp hfound
      have hordinal : ordinal = points.length := by
        rw [List.length_singleton] at hzero
        omega
      subst hordinal
      simp only [Nat.sub_self, List.getElem_cons_zero]
      refine ⟨?_, _, Table.get_insert_self _ _ _, decodeEvidence_encodeEvidence hvalid⟩
      rw [hword]
      exact hpoint.id_eq
  · intro suffix saved hsaved
    rw [hpoint.evidence_eq, Table.get_insert] at hsaved
    rw [List.length_append, List.length_singleton]
    split at hsaved
    · rename_i hsame
      refine ⟨points.length, Nat.lt_succ_self _, ?_⟩
      rw [hword, ← hpoint.id_eq]
      exact (key_injective hsame).2.symm
    · obtain ⟨ordinal, hordinal, hsuffix⟩ := hstaged.only suffix saved hsaved
      exact ⟨ordinal, Nat.lt_succ_of_lt hordinal, hsuffix⟩
  · intro found hmem
    rw [hsources]
    refine owned_insert hstored hdecode rfl ?_
    rcases List.mem_append.mp hmem with hold | hnew
    · exact hstaged.owned found hold
    · obtain rfl := List.mem_singleton.mp hnew
      exact ⟨entry, hstored, bound_of_accepts haccepts hid⟩
  · intro other found hfound
    rw [pointsOf_concat]
    rw [hsources, entryAt_insert hdecode] at hfound
    split at hfound
    · rename_i hsame
      obtain rfl := Option.some.inj hfound
      obtain rfl := hsame
      refine ⟨hid, ?_⟩
      have hunit : point.evidence.unit = entry.stagedUnits := haccepts.2.2.2.1
      rw [if_pos rfl, List.map_append, hstagedUnits, List.map_singleton, hunit, hunits,
        List.range_succ]
    · rename_i hother
      rw [if_neg hother, List.append_nil]
      exact hstaged.units other found hfound

/-- A page is staged point by point. -/
theorem page {env : Env} {site : Nat} {staging next : Staging} {page : List UploadPoint}
    (hstaged : StagedPoints staging.sources staging.evidence sequence points)
    (hcount : points.length = staging.pointCount.toNat)
    (hvalid : ∀ point ∈ page, ValidEvidence point.evidence)
    (hpage : stagePoints env sequence site staging page = .ok next) :
    StagedPoints next.sources next.evidence sequence (points ++ page) := by
  induction page generalizing site staging points with
  | nil =>
      obtain rfl := Except.ok.inj hpage
      rw [List.append_nil]
      exact hstaged
  | cons first page ih =>
      simp only [stagePoints, bind_eq_ok] at hpage
      obtain ⟨_, _, middle, hmiddle, hrest⟩ := hpage
      have hfirst := stagePoint_eq_ok hmiddle
      obtain ⟨hvalidFirst, hvalidRest⟩ := List.forall_mem_cons.mp hvalid
      have hnext := hstaged.point hcount hvalidFirst hfirst
      have hnextCount : (points ++ [first]).length = middle.pointCount.toNat := by
        rw [List.length_append, List.length_singleton, hcount, hfirst.counted]
      rw [List.append_cons]
      exact ih hnext hnextCount hvalidRest hrest

end StagedPoints

/-! ## Pages -/

/-- The rows of a live build: its pages are numbered from zero and its points
over the pages. -/
structure StagedBuild (rows : Rows) (g : Generation) (pages : List UploadPage) : Prop where
  pageCount : pages.length = g.pageCount.toNat
  saved : ∀ (number : Nat) page, pages[number]? = some page → ∃ value,
    rows.pages[key g.sequence (be64 (UInt64.ofNat number))]? = some value ∧
      decodePage value = .ok page
  only : ∀ suffix value, rows.pages[key g.sequence suffix]? = some value →
    ∃ number < pages.length, suffix = be64 (UInt64.ofNat number)
  pointCount : (pointsIn pages).length = g.pointCount.toNat
  points : StagedPoints rows.sources rows.evidence g.sequence (pointsIn pages)

namespace StagedBuild

variable {rows left : Rows} {g : Generation} {pages : List UploadPage}

theorem same (hstaged : StagedBuild rows g pages)
    (hsame : ∀ table, SameUnder g.sequence (rows.get table) (left.get table)) :
    StagedBuild left g pages where
  pageCount := hstaged.pageCount
  saved := by
    intro number page hpage
    obtain ⟨value, hvalue, hdecode⟩ := hstaged.saved number page hpage
    exact ⟨value, (hsame .pages _).trans hvalue, hdecode⟩
  only := fun suffix value hvalue =>
    hstaged.only suffix value ((hsame .pages suffix).symm.trans hvalue)
  pointCount := hstaged.pointCount
  points := hstaged.points.same (hsame .sources) (hsame .evidence)

theorem empty (hpages : g.pageCount = 0) (hpoints : g.pointCount = 0)
    (hfree : ∀ table suffix, (rows.get table)[key g.sequence suffix]? = none) :
    StagedBuild rows g [] where
  pageCount := by rw [hpages]; rfl
  saved := by
    intro number page hpage
    cases hpage
  only := by
    intro suffix value hvalue
    rw [show rows.pages = rows.get .pages from rfl, hfree .pages] at hvalue
    cases hvalue
  pointCount := by rw [hpoints]; rfl
  points := StagedPoints.empty (hfree .evidence) (hfree .sources)

/-- The next page is staged under the next number. -/
theorem page {env : Env} {page : UploadPage} {bytes : Bytes} {staging : Staging}
    {pageCount : UInt64} (hstaged : StagedBuild rows g pages)
    (hencoded : encodePage page = .ok bytes)
    (hpoints : stagePoints env g.sequence 2
      ⟨rows.sources, rows.evidence, g.pointCount⟩ page.points = .ok staging)
    (hcounted : pageCount.toNat = g.pageCount.toNat + 1) :
    StagedBuild { rows with
        sources := staging.sources
        evidence := staging.evidence
        pages := rows.pages.insert (key g.sequence (be64 g.pageCount)) bytes }
      { g with pointCount := staging.pointCount, pageCount } (pages ++ [page]) := by
  have hword : UInt64.ofNat pages.length = g.pageCount := by
    rw [hstaged.pageCount, UInt64.ofNat_toNat]
  obtain ⟨size, requestBytes, hsize, -⟩ := encodePage_eq_ok hencoded
  have hvalid := (pageSize_eq_ok hsize).2.2.2
  refine ⟨?_, ?_, ?_, ?_, ?_⟩
  · rw [List.length_append, List.length_singleton, hstaged.pageCount, hcounted]
  · intro number found hfound
    rcases Nat.lt_or_ge number pages.length with hold | hlast
    · rw [List.getElem?_append_left hold] at hfound
      obtain ⟨value, hvalue, hdecode⟩ := hstaged.saved number found hfound
      have hother : key g.sequence (be64 g.pageCount) ≠
          key g.sequence (be64 (UInt64.ofNat number)) := by
        intro hsame
        have hnumber := congrArg UInt64.toNat (be64_injective (key_injective hsame).2)
        have hbound := g.pageCount.toNat_lt
        rw [hstaged.pageCount] at hold
        rw [UInt64.toNat_ofNat_of_lt' (Nat.lt_trans hold hbound)] at hnumber
        omega
      exact ⟨value, by rw [Table.get_insert_of_ne _ _ hother, hvalue], hdecode⟩
    · rw [List.getElem?_append_right hlast] at hfound
      obtain ⟨hzero, rfl⟩ := List.getElem?_eq_some_iff.mp hfound
      have hnumber : number = pages.length := by
        rw [List.length_singleton] at hzero
        omega
      subst hnumber
      rw [hword]
      simp only [Nat.sub_self, List.getElem_cons_zero]
      exact ⟨bytes, Table.get_insert_self _ _ _, decodePage_encodePage hencoded⟩
  · intro suffix value hvalue
    rw [List.length_append, List.length_singleton]
    rw [Table.get_insert] at hvalue
    split at hvalue
    · rename_i hsame
      exact ⟨pages.length, Nat.lt_succ_self _, by rw [hword]; exact (key_injective hsame).2.symm⟩
    · obtain ⟨number, hnumber, hsuffix⟩ := hstaged.only suffix value hvalue
      exact ⟨number, Nat.lt_succ_of_lt hnumber, hsuffix⟩
  · rw [pointsIn_concat, List.length_append, hstaged.pointCount, (stagePoints_count hpoints).1]
  · rw [pointsIn_concat]
    exact hstaged.points.page hstaged.pointCount hvalid hpoints

end StagedBuild

/-! ## Live builds -/

/-- The pending build and the current generation are staged. -/
structure LiveStaged (rows : Rows) (state : State) : Prop where
  pending : ∀ p ∈ state.pending, ∃ pages, StagedBuild rows p.generation pages
  current : ∀ g ∈ state.current, ∃ pages, StagedBuild rows g pages

namespace LiveStaged

variable {wanted : Option ℕ} {captures : List CorpusCapture} {history : List Event}
  {rows left : Rows} {state after : State} {event : Option Event}

/-- The header of the pending build moves on with the same dimensions. -/
theorem update (hstaged : LiveStaged rows state) {p next : PendingGeneration}
    (hpending : state.pending = some p) (hgeneration : next.generation = p.generation) :
    LiveStaged rows { state with pending := some next } := by
  refine ⟨?_, hstaged.current⟩
  intro found hfound
  obtain rfl := Option.some.inj hfound
  rw [hgeneration]
  exact hstaged.pending p hpending

theorem release (hstaged : LiveStaged rows state) :
    LiveStaged rows { state with pending := none } := by
  refine ⟨?_, hstaged.current⟩
  intro found hfound
  cases hfound

/-- Rows of the live builds that stay keep them staged. -/
theorem same (hstaged : LiveStaged rows state)
    (hsame : ∀ sequence, (∃ p ∈ state.pending, p.generation.sequence = sequence) ∨
      (∃ g ∈ state.current, g.sequence = sequence) →
      ∀ table, SameUnder sequence (rows.get table) (left.get table)) :
    LiveStaged left state where
  pending := by
    intro p hp
    obtain ⟨pages, hpages⟩ := hstaged.pending p hp
    exact ⟨pages, hpages.same (hsame _ (Or.inl ⟨p, hp, rfl⟩))⟩
  current := by
    intro g hg
    obtain ⟨pages, hpages⟩ := hstaged.current g hg
    exact ⟨pages, hpages.same (hsame _ (Or.inr ⟨g, hg, rfl⟩))⟩

/-- The retired rows hold no rows of a build. -/
theorem retired (hstaged : LiveStaged rows state) (table : Table) :
    LiveStaged { rows with retired := table } state :=
  hstaged.same fun _ _ definition => by cases definition <;> exact fun _ => rfl

/-- A transaction that edits the pending build keeps the current generation. -/
theorem edited (hstaged : LiveStaged rows state) (hconsistent : Consistent history rows state)
    (htransition : Transition wanted captures history rows state event left after)
    {next : PendingGeneration} {pages : List UploadPage}
    (hnext : StagedBuild left next.generation pages) :
    LiveStaged left { state with pending := some next } where
  pending := by
    intro found hfound
    obtain rfl := Option.some.inj hfound
    exact ⟨pages, hnext⟩
  current := by
    intro g hg
    obtain ⟨saved, hsaved⟩ := hstaged.current g hg
    refine ⟨saved, hsaved.same ?_⟩
    exact htransition.sameUnder
      (not_edited_of_current hg (hconsistent.numbered.ordered g hg))

/-- Every publication transaction keeps the live builds staged. -/
theorem step (hstaged : LiveStaged rows state) (hconsistent : Consistent history rows state)
    (htransition : Transition wanted captures history rows state event left after) :
    LiveStaged left after := by
  have hedited : ∀ (next : PendingGeneration) pages, StagedBuild left next.generation pages →
      LiveStaged left { state with pending := some next } :=
    fun _ _ hnext => hstaged.edited hconsistent htransition hnext
  have hself : ∀ p : PendingGeneration, state.pending = some p →
      { state with pending := some p } = state := by
    intro p hp
    rw [← hp]
  cases htransition with
  | @reserve capture namespaceId sequence captured fresh idle named next room =>
      have hlarger : state.nextSequence < sequence := UInt64.lt_iff_toNat_lt.mpr (by omega)
      refine ⟨?_, hstaged.current⟩
      intro p hp
      obtain rfl := Option.some.inj hp
      exact ⟨[], StagedBuild.empty rfl rfl (hconsistent.filled.fresh hlarger)⟩
  | @persist p reserved sources chunk inputs table pending logged same subset encoded inserted =>
      obtain ⟨pages, hpages⟩ := hstaged.pending p pending
      rw [← hself p pending]
      refine hedited p pages ⟨hpages.pageCount, hpages.saved, hpages.only, hpages.pointCount, ?_⟩
      refine insertFresh_invariant (fun table => StagedPoints table rows.evidence
        p.generation.sequence (pointsIn pages)) inserted hpages.points ?_
      intro row hrow table hfree hreached
      obtain ⟨source, hmem, hkey, hencode⟩ := capturedRows_eq_ok encoded hrow
      have hown : Reserved history reserved.generation sources :=
        ⟨reserved, logged, Generation.SameBuild.refl _⟩
      have hcoherent := (hconsistent.tallied.of_reserved hown).1.coherent source
        (subset source hmem)
      rw [hkey] at hfree ⊢
      exact hreached.persist hfree (decodeSource_encodeSource hencode hcoherent)
  | @stage p env page bytes stagedBytes pageCount staging pending unsealed idle encoded charged
      staged counted =>
      obtain ⟨pages, hpages⟩ := hstaged.pending p pending
      exact hedited _ _ (hpages.page encoded staged counted)
  | @finish p id value bytes entry completedSources pending unsealed found decoded incomplete
      encoded counted =>
      obtain ⟨pages, hpages⟩ := hstaged.pending p pending
      exact hedited _ pages ⟨hpages.pageCount, hpages.saved, hpages.only, hpages.pointCount,
        hpages.points.finish found decoded encoded⟩
  | complete pending => exact hstaged.update pending rfl
  | record pending => exact hstaged.update pending rfl
  | settle pending inFlight result =>
      exact hstaged.update pending (Numbered.settled_generation result)
  | @commit p revision pending fresh idle sealed created uploaded same counted =>
      have hcommitted : LiveStaged rows
          { state with
            currentRevision := revision, current := some p.generation, pending := none } := by
        refine ⟨?_, ?_⟩
        · intro found hfound
          cases hfound
        · intro g hg
          obtain rfl := Option.some.inj hg
          exact hstaged.pending p pending
      cases state.current with
      | none => exact hcommitted
      | some old => exact hcommitted.retired _
  | abandon => exact hstaged.release.retired _
  | supersede => exact hstaged.release.retired _
  | @remove retired definition keys removable owned =>
      refine hstaged.same fun sequence hlive table => ?_
      have hother : sequence ≠ retired.generation.sequence := by
        rintro rfl
        rcases hlive with ⟨p, hp, hsame⟩ | ⟨g, hg, hsame⟩
        · exact removable.not_pending p hp hsame
        · exact removable.not_current g hg hsame
      rw [Rows.get_set]
      split
      · rename_i hsame
        rw [hsame]
        exact SameUnder.of_confined (Table.confined_eraseAll owned _) hother
      · exact fun _ => rfl
  | forget => exact hstaged.retired _

end LiveStaged

end EliotSearch.Control
