import EliotSearch.Control.Transition

/-!
# Rows of one generation

The rows of a generation share the stem of its sequence.  Staging, saving
captured inputs and cleaning up edit the rows of one sequence only; the rules
here describe one staged point and one saved input and carry an invariant over
a whole page or chunk.
-/

namespace EliotSearch.Control

open EliotSearch.Library
open EliotSearch.Library.Results
open EliotSearch.Library.Words

theorem be64_prefix_key (sequence : UInt64) (suffix : Bytes) :
    be64 sequence <+: key sequence suffix :=
  List.prefix_append _ _

theorem not_prefix_key {sequence other : UInt64} (hne : sequence ≠ other) (suffix : Bytes) :
    ¬ be64 other <+: key sequence suffix := by
  rintro ⟨rest, hrest⟩
  have hkey : key other rest = key sequence suffix := hrest
  exact hne (key_injective hkey).1.symm

/-- A row belongs to one sequence. -/
theorem stem_unique {sequence other : UInt64} {row : Bytes} (hrow : be64 sequence <+: row)
    (hother : be64 other <+: row) : sequence = other := by
  obtain ⟨suffix, rfl⟩ := hrow
  by_contra hne
  exact not_prefix_key hne suffix hother

/-- Two tables agree on the rows of a sequence. -/
def SameUnder (sequence : UInt64) (before after : Table) : Prop :=
  ∀ suffix, after[key sequence suffix]? = before[key sequence suffix]?

theorem SameUnder.of_confined {sequence other : UInt64} {before after : Table}
    (hconfined : Table.Confined (be64 other) before after) (hne : sequence ≠ other) :
    SameUnder sequence before after :=
  fun suffix => hconfined _ (not_prefix_key hne suffix)

/-! ## Saved inputs -/

/-- Saving inputs carries an invariant that each fresh row keeps. -/
theorem insertFresh_invariant (Holds : Table → Prop) {inputs : List (Bytes × Bytes)}
    {table result : Table} (hinsert : insertFresh table inputs = .ok result) (hstart : Holds table)
    (hstep : ∀ row ∈ inputs, ∀ table : Table, table[row.1]? = none → Holds table →
      Holds (table.insert row.1 row.2)) : Holds result := by
  induction inputs generalizing table with
  | nil =>
      obtain rfl := Except.ok.inj hinsert
      exact hstart
  | cons row inputs ih =>
      simp only [insertFresh, bind_eq_ok, refuse_eq_ok] at hinsert
      obtain ⟨_, hfree, hrest⟩ := hinsert
      have hfree := Option.not_isSome_iff_eq_none.mp hfree
      refine ih hrest (hstep row List.mem_cons_self table hfree hstart) ?_
      exact fun other hmem => hstep other (List.mem_cons_of_mem _ hmem)

/-- Each input row is the captured row of a source of the chunk. -/
theorem capturedRows_eq_ok {sequence : UInt64} {chunk : List CapturedSource}
    {inputs : List (Bytes × Bytes)} (hinputs : chunk.mapM (capturedRow sequence) = .ok inputs)
    {row : Bytes × Bytes} (hrow : row ∈ inputs) :
    ∃ captured ∈ chunk, row.1 = key sequence captured.source.sourceId.bytes ∧
      encodeSource ⟨captured, 0, false⟩ = .ok row.2 := by
  induction chunk generalizing inputs with
  | nil =>
      obtain rfl := Except.ok.inj hinputs
      cases hrow
  | cons captured chunk ih =>
      simp only [List.mapM_cons, bind_eq_ok] at hinputs
      obtain ⟨first, hfirst, rest, hrest, hresult⟩ := hinputs
      obtain rfl := Except.ok.inj hresult
      rcases List.mem_cons.mp hrow with rfl | hrow
      · simp only [capturedRow, bind_eq_ok] at hfirst
        obtain ⟨bytes, hbytes, hpair⟩ := hfirst
        obtain rfl := Except.ok.inj hpair
        exact ⟨captured, List.mem_cons_self, rfl, hbytes⟩
      · obtain ⟨other, hmem, hother⟩ := ih hrest hrow
        exact ⟨other, List.mem_cons_of_mem _ hmem, hother⟩

/-! ## Staged points -/

/-- What staging one point checks and writes. -/
structure PointStaged (sequence : UInt64) (staging : Staging) (point : UploadPoint)
    (next : Staging) : Prop where
  id_eq : point.id.bytes = be64 sequence ++ be64 staging.pointCount
  row : ∃ value entry stagedUnits bytes,
    staging.sources[key sequence point.evidence.sourceId.bytes]? = some value ∧
      decodeSource value = .ok entry ∧ AcceptsPoint entry point.evidence ∧
      stagedUnits.toNat = entry.stagedUnits.toNat + 1 ∧
      encodeSource { entry with stagedUnits } = .ok bytes ∧
      next.sources = staging.sources.insert (key sequence point.evidence.sourceId.bytes) bytes
  fresh : staging.evidence[key sequence point.id.bytes]? = none
  evidence_eq : next.evidence =
    staging.evidence.insert (key sequence point.id.bytes) (encodeEvidence point.evidence)
  counted : next.pointCount.toNat = staging.pointCount.toNat + 1
  bounded : next.pointCount ≤ maxPoints

theorem stagePoint_eq_ok {sequence : UInt64} {staging next : Staging} {point : UploadPoint}
    (hstage : stagePoint sequence staging point = .ok next) :
    PointStaged sequence staging point next := by
  simp only [stagePoint, bind_eq_ok, refuse_eq_ok, okOr_eq_ok, not_not,
    Option.filter_eq_some_iff, decide_eq_true_eq] at hstage
  obtain ⟨_, hid, value, hvalue, entry, hentry, _, haccepts, stagedUnits, hunits, bytes, hbytes, _,
    hfresh, pointCount, ⟨hcount, hbound⟩, hnext⟩ := hstage
  obtain rfl := Except.ok.inj hnext
  have hone : (1 : UInt64).toNat = 1 := rfl
  refine ⟨hid, ⟨value, entry, stagedUnits, bytes, hvalue, hentry, haccepts, ?_, hbytes, rfl⟩,
    Option.not_isSome_iff_eq_none.mp hfresh, rfl, ?_, hbound⟩
  · rw [checkedAdd_eq_some.mp hunits, hone]
  · rw [checkedAdd_eq_some.mp hcount, hone]

/-- Staging a page carries an invariant that each staged point keeps. -/
theorem stagePoints_invariant (Holds : Staging → Prop) {env : Env} {sequence : UInt64}
    {points : List UploadPoint} {site : Nat} {staging next : Staging}
    (hstage : stagePoints env sequence site staging points = .ok next) (hstart : Holds staging)
    (hstep : ∀ staging point next, PointStaged sequence staging point next → Holds staging →
      Holds next) : Holds next := by
  induction points generalizing site staging with
  | nil =>
      obtain rfl := Except.ok.inj hstage
      exact hstart
  | cons point points ih =>
      simp only [stagePoints, bind_eq_ok] at hstage
      obtain ⟨_, _, middle, hmiddle, hrest⟩ := hstage
      exact ih hrest (hstep staging point middle (stagePoint_eq_ok hmiddle) hstart)

/-- A page counts each of its points once. -/
theorem stagePoints_count {env : Env} {sequence : UInt64} {points : List UploadPoint} {site : Nat}
    {staging next : Staging}
    (hstage : stagePoints env sequence site staging points = .ok next) :
    next.pointCount.toNat = staging.pointCount.toNat + points.length ∧
      (points ≠ [] → next.pointCount ≤ maxPoints) := by
  induction points generalizing site staging with
  | nil =>
      obtain rfl := Except.ok.inj hstage
      simp
  | cons point points ih =>
      simp only [stagePoints, bind_eq_ok] at hstage
      obtain ⟨_, _, middle, hmiddle, hrest⟩ := hstage
      have hpoint := stagePoint_eq_ok hmiddle
      obtain ⟨hcount, hbound⟩ := ih hrest
      refine ⟨by rw [hcount, hpoint.counted, List.length_cons]; omega, fun _ => ?_⟩
      cases points with
      | nil =>
          obtain rfl := Except.ok.inj hrest
          exact hpoint.bounded
      | cons other points => exact hbound (List.cons_ne_nil _ _)

/-- A page edits the rows of its own sequence only. -/
theorem stagePoints_confined {env : Env} {sequence : UInt64} {points : List UploadPoint}
    {site : Nat} {staging next : Staging}
    (hstage : stagePoints env sequence site staging points = .ok next) :
    Table.Confined (be64 sequence) staging.sources next.sources ∧
      Table.Confined (be64 sequence) staging.evidence next.evidence := by
  refine stagePoints_invariant (fun reached =>
    Table.Confined (be64 sequence) staging.sources reached.sources ∧
      Table.Confined (be64 sequence) staging.evidence reached.evidence) hstage
    ⟨Table.Confined.refl _ _, Table.Confined.refl _ _⟩ ?_
  intro reached point after hpoint ⟨hsources, hevidence⟩
  obtain ⟨_, _, _, bytes, _, _, _, _, _, hrow⟩ := hpoint.row
  rw [hrow, hpoint.evidence_eq]
  exact ⟨hsources.trans (Table.confined_insert (be64_prefix_key _ _) _ _),
    hevidence.trans (Table.confined_insert (be64_prefix_key _ _) _ _)⟩

/-! ## Transitions edit one generation -/

variable {wanted : Option ℕ} {captures : List CorpusCapture} {history : List Event}
  {rows left : Rows} {state after : State} {event : Option Event}

theorem Rows.get_set (rows : Rows) (table : Table) (definition other : GenerationTable) :
    (rows.set table definition).get other =
      if other = definition then table else rows.get other := by
  cases definition <;> cases other <;> rfl

/-- What a transaction may do to the generation tables. -/
inductive Edits (rows left : Rows) (state : State) : Prop where
  | nothing (same : ∀ table, left.get table = rows.get table)
  | build {p : PendingGeneration} (pending : state.pending = some p)
      (confined : ∀ table,
        Table.Confined (be64 p.generation.sequence) (rows.get table) (left.get table))
  | cleanup {retired : RetiredGeneration} {definition : GenerationTable} {keys : List Bytes}
      (removable : Removable rows state retired)
      (owned : ∀ key ∈ keys, be64 retired.generation.sequence <+: key)
      (erased : left = rows.set
        (keys.foldl (fun table key => table.erase key) (rows.get definition)) definition)

/-- A transaction fills the rows of the pending build, erases rows of a
removable retired generation, or leaves the generation tables alone. -/
theorem Transition.edits
    (htransition : Transition wanted captures history rows state event left after) :
    Edits rows left state := by
  cases htransition with
  | reserve => exact .nothing fun table => rfl
  | @persist p reserved sources chunk inputs table pending logged same subset encoded inserted =>
      refine .build pending fun definition => ?_
      cases definition with
      | sources =>
          refine insertFresh_invariant
            (Table.Confined (be64 p.generation.sequence) rows.sources) inserted
            (Table.Confined.refl _ _) ?_
          intro row hrow table _ hconfined
          obtain ⟨captured, _, hkey, _⟩ := capturedRows_eq_ok encoded hrow
          rw [hkey]
          exact hconfined.trans (Table.confined_insert (be64_prefix_key _ _) _ _)
      | pages => exact Table.Confined.refl _ _
      | evidence => exact Table.Confined.refl _ _
  | stage pending unsealed idle encoded charged staged counted =>
      obtain ⟨hsources, hevidence⟩ := stagePoints_confined staged
      refine .build pending fun definition => ?_
      cases definition with
      | sources => exact hsources
      | pages => exact Table.confined_insert (be64_prefix_key _ _) _ _
      | evidence => exact hevidence
  | finish pending unsealed found decoded incomplete encoded counted =>
      refine .build pending fun definition => ?_
      cases definition with
      | sources => exact Table.confined_insert (be64_prefix_key _ _) _ _
      | pages => exact Table.Confined.refl _ _
      | evidence => exact Table.Confined.refl _ _
  | complete => exact .nothing fun table => rfl
  | record => exact .nothing fun table => rfl
  | settle => exact .nothing fun table => rfl
  | commit =>
      refine .nothing fun table => ?_
      cases state.current <;> cases table <;> rfl
  | abandon => exact .nothing fun table => by cases table <;> rfl
  | supersede => exact .nothing fun table => by cases table <;> rfl
  | remove definition keys removable owned => exact .cleanup removable owned rfl
  | forget => exact .nothing fun table => by cases table <;> rfl

/-- The generation whose rows a transaction may edit. -/
def Edited (rows : Rows) (state : State) (sequence : UInt64) : Prop :=
  (∃ p ∈ state.pending, p.generation.sequence = sequence) ∨
    ∃ retired, Removable rows state retired ∧ retired.generation.sequence = sequence

/-- A transaction edits the rows of the pending build, or of a removable
retired generation, or no rows. -/
theorem Transition.confined
    (htransition : Transition wanted captures history rows state event left after) :
    (∀ table, left.get table = rows.get table) ∨
      ∃ sequence, Edited rows state sequence ∧
        ∀ table, Table.Confined (be64 sequence) (rows.get table) (left.get table) := by
  cases htransition.edits with
  | nothing same => exact Or.inl same
  | @build p pending confined =>
      exact Or.inr ⟨p.generation.sequence, Or.inl ⟨p, pending, rfl⟩, confined⟩
  | @cleanup retired definition keys removable owned erased =>
      refine Or.inr ⟨retired.generation.sequence, Or.inr ⟨retired, removable, rfl⟩, fun table => ?_⟩
      rw [erased, Rows.get_set]
      split
      · rename_i hsame
        rw [hsame]
        exact Table.confined_eraseAll owned _
      · exact Table.Confined.refl _ _

/-- A generation that is neither pending nor removable keeps its rows. -/
theorem Transition.sameUnder
    (htransition : Transition wanted captures history rows state event left after)
    {sequence : UInt64} (hkept : ¬ Edited rows state sequence) (table : GenerationTable) :
    SameUnder sequence (rows.get table) (left.get table) := by
  rcases htransition.confined with hsame | ⟨edited, hedited, hconfined⟩
  · intro suffix
    rw [hsame table]
  · refine SameUnder.of_confined (hconfined table) ?_
    rintro rfl
    exact hkept hedited

/-- The current generation is never edited. -/
theorem not_edited_of_current {g : Generation} (hcurrent : state.current = some g)
    (hpending : ∀ p ∈ state.pending, g.sequence < p.generation.sequence) :
    ¬ Edited rows state g.sequence := by
  rintro (⟨p, hp, hsame⟩ | ⟨retired, hremovable, hsame⟩)
  · have hlt := hpending p hp
    rw [hsame] at hlt
    exact absurd hlt (UInt64.lt_irrefl _)
  · exact hremovable.not_current g hcurrent hsame.symm

end EliotSearch.Control
