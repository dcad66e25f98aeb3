import EliotSearch.Control.Consistency
import EliotSearch.Library.Versions

/-!
# Histories of one identity

A random identity is drawn once, may wait in a capture, is registered at most
once, revised while it is registered, and erased for good.  Its row and its
preparation therefore each carry a version that never goes back: equal versions
at two times mean that nothing happened to it in between.
-/

namespace EliotSearch.Control

open EliotSearch.Library
open EliotSearch.Library.Results
open EliotSearch.Library.Words

namespace Registry

/-- The random source has not produced this identity before. -/
def Fresh (registry : Registry) (action : Action) : Prop :=
  match action.command with
  | .captureCurrentSource _ draws => ∀ id ∈ draws.sourceId, id ∉ registry.drawn
  | _ => True

instance (registry : Registry) (action : Action) : Decidable (registry.Fresh action) := by
  unfold Fresh
  split <;> infer_instance

/-- The identity waits in a capture of an absent row. -/
def Pending (registry : Registry) (id : SourceId) : Prop :=
  ∃ capture, some capture ∈ registry.sources ∧ capture.expectedRowRevision = none ∧
    capture.sourceId = id

/-- Every identity stored or waiting was drawn, waiting ones have no row, and no
two captures wait with one identity. -/
structure Tracked (registry : Registry) : Prop where
  consistent : registry.Consistent
  stored : ∀ {key record}, recordAt (openTable registry.db.sourceRows) key = some record →
    record.sourceId ∈ registry.drawn
  held : ∀ {id}, registry.Pending id → id ∈ registry.drawn
  free : ∀ {id}, registry.Pending id →
    recordAt (openTable registry.db.sourceRows) id.bytes = none
  distinct : ∀ {first second : Nat} {left right : SourceCapture},
    registry.sources[first]? = some (some left) → registry.sources[second]? = some (some right) →
    left.expectedRowRevision = none → right.expectedRowRevision = none →
    left.sourceId = right.sourceId → first = second

variable {registry next : Registry} {action : Action} {id : SourceId}

theorem init_tracked : (init Db.empty).Tracked where
  consistent := init_consistent
  stored := by
    intro key record hrecord
    simp [init, Db.empty, recordAt] at hrecord
  held := by
    rintro id ⟨capture, hmem, -⟩
    simp [init] at hmem
  free := by
    rintro id ⟨capture, hmem, -⟩
    simp [init] at hmem
  distinct := by
    intro first second left right hleft
    simp [init] at hleft

/-! ## Slots -/

theorem pending_of_sources (hsources : next.sources = registry.sources) :
    next.Pending id ↔ registry.Pending id := by
  unfold Pending
  rw [hsources]

/-- Emptying a slot ends the wait of its identity only. -/
theorem pending_spent {slot : Nat} {capture : SourceCapture} (htracked : registry.Tracked)
    (hslot : registry.sources[slot]? = some (some capture))
    (hsources : next.sources = registry.sources.set slot none) :
    next.Pending id ↔
      registry.Pending id ∧ ¬ (capture.expectedRowRevision = none ∧ capture.sourceId = id) := by
  constructor
  · rintro ⟨found, hmem, hrow, rfl⟩
    rw [hsources] at hmem
    refine ⟨⟨found, mem_set_none hmem, hrow, rfl⟩, ?_⟩
    rintro ⟨hcaptureRow, hid⟩
    obtain ⟨index, hindex⟩ := List.mem_iff_getElem?.mp hmem
    rw [List.getElem?_set] at hindex
    split at hindex
    · split at hindex
      · cases hindex
      · cases hindex
    · rename_i hne
      exact hne (htracked.distinct hslot hindex hcaptureRow hrow hid)
  · rintro ⟨⟨found, hmem, hrow, rfl⟩, hother⟩
    refine ⟨found, ?_, hrow, rfl⟩
    obtain ⟨index, hindex⟩ := List.mem_iff_getElem?.mp hmem
    rw [hsources]
    apply List.mem_of_getElem? (i := index)
    rw [List.getElem?_set]
    split
    · rename_i hsame
      subst hsame
      rw [hslot] at hindex
      obtain rfl := Option.some.inj (Option.some.inj hindex)
      exact absurd ⟨hrow, rfl⟩ hother
    · exact hindex

/-! ## What an action does to one identity -/

/-- How far a preparation row has come. -/
def level (row : Option CurrentPreparation) : Nat :=
  row.elim 0 fun row => row.settingsRevision.toNat + row.outcomeRevision.toNat

def rowOf (registry : Registry) (id : SourceId) : Option CurrentSourceRecord :=
  recordAt (openTable registry.db.sourceRows) id.bytes

def preparationOf (registry : Registry) (id : SourceId) : Option CurrentPreparation :=
  preparationAt (openTable registry.db.preparations) id.bytes

/-- What an action does to an identity that was drawn before it. -/
inductive Touch (registry next : Registry) (id : SourceId) : Prop where
  | same
      (hrow : next.rowOf id = registry.rowOf id)
      (hpreparation : next.preparationOf id = registry.preparationOf id)
      (hpending : next.Pending id ↔ registry.Pending id)
  | lapsed
      (hbefore : registry.rowOf id = none)
      (hafter : next.rowOf id = none)
      (hpreparation : next.preparationOf id = registry.preparationOf id)
      (hwaiting : registry.Pending id)
  | registered {record : CurrentSourceRecord}
      (hbefore : registry.rowOf id = none)
      (hwaiting : registry.Pending id)
      (hafter : next.rowOf id = some record)
      (hrevision : record.rowRevision = 1)
      (hpreparation : next.preparationOf id = registry.preparationOf id)
      (hgone : ¬ next.Pending id)
  | revised {old new : CurrentSourceRecord}
      (hbefore : registry.rowOf id = some old)
      (hafter : next.rowOf id = some new)
      (hrevision : new.rowRevision.toNat = old.rowRevision.toNat + 1)
      (hpreparation : next.preparationOf id = registry.preparationOf id)
      (hgone : ¬ next.Pending id)
  | prepared {record : CurrentSourceRecord}
      (hbefore : registry.rowOf id = some record)
      (hafter : next.rowOf id = some record)
      (hlevel : level (next.preparationOf id) = level (registry.preparationOf id) + 1)
      (hgone : ¬ next.Pending id)
  | erased {old : CurrentSourceRecord}
      (hbefore : registry.rowOf id = some old)
      (hafter : next.rowOf id = none)
      (hgone : ¬ next.Pending id)

theorem Touch.refl (hdb : next.db = registry.db)
    (hpending : next.Pending id ↔ registry.Pending id) : Touch registry next id :=
  .same (by rw [rowOf, hdb, rowOf]) (by rw [preparationOf, hdb, preparationOf]) hpending

theorem Tracked.not_pending (htracked : registry.Tracked) {record : CurrentSourceRecord}
    (hrow : registry.rowOf id = some record) : ¬ registry.Pending id := by
  intro hpending
  rw [rowOf, htracked.free hpending] at hrow
  cases hrow

/-- Without a row there is no preparation. -/
theorem Consistent.preparationOf_none (hconsistent : registry.Consistent)
    (hnone : registry.rowOf id = none) : registry.preparationOf id = none := by
  cases hrow : registry.preparationOf id with
  | none => rfl
  | some row =>
      obtain ⟨bytes, hbytes, -⟩ := preparationAt_eq_some.mp hrow
      obtain ⟨_, record, _, hrecord, -⟩ := hconsistent.sound.preparationRow hbytes
      rw [rowOf] at hnone
      rw [hnone] at hrecord
      cases hrecord

theorem recordAt_withSource {db : Db} {capture : SourceCapture} {record : CurrentSourceRecord}
    (hrecordable : Recordable record)
    (hbounded : record.objectRef.byteLength ≤ maxSourceObjectBytes) (revision : UInt64)
    (other : Bytes) :
    recordAt (openTable ((db.withSource capture record).advanced revision).sourceRows) other =
      if record.sourceId.bytes = other then some record
      else recordAt (openTable db.sourceRows) other := by
  simp only [Db.advanced, Db.withSource, openTable_some]
  exact Db.recordAt_insert _ hrecordable hbounded other

theorem preparationAt_insert (preparations : Table) {row : CurrentPreparation} (key : Bytes)
    (hvalid : row.validate = .ok ()) (other : Bytes) :
    preparationAt (preparations.insert key (preparationBytes row)) other =
      if key = other then some row else preparationAt preparations other := by
  rw [preparationAt, Table.get_insert]
  split
  · rw [Option.bind_some, toOption_eq_some]
    exact CurrentPreparation.decode_preparationBytes hvalid
  · rfl

theorem preparationAt_erase (preparations : Table) (key other : Bytes) :
    preparationAt (preparations.erase key) other =
      if key = other then none else preparationAt preparations other := by
  rw [preparationAt, Table.get_erase]
  split
  · rfl
  · rfl

theorem bytes_eq_iff {left right : SourceId} : left.bytes = right.bytes ↔ left = right :=
  Octets.ext_iff.symm

theorem touch_wroteSource (htracked : registry.Tracked) {slot : Nat} {capture : SourceCapture}
    {fileKey : NativeFileKey} {object : RetainedObject} {record : CurrentSourceRecord}
    (hslot : registry.sources[slot]? = some (some capture))
    (hwrite : SourceWrite registry.db next.db capture fileKey object.reference record)
    (hsources : next.sources = registry.sources.set slot none) : Touch registry next id := by
  obtain ⟨revision, htables⟩ := hwrite.tables
  have hid : record.sourceId = capture.sourceId := by
    rw [hwrite.record_eq]
    rfl
  have hrow : next.rowOf id =
      if record.sourceId = id then some record else registry.rowOf id := by
    rw [rowOf, htables, recordAt_withSource hwrite.recordable hwrite.bounded, rowOf]
    simp only [bytes_eq_iff]
  have hpreparation : next.preparationOf id = registry.preparationOf id := by
    rw [preparationOf, htables]
    rfl
  by_cases hsame : capture.sourceId = id
  · rw [if_pos (hid.trans hsame)] at hrow
    rcases hwrite.held.split with ⟨hone, _, hexpected, _, _, hnone⟩ |
      ⟨current, hnext, _, _, _, _, hcurrent, _, _⟩
    · rw [hsame] at hnone
      apply Touch.registered hnone ⟨capture, List.mem_of_getElem? hslot, hexpected, hsame⟩ hrow
        hone hpreparation
      rw [pending_spent htracked hslot hsources]
      rintro ⟨-, hother⟩
      exact hother ⟨hexpected, hsame⟩
    · rw [hsame] at hcurrent
      apply Touch.revised hcurrent hrow hnext hpreparation
      rw [pending_spent htracked hslot hsources]
      rintro ⟨hpending, -⟩
      exact htracked.not_pending hcurrent hpending
  · rw [if_neg (fun heq => hsame (hid.symm.trans heq))] at hrow
    apply Touch.same hrow hpreparation
    rw [pending_spent htracked hslot hsources]
    constructor
    · rintro ⟨hpending, -⟩
      exact hpending
    · intro hpending
      exact ⟨hpending, fun hcapture => hsame hcapture.2⟩

/-- A removal erases the rows and preparations of the expected identities. -/
theorem recordAt_withoutSources (db : Db) (expected : List CurrentSourceRecord) (id : SourceId) :
    recordAt (openTable (expected.foldl Db.withoutSource db).sourceRows) id.bytes =
        (if id ∈ expected.map fun source => source.sourceId then none
        else recordAt (openTable db.sourceRows) id.bytes) ∧
      preparationAt (openTable (expected.foldl Db.withoutSource db).preparations) id.bytes =
        (if id ∈ expected.map fun source => source.sourceId then none
        else preparationAt (openTable db.preparations) id.bytes) := by
  induction expected generalizing db with
  | nil => simp
  | cons source expected ih =>
      obtain ⟨hrow, hpreparation⟩ := ih (db.withoutSource source)
      rw [List.foldl_cons, hrow, hpreparation]
      simp only [Db.withoutSource, openTable_some, Db.openTable_map_erase, Db.recordAt_erase,
        preparationAt_erase, bytes_eq_iff, List.map_cons, List.mem_cons]
      by_cases hmem : id ∈ expected.map fun source => source.sourceId
      · simp [hmem]
      · by_cases hid : source.sourceId = id
        · simp [hid]
        · simp [hmem, hid, Ne.symm hid]

theorem touch_erasedSources (htracked : registry.Tracked) {expected : List CurrentSourceRecord}
    (herased : SourcesErased registry.db next.db expected)
    (hsources : next.sources = registry.sources) : Touch registry next id := by
  obtain ⟨revision, htables⟩ := herased.tables
  obtain ⟨hrow, hpreparation⟩ := recordAt_withoutSources registry.db expected id
  have hnextRow : next.rowOf id =
      recordAt (openTable (expected.foldl Db.withoutSource registry.db).sourceRows) id.bytes := by
    rw [rowOf, htables]
    rfl
  have hnextPreparation : next.preparationOf id = preparationAt
      (openTable (expected.foldl Db.withoutSource registry.db).preparations) id.bytes := by
    rw [preparationOf, htables]
    rfl
  rw [hrow] at hnextRow
  rw [hpreparation] at hnextPreparation
  by_cases hmem : id ∈ expected.map fun source => source.sourceId
  · rw [if_pos hmem] at hnextRow
    obtain ⟨source, hsource, rfl⟩ := List.mem_map.mp hmem
    have hbefore := herased.held.record source hsource
    apply Touch.erased hbefore hnextRow
    rw [pending_of_sources hsources]
    exact htracked.not_pending hbefore
  · rw [if_neg hmem] at hnextRow hnextPreparation
    exact .same hnextRow hnextPreparation (pending_of_sources hsources)

theorem touch_withPreparation (htracked : registry.Tracked) {source : CurrentSourceRecord} {owner : SourceId}
    {row : CurrentPreparation} {revision : UInt64}
    (hread : SourceRead registry.db owner source) (hvalid : row.validate = .ok ())
    (htables : next.db = (registry.db.withPreparation owner row).advanced revision)
    (hsources : next.sources = registry.sources)
    (hlevel : level (some row) = level (registry.preparationOf owner) + 1) :
    Touch registry next id := by
  have hrow : next.rowOf id = registry.rowOf id := by
    rw [rowOf, htables]
    rfl
  have hpreparation : next.preparationOf id =
      if owner = id then some row else registry.preparationOf id := by
    have hinsert := preparationAt_insert (openTable registry.db.preparations) owner.bytes
      hvalid id.bytes
    simp only [bytes_eq_iff] at hinsert
    rw [preparationOf, htables]
    exact hinsert
  by_cases howner : owner = id
  · subst howner
    rw [if_pos rfl] at hpreparation
    apply Touch.prepared hread.record (hrow.trans hread.record)
    · rw [hpreparation, hlevel]
    · rw [pending_of_sources hsources]
      exact htracked.not_pending hread.record
  · rw [if_neg howner] at hpreparation
    exact .same hrow hpreparation (pending_of_sources hsources)

theorem touch_wroteSettings (htracked : registry.Tracked) {owner : SourceId} {settings : PreparationSettings}
    {source : CurrentSourceRecord} {previous : Option CurrentPreparation}
    {row : CurrentPreparation}
    (hwrite : SettingsWrite registry.db next.db owner settings source previous row)
    (hsources : next.sources = registry.sources) : Touch registry next id := by
  cases hwrite with
  | first hread _ hnone hvalid hnext =>
      apply touch_withPreparation htracked hread hvalid hnext hsources
      have hbefore : registry.preparationOf owner = none := by
        simp [preparationOf, preparationAt, hnone]
      rw [hbefore]
      rfl
  | change hread hrow hrevision hvalid hnext =>
      apply touch_withPreparation htracked hread hvalid hnext hsources
      have hadd := checkedAdd_eq_some.mp hrevision
      rw [preparationOf, hrow]
      simp only [level, Option.elim_some, hadd]
      exact Nat.add_right_comm _ _ _

theorem touch_wroteOutcome (htracked : registry.Tracked) {capture : PreparationCapture} {result : PreparationOutcome}
    {old row : CurrentPreparation}
    (hwrite : OutcomeWrite registry.db next.db capture result old row)
    (hsources : next.sources = registry.sources) : Touch registry next id := by
  obtain ⟨revision, htables⟩ := hwrite.tables
  apply touch_withPreparation htracked hwrite.held.source hwrite.valid htables hsources
  have hadd := checkedAdd_eq_some.mp hwrite.revision
  have hsettings : row.settingsRevision = old.settingsRevision := by rw [hwrite.row_eq]
  rw [preparationOf, hwrite.held.stored]
  simp only [level, Option.elim_some, hadd, hsettings]
  exact (Nat.add_assoc _ _ _).symm

/-- No slot holds a capture that it did not hold before. -/
def SlotsKept (registry next : Registry) : Prop :=
  ∀ {index : Nat} {capture : SourceCapture}, next.sources[index]? = some (some capture) →
    registry.sources[index]? = some (some capture)

theorem slotsKept_of_sources (hsources : next.sources = registry.sources) :
    SlotsKept registry next := by
  intro index capture hindex
  rwa [hsources] at hindex

theorem slotsKept_spent {slot : Nat} (hsources : next.sources = registry.sources.set slot none) :
    SlotsKept registry next := by
  intro index capture hindex
  rw [hsources, List.getElem?_set] at hindex
  split at hindex
  · split at hindex
    · cases hindex
    · cases hindex
  · exact hindex

theorem touch_spent (htracked : registry.Tracked) {slot : Nat} {capture : SourceCapture}
    (hslot : registry.sources[slot]? = some (some capture)) (hdb : next.db = registry.db)
    (hsources : next.sources = registry.sources.set slot none) : Touch registry next id := by
  by_cases hwaiting : registry.Pending id
  · by_cases hpending : next.Pending id
    · exact .refl hdb (iff_of_true hpending hwaiting)
    · have hnone := htracked.free hwaiting
      refine .lapsed hnone ?_ ?_ hwaiting
      · rw [rowOf, hdb]
        exact hnone
      · rw [preparationOf, hdb, preparationOf]
  · apply Touch.refl hdb
    rw [pending_spent htracked hslot hsources]
    exact iff_of_false (fun hpending => hwaiting hpending.1) hwaiting

theorem touch_admitted {env : Env} {selection : AdmittedSelection} {randomId : Octets 16}
    (hadmitted : SelectionAdmitted env registry.db next.db selection randomId)
    (hsources : next.sources = registry.sources) : Touch registry next id := by
  obtain ⟨middle, hensured, -, htables⟩ := hadmitted.tables
  have hsame : openTable middle.sourceRows = openTable registry.db.sourceRows ∧
      middle.preparations = registry.db.preparations := by
    cases hensured with
    | existing => exact ⟨rfl, rfl⟩
    | created => exact ⟨rfl, rfl⟩
  apply Touch.same
  · rw [rowOf, htables, rowOf, ← hsame.1]
    rfl
  · rw [preparationOf, htables, preparationOf, ← hsame.2]
    rfl
  · exact pending_of_sources hsources

/-- An action that takes a capture changes nothing else but the identities drawn. -/
def TakesCapture (registry next : Registry) (action : Action) : Prop :=
  ∃ selectedFile draws capture, action.command = .captureCurrentSource selectedFile draws ∧
    Observed registry.db selectedFile draws capture ∧ next.db = registry.db ∧
    next.sources = registry.sources ++ [some capture] ∧
    next.drawn = registry.drawn ++ draws.sourceId.toList

/-- An action touches every identity in one of these ways, or takes a capture. -/
theorem step_touch (htracked : registry.Tracked) (action : Action) :
    ((∀ id, Touch registry (registry.step action) id) ∧
      SlotsKept registry (registry.step action)) ∨
      TakesCapture registry (registry.step action) action := by
  cases step_change registry action with
  | idle hdb hsources _ _ =>
      exact Or.inl ⟨fun _ => .refl hdb (pending_of_sources hsources),
        slotsKept_of_sources hsources⟩
  | captured hcommand hcapture hdb hsources _ hdrawn =>
      rcases captureCurrentSource_cases _ _ _ htracked.consistent.sound with
        ⟨other, hother, hobserved⟩ | ⟨_, herror, -⟩
      · obtain rfl := Except.ok.inj (hcapture.symm.trans hother)
        exact Or.inr ⟨_, _, _, hcommand, hobserved, hdb, hsources, hdrawn⟩
      · rw [hcapture] at herror
        cases herror
  | spent hslot hdb hsources _ _ =>
      exact Or.inl ⟨fun _ => touch_spent htracked hslot hdb hsources, slotsKept_spent hsources⟩
  | wroteSource _ hslot hwrite hsources _ _ =>
      exact Or.inl ⟨fun _ => touch_wroteSource htracked hslot hwrite hsources,
        slotsKept_spent hsources⟩
  | erasedSources herased hsources _ _ =>
      exact Or.inl ⟨fun _ => touch_erasedSources htracked herased hsources,
        slotsKept_of_sources hsources⟩
  | admitted hadmitted hsources _ _ =>
      exact Or.inl ⟨fun _ => touch_admitted hadmitted hsources, slotsKept_of_sources hsources⟩
  | wroteSettings _ _ hwrite hsources _ _ =>
      exact Or.inl ⟨fun _ => touch_wroteSettings htracked hwrite hsources,
        slotsKept_of_sources hsources⟩
  | wroteOutcome _ _ hwrite hsources _ _ =>
      exact Or.inl ⟨fun _ => touch_wroteOutcome htracked hwrite hsources,
        slotsKept_of_sources hsources⟩

/-! ## Runs with fresh identities -/

/-- The captures a capture step adds wait with a fresh identity, if at all. -/
theorem pending_captured {selectedFile : Bytes} {draws : Draws} {capture : SourceCapture}
    (hobserved : Observed registry.db selectedFile draws capture)
    (hsources : next.sources = registry.sources ++ [some capture]) (hpending : next.Pending id) :
    registry.Pending id ∨ (draws.sourceId = some id ∧ capture.sourceId = id) := by
  obtain ⟨found, hmem, hrow, rfl⟩ := hpending
  rw [hsources] at hmem
  rcases List.mem_append.mp hmem with hmem | hmem
  · exact Or.inl ⟨found, hmem, hrow, rfl⟩
  · obtain rfl := Option.some.inj (List.mem_singleton.mp hmem)
    exact Or.inr ⟨hobserved.absent (by simpa [hrow] using hobserved.row), rfl⟩

theorem Touch.free (htouch : Touch registry next id)
    (hfree : registry.Pending id → registry.rowOf id = none) (hpending : next.Pending id) :
    next.rowOf id = none := by
  cases htouch with
  | same hrow _ hiff => exact hrow.trans (hfree (hiff.mp hpending))
  | lapsed _ hafter _ _ => exact hafter
  | registered _ _ _ _ _ hgone => exact absurd hpending hgone
  | revised _ _ _ _ hgone => exact absurd hpending hgone
  | prepared _ _ _ hgone => exact absurd hpending hgone
  | erased _ hafter _ => exact hafter

/-- Rows come from rows and from waiting captures only. -/
theorem Touch.origin (htouch : Touch registry next id) {record : CurrentSourceRecord}
    (hrow : next.rowOf id = some record) :
    (∃ old, registry.rowOf id = some old) ∨ registry.Pending id := by
  cases htouch with
  | same hsame _ _ => exact Or.inl ⟨record, hsame.symm.trans hrow⟩
  | lapsed _ hafter _ _ =>
      rw [hafter] at hrow
      cases hrow
  | registered _ hwaiting _ _ _ _ => exact Or.inr hwaiting
  | revised hbefore _ _ _ _ => exact Or.inl ⟨_, hbefore⟩
  | prepared hbefore _ _ _ => exact Or.inl ⟨_, hbefore⟩
  | erased hbefore _ _ => exact Or.inl ⟨_, hbefore⟩

theorem Touch.waits (htouch : Touch registry next id) (hpending : next.Pending id) :
    registry.Pending id := by
  cases htouch with
  | same _ _ hiff => exact hiff.mp hpending
  | lapsed _ _ _ hwaiting => exact hwaiting
  | registered _ hwaiting _ _ _ _ => exact hwaiting
  | revised _ _ _ _ hgone => exact absurd hpending hgone
  | prepared _ _ _ hgone => exact absurd hpending hgone
  | erased _ _ hgone => exact absurd hpending hgone

theorem drawn_mono (registry : Registry) (action : Action) :
    ∃ ids, (registry.step action).drawn = registry.drawn ++ ids := by
  cases step_change registry action with
  | idle _ _ _ hdrawn => exact hdrawn
  | captured _ _ _ _ _ hdrawn => exact ⟨_, hdrawn⟩
  | spent _ _ _ _ hdrawn => exact ⟨[], by rw [hdrawn, List.append_nil]⟩
  | wroteSource _ _ _ _ _ hdrawn => exact ⟨[], by rw [hdrawn, List.append_nil]⟩
  | erasedSources _ _ _ hdrawn => exact ⟨[], by rw [hdrawn, List.append_nil]⟩
  | admitted _ _ _ hdrawn => exact ⟨[], by rw [hdrawn, List.append_nil]⟩
  | wroteSettings _ _ _ _ _ hdrawn => exact ⟨[], by rw [hdrawn, List.append_nil]⟩
  | wroteOutcome _ _ _ _ _ hdrawn => exact ⟨[], by rw [hdrawn, List.append_nil]⟩

theorem mem_drawn_step (action : Action) (hdrawn : id ∈ registry.drawn) :
    id ∈ (registry.step action).drawn := by
  obtain ⟨ids, hids⟩ := drawn_mono registry action
  rw [hids]
  exact List.mem_append_left _ hdrawn

/-- A row is stored under its own identity. -/
theorem Consistent.rowOf_id (hconsistent : registry.Consistent) {record : CurrentSourceRecord}
    {key : Bytes} (hrow : recordAt (openTable registry.db.sourceRows) key = some record) :
    key = record.sourceId.bytes := by
  obtain ⟨bytes, hbytes, hdecode⟩ := recordAt_eq_some.mp hrow
  obtain ⟨found, hfound, hkey, -⟩ := hconsistent.sound.row hbytes
  obtain rfl := Except.ok.inj (hdecode.symm.trans hfound)
  exact hkey

theorem Tracked.step_captured (htracked : registry.Tracked) {selectedFile : Bytes} {draws : Draws}
    {capture : SourceCapture} (hconsistent : next.Consistent)
    (hfresh : ∀ id ∈ draws.sourceId, id ∉ registry.drawn)
    (hobserved : Observed registry.db selectedFile draws capture)
    (hdb : next.db = registry.db) (hsources : next.sources = registry.sources ++ [some capture])
    (hdrawn : next.drawn = registry.drawn ++ draws.sourceId.toList) : next.Tracked where
  consistent := hconsistent
  stored := by
    intro key record hrecord
    rw [hdb] at hrecord
    rw [hdrawn]
    exact List.mem_append_left _ (htracked.stored hrecord)
  held := by
    intro id hpending
    rw [hdrawn, List.mem_append]
    rcases pending_captured hobserved hsources hpending with hbefore | ⟨hdraw, -⟩
    · exact Or.inl (htracked.held hbefore)
    · exact Or.inr (by simp [hdraw])
  free := by
    intro id hpending
    rw [hdb]
    rcases pending_captured hobserved hsources hpending with hbefore | ⟨hdraw, -⟩
    · exact htracked.free hbefore
    · cases hrow : recordAt (openTable registry.db.sourceRows) id.bytes with
      | none => rfl
      | some record =>
          have hid := htracked.consistent.rowOf_id hrow
          have hstored := htracked.stored hrow
          rw [← bytes_eq_iff.mp hid] at hstored
          exact absurd hstored (hfresh id hdraw)
  distinct := by
    -- a capture of an absent row added last has an identity no other slot holds
    have hlast : ∀ {index : Nat} {other : SourceCapture},
        registry.sources[index]? = some (some other) → other.expectedRowRevision = none →
        capture.expectedRowRevision = none → other.sourceId ≠ capture.sourceId := by
      intro index other hindex hother hcapture hsame
      have hdraw := hobserved.absent (by simpa [hcapture] using hobserved.row)
      have hwaits : registry.Pending other.sourceId :=
        ⟨other, List.mem_of_getElem? hindex, hother, rfl⟩
      exact hfresh _ hdraw (hsame ▸ htracked.held hwaits)
    have hslot : ∀ {index : Nat} {found : SourceCapture},
        next.sources[index]? = some (some found) →
          registry.sources[index]? = some (some found) ∨
            (index = registry.sources.length ∧ found = capture) := by
      intro index found hindex
      rw [hsources, List.getElem?_append] at hindex
      split at hindex
      · exact Or.inl hindex
      · rename_i hge
        right
        cases hoffset : index - registry.sources.length with
        | zero =>
            rw [hoffset] at hindex
            exact ⟨by omega, (Option.some.inj (Option.some.inj hindex)).symm⟩
        | succ offset =>
            rw [hoffset] at hindex
            simp at hindex
    intro first second left right hleft hright hleftRow hrightRow hids
    rcases hslot hleft with hleft | ⟨rfl, rfl⟩
    · rcases hslot hright with hright | ⟨rfl, rfl⟩
      · exact htracked.distinct hleft hright hleftRow hrightRow hids
      · exact absurd hids (hlast hleft hleftRow hrightRow)
    · rcases hslot hright with hright | ⟨rfl, rfl⟩
      · exact absurd hids.symm (hlast hright hrightRow hleftRow)
      · rfl

theorem Tracked.step (htracked : registry.Tracked) (hfresh : registry.Fresh action) :
    (registry.step action).Tracked := by
  have hconsistent := htracked.consistent.step action
  rcases step_touch htracked action with
    ⟨htouch, hslots⟩ | ⟨selectedFile, draws, capture, hcommand, hobserved, hdb, hsources, hdrawn⟩
  · refine ⟨hconsistent, ?_, ?_, ?_, ?_⟩
    · intro key record hrecord
      have hkey := hconsistent.rowOf_id hrecord
      rw [hkey] at hrecord
      apply mem_drawn_step
      rcases (htouch record.sourceId).origin hrecord with ⟨old, hold⟩ | hwaiting
      · have hid := htracked.consistent.rowOf_id hold
        rw [bytes_eq_iff.mp hid]
        exact htracked.stored hold
      · exact htracked.held hwaiting
    · intro id hpending
      exact mem_drawn_step action (htracked.held ((htouch id).waits hpending))
    · intro id hpending
      exact (htouch id).free htracked.free hpending
    · intro first second left right hleft hright
      exact htracked.distinct (hslots hleft) (hslots hright)
  · rw [Fresh, hcommand] at hfresh
    exact htracked.step_captured hconsistent hfresh hobserved hdb hsources hdrawn

/-- Identities drawn before a capture keep their row and their wait. -/
theorem touch_of_drawn (htracked : registry.Tracked) (hfresh : registry.Fresh action)
    (hdrawn : id ∈ registry.drawn) : Touch registry (registry.step action) id := by
  rcases step_touch htracked action with
    ⟨htouch, -⟩ | ⟨selectedFile, draws, capture, hcommand, hobserved, hdb, hsources, -⟩
  · exact htouch id
  · rw [Fresh, hcommand] at hfresh
    apply Touch.refl hdb
    constructor
    · intro hpending
      rcases pending_captured hobserved hsources hpending with hbefore | ⟨hdraw, -⟩
      · exact hbefore
      · exact absurd hdrawn (hfresh id hdraw)
    · rintro ⟨found, hmem, hrow, rfl⟩
      exact ⟨found, by rw [hsources]; exact List.mem_append_left _ hmem, hrow, rfl⟩

/-! ## Versions -/

/-- Past every revision a row or a preparation can have. -/
def gone : Nat := 2 ^ 66

open Classical in
/-- A registered identity stands at its level, a waiting one before every level
and an erased one after all of them. -/
noncomputable def standing (registry : Registry) (id : SourceId) (level : Nat) : Nat :=
  if (registry.rowOf id).isSome then level else if registry.Pending id then 0 else gone

/-- The row of an identity, versioned by its row revision. -/
noncomputable def rowStore (id : SourceId) : Versioned Registry (Option CurrentSourceRecord) where
  version registry := some (registry.standing id
    ((registry.rowOf id).elim 0 fun record => record.rowRevision.toNat))
  content registry := registry.rowOf id

/-- The preparation of an identity, versioned by both of its revisions. -/
noncomputable def preparationStore (id : SourceId) :
    Versioned Registry (Option CurrentPreparation) where
  version registry := some (registry.standing id (level (registry.preparationOf id)))
  content registry := registry.preparationOf id

theorem standing_row {record : CurrentSourceRecord} (hrow : registry.rowOf id = some record)
    (value : Nat) : registry.standing id value = value := by
  simp [standing, hrow]

theorem standing_waiting (hrow : registry.rowOf id = none) (hpending : registry.Pending id)
    (value : Nat) : registry.standing id value = 0 := by
  simp [standing, hrow, hpending]

theorem standing_gone (hrow : registry.rowOf id = none) (hpending : ¬ registry.Pending id)
    (value : Nat) : registry.standing id value = gone := by
  simp [standing, hrow, hpending]

theorem standing_same (hrow : next.rowOf id = registry.rowOf id)
    (hiff : next.Pending id ↔ registry.Pending id) (value : Nat) :
    next.standing id value = registry.standing id value := by
  cases hold : registry.rowOf id with
  | some record => rw [standing_row hold, standing_row (hrow.trans hold)]
  | none =>
      by_cases hpending : registry.Pending id
      · rw [standing_waiting hold hpending, standing_waiting (hrow.trans hold) (hiff.mpr hpending)]
      · rw [standing_gone hold hpending,
          standing_gone (hrow.trans hold) fun hnext => hpending (hiff.mp hnext)]

theorem level_lt_gone (row : Option CurrentPreparation) : level row < gone := by
  cases row with
  | none => decide
  | some row =>
      have hsettings := row.settingsRevision.toNat_lt
      have houtcome := row.outcomeRevision.toNat_lt
      simp only [level, Option.elim_some, gone]
      omega

theorem Touch.row_evolves (htouch : Touch registry next id) :
    (rowStore id).Evolves registry next := by
  cases htouch with
  | same hrow _ hiff =>
      exact Or.inl ⟨by simp only [rowStore, hrow, standing_same hrow hiff], hrow⟩
  | lapsed hbefore hafter _ hwaiting =>
      by_cases hpending : next.Pending id
      · refine Or.inl ⟨?_, hafter.trans hbefore.symm⟩
        simp only [rowStore, standing_waiting hbefore hwaiting, standing_waiting hafter hpending]
      · refine Or.inr ⟨0, gone, ?_, ?_, by decide⟩
        · simp only [rowStore, standing_waiting hbefore hwaiting]
        · simp only [rowStore, standing_gone hafter hpending]
  | registered hbefore hwaiting hafter hrevision _ _ =>
      refine Or.inr ⟨0, 1, ?_, ?_, by decide⟩
      · simp only [rowStore, standing_waiting hbefore hwaiting]
      · simp only [rowStore, standing_row hafter, hafter, Option.elim_some, hrevision]
        rfl
  | revised hbefore hafter hrevision _ _ =>
      refine Or.inr ⟨_, _, ?_, ?_, Nat.lt_of_succ_le (Nat.le_of_eq hrevision.symm)⟩
      · simp only [rowStore, standing_row hbefore, hbefore, Option.elim_some]
      · simp only [rowStore, standing_row hafter, hafter, Option.elim_some]
  | prepared hbefore hafter _ _ =>
      refine Or.inl ⟨?_, hafter.trans hbefore.symm⟩
      simp only [rowStore, standing_row hbefore, standing_row hafter, hbefore, hafter]
  | @erased old hbefore hafter hpending =>
      refine Or.inr ⟨old.rowRevision.toNat, gone, ?_, ?_, ?_⟩
      · simp only [rowStore, standing_row hbefore, hbefore, Option.elim_some]
      · simp only [rowStore, standing_gone hafter hpending]
      · exact Nat.lt_trans (UInt64.toNat_lt _) (by decide)

theorem Touch.preparation_evolves (hconsistent : registry.Consistent)
    (htouch : Touch registry next id) : (preparationStore id).Evolves registry next := by
  cases htouch with
  | same hrow hpreparation hiff =>
      refine Or.inl ⟨?_, hpreparation⟩
      simp only [preparationStore, hpreparation, standing_same hrow hiff]
  | lapsed hbefore hafter hpreparation hwaiting =>
      by_cases hpending : next.Pending id
      · refine Or.inl ⟨?_, hpreparation⟩
        simp only [preparationStore, standing_waiting hbefore hwaiting,
          standing_waiting hafter hpending]
      · refine Or.inr ⟨0, gone, ?_, ?_, by decide⟩
        · simp only [preparationStore, standing_waiting hbefore hwaiting]
        · simp only [preparationStore, standing_gone hafter hpending]
  | registered hbefore hwaiting hafter _ hpreparation _ =>
      refine Or.inl ⟨?_, hpreparation⟩
      have hnone := hconsistent.preparationOf_none hbefore
      simp only [preparationStore, standing_waiting hbefore hwaiting, standing_row hafter,
        hpreparation, hnone]
      rfl
  | revised hbefore hafter _ hpreparation _ =>
      refine Or.inl ⟨?_, hpreparation⟩
      simp only [preparationStore, standing_row hbefore, standing_row hafter, hpreparation]
  | prepared hbefore hafter hlevel _ =>
      refine Or.inr ⟨_, _, ?_, ?_, Nat.lt_of_succ_le (Nat.le_of_eq hlevel.symm)⟩
      · simp only [preparationStore, standing_row hbefore]
      · simp only [preparationStore, standing_row hafter]
  | erased hbefore hafter hpending =>
      refine Or.inr ⟨_, gone, ?_, ?_, level_lt_gone (registry.preparationOf id)⟩
      · simp only [preparationStore, standing_row hbefore]
      · simp only [preparationStore, standing_gone hafter hpending]

/-! ## Runs -/

/-- A run that draws fresh identities tracks them, and versions of identities
drawn before it do not go back. -/
theorem run_evolves {registry : Registry} {actions : List Action} (htracked : registry.Tracked)
    (hfresh : Runs.Throughout step Fresh registry actions) (hdrawn : id ∈ registry.drawn) :
    (rowStore id).Evolves registry (Runs.run step registry actions) ∧
      (preparationStore id).Evolves registry (Runs.run step registry actions) := by
  induction actions generalizing registry with
  | nil => exact ⟨Versioned.Evolves.refl registry, Versioned.Evolves.refl registry⟩
  | cons action actions ih =>
      obtain ⟨hfirst, hrest⟩ := hfresh
      have htouch := touch_of_drawn htracked hfirst hdrawn
      obtain ⟨hrow, hpreparation⟩ :=
        ih (htracked.step hfirst) hrest (mem_drawn_step action hdrawn)
      constructor
      · exact htouch.row_evolves.trans hrow
      · exact (htouch.preparation_evolves htracked.consistent).trans hpreparation

theorem tracked_run {registry : Registry} {actions : List Action} (htracked : registry.Tracked)
    (hfresh : Runs.Throughout step Fresh registry actions) :
    (Runs.run step registry actions).Tracked :=
  Runs.run_invariant_throughout Tracked htracked
    (fun _ _ hheld hmeets => hheld.step hmeets) hfresh

/-- A row at the same revision later is the same row, at every time between. -/
theorem row_unchanged {registry : Registry} {first second : List Action}
    {record later : CurrentSourceRecord} (htracked : registry.Tracked)
    (hfresh : Runs.Throughout step Fresh registry (first ++ second))
    (hrow : registry.rowOf id = some record)
    (hlater : (Runs.run step registry (first ++ second)).rowOf id = some later)
    (hrevision : later.rowRevision = record.rowRevision) :
    (Runs.run step registry first).rowOf id = some record := by
  obtain ⟨hfirst, hsecond⟩ := Runs.throughout_append.mp hfresh
  have hid := bytes_eq_iff.mp (htracked.consistent.rowOf_id hrow)
  have hdrawn : id ∈ registry.drawn := hid ▸ htracked.stored hrow
  obtain ⟨hbefore, -⟩ := run_evolves htracked hfirst hdrawn
  have htrackedFirst := tracked_run htracked hfirst
  have hdrawnFirst : id ∈ (Runs.run step registry first).drawn :=
    Runs.run_invariant_throughout (fun state => id ∈ state.drawn) hdrawn
      (fun _ action hmem _ => mem_drawn_step action hmem) hfirst
  obtain ⟨hafter, -⟩ := run_evolves htrackedFirst hsecond hdrawnFirst
  rw [← Runs.run_append] at hafter
  have hstart : (rowStore id).version registry = some record.rowRevision.toNat := by
    simp only [rowStore, standing_row hrow, hrow, Option.elim_some]
  have hend : (rowStore id).version (Runs.run step registry (first ++ second)) =
      some record.rowRevision.toNat := by
    simp only [rowStore, standing_row hlater, hlater, Option.elim_some, hrevision]
  obtain ⟨-, hcontent⟩ := hbefore.squeeze hafter hstart hend
  exact hcontent.trans hrow

/-- A preparation at the same level later, under a row, is the same preparation
at every time between. -/
theorem preparation_unchanged {registry : Registry} {first second : List Action}
    {record later : CurrentSourceRecord} (htracked : registry.Tracked)
    (hfresh : Runs.Throughout step Fresh registry (first ++ second))
    (hrow : registry.rowOf id = some record)
    (hlater : (Runs.run step registry (first ++ second)).rowOf id = some later)
    (hlevel : level ((Runs.run step registry (first ++ second)).preparationOf id) =
      level (registry.preparationOf id)) :
    (Runs.run step registry first).preparationOf id = registry.preparationOf id := by
  obtain ⟨hfirst, hsecond⟩ := Runs.throughout_append.mp hfresh
  have hid := bytes_eq_iff.mp (htracked.consistent.rowOf_id hrow)
  have hdrawn : id ∈ registry.drawn := hid ▸ htracked.stored hrow
  obtain ⟨-, hbefore⟩ := run_evolves htracked hfirst hdrawn
  have htrackedFirst := tracked_run htracked hfirst
  have hdrawnFirst : id ∈ (Runs.run step registry first).drawn :=
    Runs.run_invariant_throughout (fun state => id ∈ state.drawn) hdrawn
      (fun _ action hmem _ => mem_drawn_step action hmem) hfirst
  obtain ⟨-, hafter⟩ := run_evolves htrackedFirst hsecond hdrawnFirst
  rw [← Runs.run_append] at hafter
  have hstart : (preparationStore id).version registry =
      some (level (registry.preparationOf id)) := by
    simp only [preparationStore, standing_row hrow]
  have hend : (preparationStore id).version (Runs.run step registry (first ++ second)) =
      some (level (registry.preparationOf id)) := by
    simp only [preparationStore, standing_row hlater, hlevel]
  obtain ⟨-, hcontent⟩ := hbefore.squeeze hafter hstart hend
  exact hcontent

end Registry

end EliotSearch.Control
