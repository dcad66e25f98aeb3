import EliotSearch.Control.Verify

/-!
# Walks over saved sources

The source rows of a generation are complete entries under their own
identities, as many as its header says.  Every reader of these rows walks them
in the same way: the walk succeeds on exactly such rows and keeps one item of
each entry.
-/

namespace EliotSearch.Control

open EliotSearch.Library
open EliotSearch.Library.Results
open EliotSearch.Library.Words

/-! ## Whole entries -/

def SourceEntry.id (entry : SourceEntry) : SourceId := entry.captured.source.sourceId

def SourceEntry.namespaceId (entry : SourceEntry) : SourceNamespaceId :=
  entry.captured.source.sourceNamespaceId

def SourceEntry.input (entry : SourceEntry) : ObjectRef := entry.captured.source.objectRef

/-- A complete entry whose number of units fits its outcome. -/
structure SourceEntry.Whole (entry : SourceEntry) : Prop where
  complete : entry.complete = true
  outcome : ∃ outcome, entry.captured.preparation.outcome = some outcome ∧
    entry.CheckedUnits outcome.result

/-- The row holds the entry under its own identity. -/
def StoredSource (sequence : UInt64) (row : Bytes × Bytes) (entry : SourceEntry) : Prop :=
  row.1 = key sequence entry.id.bytes ∧ decodeSource row.2 = .ok entry

/-- The source rows of a generation are the given complete entries, as many and
with as many gaps and units as the header says. -/
structure SourcesVerified (table : Table) (g : Generation) (entries : List SourceEntry) :
    Prop where
  rows : List.Forall₂ (StoredSource g.sequence) (table.scan (be64 g.sequence)) entries
  whole : ∀ entry ∈ entries, entry.Whole
  shared : ∀ first ∈ entries, ∀ second ∈ entries, first.namespaceId = second.namespaceId
  bounded : entries.length ≤ maxSources
  count : entries.length = g.sourceCount.toNat
  gaps : entries.countP (fun entry => entry.artifact.isNone) = g.gapCount.toNat
  units : (entries.map fun entry => entry.stagedUnits.toNat).sum = g.pointCount.toNat
  points : g.pointCount ≤ maxPoints

theorem SourceEntry.Whole.artifact_eq_none {entry : SourceEntry} (hwhole : entry.Whole)
    (hgap : entry.artifact = none) : entry.stagedUnits = 0 := by
  obtain ⟨outcome, houtcome, hchecked⟩ := hwhole.outcome
  rw [SourceEntry.artifact, houtcome, Option.bind_some] at hgap
  cases hresult : outcome.result with
  | ready artifact => simp [hresult, PreparationOutcome.artifact] at hgap
  | gap reason => simpa [hresult, SourceEntry.CheckedUnits] using hchecked

/-! ## The walk over the saved sources -/

namespace Verify

section Gathering

variable {α : Type} {select : SourceEntry → Except PublicationError α} {keep : SourceEntry → α}
  {count : Nat} {totals next : SourceTotals α} {row : Bytes × Bytes} {env : Env} {db : Db}
  {g : Generation}

/-- A reader selects exactly the whole entries within the point bound. -/
def Selects (select : SourceEntry → Except PublicationError α) (keep : SourceEntry → α) : Prop :=
  ∀ entry item, entry.stagedUnits ≤ maxPoints →
    (select entry = .ok item ↔ entry.Whole ∧ item = keep entry)

/-- The totals after the given entries. -/
structure Gathered (keep : SourceEntry → α) (sequence : UInt64) (count : Nat)
    (rows : List (Bytes × Bytes)) (totals : SourceTotals α) (entries : List SourceEntry) :
    Prop where
  rows : List.Forall₂ (StoredSource sequence) rows entries
  items : totals.items = entries.map keep
  whole : ∀ entry ∈ entries, entry.Whole
  bounded : entries.length ≤ count
  gaps : totals.gaps.toNat = entries.countP fun entry => entry.artifact.isNone
  units : totals.units.toNat = (entries.map fun entry => entry.stagedUnits.toNat).sum
  points : totals.units ≤ maxPoints
  named : ∀ entry ∈ entries, totals.namespaceId = some entry.namespaceId
  empty : entries = [] → totals.namespaceId = none

theorem visitSource_eq_ok :
    visitSource select count totals row = .ok next ↔
      row.1.length = 24 ∧ totals.items.length < count ∧ ∃ entry item,
        decodeSource row.2 = .ok entry ∧ select entry = .ok item ∧
        row.1.drop 8 = entry.id.bytes ∧
        (∀ expected ∈ totals.namespaceId, expected = entry.namespaceId) ∧ ∃ units : UInt64,
          units.toNat = totals.units.toNat + entry.stagedUnits.toNat ∧ units ≤ maxPoints ∧
          next = ⟨totals.items ++ [item],
            totals.gaps + (if entry.artifact.isNone then 1 else 0), units,
            some entry.namespaceId⟩ := by
  simp only [visitSource, bind_eq_ok, refuse_eq_ok, okOr_eq_ok, Option.filter_eq_some_iff,
    checkedAdd_eq_some, decide_eq_true_eq, pure_eq_ok, Except.ok.injEq, not_or, not_not, not_exists,
    not_and, Nat.not_le, ge_iff_le]
  constructor
  · rintro ⟨_, ⟨hlength, hcount⟩, entry, hentry, item, hitem, _, ⟨hid, hnamespace⟩, units,
      ⟨hunits, hpoints⟩, rfl⟩
    exact ⟨hlength, hcount, entry, item, hentry, hitem, hid, hnamespace, units, hunits, hpoints, rfl⟩
  · rintro ⟨hlength, hcount, entry, item, hentry, hitem, hid, hnamespace, units, hunits, hpoints,
      rfl⟩
    exact ⟨(), ⟨hlength, hcount⟩, entry, hentry, item, hitem, (), ⟨hid, hnamespace⟩, units,
      ⟨hunits, hpoints⟩, rfl⟩

/-- A visited row adds the entry it holds. -/
theorem Gathered.visit {sequence : UInt64} {rows : List (Bytes × Bytes)}
    {entries : List SourceEntry} (hgathered : Gathered keep sequence count rows totals entries)
    (hselects : Selects select keep) (hcount : count ≤ maxSources)
    (hrow : be64 sequence <+: row.1) (hvisit : visitSource select count totals row = .ok next) :
    ∃ entry, Gathered keep sequence count (rows ++ [row]) next (entries ++ [entry]) := by
  obtain ⟨hlength, hitems, entry, item, hentry, hitem, hid, hnamespace, units, hunits, hpoints,
    rfl⟩ := visitSource_eq_ok.mp hvisit
  have hpointsNat := UInt64.le_iff_toNat_le.mp hpoints
  have hstaged : entry.stagedUnits ≤ maxPoints := UInt64.le_iff_toNat_le.mpr (by omega)
  obtain ⟨hwhole, rfl⟩ := (hselects entry item hstaged).mp hitem
  have hroom : entries.length < count := by
    rw [hgathered.items, List.length_map] at hitems
    exact hitems
  have hkey : row.1 = key sequence entry.id.bytes := by
    obtain ⟨suffix, hsuffix⟩ := hrow
    rw [← hsuffix, List.drop_left' (be64_length _)] at hid
    rw [← hsuffix, hid, key]
  refine ⟨entry, ?_, ?_, ?_, ?_, ?_, ?_, hpoints, ?_, ?_⟩
  · exact List.rel_append hgathered.rows (.cons ⟨hkey, hentry⟩ .nil)
  · simp [hgathered.items]
  · intro other hmem
    rcases List.mem_append.mp hmem with hmem | hmem
    · exact hgathered.whole other hmem
    · rwa [List.mem_singleton.mp hmem]
  · rw [List.length_append, List.length_singleton]
    exact hroom
  · have hle : (entries.countP fun entry => entry.artifact.isNone) ≤ entries.length :=
      List.countP_le_length
    have hsmall : count < 5000 := Nat.lt_of_le_of_lt hcount (by decide)
    rw [List.countP_append, ← hgathered.gaps, List.countP_singleton, UInt64.toNat_add]
    rw [← hgathered.gaps] at hle
    have hsum : totals.gaps.toNat < 5000 := by omega
    split
    · simp
      omega
    · simp
  · rw [List.map_append, List.sum_append, ← hgathered.units, hunits]
    simp
  · intro other hmem
    rcases List.mem_append.mp hmem with hmem | hmem
    · have hsame := hnamespace _ (hgathered.named other hmem)
      rw [hsame]
    · rw [List.mem_singleton.mp hmem]
  · intro hempty
    simp at hempty

/-- A row that holds a whole entry of the same namespace, with room left, is
visited. -/
theorem Gathered.visit_ok {sequence : UInt64} {rows : List (Bytes × Bytes)}
    {entries : List SourceEntry} (hgathered : Gathered keep sequence count rows totals entries)
    (hselects : Selects select keep) {entry : SourceEntry} (hrow : StoredSource sequence row entry)
    (hwhole : entry.Whole) (hroom : entries.length < count)
    (hshared : ∀ other ∈ entries, other.namespaceId = entry.namespaceId)
    (hunits : (entries.map fun entry => entry.stagedUnits.toNat).sum + entry.stagedUnits.toNat ≤
      maxPoints.toNat) :
    ∃ next, visitSource select count totals row = .ok next := by
  have hstaged : entry.stagedUnits ≤ maxPoints := UInt64.le_iff_toNat_le.mpr (by omega)
  have hitem := (hselects entry (keep entry) hstaged).mpr ⟨hwhole, rfl⟩
  have hsum : (totals.units + entry.stagedUnits).toNat =
      totals.units.toNat + entry.stagedUnits.toNat := by
    have hsmall : maxPoints.toNat = 1000000 := rfl
    rw [UInt64.toNat_add, hgathered.units]
    omega
  refine ⟨_, visitSource_eq_ok.mpr ⟨?_, ?_, entry, keep entry, hrow.2, hitem, ?_, ?_,
    totals.units + entry.stagedUnits, hsum, ?_, rfl⟩⟩
  · simp [hrow.1, key]
  · rw [hgathered.items, List.length_map]
    exact hroom
  · rw [hrow.1, key, List.drop_left' (be64_length _)]
  · intro expected hmem
    cases hentries : entries with
    | nil =>
        rw [hgathered.empty hentries] at hmem
        cases hmem
    | cons other rest =>
        have hother : other ∈ entries := by simp [hentries]
        rw [hgathered.named other hother] at hmem
        rw [← Option.some.inj hmem, hshared other hother]
  · rw [UInt64.le_iff_toNat_le, hsum, hgathered.units]
    exact hunits

theorem Gathered.start (sequence : UInt64) : Gathered keep sequence count [] ⟨[], 0, 0, none⟩ [] where
  rows := .nil
  items := rfl
  whole := fun _ hmem => absurd hmem List.not_mem_nil
  bounded := Nat.zero_le _
  gaps := rfl
  units := rfl
  points := UInt64.le_iff_toNat_le.mpr (Nat.zero_le _)
  named := fun _ hmem => absurd hmem List.not_mem_nil
  empty := fun _ => rfl

/-- The walk over the saved sources succeeds only on verified ones. -/
theorem walkSources_verified {site : Nat} {items : List α} (hselects : Selects select keep)
    (hwalk : walkSources select env site db g = .ok items) :
    ∃ table entries, db.generationSources = some table ∧ SourcesVerified table g entries ∧
      items = entries.map keep := by
  simp only [walkSources, bind_eq_ok, refuse_eq_ok, okOr_eq_ok, Nat.not_lt, not_or, not_not,
    pure_eq_ok, Except.ok.injEq] at hwalk
  obtain ⟨_, hmax, table, htable, totals, hwalk, _, ⟨hcount, hgaps, hunits⟩, rfl⟩ := hwalk
  have hgathered : ∃ entries, Gathered keep g.sequence g.sourceCount.toNat
      (table.scan (be64 g.sequence)) totals entries := by
    refine foldlM_invariant (fun rows totals => ∃ entries,
      Gathered keep g.sequence g.sourceCount.toNat rows totals entries)
      (Table.foldlM_of_walk hwalk) ⟨[], Gathered.start g.sequence⟩ ?_
    rintro seen state ⟨rowKey, value⟩ next hmem ⟨entries, hentries⟩ hvisit
    obtain ⟨entry, hentry⟩ := hentries.visit hselects hmax (Table.mem_scan.mp hmem).2 hvisit
    exact ⟨_, hentry⟩
  obtain ⟨entries, hentries⟩ := hgathered
  refine ⟨table, entries, htable, ?_, hentries.items⟩
  have hlength : entries.length = g.sourceCount.toNat := by
    rw [← hcount, hentries.items, List.length_map]
  refine ⟨hentries.rows, hentries.whole, ?_, ?_, hlength, ?_, ?_, ?_⟩
  · intro first hfirst second hsecond
    have hsame := hentries.named first hfirst
    rw [hentries.named second hsecond] at hsame
    exact (Option.some.inj hsame).symm
  · rw [hlength]
    exact hmax
  · rw [← hentries.gaps, hgaps]
  · rw [← hentries.units, hunits]
  · rw [← hunits]
    exact hentries.points

/-- The rows seen first hold the entries listed first. -/
theorem forall₂_split {β γ : Type} {Relates : β → γ → Prop} {seen rest : List β} {value : β}
    {results : List γ} (hrelates : List.Forall₂ Relates (seen ++ value :: rest) results) :
    ∃ first result last, results = first ++ result :: last ∧ List.Forall₂ Relates seen first ∧
      Relates value result := by
  induction seen generalizing results with
  | nil =>
      obtain ⟨result, last, hvalue, -, rfl⟩ := List.forall₂_cons_left_iff.mp hrelates
      exact ⟨[], result, last, rfl, .nil, hvalue⟩
  | cons head seen ih =>
      obtain ⟨other, tail, hhead, htail, rfl⟩ := List.forall₂_cons_left_iff.mp hrelates
      obtain ⟨first, result, last, rfl, hfirst, hvalue⟩ := ih htail
      exact ⟨other :: first, result, last, rfl, .cons hhead hfirst, hvalue⟩

/-- Uninterrupted, the walk succeeds on verified sources and keeps each. -/
theorem walkSources_ok {table : Table} {entries : List SourceEntry} (site : Nat)
    (hselects : Selects select keep) (hquiet : ∀ site, env.probe site = none)
    (htable : db.generationSources = some table) (hverified : SourcesVerified table g entries) :
    walkSources select env site db g = .ok (entries.map keep) := by
  have hcheck : ∀ totals : SourceTotals α,
      env.check publicationFault (site + totals.items.length) = .ok () :=
    fun totals => Env.check_eq_ok.mpr (hquiet _)
  have hcount : g.sourceCount.toNat ≤ maxSources := hverified.count ▸ hverified.bounded
  have hunique : Relator.RightUnique (StoredSource g.sequence) := by
    intro row first second hfirst hsecond
    exact Except.ok.inj (hfirst.2.symm.trans hsecond.2)
  have hfold : ∃ totals, (table.scan (be64 g.sequence)).foldlM
      (visitSource select g.sourceCount.toNat) ⟨[], 0, 0, none⟩ = .ok totals ∧
      ∃ found, Gathered keep g.sequence g.sourceCount.toNat (table.scan (be64 g.sequence))
        totals found := by
    refine foldlM_ok (fun rows totals => ∃ found,
      Gathered keep g.sequence g.sourceCount.toNat rows totals found)
      ⟨[], Gathered.start g.sequence⟩ ?_
    rintro seen row rest state hrows ⟨found, hgathered⟩
    have hstored := hverified.rows
    rw [hrows] at hstored
    obtain ⟨first, entry, last, hentries, hfirst, hentry⟩ := forall₂_split hstored
    obtain rfl := List.right_unique_forall₂' hunique hgathered.rows hfirst
    have hmem : entry ∈ entries := by simp [hentries]
    have hroom : found.length < g.sourceCount.toNat := by
      rw [← hverified.count, hentries]
      simp
    have hunits := hverified.units
    rw [hentries, List.map_append, List.map_cons, List.sum_append, List.sum_cons] at hunits
    have hpoints := UInt64.le_iff_toNat_le.mp hverified.points
    have hshared : ∀ other ∈ found, other.namespaceId = entry.namespaceId :=
      fun other hother => hverified.shared other (by simp [hentries, hother]) entry hmem
    obtain ⟨next, hvisit⟩ := hgathered.visit_ok hselects hentry (hverified.whole entry hmem) hroom
      hshared (by omega)
    have hrow : be64 g.sequence <+: row.1 := ⟨entry.id.bytes, hentry.1.symm⟩
    obtain ⟨visited, hnext⟩ := hgathered.visit hselects hcount hrow hvisit
    exact ⟨next, hvisit, _, hnext⟩
  obtain ⟨totals, htotals, found, hgathered⟩ := hfold
  obtain rfl := List.right_unique_forall₂' hunique hgathered.rows hverified.rows
  have hguard : ¬ (totals.items.length ≠ g.sourceCount.toNat ∨ totals.gaps ≠ g.gapCount ∨
      totals.units ≠ g.pointCount) := by
    rintro (hlength | hgaps | hunits)
    · exact hlength (by rw [hgathered.items, List.length_map, hverified.count])
    · exact hgaps (UInt64.toNat_inj.mp (hgathered.gaps.trans hverified.gaps))
    · exact hunits (UInt64.toNat_inj.mp (hgathered.units.trans hverified.units))
  rw [walkSources, refuse_of_not (Nat.not_lt.mpr hcount), ok_bind, htable, okOr_some, ok_bind,
    Table.walk_eq_foldlM hcheck, htotals, ok_bind, refuse_of_not hguard, ok_bind, hgathered.items]
  rfl

end Gathering

end Verify

end EliotSearch.Control
