import EliotSearch.Control.SavedSources
import EliotSearch.Library.Tilings

/-!
# Coverage of the saved inputs

The points of a prepared source number its units and tile its input.  The
progress of a source accepts exactly the point that continues it, and is
complete exactly when its whole input is covered; a search by identity finds
the progress a point belongs to.
-/

namespace EliotSearch.Control

open EliotSearch.Library
open EliotSearch.Library.Results
open EliotSearch.Library.Words

namespace Verify

/-! ## Progress of one source -/

/-- The progress of an entry before any point. -/
def SourceProgress.ofEntry (entry : SourceEntry) : SourceProgress :=
  ⟨entry.id, entry.namespaceId, entry.input, entry.artifact, entry.stagedUnits, 0, 0⟩

theorem fromEntry_selects : Selects SourceProgress.fromEntry SourceProgress.ofEntry := by
  intro entry item hstaged
  simp only [SourceProgress.fromEntry, bind_eq_ok, refuse_eq_ok, okOr_eq_ok, not_or, not_not,
    pure_eq_ok, Except.ok.injEq]
  constructor
  · rintro ⟨_, ⟨hcomplete, -⟩, outcome, houtcome, _, hchecked, rfl⟩
    have hartifact : entry.artifact = outcome.result.artifact := by
      rw [SourceEntry.artifact, houtcome, Option.bind_some]
    refine ⟨⟨by simpa using hcomplete, outcome, houtcome, hchecked⟩, ?_⟩
    rw [SourceProgress.ofEntry, hartifact]
    rfl
  · rintro ⟨⟨hcomplete, outcome, houtcome, hchecked⟩, rfl⟩
    have hartifact : entry.artifact = outcome.result.artifact := by
      rw [SourceEntry.artifact, houtcome, Option.bind_some]
    refine ⟨(), ⟨by simp [hcomplete], UInt64.not_lt.mpr hstaged⟩, outcome, houtcome, (), hchecked,
      ?_⟩
    rw [SourceProgress.ofEntry, hartifact]
    rfl

end Verify

/-! ## Covered inputs -/

/-- The evidence names the source, its input and its artifact. -/
structure PointEvidence.BoundTo (evidence : PointEvidence) (entry : SourceEntry) : Prop where
  source : evidence.sourceId = entry.id
  namespaceId : evidence.sourceNamespaceId = entry.namespaceId
  input : evidence.input = entry.input
  prepared : some evidence.prepared = entry.artifact

def PointEvidence.range (evidence : PointEvidence) : Nat × Nat :=
  (evidence.start.toNat, evidence.stop.toNat)

/-- The evidence of the points of one source, in their order. -/
def pointsOf (id : SourceId) (points : List UploadPoint) : List PointEvidence :=
  (points.map (·.evidence)).filter fun evidence => evidence.sourceId = id

/-- The points of a prepared source number its units and tile its input; a gap
has no points. -/
structure SourceEntry.CoveredBy (entry : SourceEntry) (own : List PointEvidence) : Prop where
  bound : ∀ evidence ∈ own, evidence.BoundTo entry
  units : own.map (fun evidence => evidence.unit.toNat) = List.range entry.stagedUnits.toNat
  tiled : entry.artifact ≠ none → Tiles 0 entry.input.byteLength.toNat (own.map (·.range))
  gap : entry.artifact = none → own = []

/-- The points of a source so far number its first units and tile the front of
its input. -/
structure SourceEntry.BegunBy (entry : SourceEntry) (own : List PointEvidence) (byteEnd : Nat) :
    Prop where
  bound : ∀ evidence ∈ own, evidence.BoundTo entry
  units : own.map (fun evidence => evidence.unit.toNat) = List.range own.length
  tiled : Tiles 0 byteEnd (own.map (·.range))
  room : own.length ≤ entry.stagedUnits.toNat

/-- The evidence continues the points of its source. -/
structure SourceEntry.Extends (entry : SourceEntry) (own : List PointEvidence) (byteEnd : Nat)
    (evidence : PointEvidence) : Prop where
  bound : evidence.BoundTo entry
  unit : evidence.unit.toNat = own.length
  start : evidence.start.toNat = byteEnd
  stop : evidence.stop ≤ entry.input.byteLength
  room : own.length < entry.stagedUnits.toNat

namespace Verify

/-- The progress records the points seen so far. -/
structure Tracks (entry : SourceEntry) (own : List PointEvidence) (progress : SourceProgress) :
    Prop where
  header : { progress with seen := 0, byteEnd := 0 } = SourceProgress.ofEntry entry
  seen : progress.seen.toNat = own.length
  begun : entry.BegunBy own progress.byteEnd.toNat

section Tracking

variable {entry : SourceEntry} {own : List PointEvidence} {progress next : SourceProgress}
  {evidence : PointEvidence}

theorem Tracks.start (entry : SourceEntry) : Tracks entry [] (SourceProgress.ofEntry entry) where
  header := rfl
  seen := rfl
  begun := ⟨fun _ hmem => absurd hmem List.not_mem_nil, rfl, rfl, Nat.zero_le _⟩

/-- A progress accepts exactly the evidence that continues its source. -/
theorem Tracks.accept_eq_ok (htracks : Tracks entry own progress) :
    progress.accept evidence = .ok next ↔
      entry.Extends own progress.byteEnd.toNat evidence ∧
        next = { progress with seen := progress.seen + 1, byteEnd := evidence.stop } := by
  obtain ⟨hheader, hseen, hbegun⟩ := htracks
  obtain ⟨id, namespaceId, input, prepared, units, seen, byteEnd⟩ := progress
  simp only [SourceProgress.ofEntry, SourceProgress.mk.injEq, and_true] at hheader
  obtain ⟨rfl, rfl, rfl, rfl, rfl⟩ := hheader
  have hroom := hbegun.room
  have hbound := entry.stagedUnits.toNat_lt
  simp only [SourceProgress.accept, bind_eq_ok, refuse_eq_ok, okOr_eq_ok, checkedAdd_eq_some,
    pure_eq_ok, Except.ok.injEq, not_or, not_not, ge_iff_le, gt_iff_lt, UInt64.not_lt,
    UInt64.not_le]
  constructor
  · rintro ⟨_, ⟨hnamespace, hid, hinput, hprepared, hunit, hstart, hstop, hless⟩, sum, hsum, rfl⟩
    refine ⟨⟨⟨hid, hnamespace, hinput, hprepared⟩, ?_, ?_, hstop, ?_⟩, ?_⟩
    · rw [hunit, hseen]
    · rw [hstart]
    · rw [← hseen]
      exact UInt64.lt_iff_toNat_lt.mp hless
    · rw [checkedAdd_unique hsum]
  · rintro ⟨hextends, rfl⟩
    have hless : seen < entry.stagedUnits := by
      rw [UInt64.lt_iff_toNat_lt]
      exact hseen ▸ hextends.room
    have hsum : (seen + 1).toNat = seen.toNat + (1 : UInt64).toNat := by
      have hone : (1 : UInt64).toNat = 1 := rfl
      rw [UInt64.lt_iff_toNat_lt] at hless
      rw [UInt64.toNat_add]
      omega
    refine ⟨(), ⟨hextends.bound.namespaceId, hextends.bound.source, hextends.bound.input,
      hextends.bound.prepared, ?_, ?_, hextends.stop, hless⟩, seen + 1, hsum, rfl⟩
    · exact UInt64.toNat_inj.mp (hextends.unit.trans hseen.symm)
    · exact UInt64.toNat_inj.mp hextends.start

/-- Continuing the points of a source keeps them begun. -/
theorem extend_begun {byteEnd : Nat} (hbegun : entry.BegunBy own byteEnd)
    (hextends : entry.Extends own byteEnd evidence) (hvalid : ValidEvidence evidence) :
    entry.BegunBy (own ++ [evidence]) evidence.stop.toNat where
  bound := by
    intro other hmem
    rcases List.mem_append.mp hmem with hmem | hmem
    · exact hbegun.bound other hmem
    · rw [List.mem_singleton.mp hmem]
      exact hextends.bound
  units := by
    rw [List.map_append, hbegun.units, List.length_append, List.length_singleton, List.range_succ,
      List.map_singleton, hextends.unit]
  tiled := by
    obtain ⟨-, -, -, -, -, -, -, hless, -⟩ := hvalid
    rw [UInt64.lt_iff_toNat_lt] at hless
    rw [List.map_append, List.map_singleton, PointEvidence.range, hextends.start]
    exact hbegun.tiled.concat (hextends.start ▸ hless)
  room := by
    rw [List.length_append, List.length_singleton]
    exact hextends.room

theorem Tracks.accept (htracks : Tracks entry own progress) (hvalid : ValidEvidence evidence)
    (haccept : progress.accept evidence = .ok next) : Tracks entry (own ++ [evidence]) next := by
  obtain ⟨hextends, rfl⟩ := htracks.accept_eq_ok.mp haccept
  refine ⟨htracks.header, ?_, extend_begun htracks.begun hextends hvalid⟩
  have hbound := entry.stagedUnits.toNat_lt
  have hroom := hextends.room
  rw [UInt64.toNat_add, htracks.seen, List.length_append, List.length_singleton]
  exact Nat.mod_eq_of_lt (Nat.lt_of_le_of_lt hroom hbound)

/-- A progress is complete exactly when its whole entry is covered. -/
theorem Tracks.complete_iff (htracks : Tracks entry own progress) (hwhole : entry.Whole) :
    progress.Complete ↔ entry.CoveredBy own := by
  obtain ⟨hheader, hseen, hbegun⟩ := htracks
  obtain ⟨id, namespaceId, input, prepared, units, seen, byteEnd⟩ := progress
  simp only [SourceProgress.ofEntry, SourceProgress.mk.injEq, and_true] at hheader
  obtain ⟨rfl, rfl, rfl, rfl, rfl⟩ := hheader
  constructor
  · rintro ⟨hunits, hend⟩
    have hlength : own.length = entry.stagedUnits.toNat := by
      rw [← hseen]
      exact congrArg UInt64.toNat hunits
    refine ⟨hbegun.bound, hlength ▸ hbegun.units, ?_, ?_⟩
    · intro hready
      have hlast := hend.resolve_left hready
      exact hlast ▸ hbegun.tiled
    · intro hgap
      rw [hwhole.artifact_eq_none hgap] at hlength
      exact List.length_eq_zero_iff.mp hlength
  · intro hcovered
    have hlength := congrArg List.length hcovered.units
    rw [List.length_map, List.length_range] at hlength
    refine ⟨UInt64.toNat_inj.mp (hseen.trans hlength), ?_⟩
    by_cases hready : entry.artifact = none
    · exact Or.inl hready
    · exact Or.inr (UInt64.toNat_inj.mp (hbegun.tiled.last_unique (hcovered.tiled hready)))

/-- Every point of a covered source continues the ones before it. -/
theorem extends_of_covered {before after : List PointEvidence} {byteEnd : Nat}
    (hcovered : entry.CoveredBy (before ++ evidence :: after))
    (hbegun : entry.BegunBy before byteEnd) : entry.Extends before byteEnd evidence := by
  have hready : entry.artifact ≠ none := by
    intro hgap
    have hnil := hcovered.gap hgap
    simp at hnil
  have htiled := hcovered.tiled hready
  rw [List.map_append, List.map_cons] at htiled
  obtain ⟨middle, hfirst, hstart, hless, hrest⟩ := htiled.split
  obtain rfl := hfirst.last_unique hbegun.tiled
  have hlength := congrArg List.length hcovered.units
  rw [List.length_map, List.length_range, List.length_append, List.length_cons] at hlength
  refine ⟨hcovered.bound evidence (by simp), ?_, hstart, ?_, by omega⟩
  · have hunits := congrArg (fun units => units[before.length]?) hcovered.units
    simp only [List.map_append, List.map_cons] at hunits
    rw [List.getElem?_append_right (by simp), List.length_map, Nat.sub_self,
      List.getElem?_cons_zero, List.getElem?_range (by omega)] at hunits
    exact Option.some.inj hunits
  · exact UInt64.le_iff_toNat_le.mpr hrest.le

end Tracking

/-! ## Points -/

/-- The point carries its ordinal, and the evidence saved for it. -/
structure PointPlaced (table : Table) (sequence : UInt64) (ordinal : Nat) (point : UploadPoint) :
    Prop where
  id : point.id.bytes = be64 sequence ++ be64 (UInt64.ofNat ordinal)
  saved : ∃ value, table[key sequence point.id.bytes]? = some value ∧
    decodeEvidence value = .ok point.evidence

/-- Entries in the order of their identities. -/
def InOrder (entries : List SourceEntry) : Prop :=
  entries.Pairwise fun first second => compare first.id.bytes second.id.bytes = .lt

/-- Every progress records the points of its entry. -/
structure TracksAll (entries : List SourceEntry) (points : List UploadPoint)
    (progress : List SourceProgress) : Prop where
  length : progress.length = entries.length
  tracks : ∀ (index : Nat) entry record, entries[index]? = some entry → progress[index]? = some record →
    Tracks entry (pointsOf entry.id points) record

/-- The totals after the given points. -/
structure Walked (table : Table) (g : Generation) (entries : List SourceEntry)
    (points : List UploadPoint) (totals : PageTotals) : Prop where
  tracks : TracksAll entries points totals.progress
  pointCount : totals.pointCount.toNat = points.length
  room : points.length ≤ g.pointCount.toNat
  placed : ∀ (ordinal : Nat) point, points[ordinal]? = some point →
    PointPlaced table g.sequence ordinal point
  owned : ∀ point ∈ points, ∃ entry ∈ entries, point.evidence.BoundTo entry

theorem pointsOf_concat (id : SourceId) (points : List UploadPoint) (point : UploadPoint) :
    pointsOf id (points ++ [point]) =
      pointsOf id points ++ if point.evidence.sourceId = id then [point.evidence] else [] := by
  simp only [pointsOf, List.map_append, List.map_singleton, List.filter_append]
  congr 1
  by_cases hid : point.evidence.sourceId = id
  · simp [hid]
  · simp [hid]

section Points

variable {entries : List SourceEntry} {points : List UploadPoint} {saved : UploadPoint}
  {progress after : List SourceProgress} {g : Generation} {ordinal : UInt64} {value : Bytes}
  {table : Table} {totals next : PageTotals} {env : Env}

/-- Identities in order are distinct. -/
theorem InOrder.index_unique (hordered : InOrder entries) {first second : Nat}
    {left right : SourceEntry} (hfirst : entries[first]? = some left)
    (hsecond : entries[second]? = some right) (hid : left.id = right.id) : first = second := by
  obtain ⟨hfirstLt, hfirstGet⟩ := List.getElem?_eq_some_iff.mp hfirst
  obtain ⟨hsecondLt, hsecondGet⟩ := List.getElem?_eq_some_iff.mp hsecond
  have hdiffer : ∀ low high : Nat, ∀ (hlow : low < entries.length) (hhigh : high < entries.length),
      entries[low].id = entries[high].id → ¬ low < high := by
    intro low high hlow hhigh hsame hless
    have hcompare := List.pairwise_iff_getElem.mp hordered _ _ hlow hhigh hless
    rw [hsame, Std.ReflOrd.compare_self] at hcompare
    cases hcompare
  have hforward := hdiffer first second hfirstLt hsecondLt (by rw [hfirstGet, hsecondGet, hid])
  have hbackward := hdiffer second first hsecondLt hfirstLt (by rw [hfirstGet, hsecondGet, hid])
  omega

theorem Tracks.id_eq {entry : SourceEntry} {own : List PointEvidence} {record : SourceProgress}
    (htracks : Tracks entry own record) : record.id = entry.id :=
  congrArg SourceProgress.id htracks.header

/-- The search finds the progress of the entry that owns the point. -/
theorem TracksAll.search (htracks : TracksAll entries points progress)
    (hordered : InOrder entries) {index : Nat} {entry : SourceEntry}
    (hentry : entries[index]? = some entry) :
    binarySearchByKey (fun record : SourceProgress => record.id.bytes) entry.id.bytes progress =
      some index := by
  obtain ⟨hlt, hget⟩ := List.getElem?_eq_some_iff.mp hentry
  have hinside : index < progress.length := htracks.length ▸ hlt
  have hids : ∀ position : Nat, ∀ hposition : position < progress.length,
      ∃ other, entries[position]? = some other ∧ progress[position].id = other.id := by
    intro position hposition
    have hother := List.getElem?_eq_getElem (htracks.length ▸ hposition : position < entries.length)
    exact ⟨_, hother, (htracks.tracks position _ _ hother (List.getElem?_eq_getElem hposition)).id_eq⟩
  obtain ⟨other, hother, hid⟩ := hids index hinside
  obtain rfl := Option.some.inj (hentry.symm.trans hother)
  refine binarySearchByKey_complete ?_ (List.getElem?_eq_getElem hinside) (congrArg Octets.bytes hid)
  rw [List.pairwise_iff_getElem]
  intro first second hfirst hsecond hless
  obtain ⟨left, hleft, hleftId⟩ := hids first hfirst
  obtain ⟨right, hright, hrightId⟩ := hids second hsecond
  obtain ⟨hleftLt, hleftGet⟩ := List.getElem?_eq_some_iff.mp hleft
  obtain ⟨hrightLt, hrightGet⟩ := List.getElem?_eq_some_iff.mp hright
  have hcompare := List.pairwise_iff_getElem.mp hordered _ _ hleftLt hrightLt hless
  rw [hleftId, hrightId, ← hleftGet, ← hrightGet]
  exact hcompare

/-- Advancing the progress of one source records its new point; the other
sources have none. -/
theorem TracksAll.set (htracks : TracksAll entries points progress) (hordered : InOrder entries)
    {index : Nat} {entry : SourceEntry} {record : SourceProgress}
    (hentry : entries[index]? = some entry)
    (hrecord : Tracks entry (pointsOf entry.id points ++ [saved.evidence]) record)
    (hid : saved.evidence.sourceId = entry.id) :
    TracksAll entries (points ++ [saved]) (progress.set index record) where
  length := by rw [List.length_set, htracks.length]
  tracks := by
    intro position other found hother hfound
    rw [pointsOf_concat]
    rw [List.getElem?_set] at hfound
    by_cases hsame : index = position
    · subst hsame
      obtain rfl := Option.some.inj (hentry.symm.trans hother)
      obtain ⟨hlt, -⟩ := List.getElem?_eq_some_iff.mp hentry
      rw [if_pos rfl, if_pos (htracks.length ▸ hlt)] at hfound
      obtain rfl := Option.some.inj hfound
      rwa [if_pos hid]
    · rw [if_neg hsame] at hfound
      have hforeign : saved.evidence.sourceId ≠ other.id := by
        intro hclash
        exact hsame (hordered.index_unique hentry hother (hid.symm.trans hclash))
      rw [if_neg hforeign, List.append_nil]
      exact htracks.tracks position other found hother hfound

theorem point_eq_ok :
    point g saved ordinal value progress = .ok after ↔
      saved.id.bytes = be64 g.sequence ++ be64 ordinal ∧
        decodeEvidence value = .ok saved.evidence ∧ ∃ index record accepted,
          binarySearchByKey (fun record : SourceProgress => record.id.bytes)
            saved.evidence.sourceId.bytes progress = some index ∧
          progress[index]? = some record ∧ record.accept saved.evidence = .ok accepted ∧
          after = progress.set index accepted := by
  simp only [point, bind_eq_ok, refuse_eq_ok, okOr_eq_ok, not_or, not_not, pure_eq_ok,
    Except.ok.injEq]
  constructor
  · rintro ⟨_, ⟨hfront, hback⟩, evidence, hevidence, _, rfl, index, hindex, record, hrecord,
      accepted, haccepted, rfl⟩
    refine ⟨?_, hevidence, index, record, accepted, hindex, hrecord, haccepted, rfl⟩
    rw [← hfront, ← hback, List.take_append_drop]
  · rintro ⟨hid, hevidence, index, record, accepted, hindex, hrecord, haccepted, rfl⟩
    refine ⟨(), ⟨?_, ?_⟩, saved.evidence, hevidence, (), rfl, index, hindex, record, hrecord,
      accepted, haccepted, rfl⟩
    · rw [hid, List.take_left' (be64_length _)]
    · rw [hid, List.drop_left' (be64_length _)]

end Points

end Verify

end EliotSearch.Control
