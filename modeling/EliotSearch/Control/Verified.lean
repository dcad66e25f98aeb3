import EliotSearch.Control.Coverage

/-!
# Verified generations

What a generation is when it is whole, stated about its stored rows: every
saved source is complete and covered, the pages follow each other, each point
equals its evidence row and no other evidence is left.  Validation accepts
exactly these generations.
-/

namespace EliotSearch.Control

open EliotSearch.Library
open EliotSearch.Library.Results
open EliotSearch.Library.Words

namespace Verify

section Points

variable {entries : List SourceEntry} {points : List UploadPoint} {saved : UploadPoint}
  {g : Generation} {table : Table} {totals next : PageTotals} {env : Env}

theorem visitPoint_eq_ok :
    visitPoint env table g totals saved = .ok next ↔
      env.probe (totals.site + 1) = none ∧ totals.pointCount < g.pointCount ∧ ∃ value progress,
        table[key g.sequence saved.id.bytes]? = some value ∧
        point g saved totals.pointCount value totals.progress = .ok progress ∧
        next = { totals with pointCount := totals.pointCount + 1, progress } := by
  simp only [visitPoint, bind_eq_ok, refuse_eq_ok, okOr_eq_ok, Env.check_eq_ok, checkedAdd_eq_some,
    pure_eq_ok, Except.ok.injEq, ge_iff_le, UInt64.not_le]
  constructor
  · rintro ⟨_, hprobe, _, hroom, value, hvalue, progress, hprogress, count, hcount, rfl⟩
    exact ⟨hprobe, hroom, value, progress, hvalue, hprogress, by rw [checkedAdd_unique hcount]⟩
  · rintro ⟨hprobe, hroom, value, progress, hvalue, hprogress, rfl⟩
    refine ⟨(), hprobe, (), hroom, value, hvalue, progress, hprogress, totals.pointCount + 1, ?_,
      rfl⟩
    have hone : (1 : UInt64).toNat = 1 := rfl
    have hbound := g.pointCount.toNat_lt
    rw [UInt64.lt_iff_toNat_lt] at hroom
    rw [UInt64.toNat_add]
    omega

/-- A visited point is placed, owned, and recorded in the progress of its
source. -/
theorem Walked.visit (hwalked : Walked table g entries points totals) (hordered : InOrder entries)
    (hvisit : visitPoint env table g totals saved = .ok next) :
    Walked table g entries (points ++ [saved]) next ∧ next.pageCount = totals.pageCount ∧
      next.charged = totals.charged := by
  obtain ⟨-, hroom, value, progress, hvalue, hpoint, rfl⟩ := visitPoint_eq_ok.mp hvisit
  obtain ⟨hid, hevidence, index, record, accepted, hsearch, hrecord, haccept, rfl⟩ :=
    point_eq_ok.mp hpoint
  obtain ⟨found, hfound, hfoundId⟩ := binarySearchByKey_sound hsearch
  obtain rfl := Option.some.inj (hrecord.symm.trans hfound)
  obtain ⟨hinside, -⟩ := List.getElem?_eq_some_iff.mp hrecord
  have hentry := List.getElem?_eq_getElem (hwalked.tracks.length ▸ hinside : index < entries.length)
  have htracks := hwalked.tracks.tracks index _ record hentry hrecord
  have hextends := (htracks.accept_eq_ok.mp haccept).1
  have hvalid := decodeEvidence_valid hevidence
  have hroomNat := UInt64.lt_iff_toNat_lt.mp hroom
  rw [hwalked.pointCount] at hroomNat
  refine ⟨⟨?_, ?_, ?_, ?_, ?_⟩, rfl, rfl⟩
  · exact hwalked.tracks.set hordered hentry (htracks.accept hvalid haccept) hextends.bound.source
  · have hbound := g.pointCount.toNat_lt
    rw [UInt64.toNat_add, hwalked.pointCount, List.length_append, List.length_singleton]
    exact Nat.mod_eq_of_lt (by simp; omega)
  · rw [List.length_append, List.length_singleton]
    exact hroomNat
  · intro ordinal point hordinal
    rw [List.getElem?_append] at hordinal
    split at hordinal
    · exact hwalked.placed ordinal point hordinal
    · rename_i hlast
      rw [List.getElem?_singleton] at hordinal
      split at hordinal
      · rename_i hzero
        obtain rfl := Option.some.inj hordinal
        have hordinal : UInt64.ofNat ordinal = totals.pointCount := by
          have hlength : ordinal = totals.pointCount.toNat := by
            rw [hwalked.pointCount]
            omega
          rw [hlength, UInt64.ofNat_toNat]
        exact ⟨by rw [hid, hordinal], value, hvalue, hevidence⟩
      · cases hordinal
  · intro point hmem
    rcases List.mem_append.mp hmem with hmem | hmem
    · exact hwalked.owned point hmem
    · obtain rfl := List.mem_singleton.mp hmem
      exact ⟨_, List.mem_of_getElem? hentry, hextends.bound⟩

/-- The point that comes next, continuing the input of a saved source, is
visited. -/
theorem Walked.visit_ok (hwalked : Walked table g entries points totals)
    (hordered : InOrder entries) (hquiet : ∀ site, env.probe site = none)
    (hroom : points.length < g.pointCount.toNat)
    (hplaced : PointPlaced table g.sequence points.length saved) {entry : SourceEntry}
    (hentry : entry ∈ entries) (hid : saved.evidence.sourceId = entry.id)
    (hextends : ∀ byteEnd, entry.BegunBy (pointsOf entry.id points) byteEnd →
      entry.Extends (pointsOf entry.id points) byteEnd saved.evidence) :
    ∃ next, visitPoint env table g totals saved = .ok next := by
  obtain ⟨index, hindex, hget⟩ := List.mem_iff_getElem.mp hentry
  have hat : entries[index]? = some entry := List.getElem?_eq_some_iff.mpr ⟨hindex, hget⟩
  have hrecord := List.getElem?_eq_getElem
    (hwalked.tracks.length.symm ▸ hindex : index < totals.progress.length)
  have htracks := hwalked.tracks.tracks index entry _ hat hrecord
  have haccept := htracks.accept_eq_ok.mpr ⟨hextends _ htracks.begun, rfl⟩
  obtain ⟨value, hvalue, hevidence⟩ := hplaced.saved
  have hsearch := hwalked.tracks.search hordered hat
  rw [← hid] at hsearch
  have hordinal : UInt64.ofNat points.length = totals.pointCount := by
    rw [← hwalked.pointCount, UInt64.ofNat_toNat]
  have hpoint := point_eq_ok.mpr ⟨hordinal ▸ hplaced.id, hevidence, index, _, _, hsearch, hrecord,
    haccept, rfl⟩
  refine ⟨_, visitPoint_eq_ok.mpr ⟨hquiet _, ?_, value, _, hvalue, hpoint, rfl⟩⟩
  rw [UInt64.lt_iff_toNat_lt, hwalked.pointCount]
  exact hroom

end Points

/-! ## Pages -/

/-- The rows hold the pages, numbered from zero. -/
structure PageRows (sequence : UInt64) (rows : List (Bytes × Bytes)) (pages : List UploadPage) :
    Prop where
  keys : rows.map Prod.fst =
    (List.range pages.length).map fun page => key sequence (be64 (UInt64.ofNat page))
  decoded : List.Forall₂ (fun row page => decodePage row.2 = .ok page) rows pages

def storedBytes (rows : List (Bytes × Bytes)) : Nat := (rows.map fun row => row.2.length).sum

/-- The points of the pages, in their order. -/
def pointsIn (pages : List UploadPage) : List UploadPoint := pages.flatMap (·.points)

/-- The totals after the given pages. -/
structure PagesWalked (table : Table) (g : Generation) (entries : List SourceEntry)
    (rows : List (Bytes × Bytes)) (pages : List UploadPage) (totals : PageTotals) : Prop where
  stored : PageRows g.sequence rows pages
  walked : Walked table g entries (pointsIn pages) totals
  pageCount : totals.pageCount.toNat = pages.length
  room : pages.length ≤ g.pageCount.toNat
  charged : totals.charged.toNat = storedBytes rows
  bounded : totals.charged ≤ maxStagedBytes

section Pages

variable {entries : List SourceEntry} {pages : List UploadPage} {rows : List (Bytes × Bytes)}
  {row : Bytes × Bytes} {page : UploadPage} {g : Generation} {table : Table}
  {totals next : PageTotals} {env : Env}

theorem pointsIn_concat (pages : List UploadPage) (page : UploadPage) :
    pointsIn (pages ++ [page]) = pointsIn pages ++ page.points := by
  simp [pointsIn]

theorem PageRows.concat {sequence : UInt64} (hrows : PageRows sequence rows pages)
    (hkey : row.1 = key sequence (be64 (UInt64.ofNat pages.length)))
    (hdecode : decodePage row.2 = .ok page) :
    PageRows sequence (rows ++ [row]) (pages ++ [page]) where
  keys := by
    rw [List.map_append, hrows.keys, List.length_append, List.length_singleton, List.range_succ,
      List.map_append, List.map_singleton, List.map_singleton, hkey]
  decoded := List.rel_append hrows.decoded (.cons hdecode .nil)

theorem decodePage_length {bytes : Bytes} (hdecode : decodePage bytes = .ok page) :
    bytes.length ≤ maxPageBytes := by
  simp only [decodePage, bind_eq_ok, refuse_eq_ok, Nat.not_lt] at hdecode
  obtain ⟨_, hlength, -⟩ := hdecode
  exact hlength

theorem visitPage_eq_ok :
    visitPage env table g totals row = .ok next ↔
      totals.pageCount < g.pageCount ∧ row.1 = key g.sequence (be64 totals.pageCount) ∧
        ∃ charged page walked,
          charged.toNat = totals.charged.toNat + row.2.length ∧ charged ≤ maxStagedBytes ∧
          decodePage row.2 = .ok page ∧
          page.points.foldlM (visitPoint env table g) { totals with charged } = .ok walked ∧
          walked.pageCount.toNat + 1 < 2 ^ 64 ∧
          next = { walked with pageCount := walked.pageCount + 1 } := by
  have hword : ∀ page, decodePage row.2 = .ok page →
      (UInt64.ofNat row.2.length).toNat = row.2.length := by
    intro page hdecode
    exact UInt64.toNat_ofNat_of_lt' (Nat.lt_of_le_of_lt (decodePage_length hdecode) (by decide))
  have hone : (1 : UInt64).toNat = 1 := rfl
  simp only [visitPage, bind_eq_ok, refuse_eq_ok, okOr_eq_ok, Option.filter_eq_some_iff,
    checkedAdd_eq_some, decide_eq_true_eq, pure_eq_ok, Except.ok.injEq, not_or, not_not, ge_iff_le,
    UInt64.not_le]
  constructor
  · rintro ⟨_, ⟨hroom, hkey⟩, charged, ⟨hcharged, hbound⟩, page, hdecode, walked, hwalked, count,
      hcount, rfl⟩
    rw [hword page hdecode] at hcharged
    refine ⟨hroom, hkey, charged, page, walked, hcharged, hbound, hdecode, hwalked, ?_, ?_⟩
    · have hlt := count.toNat_lt
      omega
    · rw [checkedAdd_unique hcount]
  · rintro ⟨hroom, hkey, charged, page, walked, hcharged, hbound, hdecode, hwalked, hlt, rfl⟩
    refine ⟨(), ⟨hroom, hkey⟩, charged, ⟨?_, hbound⟩, page, hdecode, walked, hwalked,
      walked.pageCount + 1, ?_, rfl⟩
    · rw [hword page hdecode]
      exact hcharged
    · rw [UInt64.toNat_add]
      omega

/-- The points of a page are walked after those of the pages before it. -/
theorem Walked.visits {points visited : List UploadPoint}
    (hwalked : Walked table g entries points totals) (hordered : InOrder entries)
    (hvisits : visited.foldlM (visitPoint env table g) totals = .ok next) :
    Walked table g entries (points ++ visited) next ∧ next.pageCount = totals.pageCount ∧
      next.charged = totals.charged := by
  refine foldlM_invariant (fun seen state => Walked table g entries (points ++ seen) state ∧
    state.pageCount = totals.pageCount ∧ state.charged = totals.charged) hvisits ?_ ?_
  · rw [List.append_nil]
    exact ⟨hwalked, rfl, rfl⟩
  · rintro seen state value after - ⟨hstate, hpage, hcharged⟩ hvisit
    obtain ⟨hnext, hnextPage, hnextCharged⟩ := hstate.visit hordered hvisit
    rw [← List.append_assoc]
    exact ⟨hnext, hnextPage.trans hpage, hnextCharged.trans hcharged⟩

theorem Walked.recharge {points : List UploadPoint} (charged pageCount : UInt64)
    (hwalked : Walked table g entries points totals) :
    Walked table g entries points { totals with charged, pageCount } :=
  ⟨hwalked.tracks, hwalked.pointCount, hwalked.room, hwalked.placed, hwalked.owned⟩

theorem PagesWalked.start (table : Table) (g : Generation) (entries : List SourceEntry) :
    PagesWalked table g entries [] [] ⟨0, 0, 0, entries.map SourceProgress.ofEntry⟩ where
  stored := ⟨rfl, .nil⟩
  walked := by
    refine ⟨⟨by simp, ?_⟩, rfl, Nat.zero_le _, ?_, fun _ hmem => absurd hmem List.not_mem_nil⟩
    · intro index entry record hentry hrecord
      rw [List.getElem?_map, hentry, Option.map_some, Option.some.injEq] at hrecord
      subst hrecord
      exact Tracks.start entry
    · intro ordinal point hpoint
      simp [pointsIn] at hpoint
  pageCount := rfl
  room := Nat.zero_le _
  charged := rfl
  bounded := UInt64.le_iff_toNat_le.mpr (Nat.zero_le _)

/-- A visited page adds its points. -/
theorem PagesWalked.visit (hwalked : PagesWalked table g entries rows pages totals)
    (hordered : InOrder entries) (hvisit : visitPage env table g totals row = .ok next) :
    ∃ page, PagesWalked table g entries (rows ++ [row]) (pages ++ [page]) next := by
  obtain ⟨hroom, hkey, charged, page, walked, hcharged, hbound, hdecode, hpoints, hlt, rfl⟩ :=
    visitPage_eq_ok.mp hvisit
  obtain ⟨hpointsWalked, hpage, hsame⟩ :=
    (hwalked.walked.recharge charged totals.pageCount).visits hordered hpoints
  rw [UInt64.lt_iff_toNat_lt, hwalked.pageCount] at hroom
  have hcount : UInt64.ofNat pages.length = totals.pageCount := by
    rw [← hwalked.pageCount, UInt64.ofNat_toNat]
  refine ⟨page, hwalked.stored.concat (hcount ▸ hkey) hdecode, ?_, ?_, ?_, ?_, ?_⟩
  · rw [pointsIn_concat]
    exact hpointsWalked.recharge walked.charged (walked.pageCount + 1)
  · rw [UInt64.toNat_add, hpage, hwalked.pageCount, List.length_append, List.length_singleton]
    have hbound := g.pageCount.toNat_lt
    exact Nat.mod_eq_of_lt (by simp; omega)
  · rw [List.length_append, List.length_singleton]
    exact hroom
  · have hlast : walked.charged = charged := hsame
    rw [hlast, hcharged, hwalked.charged]
    simp [storedBytes]
  · have hlast : walked.charged = charged := hsame
    rw [hlast]
    exact hbound

end Pages

/-! ## Points of a whole generation -/

/-- Every point of a generation is placed and owned, every saved source is
covered, and no other evidence is stored. -/
structure PointsVerified (table : Table) (g : Generation) (entries : List SourceEntry)
    (points : List UploadPoint) : Prop where
  count : points.length = g.pointCount.toNat
  placed : ∀ (ordinal : Nat) point, points[ordinal]? = some point →
    PointPlaced table g.sequence ordinal point
  owned : ∀ point ∈ points, ∃ entry ∈ entries, point.evidence.BoundTo entry
  covered : ∀ entry ∈ entries, entry.CoveredBy (pointsOf entry.id points)
  only : ∀ suffix value, table[key g.sequence suffix]? = some value →
    ∃ ordinal < g.pointCount, suffix = be64 g.sequence ++ be64 ordinal

section Completeness

variable {entries : List SourceEntry} {pages : List UploadPage} {rows : List (Bytes × Bytes)}
  {row : Bytes × Bytes} {page : UploadPage} {g : Generation} {table : Table}
  {totals : PageTotals} {env : Env} {points before after : List UploadPoint} {saved : UploadPoint}

theorem pointsOf_append (id : SourceId) (first second : List UploadPoint) :
    pointsOf id (first ++ second) = pointsOf id first ++ pointsOf id second := by
  simp [pointsOf]

theorem pointsOf_cons_of_eq {id : SourceId} (hid : saved.evidence.sourceId = id)
    (rest : List UploadPoint) : pointsOf id (saved :: rest) = saved.evidence :: pointsOf id rest := by
  simp [pointsOf, hid]

/-- Each point of a whole generation is visited after those before it. -/
theorem PointsVerified.visit (hpoints : PointsVerified table g entries points)
    (hordered : InOrder entries) (hquiet : ∀ site, env.probe site = none)
    (hsplit : points = before ++ saved :: after)
    (hwalked : Walked table g entries before totals) :
    ∃ next, visitPoint env table g totals saved = .ok next ∧
      Walked table g entries (before ++ [saved]) next ∧ next.pageCount = totals.pageCount ∧
      next.charged = totals.charged := by
  have hmem : saved ∈ points := by simp [hsplit]
  obtain ⟨entry, hentry, hbound⟩ := hpoints.owned saved hmem
  have hroom : before.length < g.pointCount.toNat := by
    rw [← hpoints.count, hsplit]
    simp
  have hplaced := hpoints.placed before.length saved (by simp [hsplit])
  have hcovered := hpoints.covered entry hentry
  rw [hsplit, pointsOf_append, pointsOf_cons_of_eq hbound.source] at hcovered
  obtain ⟨next, hvisit⟩ := hwalked.visit_ok hordered hquiet hroom hplaced hentry hbound.source
    fun byteEnd hbegun => extends_of_covered hcovered hbegun
  exact ⟨next, hvisit, hwalked.visit hordered hvisit⟩

theorem PointsVerified.visits (hpoints : PointsVerified table g entries points)
    (hordered : InOrder entries) (hquiet : ∀ site, env.probe site = none)
    {visited : List UploadPoint} (hsplit : points = before ++ visited ++ after)
    (hwalked : Walked table g entries before totals) :
    ∃ next, visited.foldlM (visitPoint env table g) totals = .ok next ∧
      next.pageCount = totals.pageCount := by
  have hfold : ∃ next, visited.foldlM (visitPoint env table g) totals = .ok next ∧
      Walked table g entries (before ++ visited) next ∧ next.pageCount = totals.pageCount := by
    refine foldlM_ok (fun seen state => Walked table g entries (before ++ seen) state ∧
      state.pageCount = totals.pageCount) ⟨(List.append_nil before).symm ▸ hwalked, rfl⟩ ?_
    rintro seen value rest state hvisited ⟨hstate, hpage⟩
    have hposition : points = (before ++ seen) ++ value :: (rest ++ after) := by
      rw [hsplit, hvisited]
      simp
    obtain ⟨next, hvisit, hnext, hnextPage, -⟩ := hpoints.visit hordered hquiet hposition hstate
    refine ⟨next, hvisit, ?_, hnextPage.trans hpage⟩
    rw [← List.append_assoc]
    exact hnext
  obtain ⟨next, hvisits, -, hpage⟩ := hfold
  exact ⟨next, hvisits, hpage⟩

/-- Every page of a whole generation is visited after those before it. -/
theorem PointsVerified.visitPage_ok (hpoints : PointsVerified table g entries (pointsIn pages))
    (hordered : InOrder entries) (hquiet : ∀ site, env.probe site = none)
    {first last : List UploadPage} (hsplit : pages = first ++ page :: last)
    (hcount : pages.length = g.pageCount.toNat)
    (hkey : row.1 = key g.sequence (be64 (UInt64.ofNat first.length)))
    (hdecode : decodePage row.2 = .ok page)
    (hcharge : storedBytes rows + row.2.length ≤ maxStagedBytes.toNat)
    (hwalked : PagesWalked table g entries rows first totals) :
    ∃ next, visitPage env table g totals row = .ok next := by
  have hroom : first.length < g.pageCount.toNat := by
    rw [← hcount, hsplit]
    simp
  have hnumber : UInt64.ofNat first.length = totals.pageCount := by
    rw [← hwalked.pageCount, UInt64.ofNat_toNat]
  have hlength := decodePage_length hdecode
  have hword : (UInt64.ofNat row.2.length).toNat = row.2.length :=
    UInt64.toNat_ofNat_of_lt' (Nat.lt_of_le_of_lt hlength (by decide))
  have hlimit : maxStagedBytes.toNat = 536870912 := rfl
  have hcharged : (totals.charged + UInt64.ofNat row.2.length).toNat =
      totals.charged.toNat + row.2.length := by
    rw [UInt64.toNat_add, hword, hwalked.charged]
    omega
  have hposition : pointsIn pages = pointsIn first ++ page.points ++ pointsIn last := by
    rw [hsplit]
    simp [pointsIn]
  obtain ⟨walked, hvisits, hpage⟩ := hpoints.visits hordered hquiet hposition
    (hwalked.walked.recharge (totals.charged + UInt64.ofNat row.2.length) totals.pageCount)
  refine ⟨_, visitPage_eq_ok.mpr ⟨?_, hnumber ▸ hkey, _, page, walked, hcharged, ?_, hdecode,
    hvisits, ?_, rfl⟩⟩
  · rw [UInt64.lt_iff_toNat_lt, hwalked.pageCount]
    exact hroom
  · rw [UInt64.le_iff_toNat_le, hcharged, hwalked.charged]
    exact hcharge
  · have hbound := g.pageCount.toNat_lt
    rw [hpage]
    change totals.pageCount.toNat + 1 < 2 ^ 64
    rw [hwalked.pageCount]
    omega

end Completeness

/-! ## Evidence rows -/

/-- The key of the evidence of one point. -/
def EvidenceKey (g : Generation) (rowKey : Bytes) : Prop :=
  ∃ ordinal < g.pointCount, rowKey = key g.sequence (be64 g.sequence ++ be64 ordinal)

section Evidence

variable {g : Generation} {count next : UInt64} {row : Bytes × Bytes} {table : Table} {env : Env}
  {site : Nat}

theorem visitEvidence_eq_ok (hrow : be64 g.sequence <+: row.1) :
    visitEvidence g count row = .ok next ↔
      EvidenceKey g row.1 ∧ next.toNat = count.toNat + 1 ∧ next ≤ g.pointCount := by
  obtain ⟨suffix, hsuffix⟩ := hrow
  have hdrop : row.1.drop 8 = suffix := by rw [← hsuffix, List.drop_left' (be64_length _)]
  have hlength : row.1.length = 8 + suffix.length := by
    rw [← hsuffix, List.length_append, be64_length]
  have hone : (1 : UInt64).toNat = 1 := rfl
  have hlast : row.1.drop 16 = suffix.drop 8 := by rw [← hdrop, List.drop_drop]
  simp only [visitEvidence, bind_eq_ok, refuse_eq_ok, okOr_eq_ok, Option.filter_eq_some_iff,
    checkedAdd_eq_some, decide_eq_true_eq, not_or, not_not, ge_iff_le, UInt64.not_le, hdrop, hlength,
    hlast, hone]
  constructor
  · rintro ⟨_, ⟨hsize, hfront⟩, _, hordinal, hnext, hbound⟩
    refine ⟨⟨_, hordinal, ?_⟩, hnext, hbound⟩
    have hordinalLength : (suffix.drop 8).length = 8 := by
      rw [List.length_drop]
      omega
    rw [be64_ofNat_beValue hordinalLength, key, ← hsuffix]
    congr 1
    rw [← hfront, List.take_append_drop]
  · rintro ⟨⟨ordinal, hordinal, hkey⟩, hnext, hbound⟩
    have hwhole : suffix = be64 g.sequence ++ be64 ordinal := by
      rw [hkey, key, List.append_right_inj] at hsuffix
      exact hsuffix
    subst hwhole
    refine ⟨(), ⟨by simp, List.take_left' (be64_length _)⟩, (), ?_, hnext, hbound⟩
    rw [List.drop_left' (be64_length _), ofNat_beValue_be64]
    exact hordinal

/-- Only evidence of the points of the generation is stored under it. -/
theorem evidenceCount_only {result : Unit}
    (hcount : evidenceCount env table g site = .ok result) {suffix value : Bytes}
    (hvalue : table[key g.sequence suffix]? = some value) :
    ∃ ordinal < g.pointCount, suffix = be64 g.sequence ++ be64 ordinal := by
  simp only [evidenceCount, bind_eq_ok] at hcount
  obtain ⟨last, hwalk, -⟩ := hcount
  have hkeys : ∀ row ∈ table.scan (be64 g.sequence), EvidenceKey g row.1 := by
    refine foldlM_invariant (fun seen _ => ∀ row ∈ seen, EvidenceKey g row.1)
      (Table.foldlM_of_walk hwalk) (fun _ hmem => absurd hmem List.not_mem_nil) ?_
    rintro seen state ⟨rowKey, found⟩ next hmem hseen hvisit other hother
    rcases List.mem_append.mp hother with hother | hother
    · exact hseen other hother
    · rw [List.mem_singleton.mp hother]
      exact ((visitEvidence_eq_ok (Table.mem_scan.mp hmem).2).mp hvisit).1
  obtain ⟨ordinal, hordinal, hkey⟩ := hkeys _ (Table.mem_scan.mpr ⟨hvalue, ⟨suffix, rfl⟩⟩)
  exact ⟨ordinal, hordinal, (key_injective hkey).2⟩

/-- Uninterrupted, the count succeeds when there are as many rows as points and
each belongs to a point. -/
theorem evidenceCount_ok (hquiet : ∀ site, env.probe site = none)
    (hlength : (table.scan (be64 g.sequence)).length = g.pointCount.toNat)
    (hkeys : ∀ row ∈ table.scan (be64 g.sequence), EvidenceKey g row.1) :
    evidenceCount env table g site = .ok () := by
  have hcheck : ∀ count : UInt64, env.check publicationFault (site + count.toNat) = .ok () :=
    fun count => Env.check_eq_ok.mpr (hquiet _)
  have hfold : ∃ last, (table.scan (be64 g.sequence)).foldlM (visitEvidence g) 0 = .ok last ∧
      last.toNat = (table.scan (be64 g.sequence)).length := by
    refine foldlM_ok (fun seen (count : UInt64) => count.toNat = seen.length) rfl ?_
    rintro seen row rest state hrows hseen
    have hmem : row ∈ table.scan (be64 g.sequence) := by simp [hrows]
    have hroom : seen.length + 1 ≤ g.pointCount.toNat := by
      rw [← hlength, hrows]
      simp
    have hbound := g.pointCount.toNat_lt
    have hnext : (state + 1).toNat = state.toNat + 1 := by
      rw [UInt64.toNat_add, hseen]
      exact Nat.mod_eq_of_lt (by simp; omega)
    refine ⟨state + 1, (visitEvidence_eq_ok (Table.mem_scan.mp hmem).2).mpr
      ⟨hkeys row hmem, hnext, ?_⟩, ?_⟩
    · rw [UInt64.le_iff_toNat_le, hnext, hseen]
      exact hroom
    · rw [hnext, hseen, List.length_append, List.length_singleton]
  obtain ⟨last, hlast, hcount⟩ := hfold
  have hsame : last = g.pointCount := UInt64.toNat_inj.mp (hcount.trans hlength)
  rw [evidenceCount, Table.walk_eq_foldlM hcheck, hlast, ok_bind,
    refuse_of_not (not_not.mpr hsame)]

end Evidence

end Verify

/-! ## Whole generations -/

open Verify

/-- A whole generation: its rows hold the given entries and pages and nothing
else, and the points of the pages cover the inputs of the entries. -/
structure Verified (db : Db) (g : Generation) (entries : List SourceEntry)
    (pages : List UploadPage) : Prop where
  savedSources : ∃ table, db.generationSources = some table ∧ SourcesVerified table g entries
  savedPages : ∃ table, db.generationPages = some table ∧
    PageRows g.sequence (table.scan (be64 g.sequence)) pages ∧
    storedBytes (table.scan (be64 g.sequence)) ≤ maxStagedBytes.toNat
  pageCount : pages.length = g.pageCount.toNat
  savedPoints : ∃ table, db.generationEvidence = some table ∧
    PointsVerified table g entries (pointsIn pages)

/-- Saved sources are listed in the order of their identities. -/
theorem SourcesVerified.inOrder {table : Table} {g : Generation} {entries : List SourceEntry}
    (hverified : SourcesVerified table g entries) : InOrder entries := by
  have hsorted := Table.scan_sorted table (be64 g.sequence)
  have hrows := hverified.rows
  generalize table.scan (be64 g.sequence) = rows at hsorted hrows
  have hkeys : rows.map Prod.fst = entries.map fun entry => key g.sequence entry.id.bytes := by
    clear hsorted hverified
    induction hrows with
    | nil => rfl
    | cons hrow _ ih => rw [List.map_cons, List.map_cons, hrow.1, ih]
  have hpairs : (rows.map Prod.fst).Pairwise fun first second => compare first second = .lt :=
    List.pairwise_map.mpr hsorted
  rw [hkeys, List.pairwise_map] at hpairs
  refine hpairs.imp fun hless => ?_
  rwa [key, key, Table.compare_append_left] at hless

/-- Validation accepts only whole generations. -/
theorem verified_of_generation {env : Env} {db : Db} {g : Generation} {result : Unit}
    (haccepts : Verify.generation env db g = .ok result) :
    ∃ entries pages, Verified db g entries pages := by
  simp only [Verify.generation, bind_eq_ok, okOr_eq_ok, refuse_eq_ok, not_or, not_not, not_exists,
    not_and] at haccepts
  obtain ⟨progress, hsources, pageTable, hpageTable, evidence, hevidence, totals, hwalk, _,
    ⟨hpageCount, hpointCount, hcomplete⟩, hcount⟩ := haccepts
  obtain ⟨table, entries, htable, hverified, rfl⟩ :=
    walkSources_verified fromEntry_selects hsources
  have hordered := hverified.inOrder
  have hpages : ∃ pages, PagesWalked evidence g entries (pageTable.scan (be64 g.sequence)) pages
      totals := by
    refine foldlM_invariant (fun rows totals => ∃ pages,
      PagesWalked evidence g entries rows pages totals) (Table.foldlM_of_walk hwalk)
      ⟨[], PagesWalked.start evidence g entries⟩ ?_
    rintro seen state row next - ⟨pages, hwalked⟩ hvisit
    obtain ⟨page, hnext⟩ := hwalked.visit hordered hvisit
    exact ⟨_, hnext⟩
  obtain ⟨pages, hwalked⟩ := hpages
  have hlength : pages.length = g.pageCount.toNat := by rw [← hwalked.pageCount, hpageCount]
  refine ⟨entries, pages, ⟨table, htable, hverified⟩, ⟨pageTable, hpageTable, hwalked.stored, ?_⟩,
    hlength, evidence, hevidence, ?_, hwalked.walked.placed, hwalked.walked.owned, ?_, ?_⟩
  · rw [← hwalked.charged]
    exact UInt64.le_iff_toNat_le.mp hwalked.bounded
  · rw [← hwalked.walked.pointCount, hpointCount]
  · intro entry hentry
    obtain ⟨index, hindex, hget⟩ := List.mem_iff_getElem.mp hentry
    have htracked := hwalked.walked.tracks
    have hrecord := List.getElem?_eq_getElem
      (htracked.length.symm ▸ hindex : index < totals.progress.length)
    have htracks := htracked.tracks index entry _ (List.getElem?_eq_some_iff.mpr ⟨hindex, hget⟩)
      hrecord
    refine (htracks.complete_iff (hverified.whole entry hentry)).mp ?_
    exact hcomplete _ (List.mem_of_getElem? hrecord)
  · intro suffix value hvalue
    exact evidenceCount_only hcount hvalue

/-- Every evidence row of a whole generation belongs to a point. -/
theorem Verify.PointsVerified.evidenceKey {table : Table} {g : Generation}
    {entries : List SourceEntry} {points : List UploadPoint}
    (hpoints : PointsVerified table g entries points) :
    ∀ row ∈ table.scan (be64 g.sequence), EvidenceKey g row.1 := by
  rintro ⟨rowKey, value⟩ hmem
  obtain ⟨hvalue, suffix, rfl⟩ := Table.mem_scan.mp hmem
  obtain ⟨ordinal, hordinal, rfl⟩ := hpoints.only suffix value hvalue
  exact ⟨ordinal, hordinal, rfl⟩

/-- The evidence rows of a whole generation are as many as its points. -/
theorem Verify.PointsVerified.length_eq {table : Table} {g : Generation} {entries : List SourceEntry}
    {points : List UploadPoint} (hpoints : PointsVerified table g entries points) :
    (table.scan (be64 g.sequence)).length = g.pointCount.toNat := by
  have hdistinct : ((table.scan (be64 g.sequence)).map Prod.fst).Nodup := by
    rw [Table.scan_eq_filter]
    exact (Table.keys_nodup table).sublist (List.filter_sublist.map Prod.fst)
  let keys := (List.range g.pointCount.toNat).map fun ordinal =>
    key g.sequence (be64 g.sequence ++ be64 (UInt64.ofNat ordinal))
  have hkeysNodup : keys.Nodup := by
    refine (List.nodup_map_iff_inj_on List.nodup_range).mpr ?_
    intro first hfirst second hsecond hsame
    have hbound := g.pointCount.toNat_lt
    have hwords := be64_injective (List.append_cancel_left (key_injective hsame).2)
    rw [List.mem_range] at hfirst hsecond
    rw [← UInt64.toNat_inj, UInt64.toNat_ofNat_of_lt' (Nat.lt_trans hfirst hbound),
      UInt64.toNat_ofNat_of_lt' (Nat.lt_trans hsecond hbound)] at hwords
    exact hwords
  have hinto : (table.scan (be64 g.sequence)).map Prod.fst ⊆ keys := by
    intro rowKey hmem
    obtain ⟨row, hrow, rfl⟩ := List.mem_map.mp hmem
    obtain ⟨ordinal, hordinal, hkey⟩ := hpoints.evidenceKey row hrow
    refine List.mem_map.mpr ⟨ordinal.toNat, List.mem_range.mpr (UInt64.lt_iff_toNat_lt.mp hordinal),
      ?_⟩
    rw [UInt64.ofNat_toNat, hkey]
  have honto : keys ⊆ (table.scan (be64 g.sequence)).map Prod.fst := by
    intro rowKey hmem
    obtain ⟨ordinal, hordinal, rfl⟩ := List.mem_map.mp hmem
    rw [List.mem_range, ← hpoints.count] at hordinal
    have hplaced := hpoints.placed ordinal _ (List.getElem?_eq_getElem hordinal)
    obtain ⟨value, hvalue, -⟩ := hplaced.saved
    rw [hplaced.id] at hvalue
    exact List.mem_map.mpr ⟨_, Table.mem_scan.mpr ⟨hvalue, ⟨_, rfl⟩⟩, rfl⟩
  have hle := (List.subperm_of_subset hdistinct hinto).length_le
  have hge := (List.subperm_of_subset hkeysNodup honto).length_le
  rw [List.length_map, List.length_map, List.length_range] at hle hge
  exact Nat.le_antisymm hle hge

/-- Uninterrupted, the pages of a whole generation are walked to their end. -/
theorem Verify.PointsVerified.walk_ok {env : Env} {g : Generation} {entries : List SourceEntry}
    {pages : List UploadPage} {pageTable evidence : Table}
    (hpoints : PointsVerified evidence g entries (pointsIn pages)) (hordered : InOrder entries)
    (hquiet : ∀ site, env.probe site = none)
    (hrows : PageRows g.sequence (pageTable.scan (be64 g.sequence)) pages)
    (hcount : pages.length = g.pageCount.toNat)
    (hbytes : storedBytes (pageTable.scan (be64 g.sequence)) ≤ maxStagedBytes.toNat) :
    ∃ totals, (pageTable.scan (be64 g.sequence)).foldlM (visitPage env evidence g)
      ⟨0, 0, 0, entries.map SourceProgress.ofEntry⟩ = .ok totals ∧
        PagesWalked evidence g entries (pageTable.scan (be64 g.sequence)) pages totals := by
  have hunique : Relator.RightUnique fun (row : Bytes × Bytes) page =>
      decodePage row.2 = .ok page :=
    fun _ _ _ hfirst hsecond => Except.ok.inj (hfirst.symm.trans hsecond)
  have hfold : ∃ totals, (pageTable.scan (be64 g.sequence)).foldlM (visitPage env evidence g)
      ⟨0, 0, 0, entries.map SourceProgress.ofEntry⟩ = .ok totals ∧ ∃ found,
        PagesWalked evidence g entries (pageTable.scan (be64 g.sequence)) found totals := by
    refine foldlM_ok (fun rows totals => ∃ found,
      PagesWalked evidence g entries rows found totals)
      ⟨[], PagesWalked.start evidence g entries⟩ ?_
    rintro seen row rest state hsplit ⟨found, hwalked⟩
    have hdecoded := hrows.decoded
    rw [hsplit] at hdecoded
    obtain ⟨first, page, last, hpages, hfirst, hpage⟩ := forall₂_split hdecoded
    obtain rfl := List.right_unique_forall₂' hunique hwalked.stored.decoded hfirst
    have hkey : row.1 = key g.sequence (be64 (UInt64.ofNat found.length)) := by
      have hkeys := congrArg (fun keys => keys[seen.length]?) hrows.keys
      simp only [hsplit, List.map_append, List.map_cons] at hkeys
      rw [List.getElem?_append_right (by simp), List.length_map, Nat.sub_self,
        List.getElem?_cons_zero, List.getElem?_map, List.getElem?_range] at hkeys
      · rw [← hfirst.length_eq]
        exact Option.some.inj hkeys
      · rw [hpages, List.length_append, hfirst.length_eq, List.length_cons]
        omega
    have hcharge : storedBytes seen + row.2.length ≤ maxStagedBytes.toNat := by
      refine Nat.le_trans ?_ hbytes
      simp only [hsplit, storedBytes, List.map_append, List.map_cons, List.sum_append,
        List.sum_cons]
      omega
    obtain ⟨next, hvisit⟩ := hpoints.visitPage_ok hordered hquiet hpages hcount hkey hpage hcharge
      hwalked
    obtain ⟨visited, hnext⟩ := hwalked.visit hordered hvisit
    exact ⟨next, hvisit, _, hnext⟩
  obtain ⟨totals, htotals, found, hwalked⟩ := hfold
  obtain rfl := List.right_unique_forall₂' hunique hwalked.stored.decoded hrows.decoded
  exact ⟨totals, htotals, hwalked⟩

/-- Uninterrupted, validation accepts every whole generation. -/
theorem Verified.accepted {env : Env} {db : Db} {g : Generation} {entries : List SourceEntry}
    {pages : List UploadPage} (hverified : Verified db g entries pages)
    (hquiet : ∀ site, env.probe site = none) : Verify.generation env db g = .ok () := by
  obtain ⟨table, htable, hsources⟩ := hverified.savedSources
  obtain ⟨pageTable, hpageTable, hrows, hbytes⟩ := hverified.savedPages
  obtain ⟨evidence, hevidence, hpoints⟩ := hverified.savedPoints
  obtain ⟨totals, htotals, hwalked⟩ :=
    hpoints.walk_ok hsources.inOrder hquiet hrows hverified.pageCount hbytes
  have hguard : ¬ (totals.pageCount ≠ g.pageCount ∨ totals.pointCount ≠ g.pointCount ∨
      ∃ source ∈ totals.progress, ¬ source.Complete) := by
    rintro (hpageCount | hpointCount | ⟨record, hmem, hincomplete⟩)
    · exact hpageCount (UInt64.toNat_inj.mp (hwalked.pageCount.trans hverified.pageCount))
    · exact hpointCount (UInt64.toNat_inj.mp (hwalked.walked.pointCount.trans hpoints.count))
    · obtain ⟨index, hindex, hget⟩ := List.mem_iff_getElem.mp hmem
      have htracked := hwalked.walked.tracks
      have hentry := List.getElem?_eq_getElem (htracked.length ▸ hindex : index < entries.length)
      have htracks := htracked.tracks index _ record hentry
        (List.getElem?_eq_some_iff.mpr ⟨hindex, hget⟩)
      have hentryMem := List.mem_of_getElem? hentry
      exact hincomplete ((htracks.complete_iff (hsources.whole _ hentryMem)).mpr
        (hpoints.covered _ hentryMem))
  have hcheck : ∀ totals : PageTotals, env.check publicationFault totals.site = .ok () :=
    fun totals => Env.check_eq_ok.mpr (hquiet _)
  rw [Verify.generation, Verify.sources,
    walkSources_ok 0 fromEntry_selects hquiet htable hsources, ok_bind, hpageTable, okOr_some,
    ok_bind, hevidence, okOr_some, ok_bind, Table.walk_eq_foldlM hcheck, htotals, ok_bind,
    refuse_of_not hguard, ok_bind, evidenceCount_ok hquiet hpoints.length_eq hpoints.evidenceKey]

end EliotSearch.Control
