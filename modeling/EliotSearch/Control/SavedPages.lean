import EliotSearch.Control.PageFormats
import EliotSearch.Control.PublishedView

/-!
# Saved pages

The pages and sources of a served generation are read back one at a time, each in
a transaction of its own.  While their tables stay as they were validated, every
read returns a validated page or source.
-/

namespace EliotSearch.Control

open EliotSearch.Library
open EliotSearch.Library.Results
open EliotSearch.Library.Words
open Verify

/-- Reads one saved page of the current generation, or of the pending one. -/
def readSavedPage (db : Db) (generation : Generation) (page : UInt64) :
    Except PublicationError UploadPage := do
  let state ← readState db
  refuse (page ≥ generation.pageCount ∨ ¬ (state.current = some generation ∨
    ∃ pending ∈ state.pending, pending.generation = generation)) .stale
  let table ← okOr db.generationPages .corrupt
  let value ← okOr table[key generation.sequence (be64 page)]? .corrupt
  decodePage value

/-- The generation is the current one, or the sealed pending one. -/
def Available (db : Db) (g : Generation) : Prop :=
  ∃ state, readState db = .ok state ∧ (state.current = some g ∨
    ∃ pending ∈ state.pending, pending.captureComplete = true ∧ pending.generation = g)

/-- The saved pages and sources are those of another database. -/
structure SameSaved (db later : Db) : Prop where
  sources : later.generationSources = db.generationSources
  pages : later.generationPages = db.generationPages

theorem SameSaved.self (db : Db) : SameSaved db db := ⟨rfl, rfl⟩

theorem SameSaved.trans {first second third : Db} (hfirst : SameSaved first second)
    (hsecond : SameSaved second third) : SameSaved first third :=
  ⟨hsecond.sources.trans hfirst.sources, hsecond.pages.trans hfirst.pages⟩

section Pages

variable {sequence : UInt64} {table : Table} {pages : List UploadPage} {page : UploadPage}
  {number : UInt64}

/-- The row of a page is found under its number. -/
theorem Verify.PageRows.find (hrows : PageRows sequence (table.scan (be64 sequence)) pages)
    (hpage : pages[number.toNat]? = some page) :
    ∃ value, table[key sequence (be64 number)]? = some value ∧ decodePage value = .ok page := by
  obtain ⟨hindex, rfl⟩ := List.getElem?_eq_some_iff.mp hpage
  have hlength := hrows.decoded.length_eq
  have hrow := hlength ▸ hindex
  have hdecoded := (List.forall₂_iff_get.mp hrows.decoded).2 number.toNat hrow hindex
  have hkey := congrArg (fun keys => keys[number.toNat]?) hrows.keys
  simp only [List.getElem?_map, List.getElem?_range hindex, List.getElem?_eq_getElem hrow,
    Option.map_some, UInt64.ofNat_toNat, Option.some.injEq] at hkey
  have hmem : (key sequence (be64 number), (table.scan (be64 sequence))[number.toNat].2) ∈
      table.scan (be64 sequence) := by
    rw [← hkey]
    exact List.getElem_mem hrow
  exact ⟨_, (Table.mem_scan.mp hmem).1, hdecoded⟩

/-- A row under a number is the row of a page. -/
theorem Verify.PageRows.get (hrows : PageRows sequence (table.scan (be64 sequence)) pages)
    (hbound : pages.length < 2 ^ 64) {value : Bytes}
    (hvalue : table[key sequence (be64 number)]? = some value) :
    ∃ page, pages[number.toNat]? = some page ∧ decodePage value = .ok page := by
  have hmem : (key sequence (be64 number), value) ∈ table.scan (be64 sequence) :=
    Table.mem_scan.mpr ⟨hvalue, ⟨_, rfl⟩⟩
  have hkey : key sequence (be64 number) ∈ (table.scan (be64 sequence)).map Prod.fst :=
    List.mem_map.mpr ⟨_, hmem, rfl⟩
  rw [hrows.keys] at hkey
  obtain ⟨index, hindex, hsame⟩ := List.mem_map.mp hkey
  rw [List.mem_range] at hindex
  have hword := be64_injective (key_injective hsame).2
  have hnumber : number.toNat = index := by
    rw [← hword, UInt64.toNat_ofNat_of_lt' (Nat.lt_trans hindex hbound)]
  obtain ⟨found, hfound, hdecoded⟩ := hrows.find
    (List.getElem?_eq_getElem (hnumber ▸ hindex : number.toNat < pages.length))
  obtain rfl := Option.some.inj (hfound.symm.trans hvalue)
  exact ⟨_, List.getElem?_eq_getElem _, hdecoded⟩

end Pages

/-- A decoded page holds 1 to 128 points. -/
theorem decodePage_bounds {bytes : Bytes} {page : UploadPage}
    (hdecode : decodePage bytes = .ok page) :
    page.points ≠ [] ∧ page.points.length ≤ maxPagePoints := by
  rcases decodePage_eq_ok_iff.mp hdecode with hencode | ⟨found, hlegacy, -⟩
  · obtain ⟨size, requestBytes, hsize, -⟩ := encodePage_eq_ok hencode
    obtain ⟨hnonempty, hcount, -⟩ := pageSize_eq_ok hsize
    exact ⟨hnonempty, hcount⟩
  · rw [hlegacy.points, List.length_map]
    exact ⟨fun hnil => hlegacy.nonempty (List.map_eq_nil_iff.mp hnil), hlegacy.count⟩

section Whole

variable {db later : Db} {g : Generation} {entries : List SourceEntry} {pages : List UploadPage}

/-- What is read under a number is the validated page of that number. -/
theorem Verified.readSavedPage_eq_ok (hverified : Verified db g entries pages)
    (hsame : SameSaved db later) {number : UInt64} {page : UploadPage}
    (hread : readSavedPage later g number = .ok page) :
    number < g.pageCount ∧ pages[number.toNat]? = some page := by
  obtain ⟨table, htable, hrows, -⟩ := hverified.savedPages
  simp only [readSavedPage, bind_eq_ok, refuse_eq_ok, okOr_eq_ok, not_or, ge_iff_le,
    UInt64.not_le] at hread
  obtain ⟨state, -, _, ⟨hnumber, -⟩, found, hfound, value, hvalue, hdecode⟩ := hread
  rw [hsame.pages, htable] at hfound
  obtain rfl := Option.some.inj hfound
  have hbound : pages.length < 2 ^ 64 := hverified.pageCount ▸ g.pageCount.toNat_lt
  obtain ⟨validated, hpage, hvalidated⟩ := hrows.get hbound hvalue
  obtain rfl := Except.ok.inj (hvalidated.symm.trans hdecode)
  exact ⟨hnumber, hpage⟩

/-- Every validated page of a served generation is read. -/
theorem Verified.readSavedPage_ok (hverified : Verified db g entries pages)
    (hsame : SameSaved db later) (havailable : Available later g) {number : UInt64}
    (hnumber : number < g.pageCount) :
    ∃ page, readSavedPage later g number = .ok page := by
  obtain ⟨table, htable, hrows, -⟩ := hverified.savedPages
  obtain ⟨state, hstate, hserved⟩ := havailable
  have hindex : number.toNat < pages.length := by
    rw [hverified.pageCount]
    exact UInt64.lt_iff_toNat_lt.mp hnumber
  obtain ⟨value, hvalue, hdecode⟩ := hrows.find (List.getElem?_eq_getElem hindex)
  have hguard : ¬ (number ≥ g.pageCount ∨ ¬ (state.current = some g ∨
      ∃ pending ∈ state.pending, pending.generation = g)) := by
    rintro (hbeyond | hother)
    · exact UInt64.not_lt.mpr hbeyond hnumber
    · rcases hserved with hcurrent | ⟨pending, hpending, -, hgeneration⟩
      · exact hother (Or.inl hcurrent)
      · exact hother (Or.inr ⟨pending, hpending, hgeneration⟩)
  refine ⟨pages[number.toNat], ?_⟩
  rw [readSavedPage, hstate, ok_bind, refuse_of_not hguard, ok_bind, hsame.pages, htable, okOr_some,
    ok_bind, hvalue, okOr_some, ok_bind, hdecode]

/-- What is read under an identity is a validated source with that identity. -/
theorem Verified.readSavedSource_eq_ok (hverified : Verified db g entries pages)
    (hsame : SameSaved db later) {id : SourceId} {captured : CapturedSource}
    (hread : readSavedSource later g id = .ok captured) :
    ∃ entry ∈ entries, entry.id = id ∧ entry.captured = captured := by
  obtain ⟨table, htable, hsources⟩ := hverified.savedSources
  simp only [readSavedSource, bind_eq_ok, refuse_eq_ok, okOr_eq_ok, not_or, not_not, pure_eq_ok,
    Except.ok.injEq] at hread
  obtain ⟨state, -, _, -, found, hfound, value, hvalue, entry, hdecode, _, ⟨-, hid⟩, rfl⟩ := hread
  rw [hsame.sources, htable] at hfound
  obtain rfl := Option.some.inj hfound
  have hmem : (key g.sequence id.bytes, value) ∈ table.scan (be64 g.sequence) :=
    Table.mem_scan.mpr ⟨hvalue, ⟨_, rfl⟩⟩
  obtain ⟨index, hindex, hrow⟩ := List.mem_iff_getElem.mp hmem
  obtain ⟨hlength, hstored⟩ := List.forall₂_iff_get.mp hsources.rows
  have hentry := hstored index hindex (hlength ▸ hindex)
  simp only [List.get_eq_getElem, hrow, StoredSource] at hentry
  obtain rfl := Except.ok.inj (hentry.2.symm.trans hdecode)
  exact ⟨_, List.getElem_mem _, hid, rfl⟩

/-- Every validated source of a served generation is read. -/
theorem Verified.readSavedSource_ok (hverified : Verified db g entries pages)
    (hsame : SameSaved db later) (havailable : Available later g) {entry : SourceEntry}
    (hentry : entry ∈ entries) : readSavedSource later g entry.id = .ok entry.captured := by
  obtain ⟨table, htable, hsources⟩ := hverified.savedSources
  obtain ⟨state, hstate, hserved⟩ := havailable
  obtain ⟨value, hvalue, hdecode⟩ := Verify.SourcesVerified_get hsources hentry
  have hguard : ¬ (entry.complete = false ∨ entry.captured.source.sourceId ≠ entry.id) := by
    rintro (hincomplete | hother)
    · rw [(hsources.whole entry hentry).complete] at hincomplete
      cases hincomplete
    · exact hother rfl
  rw [readSavedSource, hstate, ok_bind, refuse_of_not (not_not.mpr hserved), ok_bind, hsame.sources,
    htable, okOr_some, ok_bind, hvalue, okOr_some, ok_bind, hdecode, ok_bind, refuse_of_not hguard,
    ok_bind, pure_eq_ok]

/-- Saved sources differ by their identities. -/
theorem Verified.entry_unique (hverified : Verified db g entries pages) {first second : SourceEntry}
    (hfirst : first ∈ entries) (hsecond : second ∈ entries) (hid : first.id = second.id) :
    first = second := by
  obtain ⟨table, -, hsources⟩ := hverified.savedSources
  obtain ⟨value, hvalue, hdecode⟩ := Verify.SourcesVerified_get hsources hfirst
  obtain ⟨other, hother, hdecodeOther⟩ := Verify.SourcesVerified_get hsources hsecond
  rw [hid, hother] at hvalue
  obtain rfl := Option.some.inj hvalue
  exact Except.ok.inj (hdecode.symm.trans hdecodeOther)

/-- Every page holds 1 to 128 points, each of a validated source. -/
theorem Verified.page (hverified : Verified db g entries pages) {index : Nat} {page : UploadPage}
    (hpage : pages[index]? = some page) :
    page.points ≠ [] ∧ page.points.length ≤ maxPagePoints ∧
      ∀ point ∈ page.points, point ∈ pointsIn pages ∧
        ∃ entry ∈ entries, point.evidence.BoundTo entry := by
  obtain ⟨table, -, hrows, -⟩ := hverified.savedPages
  obtain ⟨evidence, -, hpoints⟩ := hverified.savedPoints
  obtain ⟨hindex, rfl⟩ := List.getElem?_eq_some_iff.mp hpage
  have hrow := hrows.decoded.length_eq ▸ hindex
  have hdecode := (List.forall₂_iff_get.mp hrows.decoded).2 index hrow hindex
  obtain ⟨hnonempty, hcount⟩ := decodePage_bounds hdecode
  refine ⟨hnonempty, hcount, fun point hmem => ?_⟩
  have hpoint : point ∈ pointsIn pages := List.mem_flatMap.mpr ⟨_, List.getElem_mem hindex, hmem⟩
  exact ⟨hpoint, hpoints.owned point hpoint⟩

end Whole

end EliotSearch.Control
