import EliotSearch.Control.PublicationCodec

/-!
# The two page formats

The page decoder accepts two formats.  A current page is exactly the encoding
of the page it decodes to.  A legacy page also carries the text of every point,
which is checked against the evidence and discarded.  Nothing else decodes.
-/

namespace EliotSearch.Control

open EliotSearch.Library
open EliotSearch.Library.Results
open EliotSearch.Library.Words

/-! ## Evidence -/

theorem boolean_eq_ok {bytes rest : Bytes} {value : Bool}
    (hread : boolean bytes = .ok (value, rest)) : bytes = boolByte value :: rest := by
  simp only [boolean, Reader.bind_eq_ok, Reader.u8_eq_ok, Reader.okOr_eq_ok] at hread
  obtain ⟨byte, _, rfl, hvalue, rfl⟩ := hread
  rw [eq_boolByte hvalue]

theorem object_eq_ok {kind : ObjectKind} {bytes rest : Bytes} {found : ObjectRef}
    (hread : object kind bytes = .ok (found, rest)) : bytes = putObject found ++ rest := by
  simp only [object, Reader.bind_eq_ok, Reader.u16_eq_ok, Reader.u8_eq_ok, Reader.okOr_eq_ok,
    Reader.array_eq_ok, Reader.u64_eq_ok, Reader.refuse_eq_ok, Reader.pure_eq_ok] at hread
  obtain ⟨formatVersion, _, rfl, tag, _, rfl, actualKind, _, ⟨hkind, rfl⟩, digest, _, rfl,
    byteLength, _, rfl, _, _, ⟨-, rfl⟩, rfl, rfl⟩ := hread
  simp only [putObject, ObjectKind.tag_of_fromTag hkind, List.append_assoc, List.cons_append,
    List.nil_append]

/-- The evidence reader accepts exactly the encodings of valid evidence. -/
theorem evidence_eq_ok {bytes rest : Bytes} {found : PointEvidence} :
    evidence bytes = .ok (found, rest) ↔
      bytes = encodeEvidence found ++ rest ∧ ValidEvidence found := by
  constructor
  · intro hread
    have hvalid := evidence_valid hread
    refine ⟨?_, hvalid⟩
    simp only [evidence, evidenceFields, Reader.bind_eq_ok, Reader.array_eq_ok, Reader.u64_eq_ok,
      Reader.refuse_eq_ok, Reader.pure_eq_ok] at hread
    obtain ⟨_, _, ⟨namespaceId, _, rfl, sourceId, _, rfl, input, _, hinput, prepared, _, hprepared,
      unit, _, rfl, start, _, rfl, stop, _, rfl, lineStart, _, rfl, lineEnd, _, rfl, starts, _,
      hstarts, ends, _, hends, rfl, rfl⟩, _, _, ⟨-, rfl⟩, rfl, rfl⟩ := hread
    rw [object_eq_ok hinput, object_eq_ok hprepared, boolean_eq_ok hstarts, boolean_eq_ok hends]
    simp only [encodeEvidence, List.append_assoc, List.cons_append, List.nil_append]
  · rintro ⟨rfl, hvalid⟩
    exact evidence_reads hvalid rest

/-! ## Points -/

/-- The text a legacy point carries is the one its evidence delimits. -/
def LegacyText (found : PointEvidence) (text : Bytes) : Prop :=
  text.length = (found.stop - found.start).toNat ∧
    ByteArray.validateUTF8 ⟨text.toArray⟩ = true

def legacyPointBytes (entry : UploadPoint × Bytes) : Bytes :=
  pointBytes entry.1 ++ (le32 (UInt32.ofNat entry.2.length) ++ entry.2)

theorem legacyText_eq_ok {found : PointEvidence} (hvalid : ValidEvidence found)
    {bytes rest : Bytes} {result : Unit} :
    legacyText found bytes = .ok (result, rest) ↔
      ∃ text, bytes = le32 (UInt32.ofNat text.length) ++ text ++ rest ∧ LegacyText found text := by
  have hbound := hvalid.2.2.2.2.2.2.2.2.2.1
  have hlimit : maxTextBytes < UInt32.size := by decide
  simp only [legacyText, Reader.bind_eq_ok, Reader.u32_eq_ok, Reader.refuse_eq_ok,
    Reader.take_eq_ok, not_or, not_not, Bool.not_eq_false]
  constructor
  · rintro ⟨size, _, rfl, _, _, ⟨⟨-, hsize⟩, rfl⟩, text, _, ⟨rfl, htext⟩, hutf8, rfl⟩
    refine ⟨text, ?_, htext.trans hsize, hutf8⟩
    rw [htext, UInt32.ofNat_toNat, List.append_assoc]
  · rintro ⟨text, rfl, hlength, hutf8⟩
    have hword : (UInt32.ofNat text.length).toNat = text.length :=
      UInt32.toNat_ofNat_of_lt' (by omega)
    refine ⟨_, _, List.append_assoc .., (), _, ⟨⟨?_, ?_⟩, rfl⟩, text, rest, ⟨rfl, hword.symm⟩,
      hutf8, rfl⟩
    · rw [hword]
      omega
    · rw [hword]
      exact hlength

theorem pagePoint_current {bytes rest : Bytes} {point : UploadPoint} :
    pagePoint false bytes = .ok (point, rest) ↔
      bytes = pointBytes point ++ rest ∧ ValidEvidence point.evidence := by
  simp only [pagePoint, Bool.false_eq_true, if_false, Reader.bind_eq_ok, Reader.array_eq_ok,
    evidence_eq_ok, Reader.pure_eq_ok]
  constructor
  · rintro ⟨id, _, rfl, found, _, ⟨rfl, hvalid⟩, rfl, rfl⟩
    exact ⟨by rw [pointBytes, List.append_assoc], hvalid⟩
  · rintro ⟨rfl, hvalid⟩
    exact ⟨point.id, encodeEvidence point.evidence ++ rest, by rw [pointBytes, List.append_assoc],
      point.evidence, rest, ⟨rfl, hvalid⟩, rfl, rfl⟩

theorem pagePoint_legacy {bytes rest : Bytes} {point : UploadPoint} :
    pagePoint true bytes = .ok (point, rest) ↔
      ∃ text, bytes = legacyPointBytes (point, text) ++ rest ∧
        ValidEvidence point.evidence ∧ LegacyText point.evidence text := by
  simp only [pagePoint, if_true, Reader.bind_eq_ok, Reader.array_eq_ok, evidence_eq_ok,
    Reader.pure_eq_ok]
  constructor
  · rintro ⟨id, _, rfl, found, _, ⟨rfl, hvalid⟩, _, _, htext, rfl, rfl⟩
    obtain ⟨text, rfl, hlegacy⟩ := (legacyText_eq_ok hvalid).mp htext
    refine ⟨text, ?_, hvalid, hlegacy⟩
    simp only [legacyPointBytes, pointBytes, List.append_assoc]
  · rintro ⟨text, rfl, hvalid, hlegacy⟩
    refine ⟨point.id, _, ?_, point.evidence, _, ⟨rfl, hvalid⟩, (), rest,
      (legacyText_eq_ok hvalid).mpr ⟨text, rfl, hlegacy⟩, rfl, rfl⟩
    simp only [legacyPointBytes, pointBytes, List.append_assoc]

theorem pagePoints_current {count : Nat} {bytes rest : Bytes} {points : List UploadPoint} :
    pagePoints false count bytes = .ok (points, rest) ↔
      points.length = count ∧ bytes = points.flatMap pointBytes ++ rest ∧
        ∀ point ∈ points, ValidEvidence point.evidence := by
  constructor
  · intro hread
    induction count generalizing bytes points with
    | zero =>
        obtain ⟨rfl, rfl⟩ := Reader.pure_eq_ok.mp hread
        simp
    | succ count ih =>
        simp only [pagePoints, Reader.bind_eq_ok, pagePoint_current, Reader.pure_eq_ok] at hread
        obtain ⟨point, _, ⟨rfl, hvalid⟩, others, _, hothers, rfl, rfl⟩ := hread
        obtain ⟨rfl, rfl, hrest⟩ := ih hothers
        refine ⟨rfl, by rw [List.flatMap_cons, List.append_assoc], ?_⟩
        intro other hmem
        rcases List.mem_cons.mp hmem with rfl | hmem
        · exact hvalid
        · exact hrest other hmem
  · rintro ⟨rfl, rfl, hvalid⟩
    exact pagePoints_reads hvalid rest

/-- What every entry of a legacy page satisfies. -/
def LegacyEntry (entry : UploadPoint × Bytes) : Prop :=
  ValidEvidence entry.1.evidence ∧ LegacyText entry.1.evidence entry.2

theorem pagePoints_legacy {count : Nat} {bytes rest : Bytes} {points : List UploadPoint} :
    pagePoints true count bytes = .ok (points, rest) ↔
      ∃ entries : List (UploadPoint × Bytes), entries.map Prod.fst = points ∧
        entries.length = count ∧ bytes = entries.flatMap legacyPointBytes ++ rest ∧
        ∀ entry ∈ entries, LegacyEntry entry := by
  induction count generalizing bytes points rest with
  | zero =>
      rw [pagePoints, Reader.pure_eq_ok]
      constructor
      · rintro ⟨rfl, rfl⟩
        exact ⟨[], by simp⟩
      · rintro ⟨entries, rfl, hlength, rfl, -⟩
        obtain rfl := List.length_eq_zero_iff.mp hlength
        exact ⟨rfl, rfl⟩
  | succ count ih =>
      simp only [pagePoints, Reader.bind_eq_ok, pagePoint_legacy, Reader.pure_eq_ok, ih]
      constructor
      · rintro ⟨point, _, ⟨text, rfl, hpoint⟩, others, _, ⟨entries, rfl, rfl, rfl, hrest⟩, rfl,
          rfl⟩
        refine ⟨(point, text) :: entries, rfl, rfl, ?_, ?_⟩
        · rw [List.flatMap_cons, List.append_assoc]
        · intro entry hmem
          rcases List.mem_cons.mp hmem with rfl | hmem
          · exact hpoint
          · exact hrest entry hmem
      · rintro ⟨entries, rfl, hlength, rfl, hentries⟩
        obtain ⟨⟨point, text⟩, tail, rfl⟩ := List.exists_cons_of_length_eq_add_one hlength
        refine ⟨point, tail.flatMap legacyPointBytes ++ rest, ⟨text, ?_, hentries _
          List.mem_cons_self⟩, tail.map Prod.fst, rest, ⟨tail, rfl, Nat.succ.inj hlength, rfl, ?_⟩,
          rfl, rfl⟩
        · rw [List.flatMap_cons, List.append_assoc]
        · intro entry hmem
          exact hentries entry (List.mem_cons_of_mem _ hmem)

/-! ## Pages -/

/-- The encoding of a legacy page with the texts of its points. -/
def legacyPageBytes (entries : List (UploadPoint × Bytes)) : Bytes :=
  legacyPageMagic ++ (le16 1 ++ (le16 (UInt16.ofNat entries.length) ++
    entries.flatMap legacyPointBytes))

/-- The legacy pages: the points alone are kept, the texts are framed exactly. -/
structure LegacyPage (page : UploadPage) (entries : List (UploadPoint × Bytes)) : Prop where
  points : page.points = entries.map Prod.fst
  requestBytes : page.requestBytes = none
  nonempty : entries ≠ []
  count : entries.length ≤ maxPagePoints
  entry : ∀ entry ∈ entries, LegacyEntry entry
  size : (legacyPageBytes entries).length ≤ maxPageBytes

theorem pageCount {count : UInt16} {length : Nat} (hlength : length = count.toNat)
    (hcount : ¬ (count = 0 ∨ count.toNat > maxPagePoints)) :
    0 < length ∧ length ≤ maxPagePoints ∧ UInt16.ofNat length = count := by
  obtain ⟨hpos, hbound⟩ := not_or.mp hcount
  refine ⟨?_, by omega, by rw [hlength, UInt16.ofNat_toNat]⟩
  rw [hlength]
  apply Nat.pos_of_ne_zero
  intro hzero
  exact hpos (UInt16.toNat_inj.mp hzero)

theorem pageCount_ofNat {length : Nat} (hpos : 0 < length) (hbound : length ≤ maxPagePoints) :
    (UInt16.ofNat length).toNat = length ∧
      ¬ (UInt16.ofNat length = 0 ∨ (UInt16.ofNat length).toNat > maxPagePoints) := by
  have hlimit : maxPagePoints < UInt16.size := by decide
  have hword : (UInt16.ofNat length).toNat = length := UInt16.toNat_ofNat_of_lt' (by omega)
  refine ⟨hword, ?_⟩
  rintro (hzero | hover)
  · have hvalue := congrArg UInt16.toNat hzero
    rw [hword] at hvalue
    exact absurd hvalue (Nat.pos_iff_ne_zero.mp hpos)
  · omega

/-- What the fields of a page are, by its format. -/
theorem pageFields_eq_ok {bytes rest : Bytes} {legacy : Bool} {page : UploadPage}
    (hread : pageFields bytes = .ok ((legacy, page), rest)) :
    0 < page.points.length ∧ page.points.length ≤ maxPagePoints ∧
      ((legacy = true ∧ page.requestBytes = none ∧
        ∃ entries, page.points = entries.map Prod.fst ∧ (∀ entry ∈ entries, LegacyEntry entry) ∧
          bytes = legacyPageBytes entries ++ rest) ∨
        legacy = false ∧ (∀ point ∈ page.points, ValidEvidence point.evidence) ∧
          ∃ requestBytes, page.requestBytes = some requestBytes ∧ requestBytes ≠ 0 ∧
            requestBytes.toNat ≤ maxPageBytes ∧
            bytes = pageBytes page.points requestBytes ++ rest) := by
  simp only [pageFields, Reader.bind_eq_ok, Reader.take_eq_ok, Reader.u16_eq_ok,
    Reader.refuse_eq_ok, Reader.pure_eq_ok, not_not, Prod.mk.injEq] at hread
  obtain ⟨magic, _, ⟨rfl, -⟩, version, _, rfl, _, _, ⟨hformat, rfl⟩, count, _, rfl, _, _,
    ⟨hcount, rfl⟩, requestBytes, _, hrequest, points, _, hpoints, ⟨rfl, rfl⟩, rfl⟩ := hread
  by_cases hlegacy : magic = legacyPageMagic ∧ version = 1
  · rw [decide_eq_true hlegacy] at hrequest hpoints
    simp only [pageRequestBytes, if_true, Reader.pure_eq_ok] at hrequest
    obtain ⟨rfl, rfl⟩ := hrequest
    obtain ⟨entries, rfl, hlength, rfl, hentries⟩ := pagePoints_legacy.mp hpoints
    obtain ⟨hpos, hbound, hword⟩ := pageCount hlength hcount
    rw [List.length_map]
    refine ⟨hpos, hbound, Or.inl ⟨decide_eq_true hlegacy, rfl, entries, rfl, hentries, ?_⟩⟩
    rw [legacyPageBytes, hlegacy.1, hlegacy.2, hword]
    simp only [List.append_assoc]
  · obtain ⟨hmagic, hversion⟩ := hformat.resolve_left hlegacy
    rw [decide_eq_false hlegacy] at hrequest hpoints
    simp only [pageRequestBytes, Bool.false_eq_true, if_false, Reader.bind_eq_ok,
      Reader.u64_eq_ok, Reader.refuse_eq_ok, Reader.pure_eq_ok, not_or, Nat.not_lt] at hrequest
    obtain ⟨size, _, rfl, _, _, ⟨⟨hzero, hlarge⟩, rfl⟩, rfl, rfl⟩ := hrequest
    obtain ⟨hlength, rfl, hvalid⟩ := pagePoints_current.mp hpoints
    obtain ⟨hpos, hbound, hword⟩ := pageCount hlength hcount
    refine ⟨hpos, hbound, Or.inr ⟨decide_eq_false hlegacy, hvalid, size, rfl, hzero, hlarge, ?_⟩⟩
    rw [pageBytes, hmagic, hversion, hword]
    simp only [List.append_assoc]

theorem pageFields_legacy {entries : List (UploadPoint × Bytes)} (hpos : 0 < entries.length)
    (hbound : entries.length ≤ maxPagePoints) (hentries : ∀ entry ∈ entries, LegacyEntry entry) :
    pageFields (legacyPageBytes entries) =
      .ok ((true, { points := entries.map Prod.fst, requestBytes := none }), []) := by
  obtain ⟨hword, hcount⟩ := pageCount_ofNat hpos hbound
  simp only [pageFields, Reader.bind_eq_ok, Reader.take_eq_ok, Reader.u16_eq_ok,
    Reader.refuse_eq_ok, Reader.pure_eq_ok, not_not, legacyPageBytes]
  refine ⟨legacyPageMagic, _, ⟨rfl, rfl⟩, 1, _, rfl, (), _, ⟨Or.inl ⟨rfl, rfl⟩, rfl⟩,
    UInt16.ofNat entries.length, _, rfl, (), _, ⟨hcount, rfl⟩, none, _, rfl,
    entries.map Prod.fst, [], pagePoints_legacy.mpr ⟨entries, rfl, hword.symm, ?_, hentries⟩,
    rfl, rfl⟩
  rw [List.append_nil]

/-- The size that a page charges is the length of its encoding. -/
theorem pageSize_pageBytes {page : UploadPage} (hpos : 0 < page.points.length)
    (hbound : page.points.length ≤ maxPagePoints)
    (hvalid : ∀ point ∈ page.points, ValidEvidence point.evidence) (requestBytes : UInt64) :
    pageSize page = .ok (pageBytes page.points requestBytes).length := by
  have hcharge : ∀ (points : List UploadPoint) (size : Nat),
      (∀ point ∈ points, ValidEvidence point.evidence) →
      size + 176 * points.length ≤ maxPageBytes →
      chargePoints size points = .ok (size + 176 * points.length) := by
    intro points
    induction points with
    | nil => exact fun size _ _ => rfl
    | cons point points ih =>
        intro size hpoints hsize
        rw [List.length_cons] at hsize
        have hpoint : ¬ ¬ ValidEvidence point.evidence := not_not.mpr (hpoints _ List.mem_cons_self)
        have hfits : ¬ size + (16 + evidenceLength) > maxPageBytes := by
          rw [evidenceLength]
          omega
        have hrest := ih (size + 176) (fun other hmem => hpoints other (List.mem_cons_of_mem _ hmem))
          (by omega)
        have htotal : size + 176 + 176 * points.length = size + 176 * (points.length + 1) := by
          omega
        simp only [chargePoints, refuse_of_not hpoint, ok_bind, refuse_of_not hfits,
          List.length_cons]
        rw [evidenceLength, hrest, htotal]
  have hguard : ¬ (page.points = [] ∨ page.points.length > maxPagePoints) := by
    rintro (hnil | hover)
    · rw [hnil] at hpos
      exact absurd hpos (Nat.lt_irrefl 0)
    · omega
  have hroom : 20 + 176 * page.points.length ≤ maxPageBytes := by
    simp only [maxPagePoints, maxPageBytes] at hbound ⊢
    omega
  rw [pageSize, refuse_of_not hguard, ok_bind, hcharge _ _ hvalid hroom, pageBytes_length,
    flatMap_pointBytes_length]

/-- The decoder accepts exactly the encodings of pages and the legacy pages. -/
theorem decodePage_eq_ok_iff {bytes : Bytes} {page : UploadPage} :
    decodePage bytes = .ok page ↔ encodePage page = .ok bytes ∨
      ∃ entries, LegacyPage page entries ∧ bytes = legacyPageBytes entries := by
  constructor
  · intro hdecode
    simp only [decodePage, bind_eq_ok, refuse_eq_ok, not_not, Nat.not_lt] at hdecode
    obtain ⟨_, hsize, ⟨⟨legacy, found⟩, rest⟩, hread, _, rfl, hpage⟩ := hdecode
    obtain ⟨hpos, hbound, ⟨rfl, hrequest, entries, hpoints, hentries, hbytes⟩ |
      ⟨rfl, hvalid, requestBytes, hrequest, hzero, hlarge, hbytes⟩⟩ := pageFields_eq_ok hread
    · obtain rfl := Except.ok.inj hpage
      rw [hpoints, List.length_map] at hpos hbound
      rw [List.append_nil] at hbytes
      subst hbytes
      exact Or.inr ⟨entries, ⟨hpoints, hrequest, List.ne_nil_of_length_pos hpos, hbound, hentries,
        hsize⟩, rfl⟩
    · simp only [Bool.false_eq_true, if_false, bind_eq_ok] at hpage
      obtain ⟨_, _, _, _, hsame⟩ := hpage
      obtain rfl := Except.ok.inj hsame
      rw [List.append_nil] at hbytes
      have hcharge := pageSize_pageBytes hpos hbound hvalid requestBytes
      have hfilter : found.requestBytes.filter (fun bytes =>
          0 < bytes && decide (bytes.toNat ≤ maxPageBytes)) = some requestBytes := by
        rw [hrequest, Option.filter_some, if_pos]
        rw [Bool.and_eq_true, decide_eq_true_eq, decide_eq_true_eq]
        exact ⟨UInt64.pos_iff_ne_zero.mpr hzero, hlarge⟩
      left
      rw [encodePage, hcharge, ok_bind, hfilter, okOr_some, ok_bind, hbytes]
      rfl
  · rintro (hencode | ⟨entries, hlegacy, rfl⟩)
    · exact decodePage_encodePage hencode
    · have hpos := List.length_pos_iff.mpr hlegacy.nonempty
      have hfields := pageFields_legacy hpos hlegacy.count hlegacy.entry
      have hsize : ¬ (legacyPageBytes entries).length > maxPageBytes :=
        Nat.not_lt.mpr hlegacy.size
      have hpage : page = { points := entries.map Prod.fst, requestBytes := none } := by
        rw [← hlegacy.points, ← hlegacy.requestBytes]
      rw [decodePage, refuse_of_not hsize, ok_bind, hfields, ok_bind]
      simp only [refuse_of_not (not_not.mpr rfl), ok_bind, if_true, hpage]
      rfl

/-- The magic of an accepted byte string tells its format. -/
theorem encodePage_magic {page : UploadPage} {bytes : Bytes} (hencode : encodePage page = .ok bytes) :
    bytes.take 8 = pageMagic := by
  obtain ⟨_, requestBytes, -, -, -, -, rfl⟩ := encodePage_eq_ok hencode
  rw [pageBytes, List.append_assoc, List.append_assoc, List.append_assoc]
  exact List.take_left' rfl

theorem legacyPage_magic (entries : List (UploadPoint × Bytes)) :
    (legacyPageBytes entries).take 8 = legacyPageMagic := by
  rw [legacyPageBytes]
  exact List.take_left' rfl

/-- Written pages are read back whole and as long as they were charged, stored
pages of the current format are rewritten as they are, legacy pages are framed
exactly by the evidence they carry, and nothing else is read. -/
theorem upload_pages_exact :
    (∀ page bytes, encodePage page = .ok bytes →
      decodePage bytes = .ok page ∧ pageSize page = .ok bytes.length ∧
        ∀ point ∈ page.points, decodeEvidence (encodeEvidence point.evidence) =
          .ok point.evidence) ∧
    (∀ bytes page, decodePage bytes = .ok page → bytes.take 8 = pageMagic →
      encodePage page = .ok bytes) ∧
    (∀ bytes page, decodePage bytes = .ok page → bytes.take 8 = legacyPageMagic →
      page.requestBytes = none ∧
        (∀ point ∈ page.points, ValidEvidence point.evidence ∧
          decodeEvidence (encodeEvidence point.evidence) = .ok point.evidence) ∧
        ∃ entries, LegacyPage page entries ∧ bytes = legacyPageBytes entries) ∧
    ∀ bytes, (∀ page, encodePage page ≠ .ok bytes) →
      (∀ page entries, LegacyPage page entries → bytes ≠ legacyPageBytes entries) →
      ∃ error, decodePage bytes = .error error := by
  have hmagic : pageMagic ≠ legacyPageMagic := by decide
  refine ⟨?_, ?_, ?_, ?_⟩
  · intro page bytes hencode
    obtain ⟨size, requestBytes, hsize, -, -, -, rfl⟩ := encodePage_eq_ok hencode
    obtain ⟨-, -, htotal, hvalid⟩ := pageSize_eq_ok hsize
    refine ⟨decodePage_encodePage hencode, ?_, ?_⟩
    · rw [hsize, htotal, pageBytes_length]
    · intro point hmem
      exact decodeEvidence_encodeEvidence (hvalid point hmem)
  · intro bytes page hdecode hcurrent
    rcases decodePage_eq_ok_iff.mp hdecode with hencode | ⟨entries, -, rfl⟩
    · exact hencode
    · rw [legacyPage_magic] at hcurrent
      exact absurd hcurrent.symm hmagic
  · intro bytes page hdecode hold
    rcases decodePage_eq_ok_iff.mp hdecode with hencode | ⟨entries, hlegacy, rfl⟩
    · rw [encodePage_magic hencode] at hold
      exact absurd hold hmagic
    · refine ⟨hlegacy.requestBytes, ?_, entries, hlegacy, rfl⟩
      intro point hmem
      rw [hlegacy.points] at hmem
      obtain ⟨entry, hentry, rfl⟩ := List.mem_map.mp hmem
      have hvalid := (hlegacy.entry entry hentry).1
      exact ⟨hvalid, decodeEvidence_encodeEvidence hvalid⟩
  · intro bytes hcurrent hlegacy
    cases hdecode : decodePage bytes with
    | error error => exact ⟨error, rfl⟩
    | ok page =>
        rcases decodePage_eq_ok_iff.mp hdecode with hencode | ⟨entries, hpage, hbytes⟩
        · exact absurd hencode (hcurrent page)
        · exact absurd hbytes (hlegacy page entries hpage)

end EliotSearch.Control
