import EliotSearch.Query.RawExact
import EliotSearch.Query.WindowItems
import EliotSearch.Session.Pages

/-!
# Pages of a window

The texts of valid items are bounded, the longest being a hit whose unit is all
escapes.  One item always fits in a frame, so a page never fails for its size.
-/

namespace EliotSearch.Query

open EliotSearch.Library
open EliotSearch.Library.Json
open EliotSearch.Library.Results
open EliotSearch.Session

/-! ## Lengths of items -/

namespace Texts

open EliotSearch.Session.Texts

/-- The text of a valid citation is bounded. -/
theorem evidence_length_le {found : EvidenceMetadata} {generation : UInt64}
    (hvalid : found.validate generation = .ok ()) : (evidence found).length ≤ 2100 := by
  simp only [EvidenceMetadata.validate, bind_eq_ok, refuse_eq_ok, not_or, not_not] at hvalid
  obtain ⟨_, ⟨-, -, hpoint, -, hnamespace, hid, -⟩, _, hinput, _, -, hprepared⟩ := hvalid
  have hpointText := string_length_le found.pointId
  have hnamespaceText := string_length_le found.sourceNamespaceId
  have hidText := string_length_le found.sourceId
  have hgeneration := word64_length_le found.generation
  have hinputText := objectRef_length_le hinput
  have hpreparedText := objectRef_length_le hprepared
  have hunit := word64_length_le found.unit
  have hstart := word64_length_le found.start
  have hstop := word64_length_le found.stop
  have hlineStart := word64_length_le found.lineStart
  have hlineEnd := word64_length_le found.lineEnd
  have hstarts := bool_length_le found.startsAtLineBoundary
  have hends := bool_length_le found.endsAtLineBoundary
  have hmembers := object_length_le [member "generation" (word64 found.generation),
    member "point_id" (string found.pointId),
    member "source_namespace_id" (string found.sourceNamespaceId),
    member "source_id" (string found.sourceId), member "input" (objectRef found.input),
    member "prepared" (objectRef found.prepared), member "unit" (word64 found.unit),
    member "start" (word64 found.start), member "end" (word64 found.stop),
    member "line_start" (word64 found.lineStart), member "line_end" (word64 found.lineEnd),
    member "starts_at_line_boundary" (bool found.startsAtLineBoundary),
    member "ends_at_line_boundary" (bool found.endsAtLineBoundary)]
  have hlabels : (Format.label "generation").length + (Format.label "point_id").length +
      (Format.label "source_namespace_id").length + (Format.label "source_id").length +
      (Format.label "input").length + (Format.label "prepared").length +
      (Format.label "unit").length + (Format.label "start").length + (Format.label "end").length +
      (Format.label "line_start").length + (Format.label "line_end").length +
      (Format.label "starts_at_line_boundary").length +
      (Format.label "ends_at_line_boundary").length = 172 := rfl
  rw [hpoint.1] at hpointText
  rw [hnamespace.1] at hnamespaceText
  rw [hid.1] at hidText
  simp only [List.map_cons, List.map_nil, List.sum_cons, List.sum_nil, List.length_cons,
    List.length_nil, member_length] at hmembers
  rw [evidence]
  omega

/-- The text of a valid ranked item is bounded, when that of its score is. -/
theorem searchItem_length_le {scoreText : Score → Bytes}
    (hscore : ∀ score, (scoreText score).length ≤ 32) {item : SearchItem} {generation : UInt64}
    (hvalid : item.validate generation = .ok ()) : (searchItem scoreText item).length ≤ 396000 := by
  cases item with
  | hit found =>
      simp only [SearchItem.validate, bind_eq_ok, refuse_eq_ok, not_or, not_lt, gt_iff_lt] at hvalid
      obtain ⟨_, ⟨hunit, -⟩, _, -, hevidence⟩ := hvalid
      have hevidenceText := evidence_length_le hevidence
      have hscoreText := hscore found.score
      have hrank : (word8 found.rank).length ≤ 3 := Format.u8.print_length_le _
      have hunitText := string_length_le found.unitText.bytes
      have hmaximum : maxUnitTextBytes = 65536 := rfl
      have hmembers := object_length_le [member "kind" (Format.quoted "hit"),
        member "rank" (word8 found.rank), member "score" (scoreText found.score),
        member "evidence" (evidence found.evidence),
        member "unit_text" (string found.unitText.bytes)]
      have hlabels : (Format.label "kind").length + (Format.quoted "hit").length +
          (Format.label "rank").length + (Format.label "score").length +
          (Format.label "evidence").length + (Format.label "unit_text").length = 50 := rfl
      simp only [List.map_cons, List.map_nil, List.sum_cons, List.sum_nil, List.length_cons,
        List.length_nil, member_length] at hmembers
      simp only [SearchItem.evidence] at hevidenceText
      rw [searchItem]
      omega
  | gap missing =>
      simp only [SearchItem.validate, bind_eq_ok, refuse_eq_ok] at hvalid
      obtain ⟨_, -, _, -, hevidence⟩ := hvalid
      have hevidenceText := evidence_length_le hevidence
      have hscoreText := hscore missing.score
      have hrank : (word8 missing.rank).length ≤ 3 := Format.u8.print_length_le _
      have hcode := string_length_le missing.code.text
      have hcodeLength := missing.code.valid.2.1
      have hmembers := object_length_le [member "kind" (Format.quoted "gap"),
        member "rank" (word8 missing.rank), member "score" (scoreText missing.score),
        member "evidence" (evidence missing.evidence), member "code" (string missing.code.text)]
      have hlabels : (Format.label "kind").length + (Format.quoted "gap").length +
          (Format.label "rank").length + (Format.label "score").length +
          (Format.label "evidence").length + (Format.label "code").length = 45 := rfl
      simp only [List.map_cons, List.map_nil, List.sum_cons, List.sum_nil, List.length_cons,
        List.length_nil, member_length] at hmembers
      simp only [SearchItem.evidence] at hevidenceText
      rw [searchItem]
      omega

/-- The text of a valid decoded item is bounded. -/
theorem decodedItem_length_le {item : DecodedUtf8Item} (hvalid : item.validate = .ok ()) :
    (decodedItem item).length ≤ 60000 := by
  simp only [DecodedUtf8Item.validate, bind_eq_ok] at hvalid
  obtain ⟨_, hsource, hvalid⟩ := hvalid
  have hsourceText := sourceRef_length_le hsource
  cases item with
  | matched hit =>
      simp only [bind_eq_ok, refuse_eq_ok, not_or, not_lt, gt_iff_lt] at hvalid
      obtain ⟨_, hprepared, -, -, -, -, htext, -⟩ := hvalid
      have hpreparedText := objectRef_length_le hprepared
      have hrepresentationStart := word64_length_le hit.representationStart
      have hrepresentationEnd := word64_length_le hit.representationEnd
      have hsourceStart := word64_length_le hit.sourceStart
      have hsourceEnd := word64_length_le hit.sourceEnd
      have hstring := string_length_le hit.text.bytes
      have hmaximum : maxQueryBytes = 4096 := rfl
      have hmembers := object_length_le [member "kind" (Format.quoted "match"),
        member "source" (sourceRef hit.source), member "prepared" (objectRef hit.prepared),
        member "representation_start" (word64 hit.representationStart),
        member "representation_end" (word64 hit.representationEnd),
        member "source_start" (word64 hit.sourceStart), member "source_end" (word64 hit.sourceEnd),
        member "text" (string hit.text.bytes)]
      have hlabels : (Format.label "kind").length + (Format.quoted "match").length +
          (Format.label "source").length + (Format.label "prepared").length +
          (Format.label "representation_start").length +
          (Format.label "representation_end").length + (Format.label "source_start").length +
          (Format.label "source_end").length + (Format.label "text").length = 113 := rfl
      simp only [List.map_cons, List.map_nil, List.sum_cons, List.sum_nil, List.length_cons,
        List.length_nil, member_length] at hmembers
      simp only [DecodedUtf8Item.source] at hsourceText
      rw [decodedItem]
      omega
  | gap missing =>
      have hcode := string_length_le missing.code.text
      have hcodeLength := missing.code.valid.2.1
      have hpreparedText : (nullable objectRef missing.prepared).length ≤ 500 := by
        have hobjects : ∀ object ∈ missing.prepared, object.validate .prepared = .ok () := by
          intro object hobject
          have hobject : missing.prepared = some object := hobject
          dsimp only at hvalid
          rw [hobject, bind_eq_ok] at hvalid
          exact hvalid.choose_spec.2
        exact nullable_objectRef_length_le hobjects
      have hmembers := object_length_le [member "kind" (Format.quoted "gap"),
        member "source" (sourceRef missing.source),
        member "prepared" (nullable objectRef missing.prepared),
        member "code" (string missing.code.text)]
      have hlabels : (Format.label "kind").length + (Format.quoted "gap").length +
          (Format.label "source").length + (Format.label "prepared").length +
          (Format.label "code").length = 39 := rfl
      simp only [List.map_cons, List.map_nil, List.sum_cons, List.sum_nil, List.length_cons,
        List.length_nil, member_length] at hmembers
      simp only [DecodedUtf8Item.source] at hsourceText
      rw [decodedItem]
      omega

/-- The text of a valid item of any query is bounded. -/
theorem windowItem_length_le {scoreText : Score → Bytes}
    (hscore : ∀ score, (scoreText score).length ≤ 32) {item : WindowItem} {generation : UInt64}
    (hvalid : item.validate generation = .ok ()) :
    (windowItem scoreText item).length ≤ 397000 := by
  have hwrapped (mode : String) (text : Bytes) (hmode : (Format.quoted mode).length ≤ 20)
      (htext : text.length ≤ 396000) :
      (object [member "mode" (Format.quoted mode), member "item" text]).length ≤ 397000 := by
    have hmembers := object_length_le [member "mode" (Format.quoted mode), member "item" text]
    have hlabels : (Format.label "mode").length + (Format.label "item").length = 14 := rfl
    simp only [List.map_cons, List.map_nil, List.sum_cons, List.sum_nil, List.length_cons,
      List.length_nil, member_length] at hmembers
    omega
  cases item with
  | search item =>
      exact hwrapped _ _ (of_decide_eq_true rfl) (searchItem_length_le hscore hvalid)
  | raw item =>
      exact hwrapped _ _ (of_decide_eq_true rfl) ((rawItem_length_le hvalid).trans (by omega))
  | decodedUtf8 item =>
      exact hwrapped _ _ (of_decide_eq_true rfl) ((decodedItem_length_le hvalid).trans (by omega))

theorem nullable_length_le {α : Type} {text : α → Bytes} {bound : Nat} (value : Option α)
    (hbound : ∀ found, (text found).length ≤ bound) :
    (nullable text value).length ≤ bound + 4 := by
  cases value with
  | none =>
      have hnull : (nullable text none).length = 4 := rfl
      omega
  | some found => exact (hbound found).trans (Nat.le_add_right _ _)

theorem summary_length_le (found : WindowSummary) : (summary found).length ≤ 250 := by
  have hgeneration := word64_length_le found.generation
  have hretained : (word8 found.retainedItems).length ≤ 3 := Format.u8.print_length_le _
  have hmatches := nullable_length_le found.foundMatches word64_length_le
  have hscan : (nullable Format.bool.print found.scanComplete).length ≤ 5 + 4 :=
    nullable_length_le found.scanComplete bool_length_le
  have hnegative : (nullable Format.bool.print found.completeNegative).length ≤ 5 + 4 :=
    nullable_length_le found.completeNegative bool_length_le
  have hstop := stopReason_length_le found.resultStop
  have hmembers := object_length_le [member "generation" (word64 found.generation),
    member "retained_items" (word8 found.retainedItems),
    member "found_matches" (nullable word64 found.foundMatches),
    member "scan_complete" (nullable Format.bool.print found.scanComplete),
    member "complete_negative" (nullable Format.bool.print found.completeNegative),
    member "result_stop" (stopReason found.resultStop)]
  have hlabels : (Format.label "generation").length + (Format.label "retained_items").length +
      (Format.label "found_matches").length + (Format.label "scan_complete").length +
      (Format.label "complete_negative").length + (Format.label "result_stop").length = 96 := rfl
  simp only [List.map_cons, List.map_nil, List.sum_cons, List.sum_nil, List.length_cons,
    List.length_nil, member_length] at hmembers
  rw [summary]
  omega

/-- The text of a page with bounded items is bounded. -/
theorem page_length_le {Item : Type} {item : Item → Bytes} {found : WindowPage Item} {bound : Nat}
    (hitems : ∀ entry ∈ found.items, (item entry.item).length ≤ bound) :
    (page item found).length ≤ found.items.length * (bound + 50) + 450 := by
  have hentries : ∀ entry ∈ found.items, (Session.Texts.entry item entry).length ≤ bound + 49 := by
    intro entry hmem
    have hitem := hitems entry hmem
    have hindex : (word8 entry.itemIndex).length ≤ 3 := Format.u8.print_length_le _
    have hmembers := object_length_le [member "item_index" (word8 entry.itemIndex),
      member "item" (item entry.item)]
    have hlabels : (Format.label "item_index").length + (Format.label "item").length = 20 := rfl
    simp only [List.map_cons, List.map_nil, List.sum_cons, List.sum_nil, List.length_cons,
      List.length_nil, member_length] at hmembers
    rw [Session.Texts.entry]
    omega
  have harray : (array (found.items.map (Session.Texts.entry item))).length ≤
      (found.items.map (Session.Texts.entry item)).length * (bound + 50) + 2 :=
    array_length_le (List.forall_mem_map.mpr hentries)
  have hwindow := word64_length_le found.windowId
  have hsummary := summary_length_le found.summary
  have hstart : (word8 found.startIndex).length ≤ 3 := Format.u8.print_length_le _
  have hnext : (word8 found.nextIndex).length ≤ 3 := Format.u8.print_length_le _
  have hmore : (Format.bool.print found.hasMore).length ≤ 5 := bool_length_le _
  have hstop := stopReason_length_le found.pageStop
  have hmembers := object_length_le [member "window_id" (word64 found.windowId),
    member "summary" (summary found.summary), member "start_index" (word8 found.startIndex),
    member "next_index" (word8 found.nextIndex),
    member "items" (array (found.items.map (Session.Texts.entry item))),
    member "has_more" (Format.bool.print found.hasMore),
    member "page_stop" (stopReason found.pageStop)]
  have hlabels : (Format.label "window_id").length + (Format.label "summary").length +
      (Format.label "start_index").length + (Format.label "next_index").length +
      (Format.label "items").length + (Format.label "has_more").length +
      (Format.label "page_stop").length = 80 := rfl
  rw [List.length_map] at harray
  simp only [List.map_cons, List.map_nil, List.sum_cons, List.sum_nil, List.length_cons,
    List.length_nil, member_length] at hmembers
  rw [page]
  omega

end Texts

/-! ## One item fits -/

section Pages

variable (scoreText : Score → Bytes)
  (parseFrame : Bytes → Option (SessionClientFrame WindowQuery))

/-- The items of a page that passes its check are valid. -/
theorem items_of_validateEntries {wire : Wire} {page : WindowPage wire.Item} (position : Nat)
    (entries : List (WindowEntry wire.Item))
    (hvalid : wire.validateEntries page position entries = .ok ()) :
    ∀ entry ∈ entries, wire.validateItem page.summary.generation entry.item = .ok () := by
  induction entries generalizing position with
  | nil => exact fun entry hmem => absurd hmem List.not_mem_nil
  | cons entry entries ih =>
      simp only [Wire.validateEntries, bind_eq_ok] at hvalid
      obtain ⟨_, hentry, hrest⟩ := hvalid
      simp only [Wire.validateEntry, bind_eq_ok] at hentry
      obtain ⟨_, -, _, hitem, -⟩ := hentry
      rw [List.forall_mem_cons]
      exact ⟨hitem, ih (position + 1) hrest⟩

theorem smallPagesFit (hscore : ∀ score, (scoreText score).length ≤ 32) :
    Window.SmallPagesFit (windowWire scoreText parseFrame) := by
  intro requestId page hvalid hsmall
  rw [Wire.validatePage, bind_eq_ok] at hvalid
  obtain ⟨_, -, hvalid⟩ := hvalid
  simp only [bind_eq_ok] at hvalid
  obtain ⟨_, -, hentries⟩ := hvalid
  have hitems := items_of_validateEntries 0 page.items hentries
  have hpage : (Session.Texts.page (Texts.windowItem scoreText) page).length ≤
      page.items.length * (397000 + 50) + 450 :=
    Texts.page_length_le fun entry hmem => Texts.windowItem_length_le hscore (hitems entry hmem)
  have hone : page.items.length * (397000 + 50) ≤ 1 * (397000 + 50) :=
    Nat.mul_le_mul_right _ hsmall
  have hid := Texts.word64_length_le requestId
  have houtcome := Texts.object_length_le [
    Session.Texts.member "status" (Format.quoted "page"),
    Session.Texts.member "page" (Session.Texts.page (Texts.windowItem scoreText) page)]
  have hreply := Texts.object_length_le [
    Session.Texts.member "request_id" (Session.Texts.word64 requestId),
    Session.Texts.member "outcome" (Session.Texts.object [
      Session.Texts.member "status" (Format.quoted "page"),
      Session.Texts.member "page" (Session.Texts.page (Texts.windowItem scoreText) page)])]
  have hlabels : (Format.label "status").length + (Format.quoted "page").length +
      (Format.label "page").length + (Format.label "request_id").length +
      (Format.label "outcome").length = 45 := rfl
  have hframe : maxFrameBytes = 8388608 := rfl
  simp only [List.map_cons, List.map_nil, List.sum_cons, List.sum_nil, List.length_cons,
    List.length_nil, Session.Texts.member_length] at houtcome hreply
  change framePrefixBytes + (Session.Texts.reply (Texts.windowItem scoreText)
    Texts.windowExpansion ⟨requestId, .page page⟩).length ≤ maxFrameBytes
  rw [Session.Texts.reply, framePrefixBytes]
  dsimp only [Session.Texts.outcome]
  omega

/-- A page is the longest prefix of the requested entries that one frame carries,
and it is complete exactly when it has all of them.  It never fails for its size.
Paging and committing from the first entry ends after every entry was emitted once
and in order, and only the last page has nothing behind it. -/
theorem page_exact (hscore : ∀ score, (scoreText score).length ≤ 32)
    (window : Window (windowWire scoreText parseFrame)) (hvalidated : window.Validated) :
    (∀ requestId pageSize, requestId ≠ 0 → validatePageSize pageSize = .ok () →
      ∃ ready count, window.page requestId pageSize = .ok ready ∧
        window.Largest requestId pageSize ready count ∧
        ((window.pageOf pageSize count).pageStop = .complete ↔
          (window.pageOf pageSize count).items = window.requested pageSize)) ∧
    (∀ (requestIds : Nat → UInt64) (pageSizes : Nat → UInt8), (∀ step, requestIds step ≠ 0) →
      (∀ step, validatePageSize (pageSizes step) = .ok ()) → window.cursor = 0 →
      ∀ fuel, window.items.length < fuel →
        ∃ pages last, window.emitAll requestIds pageSizes fuel 0 = .ok (pages, last) ∧
          pages.flatMap WindowPage.items = entriesOf window.items ∧
          last.cursor.toNat = window.items.length ∧ pages ≠ [] ∧ Window.LastEnds pages) := by
  have hpositive (pageSize : UInt8) (hsize : validatePageSize pageSize = .ok ()) :
      0 < pageSize.toNat := by
    rw [validatePageSize, refuse_eq_ok, not_or] at hsize
    exact Nat.pos_of_ne_zero fun hzero => hsize.1 (UInt8.toNat_inj.mp hzero)
  have hsmall := smallPagesFit scoreText parseFrame hscore
  constructor
  · intro requestId pageSize hid hsize
    obtain ⟨ready, count, hpage, hlargest⟩ :=
      Window.page_largest hsmall hvalidated hid (hpositive pageSize hsize)
    refine ⟨ready, count, hpage, hlargest, ?_⟩
    have hwithin := hlargest.within
    change (if count = (window.requested pageSize).length then StopReason.complete
      else .outputLimit) = .complete ↔ (window.requested pageSize).take count = _
    rw [List.take_eq_self_iff]
    split
    · rename_i hall
      exact iff_of_true rfl hall.ge
    · rename_i hshort
      exact iff_of_false (fun hstop => nomatch hstop)
        fun hle => hshort (le_antisymm hwithin hle)
  · intro requestIds pageSizes hids hsizes hcursor fuel hfuel
    have hrest := Window.emitAll_rest hsmall hids (fun step => hpositive _ (hsizes step)) fuel 0
      window hvalidated (by omega)
    rw [hcursor] at hrest
    exact hrest

end Pages

namespace PageSample

/-- The gap of a source whose object is missing. -/
def missing : WindowItem :=
  .raw (.gap {
    source := {
      sourceNamespaceId := ascii "01010101-0101-0101-0101-010101010101"
      sourceId := ascii "02020202-0202-0202-0202-020202020202"
      rowRevision := 1
      registrationRevision := 1
      input := ⟨1, .source, List.replicate 64 48, 3⟩ }
    code := sourceMissing })

def window : Window (windowWire (fun _ => ascii "1.0") fun _ => none) where
  items := [missing]
  summary := ⟨1, 1, some 0, some false, some false, .complete⟩
  cursor := 0
  retained := rfl
  bounded := Nat.zero_le _

theorem validated : window.Validated where
  generation := by decide
  room := by decide
  facts := by decide
  items := by
    rintro item hmem
    obtain rfl := List.mem_singleton.mp hmem
    decide +kernel
  mode := by
    rintro item hmem
    obtain rfl := List.mem_singleton.mp hmem
    rfl
  ranks := by
    rintro index item hitem rank hrank
    obtain rfl := List.mem_singleton.mp (List.mem_of_getElem? hitem)
    cases hrank

end PageSample

theorem page_exact_sample :
    ∃ pages last, PageSample.window.emitAll (fun _ => 1) (fun _ => 64) 2 0 = .ok (pages, last) ∧
      pages.flatMap WindowPage.items = [⟨0, PageSample.missing⟩] ∧ Window.LastEnds pages := by
  obtain ⟨-, hemits⟩ := page_exact (fun _ => ascii "1.0") (fun _ => none)
    (fun _ => of_decide_eq_true rfl) PageSample.window PageSample.validated
  obtain ⟨pages, last, hemit, hitems, -, -, hends⟩ := hemits (fun _ => 1) (fun _ => 64)
    (fun _ => by decide) (fun _ => rfl) rfl 2 (by decide)
  exact ⟨pages, last, hemit, hitems, hends⟩

end EliotSearch.Query
