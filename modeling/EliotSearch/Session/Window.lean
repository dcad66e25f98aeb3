import EliotSearch.Session.Exchange

/-!
# The result window

The result vector of a session, its cursor and the pages prepared from it.  A
page never moves the cursor; only the commit of a flushed page does.
-/

namespace EliotSearch.Session

open EliotSearch.Library
open EliotSearch.Library.Json
open EliotSearch.Library.Results
open EliotSearch.Library.Words

variable {wire : Wire}

/-- One result vector and its flush-committed cursor.  The number of items is
recorded in the summary, and the cursor is within them. -/
structure Window (wire : Wire) where
  items : List wire.Item
  summary : WindowSummary
  cursor : UInt8
  retained : summary.retainedItems.toNat = items.length
  bounded : cursor.toNat ≤ items.length

/-- The entries of a result vector, each with its index. -/
def entriesOf {Item : Type} (items : List Item) : List (WindowEntry Item) :=
  items.mapIdx fun index item => ⟨UInt8.ofNat index, item⟩

/-- The entries of the page that a reply carries. -/
def Ready.entries (ready : Ready wire) : List (WindowEntry wire.Item) :=
  match ready.reply.outcome with
  | .page page => page.items
  | _ => []

namespace Window

theorem length_lt (window : Window wire) : window.items.length < 256 := by
  rw [← window.retained]
  exact window.summary.retainedItems.toNat_lt

/-- Keep a result vector with its facts. -/
def ofResults (summary : WindowSummary) (items : List wire.Item) :
    Except QueryFailure (Window wire) :=
  if hfits : items.length < 256 then
    .ok {
      items
      summary := { summary with retainedItems := UInt8.ofNat items.length }
      cursor := 0
      retained := UInt8.toNat_ofNat_of_lt' hfits
      bounded := Nat.zero_le _ }
  else .error (.code (ascii "WINDOW_ITEM_LIMIT"))

/-- Encode a page of `count` items, without its last items while the frame is
too large. -/
def fit (requestId : UInt64) :
    (count : Nat) → WindowPage wire.Item → Except QueryFailure (Ready wire)
  | count, page =>
      match encodeReady ⟨requestId, .page page⟩ (some (page.startIndex, page.nextIndex)) false with
      | .ok ready => .ok ready
      | .error .frameTooLarge =>
          match count with
          | 0 => .error (.code (ascii "WINDOW_ITEM_TOO_LARGE"))
          | 1 => .error (.code (ascii "WINDOW_ITEM_TOO_LARGE"))
          | count + 2 =>
              fit requestId (count + 1) { page with
                items := page.items.dropLast
                nextIndex := page.nextIndex - 1
                hasMore := true
                pageStop := .outputLimit }
      | .error error => .error (.code error.code)

/-- Prepare the page at the cursor. -/
def page (requestId : UInt64) (pageSize : UInt8) (window : Window wire) :
    Except QueryFailure (Ready wire) :=
  let stop := min window.items.length (window.cursor.toNat + pageSize.toNat)
  let entries := ((entriesOf window.items).take stop).drop window.cursor.toNat
  fit requestId entries.length {
    windowId := sessionWindowId
    summary := window.summary
    startIndex := window.cursor
    nextIndex := UInt8.ofNat stop
    items := entries
    hasMore := decide (stop < window.items.length)
    pageStop := .complete }

/-- Only the full-frame flush acknowledgement calls this. -/
def commitPage (expected next : UInt8) (window : Window wire) :
    Except QueryFailure (Window wire) :=
  if hstale : window.cursor ≠ expected ∨ next < expected ∨ next.toNat > window.items.length then
    .error (.code (ascii "WINDOW_CURSOR_STALE"))
  else
    .ok { window with
      cursor := next
      bounded := by
        rw [not_or, not_or, not_lt] at hstale
        exact hstale.2.2 }

/-- Find the item to expand; only emitted items can be. -/
def emitted (itemIndex : UInt8) (window : Window wire) : Except QueryFailure wire.Item := do
  refuse (itemIndex ≥ window.cursor) (.code (ascii "WINDOW_ITEM_NOT_EMITTED"))
  okOr window.items[itemIndex.toNat]? (.code (ascii "WINDOW_ITEM_NOT_EMITTED"))

/-! ## Pages -/

/-- The slice of a result vector that a reply carries, and the cursor update its
flush commits. -/
structure Slice (items : List wire.Item) (cursor : UInt8) (ready : Ready wire) : Prop where
  ends : ready.ends = false
  outcome : ∃ page, ready.reply.outcome = .page page
  entries : ∃ next : UInt8, ready.commit = some (cursor, next) ∧
    next.toNat = cursor.toNat + ready.entries.length ∧
    (entriesOf items).take cursor.toNat ++ ready.entries <+: entriesOf items

theorem entriesOf_length {Item : Type} (items : List Item) :
    (entriesOf items).length = items.length :=
  List.length_mapIdx

theorem entriesOf_index {Item : Type} (items : List Item) (hfits : items.length < 256) :
    (entriesOf items).map (fun entry => entry.itemIndex.toNat) = List.range items.length := by
  refine List.ext_getElem (by simp [entriesOf]) fun index hleft hright => ?_
  have hindex : index < items.length := by simpa using hright
  simp [entriesOf, Nat.mod_eq_of_lt (hindex.trans hfits)]

theorem fit_slice {requestId : UInt64} {items : List wire.Item} {ready : Ready wire} (count : Nat)
    (page : WindowPage wire.Item) (hcount : page.items.length = count)
    (hnext : page.nextIndex.toNat = page.startIndex.toNat + count)
    (hextends : (entriesOf items).take page.startIndex.toNat ++ page.items <+: entriesOf items)
    (hfit : fit requestId count page = .ok ready) :
    Slice items page.startIndex ready ∧ ready.reply.requestId = requestId := by
  induction count using Nat.strong_induction_on generalizing page with
  | _ count ih =>
  unfold fit at hfit
  split at hfit
  · rename_i found hencoded
    obtain rfl := Except.ok.inj hfit
    obtain ⟨hreply, hcommit, hends⟩ := encodeReady_eq_ok hencoded
    have hentries : found.entries = page.items := by rw [Ready.entries, hreply]
    refine ⟨⟨hends, ⟨page, by rw [hreply]⟩, page.nextIndex, hcommit, ?_, ?_⟩, by rw [hreply]⟩
    · rw [hentries, hnext, hcount]
    · rw [hentries]
      exact hextends
  · split at hfit
    · cases hfit
    · cases hfit
    · rename_i count
      have hone : (page.nextIndex - 1).toNat = page.startIndex.toNat + (count + 1) := by
        have hbound := page.nextIndex.toNat_lt
        rw [UInt8.toNat_sub_of_le]
        · rw [hnext]
          rfl
        · have hpositive : 1 ≤ page.nextIndex.toNat := by omega
          exact UInt8.le_iff_toNat_le.mpr hpositive
      have hshort := List.dropLast_prefix page.items
      refine ih (count + 1) (Nat.lt_succ_self _) { page with
        items := page.items.dropLast
        nextIndex := page.nextIndex - 1
        hasMore := true
        pageStop := .outputLimit } ?_ hone ?_ hfit
      · rw [List.length_dropLast, hcount]
        rfl
      · exact ((List.prefix_append_right_inj _).mpr hshort).trans hextends
  · cases hfit

/-- A prepared page is the slice of the result vector at the cursor. -/
theorem page_slice {requestId : UInt64} {pageSize : UInt8} {window : Window wire}
    {ready : Ready wire} (hpage : window.page requestId pageSize = .ok ready) :
    Slice window.items window.cursor ready ∧ ready.reply.requestId = requestId := by
  have hcursor := window.bounded
  have hlength := window.length_lt
  unfold page at hpage
  refine fit_slice _ _ ?_ ?_ ?_ hpage
  · rfl
  · simp only [List.length_drop, List.length_take, entriesOf_length]
    rw [UInt8.toNat_ofNat_of_lt' (lt_of_le_of_lt (min_le_left _ _) hlength)]
    omega
  · dsimp only
    have hle : window.cursor.toNat ≤
        min window.items.length (window.cursor.toNat + pageSize.toNat) := by omega
    have hsplit : (entriesOf window.items).take window.cursor.toNat =
        ((entriesOf window.items).take
          (min window.items.length (window.cursor.toNat + pageSize.toNat))).take
            window.cursor.toNat := by
      rw [List.take_take, min_eq_left hle]
    rw [hsplit, List.take_append_drop]
    exact List.take_prefix _ _

/-- A commit from the cursor to an index within the vector is not stale. -/
theorem commitPage_ok {window : Window wire} {next : UInt8} (hle : window.cursor.toNat ≤ next.toNat)
    (hnext : next.toNat ≤ window.items.length) :
    ∃ moved, window.commitPage window.cursor next = .ok moved ∧ moved.items = window.items ∧
      moved.cursor = next := by
  unfold commitPage
  rw [dif_neg]
  · exact ⟨_, rfl, rfl, rfl⟩
  · rw [not_or, not_or, not_lt, not_not, UInt8.not_lt, UInt8.le_iff_toNat_le]
    exact ⟨rfl, hle, hnext⟩

theorem emitted_eq_ok {window : Window wire} {itemIndex : UInt8} {item : wire.Item}
    (hemitted : window.emitted itemIndex = .ok item) : itemIndex.toNat < window.cursor.toNat := by
  simp only [emitted, bind_eq_ok, refuse_eq_ok] at hemitted
  obtain ⟨_, hbelow, -⟩ := hemitted
  exact UInt8.lt_iff_toNat_lt.mp (UInt8.not_le.mp hbelow)

end Window

end EliotSearch.Session
