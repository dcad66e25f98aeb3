import EliotSearch.Session.Window

/-!
# Page by page

A page holds the most of the requested entries that one frame can carry.  Pages
and commits in turn emit every entry once.
-/

namespace EliotSearch.Session

open EliotSearch.Library
open EliotSearch.Library.Json
open EliotSearch.Library.Results
open EliotSearch.Library.Words

variable {wire : Wire}

namespace Window

/-! ## Prefixes -/

/-- The entries that a page is asked for. -/
def requested (pageSize : UInt8) (window : Window wire) : List (WindowEntry wire.Item) :=
  ((entriesOf window.items).drop window.cursor.toNat).take pageSize.toNat

/-- The page with so many of the requested entries. -/
def pageOf (pageSize : UInt8) (window : Window wire) (count : Nat) : WindowPage wire.Item where
  windowId := sessionWindowId
  summary := window.summary
  startIndex := window.cursor
  nextIndex := UInt8.ofNat (window.cursor.toNat + count)
  items := (window.requested pageSize).take count
  hasMore := decide (window.cursor.toNat + count < window.items.length)
  pageStop := if count = (window.requested pageSize).length then .complete else .outputLimit

/-- The reply with so many of the requested entries fits in a frame. -/
def Fits (requestId : UInt64) (pageSize : UInt8) (window : Window wire) (count : Nat) : Prop :=
  framePrefixBytes +
    (wire.printReply ⟨requestId, .page (window.pageOf pageSize count)⟩).length ≤ maxFrameBytes

instance (requestId : UInt64) (pageSize : UInt8) (window : Window wire) (count : Nat) :
    Decidable (window.Fits requestId pageSize count) :=
  inferInstanceAs (Decidable (_ ≤ _))

/-- The facts and the items of a window that was opened on a validated result. -/
structure Validated (window : Window wire) : Prop where
  generation : window.summary.generation ≠ 0
  room : window.items.length ≤ maxItems
  facts : Wire.FactsAgree window.summary
  items : ∀ item ∈ window.items, wire.validateItem window.summary.generation item = .ok ()
  mode : ∀ item ∈ window.items,
    (wire.searchRank item).isSome = window.summary.foundMatches.isNone
  ranks : ∀ index item, window.items[index]? = some item →
    ∀ rank ∈ wire.searchRank item, rank.toNat = index + 1

section Pages

variable {window : Window wire} {pageSize : UInt8} {requestId : UInt64}

theorem requested_length (pageSize : UInt8) (window : Window wire) :
    (window.requested pageSize).length =
      min pageSize.toNat (window.items.length - window.cursor.toNat) := by
  rw [requested, List.length_take, List.length_drop, entriesOf_length]

/-- The requested entries follow the cursor. -/
theorem requested_getElem? {position : Nat} {entry : WindowEntry wire.Item}
    (hentry : (window.requested pageSize)[position]? = some entry) :
    window.items[window.cursor.toNat + position]? = some entry.item ∧
      entry.itemIndex.toNat = window.cursor.toNat + position := by
  have hposition := (List.getElem?_eq_some_iff.mp hentry).1
  have hlength := requested_length pageSize window
  have hbound := window.length_lt
  rw [requested, List.getElem?_take_of_lt (by omega), List.getElem?_drop, entriesOf,
    List.getElem?_mapIdx] at hentry
  obtain ⟨item, hitem, rfl⟩ := Option.map_eq_some_iff.mp hentry
  refine ⟨hitem, UInt8.toNat_ofNat_of_lt' ?_⟩
  change window.cursor.toNat + position < 256
  omega

/-- Entries are checked one at a time, each at its position. -/
theorem validateEntries_ok {page : WindowPage wire.Item} (entries : List (WindowEntry wire.Item))
    (position : Nat)
    (hvalid : ∀ index entry, entries[index]? = some entry →
      wire.validateEntry page (position + index) entry = .ok ()) :
    wire.validateEntries page position entries = .ok () := by
  induction entries generalizing position with
  | nil => rfl
  | cons entry entries ih =>
      have hentry : wire.validateEntry page position entry = .ok () := hvalid 0 entry rfl
      rw [Wire.validateEntries, hentry, ok_bind]
      apply ih
      intro index other hother
      rw [Nat.add_assoc, Nat.add_comm 1 index]
      exact hvalid (index + 1) other hother

/-- Every page with an entry, and the empty page of a window that is emitted,
passes its own check. -/
theorem Validated.validatePage_ok (hvalidated : window.Validated) {count : Nat}
    (hsize : 0 < pageSize.toNat) (hcount : count ≤ (window.requested pageSize).length)
    (hsome : count = 0 → window.requested pageSize = []) :
    wire.validatePage (window.pageOf pageSize count) = .ok () := by
  have hlength := requested_length pageSize window
  have hcursor := window.bounded
  have hbound := window.length_lt
  have hretained := window.retained
  have hnext : (UInt8.ofNat (window.cursor.toNat + count)).toNat = window.cursor.toNat + count :=
    UInt8.toNat_ofNat_of_lt' (by change _ < 256; omega)
  have htaken : ((window.requested pageSize).take count).length = count := by
    rw [List.length_take, min_eq_left hcount]
  have hempty : (window.requested pageSize).take count = [] →
      ¬ window.cursor.toNat + count < window.items.length := by
    intro hnil
    rw [hnil, List.length_nil] at htaken
    have hnone := hsome htaken.symm
    rw [hnone, List.length_nil] at hlength
    omega
  refine bind_eq_ok.mpr ⟨(), refuse_of_not (not_not.mpr rfl), bind_eq_ok.mpr
    ⟨(), refuse_of_not ?_, validateEntries_ok _ 0 ?_⟩⟩
  · simp only [pageOf, not_or, not_and, not_not, htaken, hnext, gt_iff_lt, UInt8.lt_iff_toNat_lt,
      hretained, ne_eq, decide_eq_true_eq]
    exact ⟨hvalidated.generation, not_lt.mpr hvalidated.room, by omega, by omega, by omega, trivial,
      hempty, hvalidated.facts⟩
  · intro index entry hentry
    have hentry : ((window.requested pageSize).take count)[index]? = some entry := hentry
    have hindex : index < count := by
      have hlt := (List.getElem?_eq_some_iff.mp hentry).1
      omega
    rw [List.getElem?_take_of_lt hindex] at hentry
    obtain ⟨hitem, hposition⟩ := requested_getElem? hentry
    have hmem := List.mem_of_getElem? hitem
    rw [Wire.validateEntry, refuse_of_not, ok_bind, pageOf, hvalidated.items _ hmem, ok_bind,
      refuse_of_not, ok_bind, refuse_of_not]
    · rintro ⟨rank, hrank, hother⟩
      apply hother
      rw [hvalidated.ranks _ _ hitem rank hrank, hposition]
    · exact not_not.mpr (hvalidated.mode _ hmem)
    · rw [Nat.zero_add]
      exact not_not.mpr hposition

/-- A page that passes its check is encoded when it fits, and is too large otherwise. -/
theorem encodeReady_page {page : WindowPage wire.Item} (commit : Option (UInt8 × UInt8))
    (hid : requestId ≠ 0) (hvalid : wire.validatePage page = .ok ()) :
    (framePrefixBytes + (wire.printReply ⟨requestId, .page page⟩).length ≤ maxFrameBytes →
      ∃ ready : Ready wire, encodeReady ⟨requestId, .page page⟩ commit false = .ok ready) ∧
    (¬ framePrefixBytes + (wire.printReply ⟨requestId, .page page⟩).length ≤ maxFrameBytes →
      encodeReady ⟨requestId, .page page⟩ commit false =
        (.error .frameTooLarge : Except ProtocolError (Ready wire))) := by
  have hreply : wire.validateReply ⟨requestId, .page page⟩ = .ok () := by
    rw [Wire.validateReply, refuse_of_not fun hzero => hid hzero.1, ok_bind]
    exact hvalid
  constructor
  · intro hfits
    have hencoded : ∃ bytes, wire.encodeSessionReply ⟨requestId, .page page⟩ = .ok bytes := by
      rw [Wire.encodeSessionReply, hreply, ok_bind, encode, refuse_of_not (not_lt.mpr hfits)]
      exact ⟨_, rfl⟩
    obtain ⟨bytes, hencoded⟩ := hencoded
    unfold encodeReady
    split
    · exact ⟨_, rfl⟩
    · rename_i error herror
      rw [hencoded] at herror
      cases herror
  · intro hlarge
    have hencoded : wire.encodeSessionReply ⟨requestId, .page page⟩ = .error .frameTooLarge := by
      rw [Wire.encodeSessionReply, hreply, ok_bind, encode, refuse, if_pos (not_le.mp hlarge)]
      rfl
    unfold encodeReady
    split
    · rename_i bytes hbytes
      rw [hencoded] at hbytes
      cases hbytes
    · rename_i error herror
      rw [hencoded] at herror
      exact congrArg Except.error (Except.error.inj herror).symm

/-- The reply carries so many of the requested entries, the most that fit. -/
structure Largest (requestId : UInt64) (pageSize : UInt8) (window : Window wire)
    (ready : Ready wire) (count : Nat) : Prop where
  reply : ready.reply = ⟨requestId, .page (window.pageOf pageSize count)⟩
  commit : ready.commit = some (window.cursor, UInt8.ofNat (window.cursor.toNat + count))
  within : count ≤ (window.requested pageSize).length
  positive : window.requested pageSize ≠ [] → 0 < count
  fits : window.Fits requestId pageSize count
  greatest : ∀ more, count < more → more ≤ (window.requested pageSize).length →
    ¬ window.Fits requestId pageSize more

/-- Without its last entry, a page is the page with one entry less. -/
theorem pageOf_dropLast {count : Nat} (hcount : count + 2 ≤ (window.requested pageSize).length) :
    { window.pageOf pageSize (count + 2) with
      items := (window.pageOf pageSize (count + 2)).items.dropLast
      nextIndex := (window.pageOf pageSize (count + 2)).nextIndex - 1
      hasMore := true
      pageStop := .outputLimit } = window.pageOf pageSize (count + 1) := by
  have hlength := requested_length pageSize window
  have hbound := window.length_lt
  have hitems : ((window.requested pageSize).take (count + 2)).dropLast =
      (window.requested pageSize).take (count + 1) := by
    rw [List.dropLast_eq_take, List.length_take, List.take_take, min_eq_left hcount]
    rw [min_eq_left (Nat.sub_le _ _)]
    rfl
  have hnext : UInt8.ofNat (window.cursor.toNat + (count + 2)) - 1 =
      UInt8.ofNat (window.cursor.toNat + (count + 1)) := by
    rw [← Nat.add_assoc window.cursor.toNat (count + 1) 1, UInt8.ofNat_add]
    exact UInt8.add_sub_cancel _ _
  have hmore : window.cursor.toNat + (count + 1) < window.items.length := by omega
  have hstop : count + 1 ≠ (window.requested pageSize).length := by omega
  simp only [pageOf, hitems, hnext, decide_eq_true hmore, if_neg hstop]

/-- From so many entries on, the loop finds the most that fit. -/
theorem fit_largest (hvalidated : window.Validated) (hid : requestId ≠ 0)
    (hsize : 0 < pageSize.toNat)
    (hone : ∀ count ≤ 1, count ≤ (window.requested pageSize).length →
      (count = 0 → window.requested pageSize = []) → window.Fits requestId pageSize count)
    (count : Nat) (hcount : count ≤ (window.requested pageSize).length)
    (hsome : count = 0 → window.requested pageSize = [])
    (hgreatest : ∀ more, count < more → more ≤ (window.requested pageSize).length →
      ¬ window.Fits requestId pageSize more) :
    ∃ ready found, fit requestId count (window.pageOf pageSize count) = .ok ready ∧
      window.Largest requestId pageSize ready found := by
  induction count using Nat.strong_induction_on with
  | _ count ih =>
  obtain ⟨hfitting, hlarge⟩ := encodeReady_page
    (some (window.cursor, UInt8.ofNat (window.cursor.toNat + count))) hid
    (hvalidated.validatePage_ok hsize hcount hsome)
  by_cases hfits : window.Fits requestId pageSize count
  · obtain ⟨ready, hready⟩ := hfitting hfits
    obtain ⟨hreply, hcommit, -⟩ := encodeReady_eq_ok hready
    refine ⟨ready, count, ?_, hreply, hcommit, hcount, ?_, hfits, hgreatest⟩
    · unfold fit
      rw [show encodeReady ⟨requestId, .page (window.pageOf pageSize count)⟩
        (some ((window.pageOf pageSize count).startIndex,
          (window.pageOf pageSize count).nextIndex)) false = .ok ready from hready]
    · intro hrequested
      exact Nat.pos_of_ne_zero fun hzero => hrequested (hsome hzero)
  · have herror := hlarge hfits
    have hmany : 2 ≤ count := by
      by_contra hfew
      exact hfits (hone count (by omega) hcount hsome)
    obtain ⟨less, rfl⟩ := Nat.exists_eq_add_of_le' hmany
    have hshorter : ∀ more, less + 1 < more → more ≤ (window.requested pageSize).length →
        ¬ window.Fits requestId pageSize more := by
      intro more hmore hwithin
      rcases Nat.eq_or_lt_of_le (Nat.succ_le_of_lt hmore) with rfl | hlater
      · exact hfits
      · exact hgreatest more hlater hwithin
    obtain ⟨ready, found, hready, hlargest⟩ := ih (less + 1) (Nat.lt_succ_self _) (by omega)
      (fun hzero => absurd hzero (Nat.succ_ne_zero _)) hshorter
    refine ⟨ready, found, ?_, hlargest⟩
    unfold fit
    rw [show encodeReady ⟨requestId, .page (window.pageOf pageSize (less + 2))⟩
      (some ((window.pageOf pageSize (less + 2)).startIndex,
        (window.pageOf pageSize (less + 2)).nextIndex)) false = .error .frameTooLarge from herror]
    dsimp only
    rw [pageOf_dropLast hcount]
    exact hready

/-- The loop starts with every requested entry. -/
theorem page_eq_fit : window.page requestId pageSize =
    fit requestId (window.requested pageSize).length
      (window.pageOf pageSize (window.requested pageSize).length) := by
  have hlength := requested_length pageSize window
  have hcursor := window.bounded
  have hstop : min window.items.length (window.cursor.toNat + pageSize.toNat) =
      window.cursor.toNat + (window.requested pageSize).length := by omega
  have hentries : ((entriesOf window.items).take
      (window.cursor.toNat + (window.requested pageSize).length)).drop window.cursor.toNat =
        window.requested pageSize := by
    have hall : (window.requested pageSize).take (window.requested pageSize).length =
        window.requested pageSize := List.take_length
    have hwithin : (window.requested pageSize).length ≤ pageSize.toNat := by omega
    rw [List.drop_take, Nat.add_sub_cancel_left]
    nth_rewrite 2 [← hall]
    rw [requested, List.take_take, ← requested, min_eq_left hwithin]
  rw [page, hstop, hentries]
  simp only [pageOf, List.take_length, if_true]

/-- A page of one item always fits in a frame. -/
def SmallPagesFit (wire : Wire) : Prop :=
  ∀ requestId page, wire.validatePage page = .ok () → page.items.length ≤ 1 →
    framePrefixBytes + (wire.printReply ⟨requestId, .page page⟩).length ≤ maxFrameBytes

/-- A validated window always has a page, with the most entries that fit. -/
theorem page_largest (hsmall : SmallPagesFit wire) (hvalidated : window.Validated)
    (hid : requestId ≠ 0) (hsize : 0 < pageSize.toNat) :
    ∃ ready count, window.page requestId pageSize = .ok ready ∧
      window.Largest requestId pageSize ready count := by
  rw [page_eq_fit]
  have hempty (hzero : (window.requested pageSize).length = 0) : window.requested pageSize = [] :=
    List.eq_nil_of_length_eq_zero hzero
  refine fit_largest hvalidated hid hsize ?_ _ le_rfl hempty
    fun more hmore hwithin => absurd hmore (not_lt.mpr hwithin)
  intro count hfew hcount hsome
  refine hsmall _ _ (hvalidated.validatePage_ok hsize hcount hsome) ?_
  change ((window.requested pageSize).take count).length ≤ 1
  rw [List.length_take]
  omega

end Pages

/-! ## Every page -/

/-- Page and commit until a page has nothing behind it. -/
def emitAll (requestIds : Nat → UInt64) (pageSizes : Nat → UInt8) :
    (fuel step : Nat) → Window wire →
      Except QueryFailure (List (WindowPage wire.Item) × Window wire)
  | 0, _, window => return ([], window)
  | fuel + 1, step, window => do
      let ready ← window.page (requestIds step) (pageSizes step)
      match ready.reply.outcome, ready.commit with
      | .page page, some (expected, next) => do
          let window ← window.commitPage expected next
          if page.hasMore then do
            let (pages, window) ← emitAll requestIds pageSizes fuel (step + 1) window
            return (page :: pages, window)
          else return ([page], window)
      | _, _ => .error (.code (ascii "QUERY_INTERNAL_ERROR"))

/-- A commit changes the cursor only. -/
theorem commitPage_eq {window : Window wire} {next : UInt8}
    (hle : window.cursor.toNat ≤ next.toNat) (hnext : next.toNat ≤ window.items.length) :
    window.commitPage window.cursor next =
      .ok { window with cursor := next, bounded := hnext } := by
  unfold commitPage
  rw [dif_neg]
  rw [not_or, not_or, not_lt, not_not, UInt8.not_lt, UInt8.le_iff_toNat_le]
  exact ⟨rfl, hle, hnext⟩

/-- All pages but the last have more behind them. -/
def LastEnds (pages : List (WindowPage wire.Item)) : Prop :=
  ∀ index page, pages[index]? = some page → (page.hasMore = false ↔ index + 1 = pages.length)

theorem lastEnds_cons {page : WindowPage wire.Item} {pages : List (WindowPage wire.Item)}
    (hmore : page.hasMore = true) (hsome : pages ≠ []) (hpages : LastEnds pages) :
    LastEnds (page :: pages) := by
  intro index other hother
  have hpositive := List.length_pos_iff.mpr hsome
  cases index with
  | zero =>
      obtain rfl := Option.some.inj hother
      rw [hmore, List.length_cons]
      constructor
      · intro hends
        cases hends
      · intro hlast
        omega
  | succ index =>
      rw [List.getElem?_cons_succ] at hother
      rw [hpages index other hother, List.length_cons]
      omega

/-- The entries of a page and those behind it are the entries at the cursor. -/
theorem pageOf_items {window : Window wire} {pageSize : UInt8} {count : Nat}
    (hcount : count ≤ (window.requested pageSize).length) :
    (window.pageOf pageSize count).items ++
        (entriesOf window.items).drop (window.cursor.toNat + count) =
      (entriesOf window.items).drop window.cursor.toNat := by
  have hlength := requested_length pageSize window
  have hwithin : count ≤ pageSize.toNat := by omega
  have hitems : (window.pageOf pageSize count).items =
      ((entriesOf window.items).drop window.cursor.toNat).take count := by
    change (window.requested pageSize).take count = _
    rw [requested, List.take_take, min_eq_left hwithin]
  rw [hitems, ← List.drop_drop, List.take_append_drop]

/-- From any cursor, paging and committing ends: it emits the rest of the entries
once and in order, and only the last page has nothing behind it. -/
theorem emitAll_rest (hsmall : SmallPagesFit wire) {requestIds : Nat → UInt64}
    {pageSizes : Nat → UInt8} (hids : ∀ step, requestIds step ≠ 0)
    (hsizes : ∀ step, 0 < (pageSizes step).toNat) (fuel step : Nat) (window : Window wire)
    (hvalidated : window.Validated)
    (hfuel : window.items.length - window.cursor.toNat < fuel) :
    ∃ pages last, emitAll requestIds pageSizes fuel step window = .ok (pages, last) ∧
      pages.flatMap WindowPage.items = (entriesOf window.items).drop window.cursor.toNat ∧
      last.cursor.toNat = window.items.length ∧ pages ≠ [] ∧ LastEnds pages := by
  induction fuel generalizing step window with
  | zero => exact absurd hfuel (Nat.not_lt_zero _)
  | succ fuel ih =>
      obtain ⟨ready, count, hpage, hlargest⟩ :=
        page_largest hsmall hvalidated (hids step) (hsizes step)
      have hlength := requested_length (pageSizes step) window
      have hwithin := hlargest.within
      have hcursor := window.bounded
      have hbound := window.length_lt
      have hnext : (UInt8.ofNat (window.cursor.toNat + count)).toNat =
          window.cursor.toNat + count := UInt8.toNat_ofNat_of_lt' (by change _ < 256; omega)
      have hend : (UInt8.ofNat (window.cursor.toNat + count)).toNat ≤ window.items.length := by
        omega
      have hcommit : window.commitPage window.cursor (UInt8.ofNat (window.cursor.toNat + count)) =
          .ok { window with cursor := UInt8.ofNat (window.cursor.toNat + count), bounded := hend } :=
        commitPage_eq (by omega) hend
      have hitems := pageOf_items hlargest.within
      rw [emitAll, hpage, ok_bind, hlargest.reply, hlargest.commit]
      dsimp only
      rw [hcommit, ok_bind]
      by_cases hmore : window.cursor.toNat + count < window.items.length
      · have hsome : window.requested (pageSizes step) ≠ [] := by
          intro hnone
          have hsize := hsizes step
          rw [hnone, List.length_nil] at hlength
          omega
        have hpositive := hlargest.positive hsome
        obtain ⟨pages, last, hemit, hrest, hlast, hpages, hends⟩ := ih (step + 1)
          { window with cursor := UInt8.ofNat (window.cursor.toNat + count), bounded := hend }
          ⟨hvalidated.generation, hvalidated.room, hvalidated.facts, hvalidated.items,
            hvalidated.mode, hvalidated.ranks⟩ (by dsimp only; omega)
        have hhas : (window.pageOf (pageSizes step) count).hasMore = true := decide_eq_true hmore
        rw [if_pos hhas, hemit]
        refine ⟨_ :: pages, last, rfl, ?_, hlast, List.cons_ne_nil _ _,
          lastEnds_cons hhas hpages hends⟩
        rw [List.flatMap_cons, hrest, ← hitems]
        dsimp only
        rw [hnext]
      · have hhas : (window.pageOf (pageSizes step) count).hasMore = false :=
          decide_eq_false hmore
        rw [if_neg (by rw [hhas]; exact Bool.false_ne_true)]
        refine ⟨_, _, rfl, ?_, ?_, List.cons_ne_nil _ _, ?_⟩
        · have hnone : (entriesOf window.items).drop (window.cursor.toNat + count) = [] :=
            List.drop_eq_nil_of_le (by rw [entriesOf_length]; omega)
          rw [hnone, List.append_nil] at hitems
          rw [List.flatMap_singleton, hitems]
        · dsimp only
          omega
        · intro index page hpage
          obtain ⟨hindex, rfl⟩ := List.getElem?_eq_some_iff.mp hpage
          have hzero : index = 0 := by
            rw [List.length_singleton] at hindex
            omega
          subst hzero
          exact iff_of_true hhas rfl

end Window

end EliotSearch.Session
