import EliotSearch.Corpus.Hydration
import EliotSearch.Corpus.Splitting

/-!
# Visiting pages

The pages of a range are hydrated and handed to a visitor in turn.  One decoded
source stays at hand while its points last, over the ends of pages; one page
stays at hand while its points last, over the changes of sources.
-/

namespace EliotSearch.Corpus

open EliotSearch.Control
open EliotSearch.Control.Verify (pointsIn)
open EliotSearch.Library
open EliotSearch.Library.Json
open EliotSearch.Library.Loops
open EliotSearch.Library.Results
open EliotSearch.Library.Utf8
open EliotSearch.Library.Words
open EliotSearch.Preparation
open EliotSearch.Query

/-! ## The loops -/

/-- The page at hand: its number, the size recorded for its request, the points
still to hydrate and the hydrated ones. -/
structure Cursor where
  number : UInt64
  requestBytes : Option UInt64
  points : List UploadPoint
  hydrated : List HydratedPoint

/-- The visitor and the pages it was handed. -/
structure Visits (ω : Type) where
  visitor : ω
  calls : List (UInt64 × List HydratedPoint)

/-- How a walk over pages ends: with a result, or without a point to peek at. -/
inductive Exit where
  | returned (result : Except Bytes Unit)
  | exhausted

def Exit.result : Exit → Except Bytes Unit
  | .returned result => result
  | .exhausted => .error (ascii "PUBLICATION_CORRUPT")

/-- The surroundings at a place of the walk. -/
def Cursor.place (env : Env) (cursor : Cursor) : Env :=
  within (within env cursor.number.toNat) cursor.hydrated.length

section Walk

variable {ω : Type} (encodedLen : UpsertPoints → Nat) (store : Store) (snapshot : ω → Db)
  (visit : ω → UInt64 × List HydratedPoint → ω × Except Bytes Unit) (generation : Generation)
  (last : UInt64) (env : Env)

/-- The request of the page has the size recorded with it. -/
def checkWire (env : Env) (cursor : Cursor) : Except Bytes Unit := do
  let wire ← (batchRequestBytes encodedLen env generation.collection
    (inputs cursor.hydrated)).mapError fun error => ascii error.code
  refuse (∃ saved ∈ cursor.requestBytes, saved.toNat ≠ wire) (ascii "PUBLICATION_CORRUPT")

/-- The page after the given one, unless that is the last. -/
def nextPage (env : Env) (db : Db) (number : UInt64) : Except Bytes (Option Cursor) := do
  let number ← okOr (checkedAdd number 1) (ascii "PUBLICATION_LIMIT")
  if number = last then return none
  check env 0
  let page ← readPage (within env 1) db generation number
  return some ⟨number, page.requestBytes, page.points, []⟩

/-- Hand a hydrated page to the visitor and go to the next page. -/
def emitPage (visits : Visits ω) (cursor : Cursor) : Visits ω × Except Bytes (Option Cursor) :=
  match checkWire encodedLen generation (within (cursor.place env) 4) cursor with
  | .error error => (visits, .error error)
  | .ok () =>
      let call := (cursor.number, cursor.hydrated)
      let (visitor, answer) := visit visits.visitor call
      (⟨visitor, visits.calls ++ [call]⟩, do
        answer
        nextPage generation last (within (cursor.place env) 5) (snapshot visitor) cursor.number)

/-- One turn with a source at hand, ending at a point of another source or at the
last page. -/
def sourceTurn (retained : Retained) (state : Visits ω × Cursor) :
    Option ((Visits ω × Cursor) ⊕ (Visits ω × Except Bytes (Option Cursor))) :=
  let (visits, cursor) := state
  match hydrateRun (within env cursor.number.toNat) retained cursor.points cursor.hydrated with
  | .error error => some (.inr (visits, .error error))
  | .ok (point :: points, hydrated) =>
      some (.inr (visits, .ok (some { cursor with points := point :: points, hydrated })))
  | .ok ([], hydrated) =>
      match emitPage encodedLen snapshot visit generation last env visits
        { cursor with points := [], hydrated } with
      | (visits, .error error) => some (.inr (visits, .error error))
      | (visits, .ok none) => some (.inr (visits, .ok none))
      | (visits, .ok (some next)) => some (.inl (visits, next))

/-- One turn with a point of a source that is not at hand. -/
def pageTurn (state : Visits ω × Cursor) : Option ((Visits ω × Cursor) ⊕ (Visits ω × Exit)) :=
  let (visits, cursor) := state
  match cursor.points with
  | [] => some (.inr (visits, .exhausted))
  | point :: _ =>
      match retainSource store (cursor.place env) (snapshot visits.visitor) generation
        point.evidence.sourceId with
      | .error error => some (.inr (visits, .returned (.error error)))
      | .ok retained =>
          match loop (sourceTurn encodedLen snapshot visit generation last env retained)
            (last.toNat - cursor.number.toNat) (visits, cursor) with
          | none => none
          | some (visits, .error error) => some (.inr (visits, .returned (.error error)))
          | some (visits, .ok none) => some (.inr (visits, .returned (.ok ())))
          | some (visits, .ok (some next)) => some (.inl (visits, next))

/-- Walk the pages from the first up to the last.  Each turn takes a point, and a
page has at most 128, which bounds the fuel. -/
def walkPages (visitor : ω) (first : UInt64) : Option (Visits ω × Exit) :=
  if first ≥ last then some (⟨visitor, []⟩, .returned (.ok ()))
  else match readPage env (snapshot visitor) generation first with
    | .error error => some (⟨visitor, []⟩, .returned (.error error))
    | .ok page =>
        loop (pageTurn encodedLen store snapshot visit generation last (within env 0))
          (maxPagePoints * (last.toNat - first.toNat) + 1)
          (⟨visitor, []⟩, ⟨first, page.requestBytes, page.points, []⟩)

def visitPages (visitor : ω) (first : UInt64) : Option (Visits ω × Except Bytes Unit) :=
  (walkPages encodedLen store snapshot visit generation last env visitor first).map
    fun (visits, exit) => (visits, exit.result)

end Walk

/-! ## Whole corpora -/

/-- A call hands over the numbered page with exactly its points and their texts. -/
structure PageCall (store : Store) (entries : List SourceEntry) (pages : List UploadPage)
    (number : Nat) (call : UInt64 × List HydratedPoint) : Prop where
  numbered : call.1.toNat = number
  points : ∃ page, pages[number]? = some page ∧ call.2.map HydratedPoint.point = page.points
  quoted : ∀ found ∈ call.2, Quoted store entries found

section Whole

variable {ω : Type}

/-- What validation of a generation leaves open: its objects are stored and
decode to the units of its points, the recorded sizes are those of the requests,
and the visitor leaves the generation available. -/
structure Intact (encodedLen : UpsertPoints → Nat) (store : Store) (snapshot : ω → Db)
    (visit : ω → UInt64 × List HydratedPoint → ω × Except Bytes Unit) (g : Generation)
    (last : UInt64) (start : ω) (entries : List SourceEntry) (pages : List UploadPage) :
    Prop where
  range : last ≤ g.pageCount
  points : ∀ point ∈ pointsIn pages, ∀ entry ∈ entries, point.evidence.BoundTo entry →
    ∃ bytes, store.Holds point.evidence.prepared bytes ∧
      Admissible point.evidence.prepared maxArtifactBytes ∧
      (∀ env, Undisturbed env → ∃ view, decodePreparedUtf8 store.hash env bytes
        entry.captured.source entry.captured.preparation.settings limits = .ok view) ∧
      ∀ env view, decodePreparedUtf8 store.hash env bytes entry.captured.source
        entry.captured.preparation.settings limits = .ok view →
        ∃ text, unitText view point.evidence = .ok text
  requests : ∀ page ∈ pages, ∀ hydrated : List HydratedPoint,
    hydrated.map HydratedPoint.point = page.points →
    (∀ found ∈ hydrated, Quoted store entries found) → ∀ env, Undisturbed env →
    ∃ wire, batchRequestBytes encodedLen env g.collection (inputs hydrated) = .ok wire ∧
      ∀ saved ∈ page.requestBytes, saved.toNat = wire
  available : ∀ calls visitor, inTurn visit start calls = (visitor, .ok ()) →
    Available (snapshot visitor) g

variable {encodedLen : UpsertPoints → Nat} {store : Store} {snapshot : ω → Db}
  {visit : ω → UInt64 × List HydratedPoint → ω × Except Bytes Unit} {g : Generation}
  {last : UInt64} {env : Env} {start : ω} {db later : Db} {entries : List SourceEntry}
  {pages : List UploadPage} {retained : Retained}

theorem Intact.retain (hintact : Intact encodedLen store snapshot visit g last start entries pages)
    (hverified : Verified db g entries pages) (hquiet : Undisturbed env)
    (hsame : SameSaved db later) (havailable : Available later g) {point : UploadPoint}
    (hpoint : point ∈ pointsIn pages) {error : Bytes} :
    retainSource store env later g point.evidence.sourceId ≠ .error error := by
  obtain ⟨evidence, -, hpoints⟩ := hverified.savedPoints
  obtain ⟨entry, hentry, hbound⟩ := hpoints.owned point hpoint
  obtain ⟨bytes, hholds, hadmissible, hdecodes, -⟩ :=
    hintact.points point hpoint entry hentry hbound
  have hread := hverified.readSavedSource_ok hsame havailable hentry
  rw [← hbound.source] at hread
  have hobserve : observeDatabase (within env 1) later
      (fun db => readSavedSource db g point.evidence.sourceId) = .ok entry.captured :=
    observeDatabase_ok (hquiet.within 1) hread
  have hobject := readObject_holds (hquiet.within 2) hadmissible hholds
  obtain ⟨view, hview⟩ := hdecodes (within env 3) (hquiet.within 3)
  have hartifact := readyArtifact_eq_ok.mpr hbound.prepared.symm
  rw [retainSource, check, checkWith_ok hquiet, ok_bind, mapError_eq_ok.mpr hobserve, ok_bind,
    hartifact, ok_bind, mapError_eq_ok.mpr hobject, ok_bind, mapError_eq_ok.mpr hview, ok_bind]
  rintro ⟨⟩

theorem Intact.run (hintact : Intact encodedLen store snapshot visit g last start entries pages)
    (hverified : Verified db g entries pages) (hquiet : Undisturbed env)
    (hbacked : retained.Backed store entries) {points : List UploadPoint}
    (hpoints : ∀ point ∈ points, point ∈ pointsIn pages) {hydrated : List HydratedPoint}
    {error : Bytes} : hydrateRun env retained points hydrated ≠ .error error := by
  induction points generalizing hydrated with
  | nil => rintro ⟨⟩
  | cons point points ih =>
      obtain ⟨hpoint, hrest⟩ := List.forall_mem_cons.mp hpoints
      rw [hydrateRun]
      by_cases hsource : point.evidence.sourceId = retained.captured.source.sourceId
      · obtain ⟨evidence, -, hsaved⟩ := hverified.savedPoints
        obtain ⟨owner, howner, hbound⟩ := hsaved.owned point hpoint
        obtain ⟨entry, hentry, hcaptured, hartifact, bytes, decoding, hholds, hdecode⟩ := hbacked
        have hsameId : owner.id = entry.id := by
          rw [← hbound.source, hsource, ← hcaptured]
          rfl
        obtain rfl := hverified.entry_unique howner hentry hsameId
        have hprepared : point.evidence.prepared = retained.artifact :=
          Option.some.inj (hbound.prepared.trans hartifact)
        obtain ⟨stored, hstored, -, -, htexts⟩ := hintact.points point hpoint owner howner hbound
        obtain rfl := hstored.unique (hprepared ▸ hholds)
        obtain ⟨text, htext⟩ := htexts decoding retained.view hdecode
        have hmatches : ¬ (point.evidence.sourceNamespaceId ≠
              retained.captured.source.sourceNamespaceId ∨
            point.evidence.input ≠ retained.captured.source.objectRef ∨
            point.evidence.prepared ≠ retained.artifact) := by
          rw [← hcaptured]
          rintro (hnamespace | hinput | hother)
          · exact hnamespace hbound.namespaceId
          · exact hinput hbound.input
          · exact hother hprepared
        rw [if_pos hsource, check, checkWith_ok (hquiet.within hydrated.length), ok_bind,
          hydratePoint, refuse_of_not hmatches, ok_bind, htext, ok_bind, pure_eq_ok, ok_bind]
        exact ih hrest
      · rw [if_neg hsource]
        rintro ⟨⟩

/-- Before each turn the visitor accepted the pages up to the one at hand, whose
points are the hydrated ones and those still to hydrate. -/
structure Walking (store : Store) (snapshot : ω → Db)
    (visit : ω → UInt64 × List HydratedPoint → ω × Except Bytes Unit) (first last : UInt64)
    (start : ω) (db : Db) (entries : List SourceEntry) (pages : List UploadPage)
    (visits : Visits ω) (cursor : Cursor) : Prop where
  saved : SameSaved db (snapshot visits.visitor)
  accepted : inTurn visit start visits.calls = (visits.visitor, .ok ())
  calls : ∀ index call, visits.calls[index]? = some call →
    PageCall store entries pages (first.toNat + index) call
  numbered : cursor.number.toNat = first.toNat + visits.calls.length
  behind : cursor.number < last
  page : ∃ page, pages[cursor.number.toNat]? = some page ∧
    page.requestBytes = cursor.requestBytes ∧
    cursor.hydrated.map HydratedPoint.point ++ cursor.points = page.points
  quoted : ∀ found ∈ cursor.hydrated, Quoted store entries found

/-- What a walk over the pages from the first up to the last has done when it
ends: each page was handed over once and in order, with success exactly when the
visitor accepted all of them. -/
structure Walked (encodedLen : UpsertPoints → Nat) (store : Store) (snapshot : ω → Db)
    (visit : ω → UInt64 × List HydratedPoint → ω × Except Bytes Unit) (g : Generation)
    (first last : UInt64) (env : Env) (start : ω) (entries : List SourceEntry)
    (pages : List UploadPage) (visits : Visits ω) (result : Except Bytes Unit) : Prop where
  calls : ∀ index call, visits.calls[index]? = some call →
    PageCall store entries pages (first.toNat + index) call
  bounded : visits.calls.length ≤ last.toNat - first.toNat
  answered : ∃ answer, inTurn visit start visits.calls = (visits.visitor, answer) ∧
    (result = .ok () ↔ answer = .ok () ∧ visits.calls.length = last.toNat - first.toNat) ∧
    (∀ error, answer = .error error → result = .error error) ∧
    (Undisturbed env → Intact encodedLen store snapshot visit g last start entries pages →
      result = answer)

variable {first : UInt64} {visits : Visits ω} {cursor : Cursor}

/-- The points of the page at hand are points of the generation. -/
theorem Walking.points (hwalking : Walking store snapshot visit first last start db entries pages
    visits cursor) : ∀ point ∈ cursor.points, point ∈ pointsIn pages := by
  obtain ⟨page, hpage, -, hsplit⟩ := hwalking.page
  intro point hmem
  refine List.mem_flatMap.mpr ⟨page, List.mem_of_getElem? hpage, ?_⟩
  rw [← hsplit]
  exact List.mem_append_right _ hmem

/-- A failure before the next page is handed over ends the walk. -/
theorem Walking.stop (hwalking : Walking store snapshot visit first last start db entries pages
    visits cursor) {error : Bytes}
    (hdisturbed : Undisturbed env →
      ¬ Intact encodedLen store snapshot visit g last start entries pages) :
    Walked encodedLen store snapshot visit g first last env start entries pages visits
      (.error error) := by
  have hbehind := UInt64.lt_iff_toNat_lt.mp hwalking.behind
  have hnumber := hwalking.numbered
  refine ⟨hwalking.calls, by omega, .ok (), hwalking.accepted, ⟨nofun, ?_⟩, nofun, ?_⟩
  · rintro ⟨-, hlength⟩
    omega
  · exact fun hquiet hintact => absurd hintact (hdisturbed hquiet)

/-- The calls with one more for the page at hand. -/
theorem Walking.calls_concat (hwalking : Walking store snapshot visit first last start db entries
    pages visits cursor) (hdone : cursor.points = []) :
    ∀ index call, (visits.calls ++ [(cursor.number, cursor.hydrated)])[index]? = some call →
      PageCall store entries pages (first.toNat + index) call := by
  intro index call hcall
  rcases Nat.lt_or_ge index visits.calls.length with hindex | hindex
  · rw [List.getElem?_append_left hindex] at hcall
    exact hwalking.calls index call hcall
  · rw [List.getElem?_append_right hindex, List.getElem?_singleton] at hcall
    split at hcall
    · rename_i hzero
      obtain rfl := Option.some.inj hcall
      obtain ⟨page, hpage, -, hsplit⟩ := hwalking.page
      have hnumber : cursor.number.toNat = first.toNat + index := by
        rw [hwalking.numbered]
        omega
      refine ⟨hnumber, ⟨page, hnumber ▸ hpage, ?_⟩, hwalking.quoted⟩
      rw [← hsplit, hdone, List.append_nil]
    · cases hcall

/-- The size recorded with an intact page is that of its request. -/
theorem Walking.wire (hwalking : Walking store snapshot visit first last start db entries pages
    visits cursor) (hdone : cursor.points = []) (hquiet : Undisturbed env)
    (hintact : Intact encodedLen store snapshot visit g last start entries pages) :
    checkWire encodedLen g env cursor = .ok () := by
  obtain ⟨page, hpage, hrequest, hsplit⟩ := hwalking.page
  rw [hdone, List.append_nil] at hsplit
  obtain ⟨wire, hwire, hsaved⟩ := hintact.requests page (List.mem_of_getElem? hpage) cursor.hydrated
    hsplit hwalking.quoted env hquiet
  have hsame : ¬ ∃ saved ∈ cursor.requestBytes, saved.toNat ≠ wire := by
    rintro ⟨saved, hmem, hother⟩
    exact hother (hsaved saved (hrequest ▸ hmem))
  rw [checkWire, mapError_eq_ok.mpr hwire, ok_bind, refuse_of_not hsame]

/-- Behind a page in the range there is the end of the range or another page. -/
theorem nextPage_eq_ok (hverified : Verified db g entries pages) (hsame : SameSaved db later)
    {number : UInt64} (hbehind : number < last) {following : Option Cursor}
    (hnext : nextPage g last env later number = .ok following) :
    (following = none ∧ number.toNat + 1 = last.toNat) ∨ ∃ cursor page, following = some cursor ∧
      cursor.number.toNat = number.toNat + 1 ∧ cursor.number < last ∧ cursor.hydrated = [] ∧
      pages[cursor.number.toNat]? = some page ∧ page.requestBytes = cursor.requestBytes ∧
      cursor.points = page.points := by
  simp only [nextPage, bind_eq_ok, okOr_eq_ok, checkedAdd_eq_some] at hnext
  obtain ⟨succ, hsucc, hnext⟩ := hnext
  have hword : succ.toNat = number.toNat + 1 := hsucc
  have hless := UInt64.lt_iff_toNat_lt.mp hbehind
  split at hnext
  · rename_i hlast
    obtain rfl := Except.ok.inj hnext
    exact Or.inl ⟨rfl, by rw [← hlast, hword]⟩
  · rename_i hlast
    obtain ⟨_, -, hread⟩ := bind_eq_ok.mp hnext
    obtain ⟨page, hpage, hfound⟩ := bind_eq_ok.mp hread
    obtain rfl := Except.ok.inj hfound
    have hother : succ.toNat ≠ last.toNat := fun hequal => hlast (UInt64.toNat_inj.mp hequal)
    refine Or.inr ⟨_, page, rfl, hword, ?_, rfl, readPage_eq_ok hverified hsame hpage, rfl, rfl⟩
    have hbefore : succ.toNat < last.toNat := by omega
    exact UInt64.lt_iff_toNat_lt.mpr hbefore

theorem nextPage_eq_error {number : UInt64} (hbehind : number < last) {error : Bytes}
    (hnext : nextPage g last env later number = .error error) :
    number.toNat + 1 < last.toNat := by
  have hless := UInt64.lt_iff_toNat_lt.mp hbehind
  rcases Nat.lt_or_ge (number.toNat + 1) last.toNat with hbefore | hlast
  · exact hbefore
  · have hsucc : checkedAdd number 1 = some last := by
      rw [checkedAdd_eq_some]
      exact Nat.le_antisymm hlast hless
    rw [nextPage, hsucc, okOr_some, ok_bind, if_pos rfl] at hnext
    cases hnext

theorem Intact.following
    (hintact : Intact encodedLen store snapshot visit g last start entries pages)
    (hverified : Verified db g entries pages) (hquiet : Undisturbed env)
    (hsame : SameSaved db later) (havailable : Available later g) {number : UInt64}
    (hbehind : number < last) {error : Bytes} :
    nextPage g last env later number ≠ .error error := by
  intro hnext
  have hbefore := nextPage_eq_error hbehind hnext
  have hbound := last.toNat_lt
  obtain ⟨succ, hsucc⟩ : ∃ succ : UInt64, succ.toNat = number.toNat + 1 :=
    ⟨UInt64.ofNat (number.toNat + 1), UInt64.toNat_ofNat_of_lt' (Nat.lt_trans hbefore hbound)⟩
  have hother : ¬ succ = last := by
    rintro rfl
    omega
  have hcount : succ < g.pageCount := by
    have hrange := UInt64.le_iff_toNat_le.mp hintact.range
    rw [UInt64.lt_iff_toNat_lt, hsucc]
    omega
  obtain ⟨page, hpage⟩ := hverified.readSavedPage_ok hsame havailable hcount
  have hread : readPage (within env 1) later g succ = .ok page :=
    mapError_eq_ok.mpr (observeDatabase_ok (hquiet.within 1) hpage)
  have hadd : checkedAdd number 1 = some succ := checkedAdd_eq_some.mpr hsucc
  rw [nextPage, hadd, okOr_some, ok_bind, if_neg hother, check, checkWith_ok hquiet, ok_bind, hread,
    ok_bind] at hnext
  cases hnext

/-- The visitor leaves the saved pages and sources alone. -/
def Keeps (snapshot : ω → Db) (visit : ω → UInt64 × List HydratedPoint → ω × Except Bytes Unit) :
    Prop :=
  ∀ visitor call, SameSaved (snapshot visitor) (snapshot (visit visitor call).1)

/-- The visits after one more call. -/
def Visits.after (visits : Visits ω) (visitor : ω) (cursor : Cursor) : Visits ω :=
  ⟨visitor, visits.calls ++ [(cursor.number, cursor.hydrated)]⟩

theorem Visits.after_length (visits : Visits ω) (visitor : ω) (cursor : Cursor) :
    (visits.after visitor cursor).calls.length = visits.calls.length + 1 := by
  rw [Visits.after, List.length_append, List.length_singleton]

theorem emitPage_answered {visitor : ω} {answer : Except Bytes Unit}
    (hwire : checkWire encodedLen g (within (cursor.place env) 4) cursor = .ok ())
    (hanswer : visit visits.visitor (cursor.number, cursor.hydrated) = (visitor, answer)) :
    emitPage encodedLen snapshot visit g last env visits cursor =
      (visits.after visitor cursor, do
        answer
        nextPage g last (within (cursor.place env) 5) (snapshot visitor) cursor.number) := by
  rw [emitPage, hwire]
  dsimp only
  rw [hanswer]
  rfl

/-- A hydrated page is handed over: the walk ends, or goes on with the next page. -/
theorem Walking.emit (hverified : Verified db g entries pages) (hkeeps : Keeps snapshot visit)
    (hwalking : Walking store snapshot visit first last start db entries pages visits cursor)
    (hdone : cursor.points = []) :
    (∃ after error,
      emitPage encodedLen snapshot visit g last env visits cursor = (after, .error error) ∧
      Walked encodedLen store snapshot visit g first last env start entries pages after
        (.error error)) ∨
    (∃ after, emitPage encodedLen snapshot visit g last env visits cursor = (after, .ok none) ∧
      Walked encodedLen store snapshot visit g first last env start entries pages after (.ok ())) ∨
    ∃ after following,
      emitPage encodedLen snapshot visit g last env visits cursor = (after, .ok (some following)) ∧
      Walking store snapshot visit first last start db entries pages after following ∧
      following.number.toNat = cursor.number.toNat + 1 ∧ following.points ≠ [] ∧
      following.points.length ≤ maxPagePoints := by
  have hbehind := UInt64.lt_iff_toNat_lt.mp hwalking.behind
  have hnumber := hwalking.numbered
  have hcalls := hwalking.calls_concat hdone
  have hquietPlace (hquiet : Undisturbed env) (site : Nat) :
      Undisturbed (within (cursor.place env) site) :=
    ((hquiet.within _).within _).within site
  rcases hwire : checkWire encodedLen g (within (cursor.place env) 4) cursor with error | _
  · refine Or.inl ⟨visits, error, ?_, hwalking.stop fun hquiet hintact => ?_⟩
    · rw [emitPage, hwire]
    · rw [hwalking.wire hdone (hquietPlace hquiet 4) hintact] at hwire
      cases hwire
  rcases hanswer : visit visits.visitor (cursor.number, cursor.hydrated) with ⟨visitor, answer⟩
  have hemit : emitPage encodedLen snapshot visit g last env visits cursor = _ :=
    emitPage_answered hwire hanswer
  have hturn : inTurn visit start (visits.after visitor cursor).calls = (visitor, answer) := by
    rw [Visits.after, inTurn_concat hwalking.accepted, hanswer]
  have hlength := visits.after_length visitor cursor
  have hroom : (visits.after visitor cursor).calls.length ≤ last.toNat - first.toNat := by omega
  cases answer with
  | error error =>
      refine Or.inl ⟨_, error, hemit, hcalls, hroom, .error error, hturn, ?_, ?_, fun _ _ => rfl⟩
      · exact ⟨nofun, fun hboth => nomatch hboth.1⟩
      · rintro _ ⟨⟩
        rfl
  | ok =>
      have hsaved : SameSaved db (snapshot visitor) := by
        have hkept := hkeeps visits.visitor (cursor.number, cursor.hydrated)
        rw [hanswer] at hkept
        exact hwalking.saved.trans hkept
      rw [ok_bind] at hemit
      rcases hnext : nextPage g last (within (cursor.place env) 5) (snapshot visitor) cursor.number
        with error | following
      · rw [hnext] at hemit
        have hbefore := nextPage_eq_error hwalking.behind hnext
        refine Or.inl ⟨_, error, hemit, hcalls, hroom, .ok (), hturn, ⟨nofun, ?_⟩, nofun, ?_⟩
        · rintro ⟨-, hend⟩
          omega
        · intro hquiet hintact
          exact absurd hnext (hintact.following hverified (hquietPlace hquiet 5) hsaved
            (hintact.available _ _ hturn) hwalking.behind)
      · rw [hnext] at hemit
        rcases nextPage_eq_ok hverified hsaved hwalking.behind hnext with ⟨rfl, hlast⟩ |
          ⟨other, page, rfl, hother, hbefore, hfresh, hpage, hrequest, hpoints⟩
        · refine Or.inr (Or.inl ⟨_, hemit, hcalls, hroom, .ok (), hturn, ?_, nofun, fun _ _ => rfl⟩)
          exact ⟨fun _ => ⟨rfl, by omega⟩, fun _ => rfl⟩
        · obtain ⟨hnonempty, hcount, -⟩ := hverified.page hpage
          rw [← hpoints] at hnonempty hcount
          refine Or.inr (Or.inr ⟨_, other, hemit, ⟨hsaved, hturn, hcalls, by omega, hbefore,
            ⟨page, hpage, hrequest, ?_⟩, ?_⟩, hother, hnonempty, hcount⟩)
          · rw [hfresh, hpoints, List.map_nil, List.nil_append]
          · rw [hfresh]
            exact nofun

/-- The points still to hydrate, and as many as may be on the pages behind. -/
def Cursor.weight (last : UInt64) (cursor : Cursor) : Nat :=
  cursor.points.length + maxPagePoints * (last.toNat - (cursor.number.toNat + 1))

/-- The first point still to hydrate is one of the source at hand. -/
def Retained.Leads (retained : Retained) (cursor : Cursor) : Prop :=
  (cursor.points.head?.map fun point => point.evidence.sourceId) =
    some retained.captured.source.sourceId

/-- What the turns with one source at hand lead to: the end of the walk, or a
point of another source behind at least one point. -/
def SourceLeft (encodedLen : UpsertPoints → Nat) (store : Store) (snapshot : ω → Db)
    (visit : ω → UInt64 × List HydratedPoint → ω × Except Bytes Unit) (g : Generation)
    (first last : UInt64) (env : Env) (start : ω) (db : Db) (entries : List SourceEntry)
    (pages : List UploadPage) (weight : Nat) :
    Visits ω × Except Bytes (Option Cursor) → Prop
  | (visits, .error error) =>
      Walked encodedLen store snapshot visit g first last env start entries pages visits
        (.error error)
  | (visits, .ok none) =>
      Walked encodedLen store snapshot visit g first last env start entries pages visits (.ok ())
  | (visits, .ok (some cursor)) =>
      Walking store snapshot visit first last start db entries pages visits cursor ∧
        cursor.points ≠ [] ∧ cursor.weight last < weight

/-- A run keeps the page at hand and takes a point of the source at hand. -/
theorem Walking.run
    (hwalking : Walking store snapshot visit first last start db entries pages visits cursor)
    (hbacked : retained.Backed store entries) {rest : List UploadPoint}
    {hydrated : List HydratedPoint}
    (hrun : hydrateRun env retained cursor.points cursor.hydrated = .ok (rest, hydrated)) :
    Walking store snapshot visit first last start db entries pages visits
        { cursor with points := rest, hydrated } ∧
      rest.length ≤ cursor.points.length ∧
      (retained.Leads cursor → rest.length < cursor.points.length) := by
  obtain ⟨hsplit, hlength, hquoted, hhead⟩ := hydrateRun_eq_ok hbacked hrun
  obtain ⟨page, hpage, hrequest, hpoints⟩ := hwalking.page
  refine ⟨⟨hwalking.saved, hwalking.accepted, hwalking.calls, hwalking.numbered, hwalking.behind,
    ⟨page, hpage, hrequest, hsplit.trans hpoints⟩, hquoted hwalking.quoted⟩, hlength, ?_⟩
  intro hleads
  refine Nat.lt_of_le_of_ne hlength fun hsame => hhead ?_
  rw [(List.append_inj' hsplit hsame).2]
  exact hleads

/-- One turn with the source at hand. -/
theorem Walking.sourceTurned (hverified : Verified db g entries pages)
    (hkeeps : Keeps snapshot visit)
    (hwalking : Walking store snapshot visit first last start db entries pages visits cursor)
    (hbacked : retained.Backed store entries) {weight : Nat} (hweight : cursor.weight last ≤ weight)
    (hless : retained.Leads cursor ∨ cursor.weight last < weight) :
    (∃ after following,
      sourceTurn encodedLen snapshot visit g last env retained (visits, cursor) =
        some (.inl (after, following)) ∧
      Walking store snapshot visit first last start db entries pages after following ∧
      following.weight last < weight ∧ following.number.toNat = cursor.number.toNat + 1) ∨
    ∃ result, sourceTurn encodedLen snapshot visit g last env retained (visits, cursor) =
        some (.inr result) ∧
      SourceLeft encodedLen store snapshot visit g first last env start db entries pages weight
        result := by
  rw [sourceTurn]
  rcases hrun : hydrateRun (within env cursor.number.toNat) retained cursor.points cursor.hydrated
    with error | ⟨rest, hydrated⟩
  · refine Or.inr ⟨_, rfl, hwalking.stop fun hquiet hintact => ?_⟩
    exact hintact.run hverified (hquiet.within _) hbacked hwalking.points hrun
  obtain ⟨hleft, hlength, hleads⟩ := hwalking.run hbacked hrun
  have hbehind := UInt64.lt_iff_toNat_lt.mp hwalking.behind
  cases rest with
  | cons point points =>
      refine Or.inr ⟨_, rfl, hleft, nofun, ?_⟩
      rw [Cursor.weight] at hweight hless
      change (point :: points).length + maxPagePoints * (last.toNat - (cursor.number.toNat + 1)) <
        weight
      rcases hless with hlead | hless
      · have hshort := hleads hlead
        omega
      · omega
  | nil =>
      dsimp only
      rcases hleft.emit hverified hkeeps rfl with ⟨after, error, hemit, hwalked⟩ |
        ⟨after, hemit, hwalked⟩ | ⟨after, following, hemit, hnext, hnumber, -, hcount⟩
      · rw [hemit]
        exact Or.inr ⟨_, rfl, hwalked⟩
      · rw [hemit]
        exact Or.inr ⟨_, rfl, hwalked⟩
      · rw [hemit]
        refine Or.inl ⟨after, following, rfl, hnext, ?_, hnumber⟩
        have hend := UInt64.lt_iff_toNat_lt.mp hnext.behind
        have hnumber : following.number.toNat = cursor.number.toNat + 1 := hnumber
        rw [Cursor.weight] at hweight hless ⊢
        rw [maxPagePoints] at hcount hweight hless ⊢
        rcases hless with hlead | hless
        · have hshort := hleads hlead
          omega
        · omega

/-- The turns with one source at hand end. -/
theorem Walking.source (hverified : Verified db g entries pages) (hkeeps : Keeps snapshot visit)
    (hwalking : Walking store snapshot visit first last start db entries pages visits cursor)
    (hbacked : retained.Backed store entries) (hleads : retained.Leads cursor) :
    ∃ result, loop (sourceTurn encodedLen snapshot visit g last env retained)
        (last.toNat - cursor.number.toNat) (visits, cursor) = some result ∧
      SourceLeft encodedLen store snapshot visit g first last env start db entries pages
        (cursor.weight last) result := by
  have hbehind := UInt64.lt_iff_toNat_lt.mp hwalking.behind
  refine loop_total (fun state : Visits ω × Cursor =>
      Walking store snapshot visit first last start db entries pages state.1 state.2 ∧
        state.2.weight last ≤ cursor.weight last ∧
        (retained.Leads state.2 ∨ state.2.weight last < cursor.weight last)) _
    (fun state : Visits ω × Cursor => last.toNat - (state.2.number.toNat + 1)) ?_
    ⟨hwalking, Nat.le_refl _, Or.inl hleads⟩ (by dsimp only; omega)
  rintro ⟨before, state⟩ ⟨hstate, hweight, hless⟩
  rcases hstate.sourceTurned hverified hkeeps hbacked hweight hless with
    ⟨after, following, hturn, hnext, hlower, hnumber⟩ | ⟨result, hturn, hleft⟩
  · have hend := UInt64.lt_iff_toNat_lt.mp hnext.behind
    refine Or.inl ⟨_, hturn, ⟨hnext, Nat.le_of_lt hlower, Or.inr hlower⟩, ?_⟩
    change last.toNat - (following.number.toNat + 1) < last.toNat - (state.number.toNat + 1)
    have hnumber : following.number.toNat = state.number.toNat + 1 := hnumber
    omega
  · exact Or.inr ⟨result, hturn, hleft⟩

/-- One turn of the walk: it ends, or comes to a point of another source. -/
theorem Walking.pageTurned (hverified : Verified db g entries pages) (hkeeps : Keeps snapshot visit)
    (hwalking : Walking store snapshot visit first last start db entries pages visits cursor)
    (hpoints : cursor.points ≠ []) :
    (∃ after following,
      pageTurn encodedLen store snapshot visit g last env (visits, cursor) =
        some (.inl (after, following)) ∧
      (Walking store snapshot visit first last start db entries pages after following ∧
        following.points ≠ []) ∧ following.weight last < cursor.weight last) ∨
    ∃ after result, pageTurn encodedLen store snapshot visit g last env (visits, cursor) =
        some (.inr (after, .returned result)) ∧
      Walked encodedLen store snapshot visit g first last env start entries pages after result := by
  obtain ⟨point, rest, hcursor⟩ := List.exists_cons_of_ne_nil hpoints
  have hpoint : point ∈ pointsIn pages :=
    hwalking.points point (hcursor ▸ List.mem_cons_self)
  rw [pageTurn]
  rw [hcursor]
  dsimp only
  rcases hretain : retainSource store (cursor.place env) (snapshot visits.visitor) g
    point.evidence.sourceId with error | retained
  · refine Or.inr ⟨visits, _, rfl, hwalking.stop fun hquiet hintact => ?_⟩
    exact hintact.retain hverified ((hquiet.within _).within _) hwalking.saved
      (hintact.available _ _ hwalking.accepted) hpoint hretain
  obtain ⟨hbacked, hsource⟩ := retainSource_eq_ok hverified hwalking.saved hretain
  have hleads : retained.Leads cursor := by
    rw [Retained.Leads, hcursor, hsource]
    rfl
  obtain ⟨⟨after, outcome⟩, hloop, hleft⟩ := hwalking.source hverified hkeeps hbacked hleads
  dsimp only
  rw [hloop]
  rcases outcome with error | following
  · exact Or.inr ⟨after, _, rfl, hleft⟩
  cases following with
  | none => exact Or.inr ⟨after, _, rfl, hleft⟩
  | some following =>
      obtain ⟨hnext, hnonempty, hlower⟩ := hleft
      exact Or.inl ⟨after, following, rfl, ⟨hnext, hnonempty⟩, hlower⟩

/-- The turns of the walk end with a result. -/
theorem Walking.ends (hverified : Verified db g entries pages) (hkeeps : Keeps snapshot visit)
    (hwalking : Walking store snapshot visit first last start db entries pages visits cursor)
    (hpoints : cursor.points ≠ []) {fuel : Nat} (hfuel : cursor.weight last < fuel) :
    ∃ after result, loop (pageTurn encodedLen store snapshot visit g last env) fuel
        (visits, cursor) = some (after, .returned result) ∧
      Walked encodedLen store snapshot visit g first last env start entries pages after result := by
  have hturn : ∀ state : Visits ω × Cursor,
      Walking store snapshot visit first last start db entries pages state.1 state.2 ∧
        state.2.points ≠ [] →
      (∃ next, pageTurn encodedLen store snapshot visit g last env state = some (.inl next) ∧
        (Walking store snapshot visit first last start db entries pages next.1 next.2 ∧
          next.2.points ≠ []) ∧ next.2.weight last < state.2.weight last) ∨
      ∃ ended, pageTurn encodedLen store snapshot visit g last env state = some (.inr ended) ∧
        ∃ result, ended.2 = .returned result ∧
          Walked encodedLen store snapshot visit g first last env start entries pages ended.1
            result := by
    rintro ⟨before, state⟩ ⟨hstate, hnonempty⟩
    rcases hstate.pageTurned hverified hkeeps hnonempty with
      ⟨after, following, hturn, hnext, hlower⟩ | ⟨after, result, hturn, hwalked⟩
    · exact Or.inl ⟨_, hturn, hnext, hlower⟩
    · exact Or.inr ⟨_, hturn, result, rfl, hwalked⟩
  have hstart : (visits, cursor).2.weight last < fuel := hfuel
  obtain ⟨⟨after, exit⟩, hloop, result, rfl, hwalked⟩ :=
    loop_total _ _ _ hturn ⟨hwalking, hpoints⟩ hstart
  exact ⟨after, result, hloop, hwalked⟩

theorem Walked.outside {result : Except Bytes Unit} (site : Nat)
    (hwalked : Walked encodedLen store snapshot visit g first last (within env site) start entries
      pages visits result) :
    Walked encodedLen store snapshot visit g first last env start entries pages visits result := by
  obtain ⟨answer, hturn, hends, hrefused, hquiet⟩ := hwalked.answered
  exact ⟨hwalked.calls, hwalked.bounded, answer, hturn, hends, hrefused,
    fun hundisturbed => hquiet (hundisturbed.within site)⟩

/-- Over a whole generation the walk ends with a result, never for want of a point. -/
theorem walkPages_ends (hverified : Verified (snapshot start) g entries pages)
    (hkeeps : Keeps snapshot visit) :
    ∃ visits result,
      walkPages encodedLen store snapshot visit g last env start first =
        some (visits, .returned result) ∧
      Walked encodedLen store snapshot visit g first last env start entries pages visits
        result := by
  rw [walkPages]
  by_cases hempty : first ≥ last
  · rw [if_pos hempty]
    have hzero := Nat.sub_eq_zero_of_le (UInt64.le_iff_toNat_le.mp hempty)
    refine ⟨_, _, rfl, nofun, Nat.zero_le _, .ok (), rfl,
      ⟨fun _ => ⟨rfl, hzero.symm⟩, fun _ => rfl⟩, nofun, fun _ _ => rfl⟩
  rw [if_neg hempty]
  have hbehind : first < last := UInt64.not_le.mp hempty
  have hless := UInt64.lt_iff_toNat_lt.mp hbehind
  have hself := SameSaved.self (snapshot start)
  rcases hread : readPage env (snapshot start) g first with error | page
  · refine ⟨_, _, rfl, nofun, Nat.zero_le _, .ok (), rfl, ⟨nofun, ?_⟩, nofun, ?_⟩
    · rintro ⟨-, hend⟩
      have hend : 0 = last.toNat - first.toNat := hend
      omega
    · intro hquiet hintact
      have hrange := UInt64.le_iff_toNat_le.mp hintact.range
      have hcount : first < g.pageCount := UInt64.lt_iff_toNat_lt.mpr (by omega)
      obtain ⟨page, hpage⟩ :=
        hverified.readSavedPage_ok hself (hintact.available [] start rfl) hcount
      have hok : readPage env (snapshot start) g first = .ok page :=
        mapError_eq_ok.mpr (observeDatabase_ok hquiet hpage)
      rw [hok] at hread
      cases hread
  have hpage := readPage_eq_ok hverified hself hread
  obtain ⟨hnonempty, hcount, -⟩ := hverified.page hpage
  have hstart : Walking store snapshot visit first last start (snapshot start) entries pages
      ⟨start, []⟩ ⟨first, page.requestBytes, page.points, []⟩ :=
    ⟨hself, rfl, nofun, rfl, hbehind, ⟨page, hpage, rfl, rfl⟩, nofun⟩
  have hfuel : Cursor.weight last ⟨first, page.requestBytes, page.points, []⟩ <
      maxPagePoints * (last.toNat - first.toNat) + 1 := by
    change page.points.length + maxPagePoints * (last.toNat - (first.toNat + 1)) <
      maxPagePoints * (last.toNat - first.toNat) + 1
    rw [maxPagePoints] at hcount ⊢
    omega
  obtain ⟨visits, result, hloop, hwalked⟩ := hstart.ends hverified hkeeps hnonempty hfuel
  exact ⟨visits, result, hloop, Walked.outside 0 hwalked⟩

end Whole

/-- Pages of an accepted generation are handed over once each, in order and with
exactly their points and texts.  The walk returns, successfully exactly when the
visitor accepted every page of the range; over intact objects and sizes and
undisturbed, only the visitor can refuse. -/
theorem visitPages_exact {ω : Type} (encodedLen : UpsertPoints → Nat) (store : Store)
    (snapshot : ω → Db) (visit : ω → UInt64 × List HydratedPoint → ω × Except Bytes Unit)
    (g : Generation) (first last : UInt64) (env : Env) (start : ω) {validation : Env}
    (haccepts : Verify.generation validation (snapshot start) g = .ok ())
    (hkeeps : Keeps snapshot visit) :
    ∃ entries pages, Verified (snapshot start) g entries pages ∧ ∃ visits result,
      walkPages encodedLen store snapshot visit g last env start first =
        some (visits, .returned result) ∧
      visitPages encodedLen store snapshot visit g last env start first = some (visits, result) ∧
      Walked encodedLen store snapshot visit g first last env start entries pages visits
        result := by
  obtain ⟨entries, pages, hverified⟩ := verified_of_generation haccepts
  obtain ⟨visits, result, hwalk, hwalked⟩ := walkPages_ends hverified hkeeps
  refine ⟨entries, pages, hverified, visits, result, hwalk, ?_, hwalked⟩
  rw [visitPages, hwalk]
  rfl

/-! ## A source over two pages -/

namespace Sample

def digest : Blake3Digest32 := Octets.replicate 32 3

def source : CurrentSourceRecord := Control.Sample.source

def artifactBytes : Bytes := encoding source .default (ascii "ab\nc\n") prepared.units

def artifact : ObjectRef := ⟨1, .prepared, digest, 194⟩

/-- An object directory that holds the artifact. -/
def store : Store where
  find name := if name = nameOf artifact then some (.file artifactBytes) else none
  hash _ := digest

def points : List UploadPoint :=
  Control.Sample.unitPoints.map fun point =>
    { point with evidence := { point.evidence with prepared := artifact } }

def generation : Generation := ⟨Control.Sample.namespaceId, 1, 3, 2, 1, 2, 2⟩

def pageRow (number size : UInt64) (points : List UploadPoint) : Bytes × Bytes :=
  (key 1 (be64 number), pageBytes points size)

/-- A published generation with one point a page; the sizes of their requests are
171 and 170 bytes. -/
def published (size : UInt64) : Db :=
  { Db.empty with
    publicationState := some (.ofList [(stateKey,
      stateFormat.print { State.default with
        namespaceId := some Control.Sample.namespaceId, nextSequence := 2, currentRevision := 1
        current := some generation })])
    generationSources := some (.ofList
      [Control.Sample.entryRow (Control.Sample.savedEntry source.sourceId (.ready artifact) 2),
        Control.Sample.entryRow (Control.Sample.savedEntry Control.Sample.gapId
          (.gap .binaryContent) 0)])
    generationPages := some (.ofList
      [pageRow 0 size (points.take 1), pageRow 1 170 (points.drop 1)])
    generationEvidence := some (.ofList (points.map Control.Sample.evidenceRow)) }

/-- A visitor that accepts every page. -/
def accept (_ : Unit) (_ : UInt64 × List HydratedPoint) : Unit × Except Bytes Unit := ((), .ok ())

/-- The number of calls and the result of a visit of both pages. -/
def visited (size : UInt64) : Option (Nat × Except Bytes Unit) :=
  (visitPages requestLen store (fun _ => published size) accept generation 2 Env.quiet () 0).map
    fun ended => (ended.1.calls.length, ended.2)

end Sample

example : Sample.visited 171 = some (2, .ok ()) := by decide +kernel

theorem visitPages_exact_sample :
    ∃ entries pages, Verified (Sample.published 171) Sample.generation entries pages ∧
      ∃ visits result,
        walkPages Sample.requestLen Sample.store (fun _ => Sample.published 171) Sample.accept
          Sample.generation 2 Env.quiet () 0 = some (visits, .returned result) ∧
        visitPages Sample.requestLen Sample.store (fun _ => Sample.published 171) Sample.accept
          Sample.generation 2 Env.quiet () 0 = some (visits, result) ∧
        Walked Sample.requestLen Sample.store (fun _ => Sample.published 171) Sample.accept
          Sample.generation 0 2 Env.quiet () entries pages visits result :=
  have haccepts :
      Verify.generation Env.quiet (Sample.published 171) Sample.generation = .ok () := by
    decide +kernel
  visitPages_exact Sample.requestLen Sample.store (fun _ => Sample.published 171) Sample.accept
    Sample.generation 0 2 Env.quiet () haccepts fun _ _ => SameSaved.self _

/-- Validation does not compare the recorded size of a request with the request:
with another size no page is handed over. -/
theorem visitPages_recorded_size :
    Verify.generation Env.quiet (Sample.published 9) Sample.generation = .ok () ∧
      Sample.visited 9 = some (0, .error (ascii "PUBLICATION_CORRUPT")) := by
  constructor
  · decide +kernel
  · decide +kernel

end EliotSearch.Corpus
