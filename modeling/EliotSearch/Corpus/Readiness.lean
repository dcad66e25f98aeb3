import EliotSearch.Corpus.Backend
import EliotSearch.Corpus.Visiting
import EliotSearch.Preparation.Acceptance

/-!
# Readiness of a generation

A generation is verified page by page against the backend, proved with the first
word that can be a canary and counted.  A generation with alphanumeric characters
but without such a word stays unproven: nothing weaker stands in for the score of
a saved word.
-/

namespace EliotSearch.Corpus

open EliotSearch.Control
open EliotSearch.Control.Verify (pointsIn)
open EliotSearch.Library
open EliotSearch.Library.Hex
open EliotSearch.Library.Json
open EliotSearch.Library.Loops
open EliotSearch.Library.Results
open EliotSearch.Library.Separated
open EliotSearch.Library.Utf8
open EliotSearch.Library.Words
open EliotSearch.Preparation
open EliotSearch.Query
open EliotSearch.Query.Identifiers.Codec (pointId)
open EliotSearch.Session

/-! ## Verification -/

/-- What the visit of the pages has gathered. -/
structure Readiness where
  canary : Option Unit
  tokenless : Bool
  pointCount : UInt64

def Readiness.start : Readiness := ⟨none, true, 0⟩

/-- The length of the request that inserts a batch. -/
def Backend.upsertLen (backend : Backend) (message : UpsertPoints) : Nat :=
  backend.encodedLen (.upsertPoints message)

section Verification

variable (alphanumeric : Char → Bool) (backend : Backend)

/-- Only the first word that can be a canary is sent. -/
def provePoint (env : Env) (collection : Bytes) (readiness : Readiness) (found : HydratedPoint) :
    Except Bytes Readiness := do
  let readiness := { readiness with
    tokenless := readiness.tokenless && !found.text.chars.any alphanumeric }
  match readiness.canary, canaryQuery alphanumeric found.text with
  | none, some query => do
      (backend.verifyCanary alphanumeric env collection
        ⟨found.point.id, found.point.evidence.sourceId, found.text⟩ query).mapError fun error =>
          ascii error.code
      return { readiness with canary := some () }
  | _, _ => return readiness

def provePage (env : Env) (collection : Bytes) (readiness : Readiness)
    (page : List HydratedPoint) : Except Bytes Readiness := do
  check env 0
  (backend.verifyPoints (within env 1) collection (inputs page)).mapError fun error =>
    ascii error.code
  let readiness ← page.foldlM (provePoint alphanumeric backend (within env 2) collection) readiness
  let pointCount ← okOr (checkedAdd readiness.pointCount (UInt64.ofNat page.length))
    (ascii "PUBLICATION_LIMIT")
  return { readiness with pointCount }

/-- The visitor of the pages.  What a refused page gathered is not used. -/
def proveCall (env : Env) (collection : Bytes) (readiness : Readiness)
    (call : UInt64 × List HydratedPoint) : Readiness × Except Bytes Unit :=
  match provePage alphanumeric backend (within env call.1.toNat) collection readiness call.2 with
  | .ok next => (next, .ok ())
  | .error error => (readiness, .error error)

/-- Compare the counts and look for a canary. -/
def acceptReadiness (generation : Generation) (remoteCount : UInt64) (readiness : Readiness) :
    Except Bytes Unit := do
  refuse (remoteCount ≠ generation.pointCount ∨ readiness.pointCount ≠ generation.pointCount)
    (ascii "PUBLICATION_POINT_COUNT_MISMATCH")
  refuse (readiness.pointCount ≠ 0 ∧ readiness.canary.isNone = true ∧ readiness.tokenless = false)
    (ascii "PUBLICATION_READINESS_NOT_PROVEN")

def verifyGeneration (env : Env) (store : Store) (db : Db) (generation : Generation) :
    Option (Except Bytes Unit) :=
  let collection := generation.collection
  let opened : Except Bytes Unit := do
    (validateGeneration (within env 0) db generation).mapError fun error => ascii error.code
    (backend.verifySchema (within env 1) collection).mapError fun error => ascii error.code
  match opened with
  | .error error => some (.error error)
  | .ok () =>
      (visitPages backend.upsertLen store (fun _ => db)
        (proveCall alphanumeric backend (within env 2) collection) generation
        generation.pageCount (within env 3) Readiness.start 0).map fun (visits, result) => do
          result
          let remoteCount ← (backend.countExact (within env 4) collection).mapError fun error =>
            ascii error.code
          acceptReadiness generation remoteCount visits.visitor

end Verification

/-! ## Texts of points -/

/-- A point has one text. -/
theorem Quoted.unique {store : Store} {db : Db} {g : Generation} {entries : List SourceEntry}
    {pages : List UploadPage} (hverified : Verified db g entries pages)
    {first second : HydratedPoint} (hfirst : Quoted store entries first)
    (hsecond : Quoted store entries second) (hpoint : first.point = second.point) :
    first = second := by
  obtain ⟨owner, howner, hbound, bytes, view, env, hholds, hdecode, htext⟩ := hfirst
  obtain ⟨other, hother, hboundOther, stored, found, later, hstored, hdecoded, hfound⟩ := hsecond
  rw [← hpoint] at hboundOther hstored hfound
  have hid : owner.id = other.id := hbound.source.symm.trans hboundOther.source
  obtain rfl := hverified.entry_unique howner hother hid
  obtain rfl := hholds.unique hstored
  obtain rfl := decodePreparedUtf8_unique hdecode hdecoded
  rw [hfound] at htext
  cases first with
  | mk point text =>
      cases second with
      | mk other same => exact congrArg₂ HydratedPoint.mk hpoint (Option.some.inj htext).symm

/-- The points of a generation with their texts. -/
structure Hydrated (store : Store) (entries : List SourceEntry) (pages : List UploadPage)
    (corpus : List HydratedPoint) : Prop where
  points : corpus.map HydratedPoint.point = pointsIn pages
  quoted : ∀ found ∈ corpus, Quoted store entries found

/-- A generation has one text for each point. -/
theorem quoted_unique {store : Store} {db : Db} {g : Generation} {entries : List SourceEntry}
    {pages : List UploadPage} (hverified : Verified db g entries pages)
    {first second : List HydratedPoint} (hfirst : ∀ found ∈ first, Quoted store entries found)
    (hsecond : ∀ found ∈ second, Quoted store entries found)
    (hpoints : first.map HydratedPoint.point = second.map HydratedPoint.point) :
    first = second := by
  induction first generalizing second with
  | nil => exact (List.map_eq_nil_iff.mp hpoints.symm).symm
  | cons found first ih =>
      cases second with
      | nil => cases hpoints
      | cons other second =>
          obtain ⟨hpoint, hrest⟩ := List.cons_eq_cons.mp hpoints
          obtain ⟨hfound, hfirst⟩ := List.forall_mem_cons.mp hfirst
          obtain ⟨hother, hsecond⟩ := List.forall_mem_cons.mp hsecond
          rw [hfound.unique hverified hother hpoint, ih hfirst hsecond hrest]

/-! ## What is gathered -/

section Gathering

variable {alphanumeric : Char → Bool} {backend : Backend} {env : Env} {collection : Bytes}
  {inserted : List PointInput} {seen page : List HydratedPoint} {readiness : Readiness}

/-- What the points seen so far leave behind. -/
structure Gathered (alphanumeric : Char → Bool) (seen : List HydratedPoint)
    (readiness : Readiness) : Prop where
  canary : readiness.canary = none ↔
    ∀ found ∈ seen, canaryQuery alphanumeric found.text = none
  tokenless : readiness.tokenless = true ↔
    ∀ found ∈ seen, ∀ character ∈ found.text.chars, alphanumeric character = false

theorem gathered_start : Gathered alphanumeric [] .start := ⟨by simp [Readiness.start], by
  simp [Readiness.start]⟩

section Proving

variable (hfaithful : Faithful alphanumeric backend.server collection inserted)
  (hframed : FramedRequests backend.encodedLen) (hlimits : backend.limits = backendLimits)
  (hname : collectionName collection = .ok ()) (hlength : collection.length ≤ 255)

include hfaithful hframed hlimits hname hlength

/-- A faithful server proves whatever a point calls for. -/
theorem provePoint_ok (hquiet : Undisturbed env) {found : HydratedPoint}
    (hinserted : inputs [found] ⊆ inserted) (hlong : found.text.bytes.length ≤ maxPointTextBytes)
    (hgathered : Gathered alphanumeric seen readiness) :
    ∃ next, provePoint alphanumeric backend env collection readiness found = .ok next ∧
      Gathered alphanumeric (seen ++ [found]) next ∧ next.pointCount = readiness.pointCount := by
  have hmember : (⟨found.point.id, found.point.evidence.sourceId, found.text⟩ : PointInput) ∈
      inserted := hinserted List.mem_cons_self
  have htokenless : (readiness.tokenless && !found.text.chars.any alphanumeric) = true ↔
      ∀ other ∈ seen ++ [found], ∀ character ∈ other.text.chars,
        alphanumeric character = false := by
    rw [Bool.and_eq_true, hgathered.tokenless, List.forall_mem_append, List.forall_mem_singleton,
      Bool.not_eq_true', List.any_eq_false]
    simp only [Bool.not_eq_true]
  cases hcanary : readiness.canary with
  | some proved =>
      refine ⟨{ readiness with
        tokenless := readiness.tokenless && !found.text.chars.any alphanumeric }, ?_,
        ⟨?_, htokenless⟩, rfl⟩
      · simp only [provePoint, hcanary]
        rfl
      · rw [List.forall_mem_append, ← hgathered.canary]
        simp [hcanary]
  | none =>
      have hnone := hgathered.canary.mp hcanary
      cases hquery : canaryQuery alphanumeric found.text with
      | none =>
          refine ⟨{ readiness with
            tokenless := readiness.tokenless && !found.text.chars.any alphanumeric }, ?_,
            ⟨?_, htokenless⟩, rfl⟩
          · simp only [provePoint, hcanary, hquery]
            rfl
          · rw [List.forall_mem_append, List.forall_mem_singleton]
            exact ⟨fun _ => ⟨hnone, hquery⟩, fun _ => hcanary⟩
      | some query =>
          have hproved := verifyCanary_ok hfaithful hframed hlimits hname hlength hquiet hmember
            hlong (canaryQuery_eq_some hquery)
          refine ⟨{ readiness with
            tokenless := readiness.tokenless && !found.text.chars.any alphanumeric
            canary := some () }, ?_, ⟨?_, htokenless⟩, rfl⟩
          · simp only [provePoint, hcanary, hquery, hproved]
            rfl
          · rw [List.forall_mem_append, List.forall_mem_singleton]
            constructor
            · intro hsome
              cases hsome
            · rintro ⟨-, hlast⟩
              rw [hquery] at hlast
              cases hlast

theorem provePoints_ok (hquiet : Undisturbed env) (hinserted : inputs page ⊆ inserted)
    (hlong : ∀ found ∈ page, found.text.bytes.length ≤ maxPointTextBytes)
    (hgathered : Gathered alphanumeric seen readiness) :
    ∃ next, page.foldlM (provePoint alphanumeric backend env collection) readiness = .ok next ∧
      Gathered alphanumeric (seen ++ page) next ∧ next.pointCount = readiness.pointCount := by
  induction page generalizing seen readiness with
  | nil => exact ⟨readiness, rfl, by rwa [List.append_nil], rfl⟩
  | cons found page ih =>
      obtain ⟨hfound, hrest⟩ := List.cons_subset.mp hinserted
      obtain ⟨hshort, hlong⟩ := List.forall_mem_cons.mp hlong
      obtain ⟨middle, hmiddle, hseen, hcount⟩ := provePoint_ok hfaithful hframed hlimits hname
        hlength hquiet (List.cons_subset.mpr ⟨hfound, List.nil_subset _⟩) hshort hgathered
      obtain ⟨next, hnext, hall, hsame⟩ := ih hrest hlong hseen
      refine ⟨next, ?_, ?_, hsame.trans hcount⟩
      · rw [List.foldlM_cons, hmiddle, ok_bind, hnext]
      · rwa [List.append_assoc, List.singleton_append] at hall

/-- A page that can be sent is proved and counted. -/
theorem provePage_ok (hquiet : Undisturbed env) (hinserted : inputs page ⊆ inserted)
    {size : Nat} (hsize : ∀ env, Undisturbed env →
      batchRequestBytes backend.upsertLen env collection (inputs page) = .ok size)
    (hgathered : Gathered alphanumeric seen readiness)
    (hcount : readiness.pointCount.toNat = seen.length)
    (hroom : seen.length + page.length < 2 ^ 64) :
    ∃ next, provePage alphanumeric backend env collection readiness page = .ok next ∧
      Gathered alphanumeric (seen ++ page) next ∧
      next.pointCount.toNat = (seen ++ page).length := by
  obtain ⟨hsendable, -, -⟩ := batchRequestBytes_eq_ok (hsize env hquiet)
  have hlong : ∀ found ∈ page, found.text.bytes.length ≤ maxPointTextBytes := fun found hmem =>
    (hsendable.texts _ (List.mem_map_of_mem hmem)).2
  have hpoints := verifyPoints_ok hfaithful hframed hlimits hname hlength (hquiet.within 1)
    hinserted hsize
  obtain ⟨middle, hmiddle, hall, hsame⟩ := provePoints_ok hfaithful hframed hlimits hname hlength
    (hquiet.within 2) hinserted hlong hgathered
  have hpage : page.length < 2 ^ 64 := by omega
  have hword : (UInt64.ofNat page.length).toNat = page.length := UInt64.toNat_ofNat_of_lt' hpage
  have hsum : (readiness.pointCount + UInt64.ofNat page.length).toNat =
      readiness.pointCount.toNat + (UInt64.ofNat page.length).toNat := by
    rw [UInt64.toNat_add, Nat.mod_eq_of_lt (by omega)]
  refine ⟨{ middle with pointCount := readiness.pointCount + UInt64.ofNat page.length }, ?_,
    ⟨hall.canary, hall.tokenless⟩, ?_⟩
  · rw [provePage, check, checkWith_ok hquiet, ok_bind, mapError_eq_ok.mpr hpoints, ok_bind,
      hmiddle, ok_bind, hsame, checkedAdd_eq_some.mpr hsum, okOr_some, ok_bind]
    rfl
  · rw [List.length_append, hsum, hcount, hword]

/-- The pages of a call that can be sent are proved in turn. -/
theorem proveCalls_ok (hquiet : Undisturbed env) {calls : List (UInt64 × List HydratedPoint)}
    (hcalls : ∀ call ∈ calls, inputs call.2 ⊆ inserted ∧ ∃ size, ∀ env, Undisturbed env →
      batchRequestBytes backend.upsertLen env collection (inputs call.2) = .ok size)
    (hgathered : Gathered alphanumeric seen readiness)
    (hcount : readiness.pointCount.toNat = seen.length)
    (hroom : (seen ++ calls.flatMap Prod.snd).length < 2 ^ 64) :
    ∃ next, inTurn (proveCall alphanumeric backend env collection) readiness calls =
        (next, .ok ()) ∧
      Gathered alphanumeric (seen ++ calls.flatMap Prod.snd) next ∧
      next.pointCount.toNat = (seen ++ calls.flatMap Prod.snd).length := by
  induction calls generalizing seen readiness with
  | nil => exact ⟨readiness, rfl, by simpa using hgathered, by simpa using hcount⟩
  | cons call calls ih =>
      obtain ⟨⟨hinserted, size, hsize⟩, hothers⟩ := List.forall_mem_cons.mp hcalls
      rw [List.flatMap_cons, ← List.append_assoc] at hroom ⊢
      have hfirst : seen.length + call.2.length < 2 ^ 64 := by
        simp only [List.length_append] at hroom
        omega
      obtain ⟨middle, hmiddle, hseen, hsum⟩ := provePage_ok hfaithful hframed hlimits hname hlength
        (hquiet.within call.1.toNat) hinserted hsize hgathered hcount hfirst
      obtain ⟨next, hnext, hall⟩ := ih hothers hseen hsum hroom
      refine ⟨next, ?_, hall⟩
      simp only [inTurn, proveCall, hmiddle]
      exact hnext

end Proving

end Gathering

/-! ## Readiness -/

/-- The texts have no alphanumeric character, or a word that can be a canary. -/
def Provable (alphanumeric : Char → Bool) (corpus : List HydratedPoint) : Prop :=
  (∀ found ∈ corpus, ∀ character ∈ found.text.chars, alphanumeric character = false) ∨
    ∃ found ∈ corpus, ∃ run, IsCandidate alphanumeric found.text run

/-- Whether all is gathered that a generation needs. -/
theorem acceptReadiness_gathered {alphanumeric : Char → Bool} {corpus : List HydratedPoint}
    {readiness : Readiness} {generation : Generation}
    (hgathered : Gathered alphanumeric corpus readiness)
    (hcount : readiness.pointCount = generation.pointCount)
    (hlength : corpus.length = generation.pointCount.toNat) :
    (Provable alphanumeric corpus →
      acceptReadiness generation generation.pointCount readiness = .ok ()) ∧
    (¬ Provable alphanumeric corpus →
      acceptReadiness generation generation.pointCount readiness =
        .error (ascii "PUBLICATION_READINESS_NOT_PROVEN")) := by
  have hcounts : ¬ (generation.pointCount ≠ generation.pointCount ∨
      readiness.pointCount ≠ generation.pointCount) := by
    rw [hcount]
    simp
  have hunproven : (readiness.pointCount ≠ 0 ∧ readiness.canary.isNone = true ∧
      readiness.tokenless = false) ↔ ¬ Provable alphanumeric corpus := by
    rw [Provable, not_or, Option.isNone_iff_eq_none, hgathered.canary, ← hgathered.tokenless,
      Bool.not_eq_true, and_comm (a := readiness.tokenless = false)]
    have hcanary : (∀ found ∈ corpus, canaryQuery alphanumeric found.text = none) ↔
        ¬ ∃ found ∈ corpus, ∃ run, IsCandidate alphanumeric found.text run := by
      simp only [canaryQuery_eq_none, not_exists, not_and]
    rw [hcanary]
    refine ⟨And.right, fun ⟨hnone, htoken⟩ => ⟨?_, hnone, htoken⟩⟩
    intro hzero
    have hempty : corpus = [] := by
      rw [← List.length_eq_zero_iff, hlength, ← hcount, hzero]
      rfl
    have htokenless := hgathered.tokenless.mpr (by rw [hempty]; exact nofun)
    rw [htoken] at htokenless
    cases htokenless
  rw [acceptReadiness, refuse_of_not hcounts, ok_bind]
  constructor
  · intro hprovable
    exact refuse_of_not fun hguard => hunproven.mp hguard hprovable
  · intro hmissing
    exact refuse_of (hunproven.mpr hmissing)

section Whole

variable {alphanumeric : Char → Bool} {backend : Backend} {store : Store} {db : Db}
  {g : Generation} {entries : List SourceEntry} {pages : List UploadPage}
  {corpus : List HydratedPoint} {env : Env}

/-- The points of the calls are those of the first pages. -/
theorem calls_points {calls : List (UInt64 × List HydratedPoint)}
    (hcalls : ∀ index call, calls[index]? = some call →
      PageCall store entries pages index call) :
    (calls.flatMap Prod.snd).map HydratedPoint.point = pointsIn (pages.take calls.length) := by
  have hpages : calls.map (fun call => call.2.map HydratedPoint.point) =
      (pages.take calls.length).map UploadPage.points := by
    apply List.ext_getElem?
    intro index
    rw [List.getElem?_map, List.getElem?_map, List.getElem?_take]
    cases hcall : calls[index]? with
    | none =>
        have hlength := List.getElem?_eq_none_iff.mp hcall
        rw [if_neg (Nat.not_lt.mpr hlength)]
        rfl
    | some call =>
        obtain ⟨hindex, -⟩ := List.getElem?_eq_some_iff.mp hcall
        obtain ⟨page, hpage, hpoints⟩ := (hcalls index call hcall).points
        rw [if_pos hindex, hpage, Option.map_some, Option.map_some, hpoints]
  rw [List.map_flatMap, pointsIn, List.flatMap_def, List.flatMap_def, ← hpages]

/-- What was handed over is part of the corpus. -/
theorem Hydrated.handed (hhydrated : Hydrated store entries pages corpus)
    (hverified : Verified db g entries pages) {number : Nat}
    {call : UInt64 × List HydratedPoint} (hcall : PageCall store entries pages number call) :
    inputs call.2 ⊆ inputs corpus := by
  obtain ⟨page, hpage, hpoints⟩ := hcall.points
  refine List.map_subset _ fun found hfound => ?_
  have hpoint : found.point ∈ pointsIn pages := by
    refine List.mem_flatMap.mpr ⟨page, List.mem_of_getElem? hpage, ?_⟩
    rw [← hpoints]
    exact List.mem_map_of_mem hfound
  rw [← hhydrated.points, List.mem_map] at hpoint
  obtain ⟨other, hother, hsame⟩ := hpoint
  rwa [← (hhydrated.quoted other hother).unique hverified (hcall.quoted found hfound) hsame]

/-- Over an intact corpus and a faithful server the visit gathers the whole corpus. -/
theorem visit_gathers (hverified : Verified db g entries pages)
    (hhydrated : Hydrated store entries pages corpus)
    (hfaithful : Faithful alphanumeric backend.server g.collection (inputs corpus))
    (hframed : FramedRequests backend.encodedLen) (hlimits : backend.limits = backendLimits)
    {outer : Env} (hquiet : Undisturbed env) (houter : Undisturbed outer)
    (hintact : Intact backend.upsertLen store (fun _ => db)
      (proveCall alphanumeric backend outer g.collection) g g.pageCount .start entries pages) :
    ∃ visits, visitPages backend.upsertLen store (fun _ => db)
        (proveCall alphanumeric backend outer g.collection) g g.pageCount env .start 0 =
          some (visits, .ok ()) ∧
      Gathered alphanumeric corpus visits.visitor ∧
      visits.visitor.pointCount.toNat = corpus.length := by
  obtain ⟨hname, hlength⟩ := collection_named g
  obtain ⟨visits, result, hwalk, hwalked⟩ :=
    @walkPages_ends _ backend.upsertLen store (fun _ => db)
      (proveCall alphanumeric backend outer g.collection) g g.pageCount env .start entries pages 0
      hverified fun _ _ => SameSaved.self db
  have hcalls : ∀ index call, visits.calls[index]? = some call →
      PageCall store entries pages index call := by
    intro index call hcall
    have hpage := hwalked.calls index call hcall
    rwa [UInt64.toNat_zero, Nat.zero_add] at hpage
  have hsizes : ∀ call ∈ visits.calls, inputs call.2 ⊆ inputs corpus ∧ ∃ size,
      ∀ env, Undisturbed env →
        batchRequestBytes backend.upsertLen env g.collection (inputs call.2) = .ok size := by
    intro call hmem
    obtain ⟨index, hindex⟩ := List.mem_iff_getElem?.mp hmem
    have hcall := hcalls index call hindex
    obtain ⟨page, hpage, hpoints⟩ := hcall.points
    refine ⟨hhydrated.handed hverified hcall,
      backend.upsertLen (upsertPoints g.collection (inputs call.2)), fun env hquiet => ?_⟩
    obtain ⟨wire, hwire, -⟩ := hintact.requests page (List.mem_of_getElem? hpage) call.2 hpoints
      hcall.quoted env hquiet
    rw [hwire, (batchRequestBytes_eq_ok hwire).2.1]
  have hflat := calls_points hcalls
  obtain ⟨table, -, hpoints⟩ := hverified.savedPoints
  have hcorpus : corpus.length = g.pointCount.toNat := by
    rw [← hpoints.count, ← hhydrated.points, List.length_map]
  have hroom : ([] ++ visits.calls.flatMap Prod.snd).length < 2 ^ 64 := by
    have hshorter : (pointsIn (pages.take visits.calls.length)).length ≤ (pointsIn pages).length :=
      ((List.take_sublist _ _).flatMap _).length_le
    rw [← hflat, List.length_map, hpoints.count] at hshorter
    have hbound := g.pointCount.toNat_lt
    rw [List.nil_append]
    omega
  obtain ⟨next, hturn, hgathered, hcount⟩ := proveCalls_ok hfaithful hframed hlimits hname hlength
    houter hsizes gathered_start rfl hroom
  obtain ⟨answer, hanswered, hends, -, hresult⟩ := hwalked.answered
  obtain ⟨hvisitor, rfl⟩ := Prod.mk.inj (hturn.symm.trans hanswered)
  have hok := hresult hquiet hintact
  have hall := (hends.mp hok).2
  rw [UInt64.toNat_zero, Nat.sub_zero, ← hverified.pageCount] at hall
  rw [hall, List.take_length, ← hhydrated.points] at hflat
  have hquoted : ∀ found ∈ visits.calls.flatMap Prod.snd, Quoted store entries found := by
    intro found hfound
    obtain ⟨call, hmem, hinside⟩ := List.mem_flatMap.mp hfound
    obtain ⟨index, hindex⟩ := List.mem_iff_getElem?.mp hmem
    exact (hcalls index call hindex).quoted found hinside
  have hsame := quoted_unique hverified hquoted hhydrated.quoted hflat
  rw [List.nil_append, hsame] at hgathered hcount
  refine ⟨visits, ?_, hvisitor ▸ hgathered, hvisitor ▸ hcount⟩
  rw [visitPages, hwalk, hok]
  rfl

/-- Over an intact corpus and a faithful server nothing but a missing canary is
complained of. -/
theorem verifyGeneration_settled (hverified : Verified db g entries pages)
    (hhydrated : Hydrated store entries pages corpus)
    (hfaithful : Faithful alphanumeric backend.server g.collection (inputs corpus))
    (hframed : FramedRequests backend.encodedLen) (hlimits : backend.limits = backendLimits)
    (hquiet : Undisturbed env)
    (hintact : Intact backend.upsertLen store (fun _ => db)
      (proveCall alphanumeric backend (within env 2) g.collection) g g.pageCount .start entries
      pages) :
    (Provable alphanumeric corpus →
      verifyGeneration alphanumeric backend env store db g = some (.ok ())) ∧
    (¬ Provable alphanumeric corpus →
      verifyGeneration alphanumeric backend env store db g =
        some (.error (ascii "PUBLICATION_READINESS_NOT_PROVEN"))) := by
  obtain ⟨hname, hlength⟩ := collection_named g
  obtain ⟨visits, hvisits, hgathered, hcount⟩ := visit_gathers hverified hhydrated hfaithful hframed
    hlimits (hquiet.within 3) (hquiet.within 2) hintact
  obtain ⟨state, hstate, hserved⟩ := hintact.available [] .start rfl
  obtain ⟨table, -, hpoints⟩ := hverified.savedPoints
  have hcorpus : corpus.length = g.pointCount.toNat := by
    rw [← hpoints.count, ← hhydrated.points, List.length_map]
  have hvalid : validateGeneration (within env 0) db g = .ok () := by
    refine observeDatabase_ok (hquiet.within 0) ?_
    rw [hstate, ok_bind, refuse_of_not (not_not.mpr hserved), ok_bind]
    exact hverified.accepted (hquiet.within 0)
  have hschema := verifySchema_ok hfaithful hframed hlimits hname hlength (hquiet.within 1)
  have hremote := countExact_ok hfaithful hframed hlimits hname hlength (hquiet.within 4)
  have hinserted : UInt64.ofNat (inputs corpus).length = g.pointCount := by
    rw [inputs, List.length_map, hcorpus, UInt64.ofNat_toNat]
  have hverify : verifyGeneration alphanumeric backend env store db g =
      some (acceptReadiness g g.pointCount visits.visitor) := by
    simp only [verifyGeneration, mapError_eq_ok.mpr hvalid, mapError_eq_ok.mpr hschema, ok_bind,
      hvisits, Option.map_some, mapError_eq_ok.mpr hremote, hinserted]
  rw [hverify]
  obtain ⟨hproved, hunproven⟩ := acceptReadiness_gathered hgathered
    (UInt64.toNat_inj.mp (hcount.trans hcorpus)) hcorpus
  exact ⟨fun hprovable => congrArg some (hproved hprovable),
    fun hmissing => congrArg some (hunproven hmissing)⟩

end Whole

/-- Over an intact corpus and a faithful server an accepted generation is verified,
unless its texts have alphanumeric characters but no word that can be a canary.
Then, and for no other reason, it is refused as unproven. -/
theorem verifyGeneration_exact (alphanumeric : Char → Bool) (backend : Backend) (store : Store)
    (db : Db) (g : Generation) {validation : Env}
    (haccepts : Verify.generation validation db g = .ok ())
    (hframed : FramedRequests backend.encodedLen) (hlimits : backend.limits = backendLimits) :
    ∃ entries pages, Verified db g entries pages ∧ ∀ corpus env,
      Hydrated store entries pages corpus → Undisturbed env →
      Intact backend.upsertLen store (fun _ => db)
        (proveCall alphanumeric backend (within env 2) g.collection) g g.pageCount .start entries
        pages →
      Faithful alphanumeric backend.server g.collection (inputs corpus) →
      (Provable alphanumeric corpus →
        verifyGeneration alphanumeric backend env store db g = some (.ok ())) ∧
      (¬ Provable alphanumeric corpus →
        verifyGeneration alphanumeric backend env store db g =
          some (.error (ascii "PUBLICATION_READINESS_NOT_PROVEN"))) := by
  obtain ⟨entries, pages, hverified⟩ := verified_of_generation haccepts
  exact ⟨entries, pages, hverified, fun corpus env hhydrated hquiet hintact hfaithful =>
    verifyGeneration_settled hverified hhydrated hfaithful hframed hlimits hquiet hintact⟩

/-! ## Texts of one line -/

/-- Without a terminator what is left of a text belongs to one line. -/
theorem linesFrom_unbroken {rest : Bytes} (hline : ∀ byte ∈ rest, byte ≠ 10 ∧ byte ≠ 13)
    (fuel index start offset : Nat) (hfuel : rest.length ≤ fuel)
    (hopen : start < offset + rest.length) :
    linesFrom fuel index start offset rest =
      [⟨index, start, offset + rest.length, offset + rest.length⟩] := by
  induction rest generalizing fuel offset with
  | nil =>
      have hstart : start < offset := hopen
      cases fuel with
      | zero => rw [linesFrom, if_pos hstart]; rfl
      | succ fuel => rw [linesFrom, if_pos hstart]; rfl
  | cons byte rest ih =>
      obtain ⟨hbyte, hline⟩ := List.forall_mem_cons.mp hline
      obtain ⟨fuel, rfl⟩ := Nat.exists_eq_succ_of_ne_zero (Nat.ne_zero_of_lt hfuel)
      have hnone : terminator (byte :: rest) = 0 := by simp [terminator, hbyte]
      rw [List.length_cons] at hfuel hopen ⊢
      have hmore := ih hline fuel (offset + 1) (by omega) (by omega)
      rw [linesFrom, hnone, ← Nat.add_assoc, Nat.add_right_comm]
      exact hmore

/-- A text without a terminator is one line, and one unit covers it. -/
theorem cover_unbroken {text : Text} (hline : ∀ byte ∈ text.bytes, byte ≠ 10 ∧ byte ≠ 13)
    (hnonempty : 0 < text.bytes.length) {hard : Nat} (hhard : text.bytes.length ≤ hard) :
    (linesOf text.bytes).length = 1 ∧
      Cover text.bytes (linesOf text.bytes) hard 0 [⟨0, text.bytes.length, 0, 1, true, true⟩] := by
  have hlines : linesOf text.bytes = [⟨0, 0, text.bytes.length, text.bytes.length⟩] := by
    have hwhole := linesFrom_unbroken hline text.bytes.length 0 0 0 le_rfl (by omega)
    rwa [Nat.zero_add] at hwhole
  have hopen : text.bytes ≠ [] := List.ne_nil_of_length_pos hnonempty
  rw [hlines]
  refine ⟨rfl, ⟨rfl, hnonempty, le_rfl, hhard, text.boundary_end, ?_, ?_⟩, rfl⟩
  · refine ⟨⟨0, 0, text.bytes.length, text.bytes.length⟩, ?_, rfl, rfl⟩
    simp [hopen]
  · refine ⟨⟨0, 0, text.bytes.length, text.bytes.length⟩, ?_, rfl, ?_⟩
    · simp
    · simp

/-! ## A generation of one word -/

namespace Sample

/-- The number of letters of a word, the digests of its bytes and of its artifact,
and the size of the request that inserts it. -/
structure Letters where
  count : Nat
  digest : Blake3Digest32
  artifactDigest : Blake3Digest32
  requestBytes : UInt64

/-- The profile of a collection. -/
def profile : Schema.CollectionInfo where
  status := .green
  config := some (some ⟨1, some 1, some 1, some .auto, none, none⟩)
  payloadSchema := [(textField, ⟨.text, some (some (.textIndexParams Schema.textParams))⟩)]

/-- The encoded length of a request.  The reads are far below the limit, so the
length of their strings stands for theirs. -/
def requestBytesOf : Request → Nat
  | .upsertPoints message => requestLen message
  | request => request.strings

theorem requestBytesOf_framed : FramedRequests requestBytesOf := by
  intro request
  cases request with
  | upsertPoints message => exact requestLen_framed.framed message
  | collectionInfo name => exact Nat.le_add_right _ _
  | getPoints message => exact Nat.le_add_right _ _
  | countPoints message => exact Nat.le_add_right _ _
  | queryPoints message => exact Nat.le_add_right _ _

/-- The collection of the word has one source and one point. -/
def wordGeneration : Generation := ⟨Control.Sample.namespaceId, 1, 3, 1, 0, 1, 1⟩

def wordState : State :=
  { State.default with
    namespaceId := some Control.Sample.namespaceId, nextSequence := 2, currentRevision := 1
    current := some wordGeneration }

namespace Letters

variable (letters : Letters)

def text : Text := Text.ofChars (List.replicate letters.count 'a')

def source : CurrentSourceRecord :=
  { Control.Sample.source with
    objectRef := ⟨1, .source, letters.digest, UInt64.ofNat letters.count⟩ }

def units : List UnitSpan := [⟨0, letters.count, 0, 1, true, true⟩]

def artifactBytes : Bytes := encoding letters.source .default letters.text.bytes letters.units

def artifact : ObjectRef :=
  ⟨1, .prepared, letters.artifactDigest, UInt64.ofNat (letters.count + 155)⟩

def captured : CapturedSource where
  source := letters.source
  preparation := ⟨Control.Sample.namespaceId, Control.Sample.sourceId, 1, .default, 1,
    some ⟨1, 1, letters.source.objectRef, .default, .ready letters.artifact⟩⟩

def point : UploadPoint where
  id := Control.Sample.pointId 0
  evidence := ⟨Control.Sample.namespaceId, Control.Sample.sourceId, letters.source.objectRef,
    letters.artifact, 0, 0, UInt64.ofNat letters.count, 0, 1, true, true⟩

/-- An object directory that holds the artifact. -/
def store : Store where
  find name := if name = nameOf letters.artifact then some (.file letters.artifactBytes) else none
  hash bytes := if bytes = letters.text.bytes then letters.digest else letters.artifactDigest

def published : Db :=
  { Db.empty with
    publicationState := some (.ofList [(stateKey, stateFormat.print wordState)])
    generationSources := some (.ofList [Control.Sample.entryRow ⟨letters.captured, 1, true⟩])
    generationPages := some (.ofList [pageRow 0 letters.requestBytes [letters.point]])
    generationEvidence := some (.ofList [Control.Sample.evidenceRow letters.point]) }

def input : PointInput := ⟨letters.point.id, Control.Sample.sourceId, letters.text⟩

def corpus : List HydratedPoint := [⟨letters.point, letters.text⟩]

/-- A server that has the profile and the point, which it scores with one. -/
def server : Server where
  collectionInfo _ := .ok (some profile)
  get message := .ok (if pointId letters.point.id ∈ message.ids then [retrieved letters.input]
    else [])
  count _ := .ok (some 1)
  query _ := .ok [scored letters.input ⟨0x3f800000⟩]

def backend : Backend := ⟨letters.server, backendLimits, requestBytesOf⟩

end Letters

/-- Four letters. -/
def short : Letters where
  count := 4
  digest := ⟨(Hex.unhex (ascii
    "90f5942bc731ceb0635e12962723854206ba765f35ff010420208c59f31587c4")).getD [], by decide⟩
  artifactDigest := ⟨(Hex.unhex (ascii
    "0f8374f69710169ae44e22b9d535c95b326a17af2af86d2582a3c69f50863e4a")).getD [], by decide⟩
  requestBytes := 172

/-- One letter more than a canary may have. -/
def long : Letters where
  count := 4097
  digest := ⟨(Hex.unhex (ascii
    "480623959a661b81089a7b003d4a6206965e06fba7c95f77a984a4dcb774c978")).getD [], by decide⟩
  artifactDigest := ⟨(Hex.unhex (ascii
    "65d6b7108bbf5dcd1857586864353e49142eb03439f0a8fcd411c985e446af0c")).getD [], by decide⟩
  requestBytes := 4269

theorem requestLen_single (name : Bytes) (point : PointInput) :
    requestLen (upsertPoints name [point]) =
      fieldLen name.length + 2 + fieldLen (fieldLen (fieldLen 36) +
        (fieldLen (fieldLen 9 + fieldLen (fieldLen 36)) +
          fieldLen (fieldLen 14 + fieldLen (fieldLen point.retrievalText.bytes.length))) +
        fieldLen (fieldLen 0)) + 2 := by
  have huuid : ∀ id : Octets 16, (uuidText id).length = 36 := fun id => (grouped_uuidText id).1
  have hkeys : (ascii "source_id").length = 9 ∧ (ascii "retrieval_text").length = 14 := by decide
  simp [requestLen, upsertPoints, pointStruct, pointLen, entryLen, huuid, hkeys]

/-- What is stored of the word can be read. -/
structure Letters.Served (letters : Letters) : Prop where
  positive : 0 < letters.count
  bounded : letters.count ≤ 65536
  accepted : Verify.generation Env.quiet letters.published wordGeneration = .ok ()
  available : readState letters.published = .ok wordState
  page : readSavedPage letters.published wordGeneration 0 =
    .ok ⟨[letters.point], some letters.requestBytes⟩
  source : readSavedSource letters.published wordGeneration Control.Sample.sourceId =
    .ok letters.captured
  requestLen : requestLen (upsertPoints wordGeneration.collection [letters.input]) =
    letters.requestBytes.toNat

theorem Letters.text_bytes (letters : Letters) :
    letters.text.bytes = List.replicate letters.count 97 := by
  have hencode : ∀ count, encode (List.replicate count 'a') = List.replicate count 97 := by
    intro count
    induction count with
    | zero => rfl
    | succ count ih =>
        rw [List.replicate_succ, encode_cons, ih]
        rfl
  exact hencode letters.count

theorem Letters.text_length (letters : Letters) : letters.text.bytes.length = letters.count := by
  rw [letters.text_bytes, List.length_replicate]

theorem short_served : short.Served where
  positive := by decide
  bounded := by decide
  accepted := by decide +kernel
  available := by decide +kernel
  page := by decide +kernel
  source := by decide +kernel
  requestLen := by
    rw [requestLen_single, Letters.input, Letters.text_length]
    decide +kernel

theorem long_served : long.Served where
  positive := by decide
  bounded := by decide
  accepted := by decide +kernel
  available := by decide +kernel
  page := by decide +kernel
  source := by decide +kernel
  requestLen := by
    rw [requestLen_single, Letters.input, Letters.text_length]
    decide +kernel

section Word

variable {letters : Letters} {env : Env} {entries : List SourceEntry} {pages : List UploadPage}

theorem Letters.Served.byteLength (hserved : letters.Served) :
    letters.source.objectRef.byteLength.toNat = letters.count := by
  have hword : letters.count < 2 ^ 64 := Nat.lt_of_le_of_lt hserved.bounded (by decide)
  exact UInt64.toNat_ofNat_of_lt' hword

theorem Letters.artifactBytes_length (letters : Letters) :
    letters.artifactBytes.length = letters.count + 155 := by
  have hheader : 1 * unitBytes + headerBytes = 155 := rfl
  rw [artifactBytes, encoding_length, text_length]
  change 1 * unitBytes + headerBytes + letters.count = letters.count + 155
  rw [hheader, Nat.add_comm]

/-- The artifact decodes to the word as its only unit. -/
theorem Letters.Served.decoded (hserved : letters.Served) (hquiet : Undisturbed env) :
    decodePreparedUtf8 letters.store.hash env letters.artifactBytes letters.source .default limits =
      .ok ⟨letters.text, letters.units⟩ := by
  have hpositive := hserved.positive
  have hbounded := hserved.bounded
  have hsource : Bindable letters.source := by
    have hword : letters.source.objectRef.byteLength ≤ maxSourceObjectBytes := by
      rw [UInt64.le_iff_toNat_le, hserved.byteLength]
      exact hbounded.trans (by decide)
    rintro (hrevision | hkind | hversion | hlarge)
    · cases hrevision
    · exact hkind rfl
    · exact hversion rfl
    · exact absurd hword (UInt64.not_le.mpr hlarge)
  have hline : ∀ byte ∈ letters.text.bytes, byte ≠ 10 ∧ byte ≠ 13 := by
    rw [letters.text_bytes]
    intro byte hmem
    rw [(List.mem_replicate.mp hmem).2]
    decide
  obtain ⟨hlines, hcover⟩ := cover_unbroken hline (letters.text_length ▸ hpositive)
    (letters.text_length ▸ hbounded)
  have hunits : letters.units = [⟨0, letters.text.bytes.length, 0, 1, true, true⟩] := by
    rw [letters.text_length]
    rfl
  have hlimit : limits.checkTextLength letters.text.bytes.length = .ok () := by
    have hinput : ¬ letters.count > limits.maxInputBytes :=
      Nat.not_lt.mpr (hbounded.trans (by decide))
    have houtput : ¬ letters.count > limits.maxOutputBytes :=
      Nat.not_lt.mpr (hbounded.trans (by decide))
    rw [letters.text_length, PreparationLimits.checkTextLength, refuse_of_not hinput, ok_bind,
      refuse_of_not houtput]
  have hsize : encodedSize letters.text.bytes.length 1 = .ok (155 + letters.count) := by
    have hsmall : ¬ 1 * unitBytes + headerBytes + letters.count ≥ 2 ^ 64 := by
      rw [unitBytes, headerBytes]
      omega
    rw [letters.text_length, encodedSize, refuse_of_not hsmall, ok_bind]
    rfl
  rw [Letters.artifactBytes, hunits]
  refine decodePreparedUtf8_encoding hquiet (by decide) PreparationSettings.default_isSupported
    hsource (letters.text_length.trans hserved.byteLength.symm) (if_pos rfl) hlimit ?_ hsize ?_ ?_
    hcover
  · rw [List.length_singleton]
    decide
  · change 155 + letters.count ≤ 64 * 1024 * 1024
    omega
  · rw [hlines]
    decide

theorem Letters.Served.holds (hserved : letters.Served) :
    letters.store.Holds letters.artifact letters.artifactBytes := by
  have hbounded := hserved.bounded
  have hlength := letters.artifactBytes_length
  have hword : letters.count + 155 < 2 ^ 64 := by omega
  refine ⟨if_pos rfl, ?_, if_neg fun hsame => ?_⟩
  · rw [hlength]
    exact (UInt64.toNat_ofNat_of_lt' hword).symm
  · rw [hsame, letters.text_length] at hlength
    omega

/-- A validation finds the saved page. -/
theorem Letters.Served.pages_eq (hserved : letters.Served)
    (hverified : Verified letters.published wordGeneration entries pages) :
    pages = [⟨[letters.point], some letters.requestBytes⟩] := by
  obtain ⟨-, hpage⟩ := hverified.readSavedPage_eq_ok (SameSaved.self _) hserved.page
  have hcount : pages.length = 1 := hverified.pageCount
  obtain ⟨page, rfl⟩ := List.length_eq_one_iff.mp hcount
  exact congrArg (fun page => [page]) (Option.some.inj hpage)

theorem Letters.Served.captured_eq (hserved : letters.Served)
    (hverified : Verified letters.published wordGeneration entries pages) {entry : SourceEntry}
    (hentry : entry ∈ entries) (hbound : letters.point.evidence.BoundTo entry) :
    entry.captured = letters.captured := by
  have hread := hverified.readSavedSource_ok (SameSaved.self _)
    ⟨wordState, hserved.available, Or.inl rfl⟩ hentry
  rw [← hbound.source] at hread
  exact Except.ok.inj (hread.symm.trans hserved.source)

theorem Letters.Served.hydrated (hserved : letters.Served)
    (hverified : Verified letters.published wordGeneration entries pages) :
    Hydrated letters.store entries pages letters.corpus := by
  have hpages := hserved.pages_eq hverified
  obtain ⟨table, -, hpoints⟩ := hverified.savedPoints
  have hpoint : letters.point ∈ pointsIn pages := by
    rw [hpages]
    exact List.mem_singleton_self _
  obtain ⟨entry, hentry, hbound⟩ := hpoints.owned letters.point hpoint
  have hcaptured := hserved.captured_eq hverified hentry hbound
  have hwhole := letters.text.get_whole
  rw [letters.text_length, ← hserved.byteLength] at hwhole
  refine ⟨hpages ▸ rfl, List.forall_mem_singleton.mpr ⟨entry, hentry, hbound,
    letters.artifactBytes, ⟨letters.text, letters.units⟩, Env.quiet, hserved.holds, ?_, hwhole⟩⟩
  rw [hcaptured]
  exact hserved.decoded undisturbed_quiet

theorem Letters.Served.unitText_eq (hserved : letters.Served) :
    unitText ⟨letters.text, letters.units⟩ letters.point.evidence = .ok letters.text := by
  have hstop : letters.point.evidence.stop.toNat = letters.count := hserved.byteLength
  have hunit : letters.units[letters.point.evidence.unit.toNat]? =
      some ⟨0, letters.count, 0, 1, true, true⟩ := rfl
  have hguard : ¬ (0 ≠ letters.point.evidence.start.toNat ∨
      letters.count ≠ letters.point.evidence.stop.toNat ∨
      0 ≠ letters.point.evidence.lineStart.toNat ∨ 1 ≠ letters.point.evidence.lineEnd.toNat ∨
      true ≠ letters.point.evidence.startsAtLineBoundary ∨
      true ≠ letters.point.evidence.endsAtLineBoundary) := by
    rw [hstop]
    simp [point]
  have hwhole := letters.text.get_whole
  rw [letters.text_length] at hwhole
  rw [unitText, hunit, okOr_some, ok_bind, refuse_of_not hguard, ok_bind, hwhole]
  rfl

theorem Letters.Served.intact (hserved : letters.Served)
    (hverified : Verified letters.published wordGeneration entries pages)
    (alphanumeric : Char → Bool) :
    Intact letters.backend.upsertLen letters.store (fun _ => letters.published)
      (proveCall alphanumeric letters.backend (within Env.quiet 2) wordGeneration.collection)
      wordGeneration wordGeneration.pageCount .start entries pages := by
  have hpages := hserved.pages_eq hverified
  have hhydrated := hserved.hydrated hverified
  refine ⟨UInt64.le_refl _, ?_, ?_, fun _ _ _ => ⟨wordState, hserved.available, Or.inl rfl⟩⟩
  · intro point hpoint entry hentry hbound
    rw [hpages] at hpoint
    obtain rfl := List.mem_singleton.mp hpoint
    rw [hserved.captured_eq hverified hentry hbound]
    refine ⟨letters.artifactBytes, hserved.holds, ?_, ?_, ?_⟩
    · have hword :
          letters.point.evidence.prepared.byteLength.toNat = letters.artifactBytes.length :=
        hserved.holds.length.symm
      have hbounded := hserved.bounded
      refine ⟨rfl, by decide, ?_, nofun⟩
      rw [UInt64.le_iff_toNat_le, hword, letters.artifactBytes_length]
      change letters.count + 155 ≤ 64 * 1024 * 1024
      omega
    · exact fun env hquiet => ⟨_, hserved.decoded hquiet⟩
    · intro env view hdecode
      obtain rfl := decodePreparedUtf8_unique (hserved.decoded undisturbed_quiet) hdecode
      exact ⟨letters.text, hserved.unitText_eq⟩
  · intro page hpage hydrated hpoints hquoted env hquiet
    rw [hpages] at hpage
    obtain rfl := List.mem_singleton.mp hpage
    have hsame : hydrated = letters.corpus := by
      refine quoted_unique hverified hquoted hhydrated.quoted (hpoints.trans ?_)
      rfl
    subst hsame
    have hname := collection_named wordGeneration
    have hlength : letters.input.retrievalText.bytes.length = letters.count := letters.text_length
    have hpositive := hserved.positive
    have hbounded := hserved.bounded
    have hsendable : Sendable wordGeneration.collection [letters.input] := by
      refine ⟨hname.1, List.cons_ne_nil _ _, Nat.succ_pos 127, ?_, List.nodup_singleton _, ?_⟩
      · refine List.forall_mem_singleton.mpr ⟨List.ne_nil_of_length_pos ?_, ?_⟩
        · omega
        · rw [hlength]
          exact hbounded
      · have hnamed := hname.2
        simp only [textBytes, List.map_cons, List.map_nil, List.sum_cons, List.sum_nil, hlength,
          maxRequestBytes]
        omega
    have hfits := (single_fits requestLen_framed hname.2 (hsendable.texts _ List.mem_cons_self).2).2
    refine ⟨_, batchRequestBytes_ok hquiet hsendable hfits, ?_⟩
    rintro saved ⟨⟩
    exact hserved.requestLen.symm

theorem Letters.faithful (letters : Letters) (alphanumeric : Char → Bool) :
    Faithful alphanumeric letters.server wordGeneration.collection (inputs letters.corpus) := by
  have hinputs : inputs letters.corpus = [letters.input] := rfl
  rw [hinputs]
  refine ⟨⟨profile, rfl, by decide⟩, ?_, rfl, ?_⟩
  · intro points hpoints hdistinct
    cases points with
    | nil => exact ⟨[], List.Perm.refl _, rfl⟩
    | cons point points =>
        obtain ⟨hpoint, hrest⟩ := List.cons_subset.mp hpoints
        obtain rfl := List.mem_singleton.mp hpoint
        obtain rfl : points = [] := by
          refine List.eq_nil_iff_forall_not_mem.mpr fun other hother => ?_
          obtain rfl := List.mem_singleton.mp (hrest hother)
          rw [List.map_cons, List.nodup_cons] at hdistinct
          exact hdistinct.1 (List.mem_map_of_mem hother)
        refine ⟨[letters.input], List.Perm.refl _, ?_⟩
        exact congrArg Except.ok (if_pos (List.mem_singleton_self _))
  · intro point hpoint query hcandidate
    obtain rfl := List.mem_singleton.mp hpoint
    exact ⟨⟨0x3f800000⟩, by decide, by decide, rfl⟩

/-- The only word of the text is the text. -/
theorem Letters.candidate_iff (letters : Letters) {run : Text} :
    IsCandidate Char.isAlphanum letters.text run ↔
      run = letters.text ∧ 0 < letters.count ∧ letters.count ≤ maxQueryBytes := by
  have hchars : letters.text.chars = List.replicate letters.count 'a' := Text.chars_ofChars _
  have hinside : ∀ character ∈ letters.text.chars, separator Char.isAlphanum character = false := by
    rw [hchars]
    intro character hmem
    rw [(List.mem_replicate.mp hmem).2]
    decide
  constructor
  · intro hcandidate
    have hpiece := mem_splitOnP.mpr hcandidate.maximal
    rw [List.splitOnP_eq_singleton hinside, List.mem_singleton] at hpiece
    have hrun : run = letters.text := by
      rw [← Text.ofChars_chars run, hpiece, Text.ofChars_chars]
    obtain ⟨character, hmem, -⟩ := hcandidate.alphanumeric
    rw [hpiece, hchars] at hmem
    have hbounded := hcandidate.bounded
    rw [hrun, letters.text_length] at hbounded
    exact ⟨hrun, Nat.pos_of_ne_zero (List.mem_replicate.mp hmem).1, hbounded⟩
  · rintro ⟨rfl, hpositive, hbounded⟩
    refine ⟨⟨[], [], (List.append_nil _).symm, hinside, rfl, rfl⟩, ⟨'a', ?_, by decide⟩, ?_⟩
    · rw [hchars]
      exact List.mem_replicate.mpr ⟨Nat.ne_of_gt hpositive, rfl⟩
    · rwa [letters.text_length]

/-- A word is a canary of its generation unless it is too long. -/
theorem Letters.Served.provable_iff (hserved : letters.Served) :
    Provable Char.isAlphanum letters.corpus ↔ letters.count ≤ maxQueryBytes := by
  have hpositive := hserved.positive
  constructor
  · rintro (htokenless | ⟨found, hfound, run, hcandidate⟩)
    · have hmem : 'a' ∈ letters.text.chars := by
        rw [Letters.text, Text.chars_ofChars]
        exact List.mem_replicate.mpr ⟨Nat.ne_of_gt hpositive, rfl⟩
      cases htokenless _ (List.mem_singleton_self _) 'a' hmem
    · obtain rfl := List.mem_singleton.mp hfound
      exact (letters.candidate_iff.mp hcandidate).2.2
  · intro hbounded
    exact Or.inr ⟨_, List.mem_singleton_self _, letters.text,
      letters.candidate_iff.mpr ⟨rfl, hpositive, hbounded⟩⟩

end Word

end Sample

theorem verifyGeneration_exact_sample :
    ∃ entries pages, Verified Sample.short.published Sample.wordGeneration entries pages ∧
      verifyGeneration Char.isAlphanum Sample.short.backend Env.quiet Sample.short.store
        Sample.short.published Sample.wordGeneration = some (.ok ()) := by
  have hserved := Sample.short_served
  obtain ⟨entries, pages, hverified, hsettled⟩ := verifyGeneration_exact Char.isAlphanum
    Sample.short.backend Sample.short.store Sample.short.published Sample.wordGeneration
    hserved.accepted Sample.requestBytesOf_framed rfl
  obtain ⟨hproved, -⟩ := hsettled Sample.short.corpus Env.quiet (hserved.hydrated hverified)
    undisturbed_quiet (hserved.intact hverified _) (Sample.short.faithful _)
  exact ⟨entries, pages, hverified, hproved (hserved.provable_iff.mpr (by decide))⟩

/-- One unit with a single word of 4097 letters cannot be proved ready: the corpus is
intact and the server faithful, and the generation is refused. -/
theorem long_word_unproven :
    Verify.generation Env.quiet Sample.long.published Sample.wordGeneration = .ok () ∧
      FramedRequests Sample.long.backend.encodedLen ∧
      Sample.long.backend.limits = backendLimits ∧
      ∃ entries pages, Verified Sample.long.published Sample.wordGeneration entries pages ∧
        Hydrated Sample.long.store entries pages Sample.long.corpus ∧
        Intact Sample.long.backend.upsertLen Sample.long.store (fun _ => Sample.long.published)
          (proveCall Char.isAlphanum Sample.long.backend (within Env.quiet 2)
            Sample.wordGeneration.collection)
          Sample.wordGeneration Sample.wordGeneration.pageCount .start entries pages ∧
        Faithful Char.isAlphanum Sample.long.backend.server Sample.wordGeneration.collection
          (inputs Sample.long.corpus) ∧
        verifyGeneration Char.isAlphanum Sample.long.backend Env.quiet Sample.long.store
          Sample.long.published Sample.wordGeneration =
            some (.error (ascii "PUBLICATION_READINESS_NOT_PROVEN")) := by
  have hserved := Sample.long_served
  obtain ⟨entries, pages, hverified⟩ := verified_of_generation hserved.accepted
  have hhydrated := hserved.hydrated hverified
  have hintact := hserved.intact hverified Char.isAlphanum
  have hfaithful := Sample.long.faithful Char.isAlphanum
  have hlong : ¬ Provable Char.isAlphanum Sample.long.corpus := by
    rw [hserved.provable_iff]
    decide
  exact ⟨hserved.accepted, Sample.requestBytesOf_framed, rfl, entries, pages, hverified, hhydrated,
    hintact, hfaithful, (verifyGeneration_settled hverified hhydrated hfaithful
      Sample.requestBytesOf_framed rfl undisturbed_quiet hintact).2 hlong⟩

end EliotSearch.Corpus
