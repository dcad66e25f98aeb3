import EliotSearch.Control.PageFormats
import EliotSearch.Control.PublishedView
import EliotSearch.Corpus.Batches
import EliotSearch.Library.Loops
import EliotSearch.Library.Worklist

/-!
# Splitting upload pages

A page is staged when both its durable encoding and its request fit; otherwise
its halves go back on a stack, the first half on top.  A page of one unit always
fits, so the loop ends, and what it stages are the points of the page in order.
-/

namespace EliotSearch.Corpus

open EliotSearch.Control
open EliotSearch.Control.Verify (pointsIn)
open EliotSearch.Library
open EliotSearch.Library.Json
open EliotSearch.Library.Loops
open EliotSearch.Library.Results
open EliotSearch.Library.Utf8
open EliotSearch.Library.Words
open EliotSearch.Preparation
open EliotSearch.Query

/-! ## The loop -/

/-- The units of a page as the points of a batch. -/
def pageInputs (prepared : PreparedUtf8) (points : List UploadPoint) :
    Except Bytes (List PointInput) :=
  points.mapM fun point => do
    let retrievalText ← unitText prepared point.evidence
    return { id := point.id, sourceId := point.evidence.sourceId, retrievalText }

/-- Whether one of the two sizes of a page is above its limit. -/
def oversized (size : Except PublicationError Nat) (wire : Except BackendError Nat) :
    Except Bytes Bool :=
  match size with
  | .error .limit => .ok true
  | .error error => .error (ascii error.code)
  | .ok size =>
      if size > maxPageBytes then .ok true
      else match wire with
        | .ok size => .ok (decide (size > maxRequestBytes))
        | .error .requestTooLarge => .ok true
        | .error error => .error (ascii error.code)

/-- The request size to record with a page; a machine word holds it. -/
def recordedSize (wire : Except BackendError Nat) : Except Bytes UInt64 := do
  let size ← wire.mapError fun error => ascii error.code
  refuse (2 ^ 64 ≤ size) (ascii "PUBLICATION_LIMIT")
  return UInt64.ofNat size

/-- What a staging loop has done so far: the writer, the pages handed to it and
the number of pages taken off the stack. -/
structure Staged (ω : Type) where
  writer : ω
  pages : List UploadPage
  turn : Nat

section Loop

variable {ω : Type} (encodedLen : UpsertPoints → Nat)
  (stagePage : ω → UploadPage → ω × Except PublicationError Unit) (env : Env)
  (pending : PendingGeneration) (prepared : PreparedUtf8)

/-- Measure one page: the pages to put back, or the page with its request size. -/
def measurePage (env : Env) (page : UploadPage) : Except Bytes (List UploadPage ⊕ UploadPage) := do
  check env 0
  let inputs ← pageInputs prepared page.points
  let wire := batchRequestBytes encodedLen (within env 1) pending.generation.collection inputs
  if ← oversized (pageSize page) wire then
    refuse (page.points.length ≤ 1) (ascii "PUBLICATION_UNIT_TOO_LARGE")
    let middle := page.points.length / 2
    return .inl [{ page with points := page.points.take middle }, ⟨page.points.drop middle, none⟩]
  else
    let size ← recordedSize wire
    return .inr { page with requestBytes := some size }

/-- One page of the stack: split it, or hand it to the writer. -/
def visitStacked (staged : Staged ω) (page : UploadPage) :
    Staged ω × Except Bytes (List UploadPage) :=
  match measurePage encodedLen pending prepared (within env staged.turn) page with
  | .error error => (staged, .error error)
  | .ok (.inl parts) => ({ staged with turn := staged.turn + 1 }, .ok parts)
  | .ok (.inr page) =>
      let (writer, answer) := stagePage staged.writer page
      (⟨writer, staged.pages ++ [page], staged.turn + 1⟩,
        (answer.mapError fun error => ascii error.code).map fun _ => [])

/-- Stage one complete page.  Each visit either ends a page or makes one more, so
twice the number of points is fuel enough. -/
def stageCompletePage (writer : ω) (page : UploadPage) :
    Option (Staged ω × Except Bytes Unit) :=
  Worklist.drain (visitStacked encodedLen stagePage env pending prepared)
    (2 * page.points.length) ⟨writer, [], 0⟩ [page]

end Loop

/-! ## Pages that fit -/

/-- A page of at most 128 units, each of at most 64 KiB. -/
structure Bounded (prepared : PreparedUtf8) (page : UploadPage) : Prop where
  nonempty : page.points ≠ []
  count : page.points.length ≤ maxPagePoints
  texts : ∀ point ∈ page.points, ∀ text, unitText prepared point.evidence = .ok text →
    text.bytes.length ≤ maxPointTextBytes

/-- The encodable size of the page is within its limit, and the exact size of
the request that inserts it is recorded and within the limit of a request. -/
structure Fitting (encodedLen : UpsertPoints → Nat) (pending : PendingGeneration)
    (prepared : PreparedUtf8) (page : UploadPage) : Prop where
  nonempty : page.points ≠ []
  count : page.points.length ≤ maxPagePoints
  size : ∃ bytes, encodePage page = .ok bytes ∧ pageSize page = .ok bytes.length ∧
    bytes.length ≤ maxPageBytes
  request : ∃ inputs, pageInputs prepared page.points = .ok inputs ∧
    page.requestBytes =
      some (UInt64.ofNat (encodedLen (upsertPoints pending.generation.collection inputs))) ∧
    encodedLen (upsertPoints pending.generation.collection inputs) ≤ maxRequestBytes ∧
    ∀ env, Undisturbed env → batchRequestBytes encodedLen env pending.generation.collection inputs =
      .ok (encodedLen (upsertPoints pending.generation.collection inputs))

section Measured

variable {encodedLen : UpsertPoints → Nat} {env : Env} {pending : PendingGeneration}
  {prepared : PreparedUtf8} {page staged : UploadPage} {parts : List UploadPage}

theorem oversized_eq_ok {size : Except PublicationError Nat} {wire : Except BackendError Nat}
    (hfits : oversized size wire = .ok false) :
    ∃ bytes request, size = .ok bytes ∧ bytes ≤ maxPageBytes ∧ wire = .ok request ∧
      request ≤ maxRequestBytes := by
  unfold oversized at hfits
  split at hfits
  · cases hfits
  · cases hfits
  · rename_i bytes
    split at hfits
    · cases hfits
    · rename_i hbytes
      split at hfits
      · rename_i request
        simp only [Except.ok.injEq, decide_eq_false_iff_not, Nat.not_lt] at hfits
        exact ⟨bytes, request, rfl, Nat.not_lt.mp hbytes, rfl, hfits⟩
      · cases hfits
      · cases hfits

/-- A page that fits is encodable once its request size is recorded. -/
theorem encodePage_recorded {request size : Nat} (hpositive : 0 < request)
    (hrequest : request ≤ maxRequestBytes) (hsize : pageSize page = .ok size) :
    ∃ bytes, encodePage { page with requestBytes := some (UInt64.ofNat request) } = .ok bytes ∧
      bytes.length = size := by
  have hword : (UInt64.ofNat request).toNat = request :=
    UInt64.toNat_ofNat_of_lt' (Nat.lt_of_le_of_lt hrequest (by decide))
  have hbounds : 0 < UInt64.ofNat request ∧ (UInt64.ofNat request).toNat ≤ maxPageBytes := by
    rw [UInt64.lt_iff_toNat_lt, hword]
    exact ⟨hpositive, hrequest⟩
  have hfilter : (some (UInt64.ofNat request)).filter (fun bytes =>
      0 < bytes && decide (bytes.toNat ≤ maxPageBytes)) = some (UInt64.ofNat request) := by
    refine Option.filter_eq_some_iff.mpr ⟨rfl, ?_⟩
    rw [Bool.and_eq_true, decide_eq_true_eq, decide_eq_true_eq]
    exact hbounds
  have hsame : pageSize { page with requestBytes := some (UInt64.ofNat request) } = .ok size :=
    hsize
  refine ⟨pageBytes page.points (UInt64.ofNat request), ?_, ?_⟩
  · simp only [encodePage, hsame, hfilter, okOr_some, ok_bind]
    rfl
  · rw [pageBytes_length]
    exact (pageSize_eq_ok hsize).2.2.1.symm

/-- What is staged is the measured page with the size of its request. -/
theorem measurePage_staged (hframed : Framed encodedLen)
    (hmeasure : measurePage encodedLen pending prepared env page = .ok (.inr staged)) :
    staged.points = page.points ∧ Fitting encodedLen pending prepared staged := by
  simp only [measurePage, bind_eq_ok] at hmeasure
  obtain ⟨_, _, inputs, hinputs, large, hlarge, hmeasure⟩ := hmeasure
  cases large with
  | true =>
      simp only [if_true, bind_eq_ok] at hmeasure
      obtain ⟨_, _, hparts⟩ := hmeasure
      cases hparts
  | false =>
      simp only [Bool.false_eq_true, if_false, recordedSize, bind_eq_ok, mapError_eq_ok,
        refuse_eq_ok] at hmeasure
      obtain ⟨word, ⟨size, hsize, _, hword, hrecorded⟩, hstaged⟩ := hmeasure
      obtain rfl := Except.ok.inj hrecorded
      obtain rfl := Sum.inr.inj (Except.ok.inj hstaged)
      obtain ⟨bytes, request, hbytes, hbound, hrequest, hfits⟩ := oversized_eq_ok hlarge
      obtain rfl : request = size := Except.ok.inj (hrequest.symm.trans hsize)
      obtain ⟨hsendable, rfl, -⟩ := batchRequestBytes_eq_ok hsize
      obtain ⟨hnonempty, hcount, -⟩ := pageSize_eq_ok hbytes
      refine ⟨rfl, hnonempty, hcount, ?_, inputs, hinputs, rfl, hfits, fun env hquiet =>
        batchRequestBytes_ok hquiet hsendable hfits⟩
      obtain ⟨encoded, hencoded, hlength⟩ := encodePage_recorded
        (hframed.positive hsendable.named) hfits hbytes
      exact ⟨encoded, hencoded, hlength ▸ hbytes, hlength ▸ hbound⟩

/-- A page that is put back is put back as its two halves. -/
theorem measurePage_split
    (hmeasure : measurePage encodedLen pending prepared env page = .ok (.inl parts)) :
    1 < page.points.length ∧ ∃ first second, parts = [first, second] ∧
      first.points = page.points.take (page.points.length / 2) ∧
      second.points = page.points.drop (page.points.length / 2) := by
  simp only [measurePage, bind_eq_ok] at hmeasure
  obtain ⟨_, _, inputs, hinputs, large, hlarge, hmeasure⟩ := hmeasure
  cases large with
  | true =>
      simp only [if_true, bind_eq_ok, refuse_eq_ok, Nat.not_le] at hmeasure
      obtain ⟨_, hlength, hparts⟩ := hmeasure
      obtain rfl := Sum.inl.inj (Except.ok.inj hparts)
      exact ⟨hlength, _, _, rfl, rfl, rfl⟩
  | false =>
      simp only [Bool.false_eq_true, if_false, bind_eq_ok] at hmeasure
      obtain ⟨_, _, hstaged⟩ := hmeasure
      cases hstaged

/-- The halves of a bounded page are bounded, and are its points in order. -/
theorem Bounded.halves (hbounded : Bounded prepared page) (hlength : 1 < page.points.length)
    {first second : UploadPage} (hfirst : first.points = page.points.take (page.points.length / 2))
    (hsecond : second.points = page.points.drop (page.points.length / 2)) :
    Bounded prepared first ∧ Bounded prepared second ∧
      first.points ++ second.points = page.points := by
  have hfirstLength : first.points.length = page.points.length / 2 := by
    rw [hfirst, List.length_take]
    omega
  have hsecondLength : second.points.length = page.points.length - page.points.length / 2 := by
    rw [hsecond, List.length_drop]
  have hcount := hbounded.count
  refine ⟨⟨?_, by omega, ?_⟩, ⟨?_, by omega, ?_⟩, ?_⟩
  · exact List.ne_nil_of_length_pos (by omega)
  · exact fun point hmem => hbounded.texts point (List.mem_of_mem_take (hfirst ▸ hmem))
  · exact List.ne_nil_of_length_pos (by omega)
  · exact fun point hmem => hbounded.texts point (List.mem_of_mem_drop (hsecond ▸ hmem))
  · rw [hfirst, hsecond, List.take_append_drop]

theorem pageInputs_length {points : List UploadPoint} {inputs : List PointInput}
    (hinputs : pageInputs prepared points = .ok inputs) : inputs.length = points.length :=
  (mapM_eq_ok hinputs).1

/-- The texts of a bounded page are within the bound of a point. -/
theorem Bounded.inputs (hbounded : Bounded prepared page) {inputs : List PointInput}
    (hinputs : pageInputs prepared page.points = .ok inputs) :
    ∀ input ∈ inputs, input.retrievalText.bytes.length ≤ maxPointTextBytes := by
  intro input hmem
  obtain ⟨index, hindex⟩ := List.mem_iff_getElem?.mp hmem
  obtain ⟨hlength, hall⟩ := mapM_eq_ok hinputs
  have hlt : index < page.points.length := hlength ▸ (List.getElem?_eq_some_iff.mp hindex).1
  obtain ⟨found, hfound, hsame⟩ := hall index _ (List.getElem?_eq_getElem hlt)
  obtain rfl := Option.some.inj (hsame.symm.trans hindex)
  obtain ⟨text, htext, hinput⟩ := bind_eq_ok.mp hfound
  obtain rfl := Except.ok.inj hinput
  exact hbounded.texts _ (List.getElem_mem hlt) text htext

theorem chargePoints_ne_limit {size : Nat} {points : List UploadPoint}
    (hroom : size + 176 * points.length ≤ maxPageBytes) :
    chargePoints size points ≠ .error .limit := by
  induction points generalizing size with
  | nil => exact nofun
  | cons point points ih =>
      rw [List.length_cons] at hroom
      intro hlimit
      simp only [chargePoints, bind_eq_error, refuse_eq_error] at hlimit
      rcases hlimit with ⟨-, hcorrupt⟩ | ⟨_, _, ⟨hlarge, -⟩ | ⟨_, _, hrest⟩⟩
      · cases hcorrupt
      · rw [evidenceLength] at hlarge
        omega
      · refine ih ?_ hrest
        rw [evidenceLength]
        omega

/-- No page of 1 to 128 points is above the limit of a page. -/
theorem Bounded.pageSize (hbounded : Bounded prepared page) :
    pageSize page ≠ .error .limit ∧ ∀ size, pageSize page = .ok size → size ≤ maxPageBytes := by
  have hcount := hbounded.count
  have hroom : 20 + 176 * page.points.length ≤ maxPageBytes := by
    simp only [maxPagePoints, maxPageBytes] at hcount ⊢
    omega
  constructor
  · intro hlimit
    simp only [Control.pageSize, bind_eq_error, refuse_eq_error] at hlimit
    rcases hlimit with ⟨hempty | hmany, -⟩ | ⟨_, _, hcharge⟩
    · exact hbounded.nonempty hempty
    · exact absurd hcount (Nat.not_le.mpr hmany)
    · exact chargePoints_ne_limit hroom hcharge
  · intro size hsize
    obtain ⟨-, -, htotal, -⟩ := pageSize_eq_ok hsize
    rw [htotal, flatMap_pointBytes_length]
    exact hroom

/-- Within its durable limit a page is oversized only for its request. -/
theorem Bounded.oversized (hbounded : Bounded prepared page) {wire : Except BackendError Nat}
    (hlarge : oversized (Control.pageSize page) wire = .ok true) :
    wire = .error .requestTooLarge ∨ ∃ size, wire = .ok size ∧ size > maxRequestBytes := by
  obtain ⟨hlimit, hsize⟩ := hbounded.pageSize
  unfold Corpus.oversized at hlarge
  split at hlarge
  · rename_i herror
    exact absurd herror hlimit
  · cases hlarge
  · rename_i size hpage
    rw [if_neg (Nat.not_lt.mpr (hsize size hpage))] at hlarge
    split at hlarge
    · rename_i request
      exact Or.inr ⟨request, rfl, of_decide_eq_true (Except.ok.inj hlarge)⟩
    · exact Or.inl rfl
    · cases hlarge

/-- A bounded page of one unit is not oversized. -/
theorem not_oversized_single (hframed : Framed encodedLen) (hbounded : Bounded prepared page)
    (hsingle : page.points.length ≤ 1) {inputs : List PointInput}
    (hinputs : pageInputs prepared page.points = .ok inputs) :
    oversized (pageSize page)
      (batchRequestBytes encodedLen env pending.generation.collection inputs) ≠ .ok true := by
  intro hlarge
  have hone : inputs.length = 1 := by
    have hnonempty := List.length_pos_iff.mpr hbounded.nonempty
    rw [pageInputs_length hinputs]
    omega
  obtain ⟨input, rfl⟩ := List.length_eq_one_iff.mp hone
  have htexts := hbounded.inputs hinputs
  obtain ⟨hsum, hfits⟩ := single_fits hframed (collection_named pending.generation).2
    (htexts input List.mem_cons_self)
  rcases hbounded.oversized hlarge with hwire | ⟨size, hwire, hsize⟩
  · exact batchRequestBytes_ne_tooLarge (Nat.le_add_left [input].length 127) htexts hsum hfits hwire
  · obtain ⟨-, rfl, -⟩ := batchRequestBytes_eq_ok hwire
    exact absurd hfits (Nat.not_le.mpr hsize)

theorem PublicationError.code_ne (error : PublicationError) :
    ascii error.code ≠ ascii "PUBLICATION_UNIT_TOO_LARGE" := by
  cases error <;> decide

theorem BackendError.code_ne (error : BackendError) :
    ascii error.code ≠ ascii "PUBLICATION_UNIT_TOO_LARGE" := by
  cases error <;> decide

theorem oversized_ne {size : Except PublicationError Nat} {wire : Except BackendError Nat} :
    oversized size wire ≠ .error (ascii "PUBLICATION_UNIT_TOO_LARGE") := by
  intro hlarge
  unfold oversized at hlarge
  split at hlarge
  · cases hlarge
  · exact PublicationError.code_ne _ (Except.error.inj hlarge)
  · split at hlarge
    · cases hlarge
    · split at hlarge
      · cases hlarge
      · cases hlarge
      · exact BackendError.code_ne _ (Except.error.inj hlarge)

theorem recordedSize_ne {wire : Except BackendError Nat} :
    recordedSize wire ≠ .error (ascii "PUBLICATION_UNIT_TOO_LARGE") := by
  intro hlarge
  simp only [recordedSize, bind_eq_error, mapError_eq_error, refuse_eq_error] at hlarge
  rcases hlarge with ⟨error, -, herror⟩ | ⟨_, _, ⟨-, hlimit⟩ | ⟨_, _, hdone⟩⟩
  · exact BackendError.code_ne error herror
  · revert hlimit
    decide
  · cases hdone

theorem pageInputs_ne {points : List UploadPoint} :
    pageInputs prepared points ≠ .error (ascii "PUBLICATION_UNIT_TOO_LARGE") := by
  intro hlarge
  obtain ⟨point, -, hfailed⟩ := mapM_eq_error hlarge
  rcases bind_eq_error.mp hfailed with htext | ⟨_, _, hdone⟩
  · have hcorrupt : ascii "PUBLICATION_CORRUPT" = ascii "PUBLICATION_UNIT_TOO_LARGE" := by
      simp only [unitText, bind_eq_error, okOr_eq_error, refuse_eq_error] at htext
      rcases htext with ⟨-, hcode⟩ | ⟨_, _, ⟨-, hcode⟩ | ⟨_, _, ⟨-, hcode⟩⟩⟩
      · exact hcode
      · exact hcode
      · exact hcode
    revert hcorrupt
    decide
  · cases hdone

/-- No failure of a bounded page is the one of a unit too large. -/
theorem measurePage_error (hframed : Framed encodedLen) (hbounded : Bounded prepared page)
    {error : Bytes} (hmeasure : measurePage encodedLen pending prepared env page = .error error) :
    error ≠ ascii "PUBLICATION_UNIT_TOO_LARGE" := by
  rintro rfl
  rw [measurePage, bind_eq_error] at hmeasure
  rcases hmeasure with hcheck | ⟨_, _, hmeasure⟩
  · rcases checkWith_eq_error hcheck with hcode | hcode
    · revert hcode
      decide
    · revert hcode
      decide
  rcases bind_eq_error.mp hmeasure with hinputs | ⟨inputs, hinputs, hmeasure⟩
  · exact pageInputs_ne hinputs
  rcases bind_eq_error.mp hmeasure with hsize | ⟨large, hlarge, hmeasure⟩
  · exact oversized_ne hsize
  cases large with
  | true =>
      simp only [if_true, bind_eq_error, refuse_eq_error] at hmeasure
      rcases hmeasure with ⟨hsingle, -⟩ | ⟨_, _, hdone⟩
      · exact not_oversized_single hframed hbounded hsingle hinputs hlarge
      · cases hdone
  | false =>
      simp only [Bool.false_eq_true, if_false] at hmeasure
      rcases bind_eq_error.mp hmeasure with hrecorded | ⟨_, _, hdone⟩
      · exact recordedSize_ne hrecorded
      · cases hdone

/-- A page that fits is not split. -/
theorem measurePage_whole {request : UInt64} {found : List UploadPage ⊕ UploadPage}
    (hfits : Fitting encodedLen pending prepared { page with requestBytes := some request })
    (hmeasure : measurePage encodedLen pending prepared env page = .ok found) :
    found = .inr { page with requestBytes := some request } := by
  obtain ⟨bytes, -, hsize, hbytes⟩ := hfits.size
  obtain ⟨inputs, hinputs, hrequest, hlength, hquiet⟩ := hfits.request
  obtain ⟨hsendable, -, -⟩ := batchRequestBytes_eq_ok (hquiet Env.quiet fun _ => rfl)
  have hwhole : Control.pageSize page = .ok bytes.length := hsize
  rw [measurePage, bind_eq_ok] at hmeasure
  obtain ⟨_, _, hmeasure⟩ := hmeasure
  rw [show pageInputs prepared page.points = .ok inputs from hinputs, ok_bind] at hmeasure
  obtain ⟨large, hlarge, hmeasure⟩ := bind_eq_ok.mp hmeasure
  cases large with
  | true =>
      rw [hwhole] at hlarge
      simp only [oversized, if_neg (Nat.not_lt.mpr hbytes)] at hlarge
      split at hlarge
      · rename_i hwire
        obtain ⟨-, rfl, -⟩ := batchRequestBytes_eq_ok hwire
        exact absurd (of_decide_eq_true (Except.ok.inj hlarge)) (Nat.not_lt.mpr hlength)
      · rename_i hwire
        refine absurd hwire (batchRequestBytes_ne_tooLarge hsendable.bounded ?_
          hsendable.lowerBound hlength)
        exact fun point hmem => (hsendable.texts point hmem).2
      · cases hlarge
  | false =>
      simp only [Bool.false_eq_true, if_false, recordedSize, bind_eq_ok, mapError_eq_ok,
        refuse_eq_ok] at hmeasure
      obtain ⟨word, ⟨size, hwire, _, -, hrecorded⟩, hstaged⟩ := hmeasure
      obtain rfl := Except.ok.inj hrecorded
      obtain ⟨-, rfl, -⟩ := batchRequestBytes_eq_ok hwire
      rw [← hrequest] at hstaged
      exact (Except.ok.inj hstaged).symm

/-- Evidence in range, texts that are there and identifiers without repetition. -/
structure Stageable (prepared : PreparedUtf8) (page : UploadPage) : Prop where
  evidence : ∀ point ∈ page.points, ValidEvidence point.evidence
  texts : ∀ point ∈ page.points, ∃ text, unitText prepared point.evidence = .ok text ∧
    text.bytes ≠ []
  distinct : (page.points.map UploadPoint.id).Nodup

theorem Stageable.sublist (hstageable : Stageable prepared page) {part : UploadPage}
    (hpart : part.points.Sublist page.points) : Stageable prepared part where
  evidence point hmem := hstageable.evidence point (hpart.subset hmem)
  texts point hmem := hstageable.texts point (hpart.subset hmem)
  distinct := hstageable.distinct.sublist (hpart.map UploadPoint.id)

/-- The units of a stageable page are distinct points with texts. -/
theorem Stageable.inputs (hstageable : Stageable prepared page) :
    ∃ inputs, pageInputs prepared page.points = .ok inputs ∧
      (∀ input ∈ inputs, input.retrievalText.bytes ≠ []) ∧ (inputs.map PointInput.id).Nodup := by
  obtain ⟨inputs, hinputs, hlength⟩ : ∃ inputs, pageInputs prepared page.points = .ok inputs ∧
      inputs.length = page.points.length := by
    refine mapM_ok fun point hmem => ?_
    obtain ⟨text, htext, -⟩ := hstageable.texts point hmem
    exact ⟨_, bind_eq_ok.mpr ⟨text, htext, rfl⟩⟩
  have hall : ∀ (index : Nat) (hindex : index < page.points.length),
      ∃ text, inputs[index]? = some ⟨page.points[index].id,
        page.points[index].evidence.sourceId, text⟩ ∧ text.bytes ≠ [] := by
    intro index hindex
    obtain ⟨input, hinput, hfound⟩ :=
      (mapM_eq_ok hinputs).2 index _ (List.getElem?_eq_getElem hindex)
    obtain ⟨text, htext, hnonempty⟩ := hstageable.texts _ (List.getElem_mem hindex)
    rw [htext, ok_bind, pure_eq_ok, Except.ok.injEq] at hinput
    exact ⟨text, hinput ▸ hfound, hnonempty⟩
  refine ⟨inputs, hinputs, ?_, ?_⟩
  · intro input hmem
    obtain ⟨index, hindex, rfl⟩ := List.mem_iff_getElem.mp hmem
    obtain ⟨text, hfound, hnonempty⟩ := hall index (hlength ▸ hindex)
    rw [List.getElem?_eq_getElem hindex, Option.some.injEq] at hfound
    exact hfound ▸ hnonempty
  · have hids : inputs.map PointInput.id = page.points.map UploadPoint.id := by
      refine List.ext_getElem? fun index => ?_
      rw [List.getElem?_map, List.getElem?_map]
      by_cases hindex : index < page.points.length
      · obtain ⟨text, hfound, -⟩ := hall index hindex
        rw [hfound, List.getElem?_eq_getElem hindex]
        rfl
      · rw [List.getElem?_eq_none (Nat.not_lt.mp (hlength ▸ hindex)),
          List.getElem?_eq_none (Nat.not_lt.mp hindex)]
        rfl
    exact hids ▸ hstageable.distinct

/-- Undisturbed, a bounded and stageable page is measured without failure. -/
theorem measurePage_ok (hframed : Framed encodedLen) (hquiet : Undisturbed env)
    (hbounded : Bounded prepared page) (hstageable : Stageable prepared page) {error : Bytes} :
    measurePage encodedLen pending prepared env page ≠ .error error := by
  obtain ⟨inputs, hinputs, htexts, hdistinct⟩ := hstageable.inputs
  have hpositive := List.length_pos_iff.mpr hbounded.nonempty
  have hnonempty : inputs ≠ [] :=
    List.ne_nil_of_length_pos (pageInputs_length hinputs ▸ hpositive)
  have hsize := pageSize_pageBytes hpositive hbounded.count hstageable.evidence 0
  have hfits := hbounded.pageSize.2 _ hsize
  intro hmeasure
  simp only [measurePage, check, checkWith_ok hquiet, hinputs, ok_bind] at hmeasure
  rcases bind_eq_error.mp hmeasure with hfailed | ⟨large, hlarge, hmeasure⟩
  · simp only [oversized, hsize, if_neg (Nat.not_lt.mpr hfits)] at hfailed
    split at hfailed
    · cases hfailed
    · cases hfailed
    · rename_i hother hwire
      exact hother (batchRequestBytes_quiet (hquiet.within 1)
        (collection_named pending.generation).1 hnonempty htexts hdistinct hwire)
  cases large with
  | true =>
      simp only [if_true, bind_eq_error, refuse_eq_error] at hmeasure
      rcases hmeasure with ⟨hsingle, -⟩ | ⟨_, _, hdone⟩
      · exact not_oversized_single hframed hbounded hsingle hinputs hlarge
      · cases hdone
  | false =>
      obtain ⟨-, request, -, -, hwire, hrequest⟩ := oversized_eq_ok hlarge
      have hword : ¬ 2 ^ 64 ≤ request :=
        Nat.not_le.mpr (Nat.lt_of_le_of_lt hrequest (by decide))
      simp only [Bool.false_eq_true, if_false, recordedSize, hwire] at hmeasure
      rw [show (Except.ok request : Except BackendError Nat).mapError
        (fun error => ascii error.code) = .ok request from rfl, ok_bind, refuse_of_not hword,
        ok_bind] at hmeasure
      cases hmeasure

end Measured

/-! ## Whole pages -/

section Whole

variable {ω : Type} {encodedLen : UpsertPoints → Nat}
  {stagePage : ω → UploadPage → ω × Except PublicationError Unit} {env : Env}
  {pending : PendingGeneration} {prepared : PreparedUtf8} {writer : ω} {page : UploadPage}

/-- Before each visit the pages handed over and the pages on the stack are the
points of the whole page in order; the writer acknowledged the former. -/
structure HandedOver (encodedLen : UpsertPoints → Nat)
    (stagePage : ω → UploadPage → ω × Except PublicationError Unit) (pending : PendingGeneration)
    (prepared : PreparedUtf8) (writer : ω) (page : UploadPage) (staged : Staged ω)
    (stack : List UploadPage) : Prop where
  acknowledged : inTurn stagePage writer staged.pages = (staged.writer, .ok ())
  fitting : ∀ part ∈ staged.pages, Fitting encodedLen pending prepared part
  points : pointsIn staged.pages ++ pointsIn stack = page.points
  bounded : ∀ part ∈ stack, Bounded prepared part

/-- What a failed visit leaves: the pages handed over are still the first points,
and all but the last of them are acknowledged. -/
structure Halted (encodedLen : UpsertPoints → Nat)
    (stagePage : ω → UploadPage → ω × Except PublicationError Unit) (env : Env)
    (pending : PendingGeneration) (prepared : PreparedUtf8) (writer : ω) (page : UploadPage)
    (staged : Staged ω) (error : Bytes) : Prop where
  fitting : ∀ part ∈ staged.pages, Fitting encodedLen pending prepared part
  points : pointsIn staged.pages <+: page.points
  code : error ≠ ascii "PUBLICATION_UNIT_TOO_LARGE"
  answer : ∃ answer, inTurn stagePage writer staged.pages = (staged.writer, answer) ∧
    (∀ reason, answer = .error reason → error = ascii reason.code) ∧
    (Undisturbed env → Stageable prepared page → answer ≠ .ok ())

theorem HandedOver.visit (hframed : Framed encodedLen) {staged next : Staged ω}
    {part : UploadPage} {stack left : List UploadPage}
    (hbefore : HandedOver encodedLen stagePage pending prepared writer page staged (part :: stack))
    (hvisit : visitStacked encodedLen stagePage env pending prepared staged part =
      (next, .ok left)) :
    HandedOver encodedLen stagePage pending prepared writer page next (left ++ stack) := by
  obtain ⟨hpart, hstack⟩ := List.forall_mem_cons.mp hbefore.bounded
  have hpoints := hbefore.points
  rw [pointsIn, pointsIn, List.flatMap_cons] at hpoints
  unfold visitStacked at hvisit
  split at hvisit
  · cases hvisit
  · rename_i parts hmeasure
    cases hvisit
    obtain ⟨hlength, first, second, rfl, hfirst, hsecond⟩ := measurePage_split hmeasure
    obtain ⟨hfirstHalf, hsecondHalf, hhalves⟩ := hpart.halves hlength hfirst hsecond
    refine ⟨hbefore.acknowledged, hbefore.fitting, ?_, ?_⟩
    · calc pointsIn staged.pages ++ pointsIn ([first, second] ++ stack)
          = pointsIn staged.pages ++ ((first.points ++ second.points) ++ pointsIn stack) := by
            simp only [pointsIn, List.flatMap_append, List.flatMap_cons, List.flatMap_nil,
              List.append_nil]
        _ = page.points := by
            rw [hhalves]
            exact hpoints
    · exact List.forall_mem_cons.mpr ⟨hfirstHalf, List.forall_mem_cons.mpr ⟨hsecondHalf, hstack⟩⟩
  · rename_i measured hmeasure
    obtain ⟨hsame, hfits⟩ := measurePage_staged hframed hmeasure
    rcases hanswer : stagePage staged.writer measured with ⟨last, error | _⟩
    · rw [hanswer] at hvisit
      cases hvisit
    · rw [hanswer] at hvisit
      cases hvisit
      refine ⟨?_, ?_, ?_, hstack⟩
      · rw [inTurn_concat hbefore.acknowledged, hanswer]
      · exact List.forall_mem_append.mpr ⟨hbefore.fitting, List.forall_mem_singleton.mpr hfits⟩
      · calc pointsIn (staged.pages ++ [measured]) ++ pointsIn ([] ++ stack)
            = pointsIn staged.pages ++ (part.points ++ pointsIn stack) := by
              simp only [pointsIn, List.flatMap_append, List.flatMap_cons, List.flatMap_nil,
                List.append_nil, List.nil_append, List.append_assoc, hsame]
          _ = page.points := hpoints

theorem HandedOver.halt (hframed : Framed encodedLen) {staged next : Staged ω}
    {part : UploadPage} {stack : List UploadPage} {error : Bytes}
    (hbefore : HandedOver encodedLen stagePage pending prepared writer page staged (part :: stack))
    (hvisit : visitStacked encodedLen stagePage env pending prepared staged part =
      (next, .error error)) :
    Halted encodedLen stagePage env pending prepared writer page next error := by
  have hpart := hbefore.bounded part List.mem_cons_self
  have hpoints := hbefore.points
  rw [pointsIn, pointsIn, List.flatMap_cons] at hpoints
  unfold visitStacked at hvisit
  split at hvisit
  · rename_i reason hmeasure
    cases hvisit
    refine ⟨hbefore.fitting, ⟨_, hpoints⟩, measurePage_error hframed hpart hmeasure,
      .ok (), hbefore.acknowledged, by rintro _ ⟨⟩, fun hquiet hstageable => ?_⟩
    have hsublist : part.points.Sublist page.points := by
      rw [← hpoints]
      exact (List.sublist_append_left _ _).trans (List.sublist_append_right _ _)
    exact absurd hmeasure (measurePage_ok hframed (hquiet.within staged.turn) hpart
      (hstageable.sublist hsublist))
  · cases hvisit
  · rename_i measured hmeasure
    obtain ⟨hsame, hfits⟩ := measurePage_staged hframed hmeasure
    rcases hanswer : stagePage staged.writer measured with ⟨last, reason | _⟩
    · rw [hanswer] at hvisit
      cases hvisit
      refine ⟨?_, ⟨pointsIn stack, ?_⟩, PublicationError.code_ne reason, .error reason, ?_, ?_,
        by rintro - - ⟨⟩⟩
      · exact List.forall_mem_append.mpr ⟨hbefore.fitting, List.forall_mem_singleton.mpr hfits⟩
      · calc pointsIn (staged.pages ++ [measured]) ++ pointsIn stack
            = pointsIn staged.pages ++ (part.points ++ pointsIn stack) := by
              simp only [pointsIn, List.flatMap_append, List.flatMap_cons, List.flatMap_nil,
                List.append_nil, List.append_assoc, hsame]
          _ = page.points := hpoints
      · rw [inTurn_concat hbefore.acknowledged, hanswer]
      · rintro found ⟨⟩
        rfl
    · rw [hanswer] at hvisit
      cases hvisit

/-- The loop ends: a split leaves two pages with fewer visits between them. -/
theorem stageCompletePage_isSome (hbounded : Bounded prepared page) :
    (stageCompletePage encodedLen stagePage env pending prepared writer page).isSome = true := by
  refine Worklist.drain_isSome (fun part => 2 * part.points.length - 1)
    (fun part => 0 < part.points.length) ?_ ?_ ?_ ?_
  · intro part hpart
    omega
  · intro staged part next left hpart hvisit
    unfold visitStacked at hvisit
    split at hvisit
    · cases hvisit
    · rename_i parts hmeasure
      cases hvisit
      obtain ⟨hlength, first, second, rfl, hfirst, hsecond⟩ := measurePage_split hmeasure
      have hbefore : first.points.length = part.points.length / 2 := by
        rw [hfirst, List.length_take]
        omega
      have hafter : second.points.length = part.points.length - part.points.length / 2 := by
        rw [hsecond, List.length_drop]
      constructor
      · refine List.forall_mem_cons.mpr ⟨?_, List.forall_mem_singleton.mpr ?_⟩
        · omega
        · omega
      · simp only [List.map_cons, List.map_nil, List.sum_cons, List.sum_nil]
        omega
    · rename_i measured _
      rcases hanswer : stagePage staged.writer measured with ⟨last, error | _⟩
      · rw [hanswer] at hvisit
        cases hvisit
      · rw [hanswer] at hvisit
        cases hvisit
        constructor
        · exact nofun
        · simp only [List.map_nil, List.sum_nil]
          omega
  · exact List.forall_mem_singleton.mpr (List.length_pos_iff.mpr hbounded.nonempty)
  · simp only [List.map_cons, List.map_nil, List.sum_cons, List.sum_nil]
    omega

/-- A page that fits is the only one handed over, with its request size. -/
theorem stageCompletePage_whole {request : UInt64} {staged : Staged ω} {result : Except Bytes Unit}
    (hfits : Fitting encodedLen pending prepared { page with requestBytes := some request })
    (hrun : stageCompletePage encodedLen stagePage env pending prepared writer page =
      some (staged, result)) :
    staged.pages <+: [{ page with requestBytes := some request }] := by
  obtain ⟨fuel, hfuel⟩ : ∃ fuel, 2 * page.points.length = fuel + 1 := by
    have hpositive := List.length_pos_iff.mpr hfits.nonempty
    exact ⟨2 * page.points.length - 1, (Nat.sub_add_cancel (by
      change 0 < page.points.length at hpositive
      omega)).symm⟩
  rw [stageCompletePage, hfuel, Worklist.drain] at hrun
  rcases hvisit : visitStacked encodedLen stagePage env pending prepared ⟨writer, [], 0⟩ page with
    ⟨next, error | left⟩
  · rw [hvisit] at hrun
    cases hrun
    unfold visitStacked at hvisit
    split at hvisit
    · cases hvisit
      exact List.nil_prefix
    · cases hvisit
    · rename_i measured hmeasure
      obtain rfl := Sum.inr.inj (measurePage_whole hfits hmeasure)
      obtain rfl := (Prod.mk.inj hvisit).1
      exact List.prefix_rfl
  · rw [hvisit] at hrun
    unfold visitStacked at hvisit
    split at hvisit
    · cases hvisit
    · rename_i parts hmeasure
      cases measurePage_whole hfits hmeasure
    · rename_i measured hmeasure
      obtain rfl := Sum.inr.inj (measurePage_whole hfits hmeasure)
      rcases hanswer : stagePage writer { page with requestBytes := some request } with
        ⟨last, reason | _⟩
      · rw [hanswer] at hvisit
        cases hvisit
      · rw [hanswer] at hvisit
        cases hvisit
        change Worklist.drain _ fuel _ [] = _ at hrun
        rw [Worklist.drain_nil] at hrun
        cases hrun
        exact List.prefix_rfl

/-- Staging a bounded page ends.  The pages handed to the writer fit and are the
points of the page in order, all of them on success; a page that fits is handed
over whole, and no unit is too large.  Undisturbed, only the writer can refuse. -/
theorem stageCompletePage_exact {ω : Type} {encodedLen : UpsertPoints → Nat}
    (hframed : Framed encodedLen)
    (stagePage : ω → UploadPage → ω × Except PublicationError Unit) (env : Env)
    (pending : PendingGeneration) (prepared : PreparedUtf8) (writer : ω) (page : UploadPage)
    (hbounded : Bounded prepared page) :
    ∃ staged result answer,
      stageCompletePage encodedLen stagePage env pending prepared writer page =
        some (staged, result) ∧
      inTurn stagePage writer staged.pages = (staged.writer, answer) ∧
      (∀ part ∈ staged.pages, Fitting encodedLen pending prepared part) ∧
      pointsIn staged.pages <+: page.points ∧
      (result = .ok () → answer = .ok () ∧ pointsIn staged.pages = page.points) ∧
      (∀ request, Fitting encodedLen pending prepared { page with requestBytes := some request } →
        staged.pages <+: [{ page with requestBytes := some request }]) ∧
      result ≠ .error (ascii "PUBLICATION_UNIT_TOO_LARGE") ∧
      (Undisturbed env → Stageable prepared page →
        result = answer.mapError fun error => ascii error.code) := by
  have hends : (stageCompletePage encodedLen stagePage env pending prepared writer page).isSome =
      true := stageCompletePage_isSome hbounded
  obtain ⟨⟨staged, result⟩, hrun⟩ := Option.isSome_iff_exists.mp hends
  have hstart :
      HandedOver encodedLen stagePage pending prepared writer page ⟨writer, [], 0⟩ [page] :=
    ⟨rfl, nofun, List.append_nil _, List.forall_mem_singleton.mpr hbounded⟩
  obtain ⟨hdone, hhalted⟩ := Worklist.drain_spec
    (HandedOver encodedLen stagePage pending prepared writer page)
    (Halted encodedLen stagePage env pending prepared writer page)
    (fun _ _ _ _ _ hbefore hvisit => hbefore.visit hframed hvisit)
    (fun _ _ _ _ _ hbefore hvisit => hbefore.halt hframed hvisit) hstart hrun
  have hwhole : ∀ request,
      Fitting encodedLen pending prepared { page with requestBytes := some request } →
      staged.pages <+: [{ page with requestBytes := some request }] :=
    fun request hfits => stageCompletePage_whole hfits hrun
  cases result with
  | ok =>
      have hall := hdone rfl
      have hpoints : pointsIn staged.pages = page.points :=
        (List.append_nil _).symm.trans hall.points
      refine ⟨staged, .ok (), .ok (), hrun, hall.acknowledged, hall.fitting, ?_, ?_, hwhole, nofun,
        ?_⟩
      · rw [hpoints]
      · exact fun _ => ⟨rfl, hpoints⟩
      · exact fun _ _ => rfl
  | error error =>
      have hhalt := hhalted error rfl
      obtain ⟨answer, hanswer, hrefused, hquiet⟩ := hhalt.answer
      refine ⟨staged, .error error, answer, hrun, hanswer, hhalt.fitting, hhalt.points, nofun,
        hwhole, ?_, ?_⟩
      · exact fun hcode => hhalt.code (Except.error.inj hcode)
      · intro hundisturbed hstageable
        cases answer with
        | ok => exact absurd rfl (hquiet hundisturbed hstageable)
        | error reason => exact congrArg Except.error (hrefused reason rfl)

end Whole

/-! ## Protobuf lengths -/

namespace Sample

/-- The length of a varint: seven bits a byte, ten bytes at most. -/
def varintLen : (bytes : Nat) → Nat → Nat
  | 0, _ => 1
  | bytes + 1, value => if value < 128 then 1 else 1 + varintLen bytes (value / 128)

/-- The length of a field that holds a string or a message, under a tag of one byte. -/
def fieldLen (length : Nat) : Nat := 1 + varintLen 9 length + length

def entryLen (entry : Bytes × Bytes) : Nat :=
  fieldLen entry.1.length + fieldLen (fieldLen entry.2.length)

def pointLen (point : PointStruct) : Nat :=
  fieldLen (fieldLen point.id.length) +
    (point.payload.map fun entry => fieldLen (entryLen entry)).sum + fieldLen (fieldLen 0)

/-- The encoded length of a request. -/
def requestLen (request : UpsertPoints) : Nat :=
  fieldLen request.collectionName.length + (if request.wait.isSome then 2 else 0) +
    (request.points.map fun point => fieldLen (pointLen point)).sum +
    (if request.updateMode.isSome then 2 else 0)

theorem varintLen_le (bytes value : Nat) : varintLen bytes value ≤ bytes + 1 := by
  induction bytes generalizing value with
  | zero => exact Nat.le_refl 1
  | succ bytes ih =>
      rw [varintLen]
      split
      · omega
      · have hrest := ih (value / 128)
        omega

theorem fieldLen_bounds (length : Nat) :
    length ≤ fieldLen length ∧ fieldLen length ≤ length + 11 := by
  have hvarint := varintLen_le 9 length
  rw [fieldLen]
  omega

theorem payloadLen_bounds (payload : List (Bytes × Bytes)) :
    (payload.map fun entry => entry.1.length + entry.2.length).sum ≤
        (payload.map fun entry => fieldLen (entryLen entry)).sum ∧
      (payload.map fun entry => fieldLen (entryLen entry)).sum ≤
        (payload.map fun entry => entry.1.length + entry.2.length).sum + 44 * payload.length := by
  induction payload with
  | nil => exact ⟨Nat.le_refl 0, Nat.le_refl 0⟩
  | cons entry payload ih =>
      have hkey := fieldLen_bounds entry.1.length
      have hvalue := fieldLen_bounds entry.2.length
      have hmessage := fieldLen_bounds (fieldLen entry.2.length)
      have hentry := fieldLen_bounds (entryLen entry)
      simp only [List.map_cons, List.sum_cons, List.length_cons]
      rw [entryLen] at hentry ⊢
      omega

theorem pointsLen_bounds (points : List PointStruct) :
    (points.map fun point => point.id.length +
        (point.payload.map fun entry => entry.1.length + entry.2.length).sum).sum ≤
        (points.map fun point => fieldLen (pointLen point)).sum ∧
      (points.map fun point => fieldLen (pointLen point)).sum ≤
        (points.map fun point => point.id.length +
          (point.payload.map fun entry => entry.1.length + entry.2.length).sum).sum +
        64 * (points.map fun point => 1 + point.payload.length).sum := by
  induction points with
  | nil => exact ⟨Nat.le_refl 0, Nat.le_refl 0⟩
  | cons point points ih =>
      have hid := fieldLen_bounds point.id.length
      have hmessage := fieldLen_bounds (fieldLen point.id.length)
      have hpayload := payloadLen_bounds point.payload
      have hvectors := fieldLen_bounds (fieldLen 0)
      have hempty := fieldLen_bounds 0
      have hpoint := fieldLen_bounds (pointLen point)
      simp only [List.map_cons, List.sum_cons]
      rw [pointLen] at hpoint ⊢
      omega

theorem requestLen_framed : Framed requestLen := by
  constructor
  · intro request
    have hname := fieldLen_bounds request.collectionName.length
    have hpoints := pointsLen_bounds request.points
    rw [UpsertPoints.strings, requestLen]
    omega
  · intro request
    have hname := fieldLen_bounds request.collectionName.length
    have hpoints := pointsLen_bounds request.points
    rw [UpsertPoints.strings, UpsertPoints.messages, requestLen]
    split <;> split <;> omega

/-! ## A page of two units -/

def prepared : PreparedUtf8 where
  text := ⟨ascii "ab\nc\n", by decide⟩
  units := [⟨0, 3, 0, 1, true, true⟩, ⟨3, 5, 1, 2, true, true⟩]

def page : UploadPage := ⟨Control.Sample.unitPoints, none⟩

def texts : List Text := [⟨ascii "ab\n", by decide⟩, ⟨ascii "c\n", by decide⟩]

theorem page_resolves : ∀ point ∈ page.points,
    ∃ text ∈ texts, unitText prepared point.evidence = .ok text := by
  decide

theorem texts_bounds : ∀ text ∈ texts, text.bytes ≠ [] ∧ text.bytes.length ≤ maxPointTextBytes := by
  decide

/-- A writer that keeps every page. -/
def keep (pages : List UploadPage) (page : UploadPage) :
    List UploadPage × Except PublicationError Unit :=
  (pages ++ [page], .ok ())

end Sample

theorem stageCompletePage_exact_sample :
    ∃ staged result answer,
      stageCompletePage Sample.requestLen Sample.keep Env.quiet Control.Sample.reserved
        Sample.prepared [] Sample.page = some (staged, result) ∧
      inTurn Sample.keep [] staged.pages = (staged.writer, answer) ∧
      pointsIn staged.pages <+: Sample.page.points ∧
      result = answer.mapError fun error => ascii error.code := by
  have hbounded : Bounded Sample.prepared Sample.page := by
    refine ⟨by decide, by decide, fun point hmem text htext => ?_⟩
    obtain ⟨found, hfound, hresolved⟩ := Sample.page_resolves point hmem
    obtain rfl := Except.ok.inj (hresolved.symm.trans htext)
    exact (Sample.texts_bounds found hfound).2
  have hstageable : Stageable Sample.prepared Sample.page := by
    refine ⟨by decide, fun point hmem => ?_, by decide⟩
    obtain ⟨found, hfound, hresolved⟩ := Sample.page_resolves point hmem
    exact ⟨found, hresolved, (Sample.texts_bounds found hfound).1⟩
  obtain ⟨staged, result, answer, hrun, hanswer, -, hpoints, -, -, -, hquiet⟩ :=
    stageCompletePage_exact Sample.requestLen_framed Sample.keep Env.quiet Control.Sample.reserved
      Sample.prepared [] Sample.page hbounded
  exact ⟨staged, result, answer, hrun, hanswer, hpoints, hquiet (fun _ => rfl) hstageable⟩

end EliotSearch.Corpus
