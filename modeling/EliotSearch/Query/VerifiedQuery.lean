import EliotSearch.Library.Slices
import EliotSearch.Library.Slots
import EliotSearch.Query.DecodedExact
import EliotSearch.Query.OneShot

/-!
# Verified queries

Ranked nominations of the backend, resolved in one pinned generation.  The hits on
one captured source share one decode of its saved representation, and each keeps its
own rank.
-/

namespace EliotSearch.Query

open EliotSearch.Control
open EliotSearch.Library
open EliotSearch.Library.Hex
open EliotSearch.Library.Indexing
open EliotSearch.Library.Json
open EliotSearch.Library.Results
open EliotSearch.Library.Utf8
open EliotSearch.Library.Words
open EliotSearch.Preparation (PreparedUtf8 decodePreparedUtf8)
open EliotSearch.Session

/-! ## Nominations -/

/-- What the server says of one point, its identities decoded. -/
structure ScoredPoint where
  id : Option (Octets 16)
  sourceId : Option SourceId
  score : Score
  -- neither vectors nor another payload field
  bare : Bool

/-- A server nomination, not a retained excerpt or proof of source content. -/
structure Hit where
  id : Octets 16
  sourceId : SourceId
  score : Score
  deriving DecidableEq

/-- The server behind its connection. -/
structure Backend where
  connect : Except QueryFailure Unit
  verifySchema : (collection : Bytes) → Except QueryFailure Unit
  query : (collection : Bytes) → Text → UInt8 → Except QueryFailure (List ScoredPoint)

namespace Backend

def malformed : QueryFailure := .code (ascii "BACKEND_RESPONSE_MALFORMED")

/-- Accept the nominations one by one. -/
def acceptHits (env : Env) : (hits : List Hit) → List ScoredPoint →
    Except QueryFailure (List Hit)
  | hits, [] => return hits
  | hits, point :: points => do
      check env hits.length
      let id ← okOr point.id malformed
      refuse ((∃ hit ∈ hits, hit.id = id) ∨ ¬ point.score.IsFinite ∨ point.bare = false) malformed
      let sourceId ← okOr point.sourceId malformed
      acceptHits env (hits ++ [⟨id, sourceId, point.score⟩]) points

/-- A name of one of the collections. -/
def CollectionName (name : Bytes) : Prop :=
  name ≠ [] ∧ name.length ≤ 255 ∧ ∀ byte ∈ name, (48 ≤ byte ∧ byte ≤ 57) ∨
    (65 ≤ byte ∧ byte ≤ 90) ∨ (97 ≤ byte ∧ byte ≤ 122) ∨ byte = 95 ∨ byte = 45

instance (name : Bytes) : Decidable (CollectionName name) := inferInstanceAs (Decidable (_ ∧ _))

/-- Ranks using the fixed server query over the entire physical generation. -/
def queryText (backend : Backend) (env : Env) (name : Bytes) (text : Text) (limit : UInt8) :
    Except QueryFailure (List Hit) := do
  check (within env 0) 0
  refuse (¬ CollectionName name) (.code (ascii "BACKEND_INPUT_INVALID"))
  refuse (text.bytes = [] ∨ limit = 0 ∨ limit.toNat > maxItems)
    (.code (ascii "BACKEND_INPUT_INVALID"))
  refuse (text.bytes.length > maxQueryBytes) (.code (ascii "BACKEND_REQUEST_TOO_LARGE"))
  let reply ← backend.query name text limit
  refuse (reply.length > limit.toNat) (.code (ascii "BACKEND_RESPONSE_TOO_LARGE"))
  acceptHits (within env 1) [] reply

end Backend

namespace VerifiedQuery

open EliotSearch.Query.DecodedExact (readRetained preparationFailure limits maxArtifactBytes)

structure RankedPoint where
  rank : UInt8
  hit : Hit
  resolved : ResolvedPoint
  deriving DecidableEq

def internalError : QueryFailure := .code (ascii "QUERY_INTERNAL_ERROR")

def rangeInvalid : QueryFailure := .code (ascii "EVIDENCE_RANGE_INVALID")

def textMismatch : QueryFailure := .code (ascii "EVIDENCE_TEXT_MISMATCH")

def metadata (generation : UInt64) (point : RankedPoint) : EvidenceMetadata :=
  let evidence := point.resolved.evidence
  { generation
    pointId := hex point.hit.id.bytes
    sourceNamespaceId := uuidText evidence.sourceNamespaceId
    sourceId := uuidText evidence.sourceId
    input := objectRef evidence.input
    prepared := objectRef evidence.prepared
    unit := evidence.unit
    start := evidence.start
    stop := evidence.stop
    lineStart := evidence.lineStart
    lineEnd := evidence.lineEnd
    startsAtLineBoundary := evidence.startsAtLineBoundary
    endsAtLineBoundary := evidence.endsAtLineBoundary }

def gap (generation : UInt64) (point : RankedPoint) (code : Bytes) :
    Except QueryFailure SearchItem := do
  let code ← (FailureCode.new code).mapError fun _ => internalError
  return .gap ⟨point.rank, point.hit.score, metadata generation point, code⟩

/-- The captured source and the saved representation of a point. -/
def RankedPoint.binding (point : RankedPoint) : CapturedSource × ObjectRef :=
  (point.resolved.captured, point.resolved.evidence.prepared)

def SameGroup (left right : RankedPoint) : Prop := left.binding = right.binding

instance (left right : RankedPoint) : Decidable (SameGroup left right) :=
  inferInstanceAs (Decidable (_ = _))

/-- The text of the unit that the evidence describes. -/
def verifyUnit (source : Bytes) (prepared : PreparedUtf8) (evidence : PointEvidence) :
    Except QueryFailure Text := do
  let unit ← okOr prepared.units[evidence.unit.toNat]? rangeInvalid
  refuse (unit.sourceStart ≠ evidence.start.toNat ∨ unit.sourceEnd ≠ evidence.stop.toNat ∨
    unit.logicalLineStart ≠ evidence.lineStart.toNat ∨
    unit.logicalLineEnd ≠ evidence.lineEnd.toNat ∨
    unit.startsAtLineBoundary ≠ evidence.startsAtLineBoundary ∨
    unit.endsAtLineBoundary ≠ evidence.endsAtLineBoundary)
    (.code (ascii "EVIDENCE_RANGE_MISMATCH"))
  let text ← okOr (prepared.text.get unit.sourceStart unit.sourceEnd) rangeInvalid
  let original ← okOr (Slices.slice source unit.sourceStart unit.sourceEnd) rangeInvalid
  refuse (original ≠ text.bytes ∨ text.bytes.length > maxUnitTextBytes) textMismatch
  return text

/-- The verified hit at a position. -/
def hitItem (env : Env) (generation : UInt64) (source : Bytes) (prepared : PreparedUtf8)
    (index : Nat) (point : RankedPoint) : Except QueryFailure SearchItem := do
  check env index
  let unitText ← verifyUnit source prepared point.resolved.evidence
  return .hit ⟨point.rank, point.hit.score, metadata generation point, unitText⟩

section Filling

variable (store : Store) (env : Env) (generation : UInt64) (points : List RankedPoint)

/-- Fill the slots of the points in the group with what each of them gives. -/
def fillIndices (item : Nat → RankedPoint → Except QueryFailure SearchItem) :
    List Nat → Slots SearchItem → Except (Abort QueryFailure) (Slots SearchItem) :=
  Slots.fillEach fun index => do
    let point ← readAt points index
    inRange (item index point)

/-- Read and decode the representation of one group once, and fill the slots of all its
points. -/
def fillGroup (first : Nat) (slots : Slots SearchItem) :
    Except (Abort QueryFailure) (Slots SearchItem) := do
  let leader ← readAt points first
  let binding := leader.resolved
  let indices := (List.range points.length).filter fun index =>
    ∃ point ∈ points[index]?, SameGroup leader point
  match ← inRange (readRetained store (within env 0) binding.evidence.input
      maxSourceObjectBytes) with
  | none =>
      fillIndices points (fun _ point => gap generation point (ascii "SOURCE_OBJECT_MISSING"))
        indices slots
  | some source => do
      match ← inRange (readRetained store (within env 1) binding.evidence.prepared
          maxArtifactBytes) with
      | none =>
          fillIndices points
            (fun _ point => gap generation point (ascii "PREPARED_OBJECT_MISSING")) indices slots
      | some artifact => do
          let prepared ← inRange ((decodePreparedUtf8 store.hash (within env 2) artifact
            binding.captured.source binding.captured.preparation.settings limits).mapError
              preparationFailure)
          inRange (refuse (prepared.text.bytes ≠ source) textMismatch)
          fillIndices points (hitItem (within env 3) generation source prepared) indices slots

/-- Take the items in backend order, a group at a time. -/
def hydrateAll : Except (Abort QueryFailure) (List SearchItem × Slots SearchItem) :=
  Slots.takeEach (fun first => fillGroup store (within env first) generation points first)
    internalError (List.range points.length) (Slots.empty points.length)

/-- What is retained for a point. -/
inductive Retained where
  | missing (code : Bytes)
  | saved (source : Bytes) (prepared : PreparedUtf8)

/-- Read and decode the representation of one point. -/
def represent (binding : ResolvedPoint) : Except QueryFailure Retained := do
  match ← readRetained store (within env 0) binding.evidence.input maxSourceObjectBytes with
  | none => return .missing (ascii "SOURCE_OBJECT_MISSING")
  | some source => do
      match ← readRetained store (within env 1) binding.evidence.prepared maxArtifactBytes with
      | none => return .missing (ascii "PREPARED_OBJECT_MISSING")
      | some artifact => do
          let prepared ← (decodePreparedUtf8 store.hash (within env 2) artifact
            binding.captured.source binding.captured.preparation.settings limits).mapError
              preparationFailure
          refuse (prepared.text.bytes ≠ source) textMismatch
          return .saved source prepared

/-- The item of one point from what is retained. -/
def itemOf (index : Nat) (point : RankedPoint) : Retained → Except QueryFailure SearchItem
  | .missing code => gap generation point code
  | .saved source prepared => hitItem (within env 3) generation source prepared index point

/-- Process one hit alone. -/
def hydrate (index : Nat) (point : RankedPoint) : Except QueryFailure SearchItem := do
  let retained ← represent store env point.resolved
  itemOf env generation index point retained

end Filling

/-! ## The query -/

/-- What the backend nominates for a request. -/
def nominate (backend : Backend) (env : Env) (view : PublishedView) (request : SearchRequest) :
    Except QueryFailure (List Hit) := do
  check (within env 0) 0
  request.validate.mapError fun error => .code error.code
  backend.connect
  let collection := view.generation.collection
  backend.verifySchema collection
  backend.queryText (within env 1) collection request.query request.limit

/-- Resolve the nominations behind the given number of others. -/
def resolveHits (env : Env) (view : PublishedView) : (index : Nat) → List Hit →
    Except QueryFailure (List RankedPoint)
  | _, [] => return []
  | index, hit :: hits => do
      check env index
      let resolved ← (view.resolvePoint hit.id).mapError publicationFailure
      refuse (hit.sourceId ≠ resolved.evidence.sourceId ∨ ¬ hit.score.IsFinite)
        (.code (ascii "QUERY_POINT_ROUTE_MISMATCH"))
      refuse (index + 1 ≥ 2 ^ 8) (.code (ascii "QUERY_LIMIT"))
      let points ← resolveHits env view (index + 1) hits
      return ⟨UInt8.ofNat (index + 1), hit, resolved⟩ :: points

/-- Answer a query from the retained objects of the pinned generation. -/
def execute (store : Store) (backend : Backend) (env : Env) (view : PublishedView)
    (request : SearchRequest) : Except (Abort QueryFailure) (List SearchItem) := do
  let hits ← inRange (nominate backend (within env 0) view request)
  let points ← inRange (resolveHits (within env 1) view 0 hits)
  let (items, _) ← hydrateAll store (within env 2) view.generation.sequence points
  inRange (check (within env 3) 0)
  return items

/-! ## Groups and single hits -/

section Groups

variable {store : Store} {env : Env} {generation : UInt64} {points : List RankedPoint}

/-- The points at two positions are in one group. -/
def SameAt (points : List RankedPoint) (left right : Nat) : Prop :=
  points[left]?.map RankedPoint.binding = points[right]?.map RankedPoint.binding

instance (points : List RankedPoint) : DecidableRel (SameAt points) :=
  fun _ _ => inferInstanceAs (Decidable (_ = _))

theorem sameAt_equivalence (points : List RankedPoint) : Equivalence (SameAt points) :=
  ⟨fun _ => rfl, fun hsame => hsame.symm, fun hfirst hsecond => hfirst.trans hsecond⟩

/-- Every point is about the captured input of its source. -/
def Bound (points : List RankedPoint) : Prop :=
  ∀ point ∈ points, point.resolved.evidence.input = point.resolved.captured.source.objectRef

theorem sameGroup_iff {left right : Nat} {first second : RankedPoint}
    (hfirst : points[left]? = some first) (hsecond : points[right]? = some second) :
    SameAt points left right ↔ SameGroup first second := by
  rw [SameAt, hfirst, hsecond, Option.map_some, Option.map_some, Option.some.injEq, SameGroup]

/-- The positions that are filled together. -/
theorem indices_eq {first : Nat} {leader : RankedPoint} (hleader : points[first]? = some leader) :
    ((List.range points.length).filter fun index =>
        decide (∃ point ∈ points[index]?, SameGroup leader point)) =
      Slots.group (SameAt points) points.length first := by
  refine List.filter_congr fun index hindex => ?_
  rw [List.mem_range] at hindex
  have hpoint := List.getElem?_eq_getElem hindex
  rw [decide_eq_decide, sameGroup_iff hleader hpoint, hpoint]
  constructor
  · rintro ⟨point, hmem, hsame⟩
    obtain rfl := Option.some.inj hmem
    exact hsame
  · intro hsame
    exact ⟨_, rfl, hsame⟩

/-- What one position gives: its point alone, read where its group is read. -/
def value (store : Store) (env : Env) (generation : UInt64) (points : List RankedPoint)
    (index : Nat) : Except (Abort QueryFailure) SearchItem := do
  let point ← readAt points index
  inRange (hydrate store (within env (Slots.leader (sameAt_equivalence points) index)) generation
    index point)

/-- The group of a point reads what the point alone would read. -/
theorem represent_of_sameGroup {leader point : RankedPoint}
    (hleader : leader.resolved.evidence.input = leader.resolved.captured.source.objectRef)
    (hpoint : point.resolved.evidence.input = point.resolved.captured.source.objectRef)
    (hsame : SameGroup leader point) :
    represent store env leader.resolved = represent store env point.resolved := by
  obtain ⟨hcaptured, hprepared⟩ := Prod.mk.inj hsame
  rw [represent, represent, hleader, hpoint, hcaptured, hprepared]

/-- A group is read once, and its slots are filled from that. -/
theorem fillGroup_represent {first : Nat} {leader : RankedPoint}
    (hleader : points[first]? = some leader) (slots : Slots SearchItem) :
    fillGroup store env generation points first slots = (do
      let retained ← inRange (represent store env leader.resolved)
      fillIndices points (fun index point => itemOf env generation index point retained)
        (Slots.group (SameAt points) points.length first) slots) := by
  rw [fillGroup, represent, readAt_ok hleader, ok_bind]
  dsimp only
  rw [indices_eq hleader]
  cases readRetained store (within env 0) leader.resolved.evidence.input maxSourceObjectBytes with
  | error reason => rfl
  | ok source =>
      cases source with
      | none => rfl
      | some source =>
          rw [inRange_ok, ok_bind, ok_bind]
          dsimp only
          cases readRetained store (within env 1) leader.resolved.evidence.prepared
              maxArtifactBytes with
          | error reason => rfl
          | ok artifact =>
              cases artifact with
              | none => rfl
              | some artifact =>
                  rw [inRange_ok, ok_bind, ok_bind]
                  dsimp only
                  cases decodePreparedUtf8 store.hash (within env 2) artifact
                      leader.resolved.captured.source
                      leader.resolved.captured.preparation.settings limits with
                  | error reason => rfl
                  | ok prepared =>
                      by_cases htext : prepared.text.bytes ≠ source
                      · simp [Except.mapError, refuse_of htext]
                      · simp [Except.mapError, refuse_of_not htext, itemOf]

/-- Filling a group fills the slot of each of its points with what that point alone
gives. -/
theorem fillGroup_eq (store : Store) (env : Env) (generation : UInt64) (hbound : Bound points)
    {first : Nat} (hfirst : first < points.length)
    (hleads : Slots.Leads (SameAt points) first) (slots : Slots SearchItem) :
    fillGroup store (within env first) generation points first slots =
      Slots.fillEach (value store env generation points)
        (Slots.group (SameAt points) points.length first) slots := by
  have hleader := List.getElem?_eq_getElem hfirst
  generalize points[first] = leader at hleader
  have hnonempty : Slots.group (SameAt points) points.length first ≠ [] :=
    List.ne_nil_of_mem (Slots.mem_group.mpr ⟨hfirst, (sameAt_equivalence points).refl first⟩)
  have hmembers : ∀ index ∈ Slots.group (SameAt points) points.length first,
      value store env generation points index = (do
        let retained ← inRange (represent store (within env first) leader.resolved)
        let point ← readAt points index
        inRange (itemOf (within env first) generation index point retained)) := by
    intro index hindex
    obtain ⟨hbelow, hsame⟩ := Slots.mem_group.mp hindex
    have hpoint := List.getElem?_eq_getElem hbelow
    generalize points[index] = point at hpoint
    rw [value, readAt_ok hpoint, ok_bind, Slots.leader_eq _ hleads hsame, hydrate,
      ← represent_of_sameGroup (hbound leader (List.mem_of_getElem? hleader))
        (hbound point (List.mem_of_getElem? hpoint)) ((sameGroup_iff hleader hpoint).mp hsame)]
    cases represent store (within env first) leader.resolved with
    | error reason => rfl
    | ok retained => rfl
  rw [fillGroup_represent hleader, Slots.fillEach_congr hmembers,
    Slots.fillEach_bind (fun retained index => do
      let point ← readAt points index
      inRange (itemOf (within env first) generation index point retained)) hnonempty]
  rfl

/-- The loop fails as the first point in the order of filling does that fails, and
otherwise gives the items of all the points, each filled once. -/
theorem hydrateAll_spec (store : Store) (env : Env) (generation : UInt64)
    (hbound : Bound points) :
    (∃ reason, (Slots.fillOrder (SameAt points) points.length).mapM
          (value store env generation points) = .error reason ∧
        hydrateAll store env generation points = .error reason) ∨
      (∃ all items slots, (Slots.fillOrder (SameAt points) points.length).mapM
          (value store env generation points) = .ok all ∧
        (List.range points.length).mapM (value store env generation points) = .ok items ∧
        hydrateAll store env generation points = .ok (items, slots) ∧
        slots.fills = Slots.fillOrder (SameAt points) points.length) := by
  rcases Slots.takeEach_spec internalError (sameAt_equivalence points)
    (fun first hfirst slots _ hleads =>
      fillGroup_eq store env generation hbound hfirst hleads slots) with
    ⟨reason, hvalues, hloop⟩ | ⟨all, items, slots, hall, hitems, hloop, hfills⟩
  · exact Or.inl ⟨reason, hvalues, hloop⟩
  · exact Or.inr ⟨all, items, slots, hall, hitems, hloop, hfills⟩

end Groups

/-! ## What one hit gives -/

/-- What a hit gives, by what the store holds of its source. -/
inductive Hydrated (store : Store) (generation : UInt64) (point : RankedPoint) :
    SearchItem → Prop where
  | sourceMissing (hlacks : store.Lacks point.resolved.evidence.input) :
      Hydrated store generation point
        (.gap ⟨point.rank, point.hit.score, metadata generation point, sourceMissing⟩)
  | preparedMissing (source : Bytes) (hholds : store.Holds point.resolved.evidence.input source)
      (hlacks : store.Lacks point.resolved.evidence.prepared) :
      Hydrated store generation point
        (.gap ⟨point.rank, point.hit.score, metadata generation point,
          DecodedExact.preparedMissing⟩)
  | verified (source : Bytes) (unitText : Text)
      (hholds : store.Holds point.resolved.evidence.input source)
      (hslice : Slices.slice source point.resolved.evidence.start.toNat
        point.resolved.evidence.stop.toNat = some unitText.bytes) :
      Hydrated store generation point
        (.hit ⟨point.rank, point.hit.score, metadata generation point, unitText⟩)

section Single

variable {store : Store} {env : Env} {generation : UInt64} {index : Nat} {point : RankedPoint}

theorem gap_ok (code : FailureCode) :
    gap generation point code.text =
      .ok (.gap ⟨point.rank, point.hit.score, metadata generation point, code⟩) := by
  rw [gap, FailureCode.new, dif_pos code.valid]
  rfl

theorem verifyUnit_eq_ok {source : Bytes} {prepared : PreparedUtf8} {evidence : PointEvidence}
    {text : Text} (hverify : verifyUnit source prepared evidence = .ok text) :
    Slices.slice source evidence.start.toNat evidence.stop.toNat = some text.bytes := by
  simp only [verifyUnit, bind_eq_ok, okOr_eq_ok, refuse_eq_ok, not_or, not_not, pure_eq_ok,
    Except.ok.injEq] at hverify
  obtain ⟨unit, -, _, ⟨hstart, hstop, -⟩, text, -, original, hslice, _, ⟨horiginal, -⟩, rfl⟩ :=
    hverify
  rw [← hstart, ← hstop, hslice, horiginal]

/-- A hit that is processed gives its source text or names its missing object. -/
theorem hydrate_eq_ok {item : SearchItem}
    (hhydrate : hydrate store env generation index point = .ok item) :
    Hydrated store generation point item := by
  obtain ⟨retained, hretained, hitem⟩ := bind_eq_ok.mp hhydrate
  obtain ⟨source, hsource, hretained⟩ := bind_eq_ok.mp hretained
  have hinput := DecodedExact.readRetained_eq_ok hsource
  cases source with
  | none =>
      obtain rfl := Except.ok.inj hretained
      obtain rfl := Except.ok.inj (hitem.symm.trans (gap_ok sourceMissing))
      exact .sourceMissing hinput
  | some source =>
      obtain ⟨artifact, hartifact, hretained⟩ := bind_eq_ok.mp hretained
      have hprepared := DecodedExact.readRetained_eq_ok hartifact
      cases artifact with
      | none =>
          obtain rfl := Except.ok.inj hretained
          obtain rfl := Except.ok.inj (hitem.symm.trans (gap_ok DecodedExact.preparedMissing))
          exact .preparedMissing source hinput hprepared
      | some artifact =>
          simp only [bind_eq_ok, pure_eq_ok, Except.ok.injEq] at hretained
          obtain ⟨prepared, -, _, -, rfl⟩ := hretained
          simp only [itemOf, hitItem, bind_eq_ok, pure_eq_ok, Except.ok.injEq] at hitem
          obtain ⟨_, -, text, htext, rfl⟩ := hitem
          exact .verified source text hinput (verifyUnit_eq_ok htext)

theorem check_ne_internal (site : Nat) : check env site ≠ .error internalError := by
  intro hcheck
  rcases checkWith_eq_error hcheck with hother | hother
  · cases hother
  · cases hother

theorem readRetained_ne_internal {reference : ObjectRef} {maximum : UInt64} :
    readRetained store env reference maximum ≠ .error internalError := by
  unfold readRetained
  split
  · rintro ⟨⟩
  · rintro ⟨⟩
  · rename_i error _ _
    intro hfailed
    have hcode := Except.error.inj hfailed
    revert hcode
    cases error <;> decide

theorem preparationFailure_ne_internal (error : Preparation.PreparationError) :
    preparationFailure error ≠ internalError := by
  cases error <;> decide

theorem verifyUnit_ne_internal {source : Bytes} {prepared : PreparedUtf8}
    {evidence : PointEvidence} : verifyUnit source prepared evidence ≠ .error internalError := by
  have hrange : rangeInvalid ≠ internalError := by decide
  have hmismatch : QueryFailure.code (ascii "EVIDENCE_RANGE_MISMATCH") ≠ internalError := by decide
  have htext : textMismatch ≠ internalError := by decide
  simp [verifyUnit, bind_eq_error, hrange, hmismatch, htext]

/-- No hit alone ends in an internal error. -/
theorem hydrate_ne_internal : hydrate store env generation index point ≠ .error internalError := by
  have htext : textMismatch ≠ internalError := by decide
  intro hfailed
  rcases bind_eq_error.mp hfailed with hretained | ⟨retained, hretained, hitem⟩
  · rcases bind_eq_error.mp hretained with hsource | ⟨source, -, hretained⟩
    · exact readRetained_ne_internal hsource
    · cases source with
      | none => cases hretained
      | some source =>
          rcases bind_eq_error.mp hretained with hartifact | ⟨artifact, -, hretained⟩
          · exact readRetained_ne_internal hartifact
          · cases artifact with
            | none => cases hretained
            | some artifact =>
                simp only [bind_eq_error, mapError_eq_error, refuse_eq_error, htext, and_false,
                  pure_eq_ok, reduceCtorEq, exists_false, or_false] at hretained
                obtain ⟨error, -, herror⟩ := hretained
                exact preparationFailure_ne_internal error herror
  · obtain ⟨source, -, hretained⟩ := bind_eq_ok.mp hretained
    cases source with
    | none =>
        obtain rfl := Except.ok.inj hretained
        cases hitem.symm.trans (gap_ok sourceMissing)
    | some source =>
        obtain ⟨artifact, -, hretained⟩ := bind_eq_ok.mp hretained
        cases artifact with
        | none =>
            obtain rfl := Except.ok.inj hretained
            cases hitem.symm.trans (gap_ok DecodedExact.preparedMissing)
        | some artifact =>
            simp only [bind_eq_ok, pure_eq_ok, Except.ok.injEq] at hretained
            obtain ⟨prepared, -, _, -, rfl⟩ := hretained
            rcases bind_eq_error.mp hitem with hcheck | ⟨_, -, hitem⟩
            · exact check_ne_internal _ hcheck
            · rcases bind_eq_error.mp hitem with hverify | ⟨text, -, hitem⟩
              · exact verifyUnit_ne_internal hverify
              · cases hitem

end Single

/-! ## Nominated hits -/

section Nominated

variable {env : Env} {view : PublishedView}

theorem acceptHits_eq_ok {seen hits : List Hit} {points : List ScoredPoint}
    (haccept : Backend.acceptHits env seen points = .ok hits)
    (hseen : ∀ hit ∈ seen, hit.score.IsFinite) :
    hits.length = seen.length + points.length ∧ ∀ hit ∈ hits, hit.score.IsFinite := by
  induction points generalizing seen with
  | nil =>
      obtain rfl := Except.ok.inj haccept
      exact ⟨rfl, hseen⟩
  | cons point points ih =>
      simp only [Backend.acceptHits, bind_eq_ok, refuse_eq_ok, not_or, not_not] at haccept
      obtain ⟨_, -, id, -, _, ⟨-, hfinite, -⟩, sourceId, -, hrest⟩ := haccept
      obtain ⟨hlength, hall⟩ := ih hrest fun hit hmem => by
        rcases List.mem_append.mp hmem with hmem | hmem
        · exact hseen hit hmem
        · obtain rfl := List.mem_singleton.mp hmem
          exact hfinite
      refine ⟨?_, hall⟩
      rw [hlength, List.length_append, List.length_singleton, List.length_cons]
      omega

/-- At most as many hits are nominated as were asked for, and with finite scores. -/
theorem nominate_eq_ok {backend : Backend} {request : SearchRequest} {hits : List Hit}
    (hnominate : nominate backend env view request = .ok hits) :
    hits.length ≤ maxItems ∧ ∀ hit ∈ hits, hit.score.IsFinite := by
  simp only [nominate, Backend.queryText, bind_eq_ok, refuse_eq_ok, not_or, not_lt] at hnominate
  obtain ⟨_, -, _, -, _, -, _, -, _, -, _, -, _, ⟨-, -, hlimit⟩, _, -, reply, -, _, hreply,
    haccept⟩ := hnominate
  obtain ⟨hlength, hfinite⟩ := acceptHits_eq_ok haccept fun hit hmem => absurd hmem List.not_mem_nil
  refine ⟨?_, hfinite⟩
  rw [hlength, List.length_nil, Nat.zero_add]
  exact hreply.trans hlimit

/-- The hit is a point of the pinned generation and is routed to its source. -/
def Resolves (view : PublishedView) (hit : Hit) (resolved : ResolvedPoint) : Prop :=
  view.resolvePoint hit.id = .ok resolved ∧ hit.sourceId = resolved.evidence.sourceId

theorem resolvePoint_input {id : Octets 16} {resolved : ResolvedPoint}
    (hresolve : view.resolvePoint id = .ok resolved) :
    resolved.evidence.input = resolved.captured.source.objectRef := by
  simp only [PublishedView.resolvePoint, bind_eq_ok, refuse_eq_ok, not_or, not_not, pure_eq_ok,
    Except.ok.injEq] at hresolve
  obtain ⟨_, -, _, -, _, -, evidence, -, _, -, _, -, entry, -, _, ⟨-, -, -, -, hinput, -⟩, rfl⟩ :=
    hresolve
  exact hinput

/-- The points of the hits, ranked behind the given number of others. -/
structure Ranked (view : PublishedView) (behind : Nat) (hits : List Hit)
    (points : List RankedPoint) : Prop where
  length : points.length = hits.length
  each : ∀ (index : Nat) (hit : Hit), hits[index]? = some hit →
    ∃ resolved, Resolves view hit resolved ∧
      points[index]? = some ⟨UInt8.ofNat (behind + index + 1), hit, resolved⟩

theorem resolveHits_eq_ok {behind : Nat} {hits : List Hit} {points : List RankedPoint}
    (hresolve : resolveHits env view behind hits = .ok points) :
    Ranked view behind hits points := by
  induction hits generalizing behind points with
  | nil =>
      obtain rfl := Except.ok.inj hresolve
      exact ⟨rfl, fun _ _ hhit => nomatch hhit⟩
  | cons hit hits ih =>
      simp only [resolveHits, bind_eq_ok, mapError_eq_ok, refuse_eq_ok, not_or, not_not, pure_eq_ok,
        Except.ok.injEq] at hresolve
      obtain ⟨_, -, resolved, hresolved, _, ⟨hroute, -⟩, _, -, points, hrest, rfl⟩ := hresolve
      have hranked := ih hrest
      constructor
      · exact congrArg Nat.succ hranked.length
      · intro index other hother
        cases index with
        | zero =>
            obtain rfl := Option.some.inj hother
            exact ⟨resolved, ⟨hresolved, hroute⟩, rfl⟩
        | succ index =>
            obtain ⟨found, hfound, hpoint⟩ := hranked.each index other hother
            refine ⟨found, hfound, ?_⟩
            rw [List.getElem?_cons_succ, hpoint, Nat.add_right_comm behind 1 index,
              Nat.add_assoc behind index 1]

/-- Hits that resolve are refused only by the surroundings. -/
theorem resolveHits_eq_error {behind : Nat} {hits : List Hit} {reason : QueryFailure}
    (hfinite : ∀ hit ∈ hits, hit.score.IsFinite)
    (hresolves : ∀ hit ∈ hits, ∃ resolved, Resolves view hit resolved)
    (hlength : behind + hits.length < 2 ^ 8)
    (hrefused : resolveHits env view behind hits = .error reason) :
    ∃ site, check env site = .error reason := by
  induction hits generalizing behind with
  | nil => cases hrefused
  | cons hit hits ih =>
      rw [List.length_cons] at hlength
      obtain ⟨resolved, hresolved, hroute⟩ := hresolves hit List.mem_cons_self
      have hrouted : ¬ (hit.sourceId ≠ resolved.evidence.sourceId ∨ ¬ hit.score.IsFinite) := by
        rintro (hother | hother)
        · exact hother hroute
        · exact hother (hfinite hit List.mem_cons_self)
      rw [resolveHits] at hrefused
      rcases bind_eq_error.mp hrefused with hcheck | ⟨_, -, hrefused⟩
      · exact ⟨behind, hcheck⟩
      · rw [hresolved, Except.mapError, ok_bind, refuse_of_not hrouted, ok_bind,
          refuse_of_not (by omega), ok_bind] at hrefused
        rcases bind_eq_error.mp hrefused with hrest | ⟨_, -, hlast⟩
        · exact ih (fun other hmem => hfinite other (List.mem_cons_of_mem _ hmem))
            (fun other hmem => hresolves other (List.mem_cons_of_mem _ hmem)) (by omega) hrest
        · cases hlast

theorem Ranked.bound {behind : Nat} {hits : List Hit} {points : List RankedPoint}
    (hranked : Ranked view behind hits points) : Bound points := by
  intro point hmem
  obtain ⟨index, hpoint⟩ := List.getElem?_of_mem hmem
  have hindex : index < hits.length := by
    rw [← hranked.length]
    exact (List.getElem?_eq_some_iff.mp hpoint).1
  obtain ⟨resolved, hresolved, hsame⟩ := hranked.each index _ (List.getElem?_eq_getElem hindex)
  obtain rfl := Option.some.inj (hpoint.symm.trans hsame)
  exact resolvePoint_input hresolved.1

end Nominated

/-! ## Grouped and single hits -/

section Executed

variable {store : Store} {backend : Backend} {env : Env} {view : PublishedView}
  {request : SearchRequest} {hits : List Hit} {points : List RankedPoint}

/-- Process the hit at one position of the backend order alone. -/
def alone (store : Store) (env : Env) (view : PublishedView) (hits : List Hit) (index : Nat) :
    Except (Abort QueryFailure) SearchItem := do
  let hit ← readAt hits index
  let resolved ← inRange ((view.resolvePoint hit.id).mapError publicationFailure)
  inRange (hydrate store env view.generation.sequence index
    ⟨UInt8.ofNat (index + 1), hit, resolved⟩)

/-- What is known of the item of one hit. -/
structure Answered (store : Store) (view : PublishedView) (index : Nat) (hit : Hit)
    (item : SearchItem) (resolved : ResolvedPoint) : Prop where
  resolves : Resolves view hit resolved
  rank : item.rank.toNat = index + 1
  hydrated : Hydrated store view.generation.sequence
    ⟨UInt8.ofNat (index + 1), hit, resolved⟩ item

theorem Hydrated.rank {generation : UInt64} {point : RankedPoint} {item : SearchItem}
    (hhydrated : Hydrated store generation point item) : item.rank = point.rank := by
  cases hhydrated with
  | sourceMissing hlacks => rfl
  | preparedMissing source hholds hlacks => rfl
  | verified source unitText hholds hslice => rfl

theorem value_of_point {generation : UInt64} {index : Nat} {point : RankedPoint}
    (hpoint : points[index]? = some point) :
    value store env generation points index =
      inRange (hydrate store (within env (Slots.leader (sameAt_equivalence points) index))
        generation index point) := by
  rw [value, readAt_ok hpoint, ok_bind]

/-- Whatever the surroundings, the items that are returned are those of the hits. -/
theorem execute_items {items : List SearchItem}
    (hnominate : nominate backend (within env 0) view request = .ok hits)
    (hexecute : execute store backend env view request = .ok items) :
    items.length = hits.length ∧ ∀ (index : Nat) (hit : Hit), hits[index]? = some hit →
      ∃ item resolved, items[index]? = some item ∧
        Answered store view index hit item resolved := by
  have hshort := (nominate_eq_ok hnominate).1
  rw [execute, hnominate, inRange_ok, ok_bind] at hexecute
  obtain ⟨points, hpoints, hexecute⟩ := bind_eq_ok.mp hexecute
  have hranked := resolveHits_eq_ok (mapError_eq_ok.mp hpoints)
  obtain ⟨⟨found, slots⟩, hloop, hexecute⟩ := bind_eq_ok.mp hexecute
  obtain ⟨_, -, hsame⟩ := bind_eq_ok.mp hexecute
  obtain rfl := Except.ok.inj hsame
  rcases hydrateAll_spec store (within env 2) view.generation.sequence
        hranked.bound with
    ⟨reason, -, hfailed⟩ | ⟨_, _, _, -, hvalues, hdone, -⟩
  · rw [hfailed] at hloop
    cases hloop
  · obtain ⟨rfl, rfl⟩ := Prod.mk.inj (Except.ok.inj (hdone.symm.trans hloop))
    obtain ⟨hlength, heach⟩ := mapM_eq_ok hvalues
    rw [List.length_range, hranked.length] at hlength
    refine ⟨hlength, fun index hit hhit => ?_⟩
    have hindex : index < hits.length := (List.getElem?_eq_some_iff.mp hhit).1
    obtain ⟨resolved, hresolved, hpoint⟩ := hranked.each index hit hhit
    obtain ⟨item, hitem, hplace⟩ := heach index index (by
      rw [List.getElem?_range (hranked.length ▸ hindex)])
    rw [value_of_point hpoint] at hitem
    have hhydrated := hydrate_eq_ok (mapError_eq_ok.mp hitem)
    rw [Nat.zero_add] at hhydrated
    have hmaximum : maxItems = 64 := rfl
    have hsize : UInt8.size = 256 := rfl
    refine ⟨item, resolved, hplace, hresolved, ?_, hhydrated⟩
    rw [hhydrated.rank]
    exact UInt8.toNat_ofNat_of_lt' (by omega)

/-- Whatever the surroundings, no index is out of range and no slot is lost. -/
theorem execute_failure {reason : Abort QueryFailure}
    (hnominate : nominate backend (within env 0) view request = .ok hits)
    (hresolves : ∀ hit ∈ hits, ∃ resolved, Resolves view hit resolved)
    (hexecute : execute store backend env view request = .error reason) :
    ∃ failure, reason = .failed failure ∧ failure ≠ internalError := by
  have hmaximum : maxItems = 64 := rfl
  obtain ⟨hshort, hfinite⟩ := nominate_eq_ok hnominate
  rw [execute, hnominate, inRange_ok, ok_bind] at hexecute
  rcases bind_eq_error.mp hexecute with hpoints | ⟨points, hpoints, hexecute⟩
  · obtain ⟨failure, hrefused, rfl⟩ := mapError_eq_error.mp hpoints
    obtain ⟨site, hsite⟩ := resolveHits_eq_error hfinite hresolves (by omega) hrefused
    refine ⟨failure, rfl, ?_⟩
    rintro rfl
    exact check_ne_internal site hsite
  · have hranked := resolveHits_eq_ok (mapError_eq_ok.mp hpoints)
    rcases bind_eq_error.mp hexecute with hloop | ⟨_, -, hexecute⟩
    · rcases hydrateAll_spec store (within env 2) view.generation.sequence
        hranked.bound with
        ⟨_, hvalues, hfailed⟩ | ⟨_, _, _, -, -, hdone, -⟩
      · obtain rfl := Except.error.inj (hfailed.symm.trans hloop)
        obtain ⟨index, hmem, hvalue⟩ := mapM_eq_error hvalues
        have hindex := (Slots.fillOrder_perm (sameAt_equivalence points) _).mem_iff.mp hmem
        rw [value_of_point (List.getElem?_eq_getElem (List.mem_range.mp hindex))] at hvalue
        obtain ⟨failure, hhydrate, rfl⟩ := mapError_eq_error.mp hvalue
        refine ⟨failure, rfl, ?_⟩
        rintro rfl
        exact hydrate_ne_internal hhydrate
      · cases hdone.symm.trans hloop
    · rcases bind_eq_error.mp hexecute with hcheck | ⟨_, -, hlast⟩
      · obtain ⟨failure, hstopped, rfl⟩ := mapError_eq_error.mp hcheck
        refine ⟨failure, rfl, ?_⟩
        rintro rfl
        exact check_ne_internal 0 hstopped
      · cases hlast

/-- Undisturbed, a position of the loop gives what its hit alone gives. -/
theorem value_eq_alone (hquiet : Undisturbed env) (hranked : Ranked view 0 hits points)
    {index : Nat} (hindex : index < points.length) :
    value store env view.generation.sequence points index = alone store env view hits index := by
  rw [hranked.length] at hindex
  have hhit := List.getElem?_eq_getElem hindex
  obtain ⟨resolved, hresolved, hpoint⟩ := hranked.each index _ hhit
  rw [value_of_point hpoint, hquiet.within_eq, alone, readAt_ok hhit, ok_bind, hresolved.1,
    Nat.zero_add]
  rfl

/-- Undisturbed, the query fails as the first hit in the order of filling does that fails,
and otherwise returns what the hits alone give. -/
theorem execute_alone (store : Store) (hquiet : Undisturbed env)
    (hnominate : nominate backend (within env 0) view request = .ok hits)
    (hresolves : ∀ hit ∈ hits, ∃ resolved, Resolves view hit resolved) :
    ∃ points, Ranked view 0 hits points ∧
      ((∃ reason, (Slots.fillOrder (SameAt points) hits.length).mapM
            (alone store env view hits) = .error reason ∧
          execute store backend env view request = .error reason) ∨
        (∃ all items, (Slots.fillOrder (SameAt points) hits.length).mapM
            (alone store env view hits) = .ok all ∧
          (List.range hits.length).mapM (alone store env view hits) = .ok items ∧
          execute store backend env view request = .ok items)) := by
  have hmaximum : maxItems = 64 := rfl
  obtain ⟨hshort, hfinite⟩ := nominate_eq_ok hnominate
  have hcheck (site : Nat) : check env site = .ok () := check_ok hquiet site
  rw [execute, hnominate, inRange_ok, ok_bind, hquiet.within_eq, hquiet.within_eq,
    hquiet.within_eq]
  cases hpoints : resolveHits env view 0 hits with
  | error reason =>
      obtain ⟨site, hsite⟩ := resolveHits_eq_error hfinite hresolves (by omega) hpoints
      cases (hcheck site).symm.trans hsite
  | ok points =>
      have hranked := resolveHits_eq_ok hpoints
      have hvalues : ∀ index ∈ List.range points.length,
          value store env view.generation.sequence points index =
            alone store env view hits index :=
        fun index hindex => value_eq_alone hquiet hranked (List.mem_range.mp hindex)
      have horder := Slots.fillOrder_perm (sameAt_equivalence points) points.length
      refine ⟨points, hranked, ?_⟩
      rw [inRange_ok, ok_bind, hcheck, ← hranked.length, ← mapM_congr hvalues,
        ← mapM_congr fun index hmem => hvalues index (horder.mem_iff.mp hmem)]
      rcases hydrateAll_spec store env view.generation.sequence
        hranked.bound with
        ⟨reason, hfirst, hfailed⟩ | ⟨all, items, slots, hall, hitems, hdone, -⟩
      · exact Or.inl ⟨reason, hfirst, by rw [hfailed, error_bind]⟩
      · exact Or.inr ⟨all, items, hall, hitems, by rw [hdone, ok_bind]; rfl⟩

/-- What a query returns for hits that resolve, and which failure it reports. -/
theorem execute_grouped (hnominate : nominate backend (within env 0) view request = .ok hits)
    (hresolves : ∀ hit ∈ hits, ∃ resolved, Resolves view hit resolved) :
    (∀ items, execute store backend env view request = .ok items →
      items.length = hits.length ∧ ∀ (index : Nat) (hit : Hit), hits[index]? = some hit →
        ∃ item resolved, items[index]? = some item ∧
          Answered store view index hit item resolved) ∧
    (∀ reason, execute store backend env view request = .error reason →
      ∃ failure, reason = .failed failure ∧ failure ≠ internalError) ∧
    (∀ points items slots, Ranked view 0 hits points →
      hydrateAll store (within env 2) view.generation.sequence points = .ok (items, slots) →
      slots.fills.Perm (List.range hits.length)) ∧
    (Undisturbed env → ∃ points, Ranked view 0 hits points ∧
      (∀ items, execute store backend env view request = .ok items ↔
        (List.range hits.length).mapM (alone store env view hits) = .ok items) ∧
      (∀ reason, execute store backend env view request = .error reason ↔
        (Slots.fillOrder (SameAt points) hits.length).mapM (alone store env view hits) =
          .error reason)) := by
  refine ⟨fun items => execute_items hnominate, fun reason => execute_failure hnominate hresolves,
    ?_, ?_⟩
  · intro points items slots hranked hloop
    rcases hydrateAll_spec store (within env 2) view.generation.sequence
        hranked.bound with
      ⟨_, -, hfailed⟩ | ⟨_, _, _, -, -, hdone, hfills⟩
    · cases hfailed.symm.trans hloop
    · obtain ⟨-, rfl⟩ := Prod.mk.inj (Except.ok.inj (hdone.symm.trans hloop))
      rw [hfills, ← hranked.length]
      exact Slots.fillOrder_perm (sameAt_equivalence points) _
  · intro hquiet
    obtain ⟨points, hranked, hcases⟩ := execute_alone store hquiet hnominate hresolves
    refine ⟨points, hranked, ?_⟩
    rcases hcases with ⟨reason, hfirst, hfailed⟩ | ⟨all, items, hall, hitems, hdone⟩
    · obtain ⟨index, hmem, hindex⟩ := mapM_eq_error hfirst
      have hrange := (Slots.fillOrder_perm (sameAt_equivalence points) _).mem_iff.mp hmem
      rw [hfailed, hfirst]
      refine ⟨fun items => ⟨fun hother => (nomatch hother), fun hitems => ?_⟩, fun _ => Iff.rfl⟩
      -- a hit that fails alone is in the backend order too
      obtain ⟨item, hitem, -⟩ := (mapM_eq_ok hitems).2 index index
        (List.getElem?_range (List.mem_range.mp hrange))
      cases hindex.symm.trans hitem
    · rw [hdone, hitems, hall]
      refine ⟨fun _ => Iff.rfl, fun _ => ?_⟩
      constructor
      · rintro ⟨⟩
      · rintro ⟨⟩

end Executed

/-! ## Two groups, one with a unit that is not described and one that cannot be read -/

namespace Sample

open DecodedExact.Sample (available source artifact)

def unit : PointEvidence where
  sourceNamespaceId := source.sourceNamespaceId
  sourceId := source.sourceId
  input := source.objectRef
  prepared := artifact
  unit := 0
  start := 0
  stop := 3
  lineStart := 0
  lineEnd := 1
  startsAtLineBoundary := true
  endsAtLineBoundary := true

/-- A source whose object cannot be read. -/
def other : SourceEntry :=
  let id : SourceId := Octets.replicate 16 3
  let input : ObjectRef := ⟨1, .source, RawExact.Sample.emptyDigest, 3⟩
  { available with
    captured :=
      { source := { source with sourceId := id, objectRef := input }
        preparation := ⟨source.sourceNamespaceId, id, 1, .default, 1,
          some ⟨1, 1, input, .default, .ready artifact⟩⟩ } }

def pointId (ordinal : UInt8) : Octets 16 :=
  ⟨List.replicate 7 0 ++ [1] ++ List.replicate 7 0 ++ [ordinal], rfl⟩

def generation : Generation := ⟨RawExact.Sample.namespaceId, 1, 2, 2, 0, 3, 1⟩

def tables : Db :=
  { Db.empty with
    generationSources := some (.ofList [RawExact.Sample.row available, RawExact.Sample.row other])
    generationPages := some ∅
    generationEvidence := some (.ofList [
      (key 1 (pointId 0).bytes, encodeEvidence unit),
      (key 1 (pointId 1).bytes, encodeEvidence { unit with
        sourceId := other.captured.source.sourceId, input := other.captured.source.objectRef }),
      (key 1 (pointId 2).bytes, encodeEvidence { unit with stop := 2 })]) }

def view : PublishedView := ⟨generation, tables⟩

def store : Store :=
  { DecodedExact.Sample.store with
    find := fun name => if name = nameOf other.captured.source.objectRef then some .unreadable
      else DecodedExact.Sample.store.find name }

def hits : List Hit :=
  [⟨pointId 0, source.sourceId, ⟨0x3f800000⟩⟩,
    ⟨pointId 1, other.captured.source.sourceId, ⟨0x3f000000⟩⟩,
    ⟨pointId 2, source.sourceId, ⟨0x3e800000⟩⟩]

def backend : Backend where
  connect := .ok ()
  verifySchema _ := .ok ()
  query _ _ _ := .ok (hits.map fun hit => ⟨some hit.id, some hit.sourceId, hit.score, true⟩)

def request : SearchRequest := ⟨RawExact.Sample.request.literal, 8⟩

theorem nominated : nominate backend (within Env.quiet 0) view request = .ok hits := by
  decide +kernel

theorem resolves : ∀ hit ∈ hits, ∃ resolved, Resolves view hit resolved := by
  have hroutes : ∀ hit ∈ hits, (view.resolvePoint hit.id).toOption.map
      (fun resolved => resolved.evidence.sourceId) = some hit.sourceId := by
    decide +kernel
  intro hit hmem
  obtain ⟨resolved, hresolved, hroute⟩ := Option.map_eq_some_iff.mp (hroutes hit hmem)
  cases hfound : view.resolvePoint hit.id with
  | error reason =>
      rw [hfound] at hresolved
      cases hresolved
  | ok found =>
      rw [hfound] at hresolved
      obtain rfl := Option.some.inj hresolved
      exact ⟨found, hfound, hroute.symm⟩

end Sample

/-- The unit that is not described is found with the first group, before the backend order
reaches the object that cannot be read. -/
theorem execute_reports_groups :
    nominate Sample.backend (within Env.quiet 0) Sample.view Sample.request = .ok Sample.hits ∧
      (Sample.hits.map Hit.id).Nodup ∧
      (∀ hit ∈ Sample.hits, ∃ resolved, Resolves Sample.view hit resolved) ∧
      execute Sample.store Sample.backend Env.quiet Sample.view Sample.request =
        .error (.failed (.code (ascii "EVIDENCE_RANGE_MISMATCH"))) ∧
      (List.range Sample.hits.length).mapM
          (alone Sample.store Env.quiet Sample.view Sample.hits) =
        .error (.failed (.code (ascii "OBJECT_IO"))) :=
  ⟨Sample.nominated, by decide +kernel, Sample.resolves, by decide +kernel, by decide +kernel⟩

namespace Sample

/-- The nominations without the unit that is not described. -/
def described : Backend :=
  { backend with
    query := fun _ _ _ => .ok ((hits.take 2).map fun hit =>
      ⟨some hit.id, some hit.sourceId, hit.score, true⟩) }

end Sample

/-- A hit of the source that is there, and a gap of the one whose object is missing. -/
theorem execute_grouped_sample :
    ∃ items, execute DecodedExact.Sample.store Sample.described Env.quiet Sample.view
        Sample.request = .ok items ∧ items.length = 2 ∧
      ∀ (index : Nat) (hit : Hit), (Sample.hits.take 2)[index]? = some hit →
        ∃ item resolved, items[index]? = some item ∧
          Answered DecodedExact.Sample.store Sample.view index hit item resolved := by
  have hnominate : nominate Sample.described (within Env.quiet 0) Sample.view Sample.request =
      .ok (Sample.hits.take 2) := by
    decide +kernel
  have hresolves : ∀ hit ∈ Sample.hits.take 2, ∃ resolved, Resolves Sample.view hit resolved :=
    fun hit hmem => Sample.resolves hit (List.mem_of_mem_take hmem)
  obtain ⟨items, hitems⟩ : ∃ items, execute DecodedExact.Sample.store Sample.described Env.quiet
      Sample.view Sample.request = .ok items := by
    have hdone : (execute DecodedExact.Sample.store Sample.described Env.quiet Sample.view
        Sample.request).toOption.isSome = true := by
      decide +kernel
    cases hexecute : execute DecodedExact.Sample.store Sample.described Env.quiet Sample.view
        Sample.request with
    | error reason =>
        rw [hexecute] at hdone
        cases hdone
    | ok items => exact ⟨items, rfl⟩
  obtain ⟨hlength, heach⟩ := (execute_grouped hnominate hresolves).1 items hitems
  exact ⟨items, hitems, hlength, heach⟩

end VerifiedQuery

end EliotSearch.Query
