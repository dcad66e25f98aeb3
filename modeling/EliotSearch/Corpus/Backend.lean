import EliotSearch.Corpus.Canary
import EliotSearch.Query.Identifiers
import EliotSearch.Query.Terminals

/-!
# Reading the backend

What is read of a collection: its profile, its points, their number and the
score of one word.  The server answers the requests; how long a request is
encoded is the protobuf library's.
-/

namespace EliotSearch.Corpus

open EliotSearch.Control
open EliotSearch.Library
open EliotSearch.Library.Hex
open EliotSearch.Library.Json
open EliotSearch.Library.Results
open EliotSearch.Library.Utf8
open EliotSearch.Query
open EliotSearch.Query.Identifiers (UuidBytes.parse)
open EliotSearch.Query.Identifiers.Codec (PointId pointId decodeId)
open EliotSearch.Session

/-! ## Requests -/

def textField : Bytes := ascii "retrieval_text"

structure GetPoints where
  collectionName : Bytes
  ids : List PointId
  withVectors : Option Bool
  withPayload : List Bytes

structure CountPoints where
  collectionName : Bytes
  exact : Option Bool

/-- A text is scored by the index of a field, with the frequencies of a corpus
or, without one, of the whole generation.  The constants of the score are left out. -/
structure QueryPoints where
  collectionName : Bytes
  text : Text
  field : Bytes
  hasId : List PointId
  idf : Option (Option Bytes)
  limit : Option UInt64
  withVectors : Option Bool
  withPayload : List Bytes

inductive Request where
  | upsertPoints (message : UpsertPoints)
  | collectionInfo (collectionName : Bytes)
  | getPoints (message : GetPoints)
  | countPoints (message : CountPoints)
  | queryPoints (message : QueryPoints)

def getMessage (name : Bytes) (points : List PointInput) : GetPoints where
  collectionName := name
  ids := points.map fun point => pointId point.id
  withVectors := some false
  withPayload := [ascii "source_id", textField]

def countMessage (name : Bytes) : CountPoints := ⟨name, some true⟩

def queryMessage (name : Bytes) (expected : PointInput) (query : Text) : QueryPoints where
  collectionName := name
  text := query
  field := textField
  hasId := [pointId expected.id]
  idf := some none
  limit := some 1
  withVectors := some false
  withPayload := [ascii "source_id"]

/-- The bytes of the strings of a message. -/
def stringBytes (strings : List Bytes) : Nat := (strings.map List.length).sum

def idText (id : PointId) : Bytes :=
  match id.pointIdOptions with
  | some (.uuid text) => text
  | _ => []

def Request.strings : Request → Nat
  | .upsertPoints message => message.strings
  | .collectionInfo name => name.length
  | .getPoints message => message.collectionName.length + stringBytes (message.ids.map idText) +
      stringBytes message.withPayload
  | .countPoints message => message.collectionName.length
  | .queryPoints message => message.collectionName.length + message.text.bytes.length +
      message.field.length + stringBytes (message.hasId.map idText) +
      (message.idf.bind id).elim 0 List.length + stringBytes message.withPayload

/-- An upper bound on the number of messages in a request. -/
def Request.messages : Request → Nat
  | .upsertPoints message => message.messages
  | .collectionInfo _ => 1
  | .getPoints message => 8 + message.ids.length + message.withPayload.length
  | .countPoints _ => 2
  | .queryPoints message => 16 + message.hasId.length + message.withPayload.length

/-- A request is not much longer than its strings. -/
def FramedRequests (encodedLen : Request → Nat) : Prop :=
  ∀ request, encodedLen request ≤ request.strings + 64 * request.messages

/-! ## Replies -/

inductive Value where
  | string (text : Bytes)
  | other
  deriving DecidableEq

/-- A payload has one value for each of its keys. -/
structure Payload where
  entries : List (Bytes × Value)
  distinct : (entries.map Prod.fst).Nodup

namespace Payload

def size (payload : Payload) : Nat := payload.entries.length

def get (payload : Payload) (key : Bytes) : Option Value := payload.entries.lookup key

def string (payload : Payload) (key : Bytes) : Except BackendError Bytes :=
  match payload.get key with
  | some (.string text) => .ok text
  | _ => .error .malformedResponse

def sourceId (payload : Payload) : Except BackendError SourceId := do
  let text ← payload.string (ascii "source_id")
  refuse (text.length ≠ 36) .malformedResponse
  (UuidBytes.parse text).mapError fun _ => .malformedResponse

end Payload

structure RetrievedPoint where
  id : Option PointId
  payload : Payload
  vectors : Option Unit

structure ScoredPoint where
  id : Option PointId
  payload : Payload
  score : Score
  vectors : Option Unit

/-- A finite score is above zero. -/
def IsPositive (score : Score) : Prop := 0 < score.bits.toNat ∧ score.bits.toNat < 2 ^ 31

instance (score : Score) : Decidable (IsPositive score) := inferInstanceAs (Decidable (_ ∧ _))

/-! ## The profile -/

namespace Schema

inductive CollectionStatus where
  | green
  | other
  deriving DecidableEq

inductive ShardingMethod where
  | auto
  | other
  deriving DecidableEq

inductive PayloadSchemaType where
  | text
  | other
  deriving DecidableEq

inductive TokenizerType where
  | code
  | other
  deriving DecidableEq

inductive Memory where
  | pinned
  | other
  deriving DecidableEq

inductive TextScoringType where
  | bm25
  | other
  deriving DecidableEq

inductive StemmingParams where
  | disabled
  | other
  deriving DecidableEq

/-- The vectors of a collection: one unnamed configuration, or named ones. -/
inductive VectorsConfig where
  | params
  | paramsMap (names : List Bytes)
  deriving DecidableEq

structure TextIndexParams where
  tokenizer : TokenizerType
  lowercase : Option Bool
  asciiFolding : Option Bool
  phraseMatching : Option Bool
  enableHnsw : Option Bool
  memory : Option Memory
  scoring : Option TextScoringType
  stemmer : Option (Option StemmingParams)
  stopwords : Option Unit
  minTokenLen : Option UInt64
  maxTokenLen : Option UInt64
  nested : Option Unit
  deriving DecidableEq

inductive IndexParams where
  | textIndexParams (params : TextIndexParams)
  | other
  deriving DecidableEq

structure PayloadSchemaInfo where
  dataType : PayloadSchemaType
  params : Option (Option IndexParams)
  deriving DecidableEq

structure CollectionParams where
  shardNumber : UInt32
  replicationFactor : Option UInt32
  writeConsistencyFactor : Option UInt32
  shardingMethod : Option ShardingMethod
  vectorsConfig : Option (Option VectorsConfig)
  sparseVectorsConfig : Option (List Bytes)
  deriving DecidableEq

structure CollectionInfo where
  status : CollectionStatus
  config : Option (Option CollectionParams)
  payloadSchema : List (Bytes × PayloadSchemaInfo)
  deriving DecidableEq

/-- The fixed text index. -/
def textParams : TextIndexParams where
  tokenizer := .code
  lowercase := some true
  asciiFolding := some false
  phraseMatching := some false
  enableHnsw := some false
  memory := some .pinned
  scoring := some .bm25
  stemmer := some (some .disabled)
  stopwords := none
  minTokenLen := none
  maxTokenLen := none
  nested := none

def verifyText (params : TextIndexParams) : Except BackendError Unit :=
  refuse (params.tokenizer ≠ .code ∨ params.lowercase ≠ some true ∨
    params.asciiFolding ≠ some false ∨ params.phraseMatching ≠ some false ∨
    params.enableHnsw ≠ some false ∨ params.memory ≠ some .pinned ∨
    params.scoring ≠ some .bm25 ∨ params.stemmer ≠ some (some .disabled) ∨
    params.stopwords.isSome = true ∨ params.minTokenLen.isSome = true ∨
    params.maxTokenLen.isSome = true ∨ params.nested.isSome = true) .schemaMismatch

def verify (info : CollectionInfo) : Except BackendError Unit := do
  refuse (info.status ≠ .green) .backendRefused
  let params ← okOr (info.config.bind id) .schemaMismatch
  refuse (params.shardNumber ≠ 1 ∨ params.replicationFactor ≠ some 1 ∨
    params.writeConsistencyFactor ≠ some 1 ∨ params.shardingMethod ≠ some .auto) .schemaMismatch
  refuse (∃ vectors ∈ params.vectorsConfig, vectors ≠ some (.paramsMap [])) .schemaMismatch
  refuse ((∃ sparse ∈ params.sparseVectorsConfig, sparse ≠ []) ∨ info.payloadSchema.length ≠ 1)
    .schemaMismatch
  let text ← okOr (info.payloadSchema.lookup textField) .schemaMismatch
  refuse (text.dataType ≠ .text) .schemaMismatch
  match text.params.bind id with
  | some (.textIndexParams params) => verifyText params
  | _ => .error .schemaMismatch

end Schema

/-! ## Reads -/

/-- What the server answers, or the status it refuses with. -/
structure Server where
  collectionInfo : (collectionName : Bytes) → Except BackendError (Option Schema.CollectionInfo)
  get : GetPoints → Except BackendError (List RetrievedPoint)
  count : CountPoints → Except BackendError (Option UInt64)
  query : QueryPoints → Except BackendError (List ScoredPoint)

structure Backend where
  server : Server
  limits : BackendLimits
  encodedLen : Request → Nat

/-- The time that is left of the deadline. -/
def remaining (env : Env) (site : Nat) : Except BackendError Unit :=
  match env.probe site with
  | some .deadline => .error .deadline
  | _ => .ok ()

/-- Wait for the reply to a read; the polls count as one. -/
def call {α : Type} (env : Env) (reply : Except BackendError α) : Except BackendError α := do
  checkBackend env 0
  checkBackend env 1
  remaining env 2
  reply

/-- One point that was read back, and the identifiers with it. -/
def verifyPoint (expected : List PointInput) (seen : List (Octets 16)) (point : RetrievedPoint) :
    Except BackendError (List (Octets 16)) := do
  let id ← decodeId point.id
  refuse (id ∈ seen ∨ point.vectors.isSome = true ∨ point.payload.size ≠ 2) .pointMismatch
  let wanted ← okOr (expected.find? fun wanted => wanted.id = id) .pointMismatch
  let source ← point.payload.sourceId
  refuse (source ≠ wanted.sourceId) .pointMismatch
  let text ← point.payload.string textField
  refuse (text ≠ wanted.retrievalText.bytes) .pointMismatch
  return id :: seen

def verifyReply (env : Env) (expected : List PointInput) :
    (site : Nat) → (seen : List (Octets 16)) → List RetrievedPoint → Except BackendError Unit
  | _, _, [] => return ()
  | site, seen, point :: points => do
      checkBackend env site
      let seen ← verifyPoint expected seen point
      verifyReply env expected (site + 1) seen points

def verifyHit (points : List ScoredPoint) (expected : PointInput) : Except BackendError Unit :=
  match points with
  | [] => .error .readinessNotProven
  | [point] => do
      refuse (¬ point.score.IsFinite ∨ point.vectors.isSome = true ∨ point.payload.size ≠ 1)
        .malformedResponse
      let id ← decodeId point.id
      refuse (id ≠ expected.id) .pointMismatch
      let source ← point.payload.sourceId
      refuse (source ≠ expected.sourceId) .pointMismatch
      refuse (¬ IsPositive point.score) .readinessNotProven
  | _ => .error .responseTooLarge

namespace Backend

/-- The checks of a request before it is sent. -/
def request (backend : Backend) (env : Env) (message : Request) : Except BackendError Unit := do
  checkBackend env 0
  refuse (backend.encodedLen message > backend.limits.maxRequestBytes) .requestTooLarge
  remaining env 1

/-- Verifies the collection and the complete fixed text-index parameters. -/
def verifySchema (backend : Backend) (env : Env) (name : Bytes) : Except BackendError Unit := do
  collectionName name
  backend.request (within env 0) (.collectionInfo name)
  let reply ← call (within env 1) (backend.server.collectionInfo name)
  let info ← okOr reply .malformedResponse
  Schema.verify info

/-- Reads exact identifiers and compares the complete expected payload. -/
def verifyPoints (backend : Backend) (env : Env) (name : Bytes) (expected : List PointInput) :
    Except BackendError Unit := do
  checkBackend env 0
  collectionName name
  if expected = [] then return ()
  refuse (expected.length > backend.limits.maxBatchPoints) .requestTooLarge
  let _ ← encodeBatch (fun message => backend.encodedLen (.upsertPoints message)) (within env 1)
    name expected
  let message := getMessage name expected
  backend.request (within env 2) (.getPoints message)
  let reply ← call (within env 3) (backend.server.get message)
  refuse (reply.length > expected.length) .responseTooLarge
  refuse (reply.length ≠ expected.length) .pointMismatch
  verifyReply (within env 4) expected 0 [] reply

/-- Proves that the index scores one saved word of a point. -/
def verifyCanary (alphanumeric : Char → Bool) (backend : Backend) (env : Env) (name : Bytes)
    (expected : PointInput) (query : Text) : Except BackendError Unit := do
  checkCanary alphanumeric (within env 0) backend.limits name expected query
  let message := queryMessage name expected query
  backend.request (within env 1) (.queryPoints message)
  let reply ← call (within env 2) (backend.server.query message)
  checkBackend env 3
  verifyHit reply expected

/-- Reads the population of a generation. -/
def countExact (backend : Backend) (env : Env) (name : Bytes) : Except BackendError UInt64 := do
  collectionName name
  let message := countMessage name
  backend.request (within env 0) (.countPoints message)
  let reply ← call (within env 1) (backend.server.count message)
  okOr reply .malformedResponse

end Backend

/-! ## A faithful server -/

/-- An inserted point as it is read back. -/
def retrieved (point : PointInput) : RetrievedPoint where
  id := some (pointId point.id)
  payload := ⟨[(ascii "source_id", .string (uuidText point.sourceId)),
    (textField, .string point.retrievalText.bytes)],
    (by decide : [ascii "source_id", textField].Nodup)⟩
  vectors := none

/-- An inserted point as it is scored. -/
def scored (point : PointInput) (score : Score) : ScoredPoint where
  id := some (pointId point.id)
  payload := ⟨[(ascii "source_id", .string (uuidText point.sourceId))], List.nodup_singleton _⟩
  score := score
  vectors := none

/-- The server has the profile and exactly the inserted points, in any order, and
scores every word of a point that can be a canary. -/
structure Faithful (alphanumeric : Char → Bool) (server : Server) (name : Bytes)
    (inserted : List PointInput) : Prop where
  profiled : ∃ info, server.collectionInfo name = .ok (some info) ∧ Schema.verify info = .ok ()
  retrieves : ∀ points : List PointInput, points ⊆ inserted → (points.map PointInput.id).Nodup →
    ∃ found : List PointInput, found.Perm points ∧
      server.get (getMessage name points) = .ok (found.map retrieved)
  counts : server.count (countMessage name) = .ok (some (UInt64.ofNat inserted.length))
  scores : ∀ point ∈ inserted, ∀ query, IsCandidate alphanumeric point.retrievalText query →
    ∃ score : Score, score.IsFinite ∧ IsPositive score ∧
      server.query (queryMessage name point query) = .ok [scored point score]

section Faithful

variable {alphanumeric : Char → Bool} {backend : Backend} {env : Env} {name : Bytes}
  {inserted expected : List PointInput}

theorem remaining_ok (hquiet : Undisturbed env) (site : Nat) : remaining env site = .ok () := by
  rw [remaining, hquiet site]

theorem call_ok {α : Type} (hquiet : Undisturbed env) (reply : Except BackendError α) :
    call env reply = reply := by
  rw [call, checkBackend, checkWith_ok hquiet, ok_bind, checkBackend, checkWith_ok hquiet, ok_bind,
    remaining_ok hquiet, ok_bind]

theorem request_ok (hquiet : Undisturbed env) {message : Request}
    (hfits : backend.encodedLen message ≤ backend.limits.maxRequestBytes) :
    backend.request env message = .ok () := by
  rw [Backend.request, checkBackend, checkWith_ok hquiet, ok_bind,
    refuse_of_not (Nat.not_lt.mpr hfits), ok_bind, remaining_ok hquiet]

theorem sourceId_uuidText {payload : Payload} {id : SourceId}
    (hfound : payload.string (ascii "source_id") = .ok (uuidText id)) :
    payload.sourceId = .ok id := by
  have hlength : ¬ (uuidText id).length ≠ 36 := not_not.mpr (grouped_uuidText id).1
  rw [Payload.sourceId, hfound, ok_bind, refuse_of_not hlength, ok_bind,
    Query.Identifiers.parse_eq_ok.mpr rfl]
  rfl

theorem decodeId_pointId (id : Octets 16) : decodeId (some (pointId id)) = .ok id :=
  Query.Identifiers.Codec.decodeId_eq_ok.mpr rfl

/-- A point is found by its identifier. -/
theorem find_expected (hdistinct : (expected.map PointInput.id).Nodup) {point : PointInput}
    (hpoint : point ∈ expected) : expected.find? (fun wanted => wanted.id = point.id) =
      some point := by
  have hsome : (expected.find? fun wanted => wanted.id = point.id).isSome = true := by
    rw [List.find?_isSome]
    exact ⟨point, hpoint, decide_eq_true rfl⟩
  obtain ⟨found, hfound⟩ := Option.isSome_iff_exists.mp hsome
  have hsame : found.id = point.id := by simpa using List.find?_some hfound
  rw [hfound, List.inj_on_of_nodup_map hdistinct (List.mem_of_find?_eq_some hfound) hpoint hsame]

theorem verifyPoint_ok (hdistinct : (expected.map PointInput.id).Nodup) {point : PointInput}
    (hpoint : point ∈ expected) {seen : List (Octets 16)} (hnew : point.id ∉ seen) :
    verifyPoint expected seen (retrieved point) = .ok (point.id :: seen) := by
  have hid : (retrieved point).id = some (pointId point.id) := rfl
  have hguard : ¬ (point.id ∈ seen ∨ (retrieved point).vectors.isSome = true ∨
      (retrieved point).payload.size ≠ 2) := by
    rintro (hold | hvectors | hsize)
    · exact hnew hold
    · cases hvectors
    · exact hsize rfl
  have hsource : (retrieved point).payload.sourceId = .ok point.sourceId := sourceId_uuidText rfl
  have htext : (retrieved point).payload.string textField = .ok point.retrievalText.bytes := rfl
  rw [verifyPoint, hid, decodeId_pointId, ok_bind, refuse_of_not hguard, ok_bind,
    find_expected hdistinct hpoint, okOr_some, ok_bind, hsource, ok_bind,
    refuse_of_not (not_not.mpr rfl), ok_bind, htext, ok_bind, refuse_of_not (not_not.mpr rfl),
    ok_bind, pure_eq_ok]

/-- Expected points pass in any order. -/
theorem verifyReply_ok (hquiet : Undisturbed env)
    (hdistinct : (expected.map PointInput.id).Nodup) {points : List PointInput}
    {seen : List (Octets 16)} (hpoints : points ⊆ expected)
    (hnodup : (points.map PointInput.id).Nodup) (hfresh : ∀ point ∈ points, point.id ∉ seen)
    (site : Nat) : verifyReply env expected site seen (points.map retrieved) = .ok () := by
  induction points generalizing seen site with
  | nil => rfl
  | cons point points ih =>
      obtain ⟨hpoint, hrest⟩ := List.cons_subset.mp hpoints
      obtain ⟨hnew, hnodup, hothers⟩ := fresh_cons hnodup hfresh
      rw [List.map_cons, verifyReply, checkBackend, checkWith_ok hquiet, ok_bind,
        verifyPoint_ok hdistinct hpoint hnew, ok_bind]
      exact ih hrest hnodup hothers (site + 1)

/-- A scored point is the one expected. -/
theorem verifyHit_scored {point : PointInput} {score : Score} (hfinite : score.IsFinite)
    (hpositive : IsPositive score) : verifyHit [scored point score] point = .ok () := by
  have hid : (scored point score).id = some (pointId point.id) := rfl
  have hguard : ¬ (¬ (scored point score).score.IsFinite ∨
      (scored point score).vectors.isSome = true ∨ (scored point score).payload.size ≠ 1) := by
    rintro (hinfinite | hvectors | hsize)
    · exact hinfinite hfinite
    · cases hvectors
    · exact hsize rfl
  have hsource : (scored point score).payload.sourceId = .ok point.sourceId :=
    sourceId_uuidText rfl
  rw [verifyHit, refuse_of_not hguard, ok_bind, hid, decodeId_pointId, ok_bind,
    refuse_of_not (not_not.mpr rfl), ok_bind, hsource, ok_bind, refuse_of_not (not_not.mpr rfl),
    ok_bind]
  exact refuse_of_not (not_not.mpr hpositive)

/-! ## Lengths of requests -/

theorem stringBytes_ids (points : List PointInput) :
    stringBytes ((points.map fun point => pointId point.id).map idText) = 36 * points.length := by
  have hlength : ∀ point : PointInput, (idText (pointId point.id)).length = 36 := by
    intro point
    change (Query.Identifiers.Codec.uuidText point.id).length = 36
    rw [Query.Identifiers.Codec.uuidText_eq]
    exact (grouped_uuidText point.id).1
  induction points with
  | nil => rfl
  | cons point points ih =>
      simp only [stringBytes, List.map_cons, List.sum_cons, hlength] at ih ⊢
      rw [ih, List.length_cons]
      omega

section Reads

variable (hframed : FramedRequests backend.encodedLen) (hlimits : backend.limits = backendLimits)
  (hname : name.length ≤ 255)

include hframed hlimits hname

theorem info_fits :
    backend.encodedLen (.collectionInfo name) ≤ backend.limits.maxRequestBytes := by
  have hlength := hframed (.collectionInfo name)
  simp only [Request.strings, Request.messages] at hlength
  simp only [hlimits, backendLimits, maxRequestBytes]
  omega

theorem count_fits :
    backend.encodedLen (.countPoints (countMessage name)) ≤ backend.limits.maxRequestBytes := by
  have hlength := hframed (.countPoints (countMessage name))
  simp only [Request.strings, Request.messages, countMessage] at hlength
  simp only [hlimits, backendLimits, maxRequestBytes, countMessage]
  omega

theorem get_fits (hbounded : expected.length ≤ maxPagePoints) :
    backend.encodedLen (.getPoints (getMessage name expected)) ≤
      backend.limits.maxRequestBytes := by
  have hlength := hframed (.getPoints (getMessage name expected))
  have hkeys : stringBytes [ascii "source_id", textField] = 23 := by decide
  simp only [Request.strings, Request.messages, getMessage, stringBytes_ids, hkeys,
    List.length_map, List.length_cons, List.length_nil] at hlength
  simp only [hlimits, backendLimits, maxRequestBytes, maxPagePoints, getMessage] at hbounded ⊢
  omega

theorem query_fits {point : PointInput} {query : Text}
    (hquery : query.bytes.length ≤ maxQueryBytes) :
    backend.encodedLen (.queryPoints (queryMessage name point query)) ≤
      backend.limits.maxRequestBytes := by
  have hlength := hframed (.queryPoints (queryMessage name point query))
  have hid := stringBytes_ids [point]
  have hkeys : stringBytes [ascii "source_id"] = 9 ∧ textField.length = 14 := by decide
  rw [List.map_singleton] at hid
  simp only [Request.strings, Request.messages, queryMessage, hid, hkeys, List.length_cons,
    List.length_nil, Option.bind_some, id_eq, Option.elim_none] at hlength
  simp only [hlimits, backendLimits, maxRequestBytes, maxQueryBytes, queryMessage] at hquery ⊢
  omega

end Reads

section Answers

variable (hfaithful : Faithful alphanumeric backend.server name inserted)
  (hframed : FramedRequests backend.encodedLen) (hlimits : backend.limits = backendLimits)
  (hname : collectionName name = .ok ()) (hlength : name.length ≤ 255) (hquiet : Undisturbed env)

include hfaithful hframed hlimits hname hlength hquiet

theorem verifySchema_ok : backend.verifySchema env name = .ok () := by
  obtain ⟨info, hinfo, hprofiled⟩ := hfaithful.profiled
  rw [Backend.verifySchema, hname, ok_bind,
    request_ok (hquiet.within 0) (info_fits hframed hlimits hlength), ok_bind,
    call_ok (hquiet.within 1), hinfo, ok_bind, okOr_some, ok_bind, hprofiled]

theorem countExact_ok :
    backend.countExact env name = .ok (UInt64.ofNat inserted.length) := by
  rw [Backend.countExact, hname, ok_bind]
  dsimp only
  rw [request_ok (hquiet.within 0) (count_fits hframed hlimits hlength), ok_bind,
    call_ok (hquiet.within 1), hfaithful.counts, ok_bind, okOr_some]

/-- Inserted points that can be sent are read back. -/
theorem verifyPoints_ok (hexpected : expected ⊆ inserted) {size : Nat}
    (hsize : ∀ env, Undisturbed env → batchRequestBytes
      (fun message => backend.encodedLen (.upsertPoints message)) env name expected = .ok size) :
    backend.verifyPoints env name expected = .ok () := by
  have hmeasured := hsize _ (hquiet.within 1)
  obtain ⟨hsendable, -, -⟩ := batchRequestBytes_eq_ok hmeasured
  obtain ⟨request, hrequest, -⟩ := bind_eq_ok.mp hmeasured
  obtain ⟨found, hperm, hfound⟩ := hfaithful.retrieves expected hexpected hsendable.distinct
  have hbounded : ¬ expected.length > backend.limits.maxBatchPoints := by
    rw [hlimits]
    exact Nat.not_lt.mpr hsendable.bounded
  have hcount : (found.map retrieved).length = expected.length := by
    rw [List.length_map, hperm.length_eq]
  have hreply := verifyReply_ok (hquiet.within 4) hsendable.distinct hperm.subset
    ((hperm.map PointInput.id).nodup_iff.mpr hsendable.distinct) (fun _ _ => List.not_mem_nil) 0
  rw [Backend.verifyPoints, checkBackend, checkWith_ok hquiet, ok_bind, hname, ok_bind,
    if_neg hsendable.nonempty, refuse_of_not hbounded, ok_bind, hrequest, ok_bind]
  dsimp only
  rw [request_ok (hquiet.within 2) (get_fits hframed hlimits hlength hsendable.bounded), ok_bind,
    call_ok (hquiet.within 3), hfound, ok_bind, hcount, refuse_of_not (Nat.lt_irrefl _), ok_bind,
    refuse_of_not (not_not.mpr rfl), ok_bind, hreply]

/-- Every canary of an inserted point proves the index. -/
theorem verifyCanary_ok {point : PointInput} (hpoint : point ∈ inserted)
    (hlong : point.retrievalText.bytes.length ≤ maxPointTextBytes) {query : Text}
    (hcandidate : IsCandidate alphanumeric point.retrievalText query) :
    backend.verifyCanary alphanumeric env name point query = .ok () := by
  obtain ⟨score, hfinite, hpositive, hscored⟩ := hfaithful.scores point hpoint query hcandidate
  have hchecked := (hcandidate.checked hlong hname (within env 0)).undisturbed (hquiet.within 0)
  rw [← hlimits] at hchecked
  rw [Backend.verifyCanary, hchecked, ok_bind]
  dsimp only
  rw [request_ok (hquiet.within 1) (query_fits hframed hlimits hlength hcandidate.bounded), ok_bind,
    call_ok (hquiet.within 2), hscored, ok_bind, checkBackend, checkWith_ok hquiet, ok_bind,
    verifyHit_scored hfinite hpositive]

end Answers

end Faithful

end EliotSearch.Corpus
