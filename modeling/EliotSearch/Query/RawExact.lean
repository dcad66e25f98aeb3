import EliotSearch.Query.Accounts
import EliotSearch.Query.Terminals
import Mathlib.Algebra.Group.Action.Defs

/-!
# Raw exact search

Literal raw-byte matching over one pinned committed source inventory.  Every
selected object is either scanned to its end or reported missing.
-/

namespace EliotSearch.Query

open EliotSearch.Control
open EliotSearch.Library
open EliotSearch.Library.Hex
open EliotSearch.Library.Json
open EliotSearch.Library.Results
open EliotSearch.Library.Utf8
open EliotSearch.Library.Words
open EliotSearch.Session

/-- A closed code; the refusal of its text is the failure. -/
def failureCode (text : Bytes) : Except QueryFailure FailureCode :=
  (FailureCode.new text).mapError fun error => .code error.code

def sourceMissing : FailureCode :=
  ⟨ascii "SOURCE_OBJECT_MISSING", by decide⟩

theorem failureCode_ok (code : FailureCode) : failureCode code.text = .ok code := by
  rw [failureCode, FailureCode.new, dif_pos code.valid]
  rfl

namespace RawExact

/-- The occurrence at a range of the bytes. -/
def found (source : RawSourceRef) (bytes : Bytes) (start stop : Nat) :
    Except QueryFailure RawExactItem := do
  refuse (stop < start ∨ stop > bytes.length) (.code (ascii "EVIDENCE_RANGE_INVALID"))
  return .matched {
    source
    start := UInt64.ofNat start
    stop := UInt64.ofNat stop
    bytesHex := hex ((bytes.take stop).drop start) }

def missing (source : RawSourceRef) : Except QueryFailure RawExactItem := do
  let code ← failureCode (ascii "SOURCE_OBJECT_MISSING")
  return .gap { source, code }

def scanSource (store : Store) (literal : Literal) (limit : Nat) (env : Env)
    (captured : CapturedSource) (result : RawExactResult) : Except QueryFailure RawExactResult := do
  check env 0
  let binding := sourceRef captured.source
  match readObject store (within env 1) captured.source.objectRef maxSourceObjectBytes with
  | .error .missing => result.addGap limit (missing binding)
  | .error .cancelled => .error .cancelled
  | .error .deadline => .error .deadline
  | .error error => .error (.code error.code)
  | .ok bytes => do
      let result ← literal.scan (within env 2) bytes
        (ExactResult.visit limit (found binding bytes)) result
      result.finishSource captured.source.objectRef.byteLength

def execute (store : Store) (env : Env) (view : PublishedView) (request : RawExactRequest) :
    Except QueryFailure RawExactResult :=
  executeWith rawKind (scanSource store) env view request

/-! ## What is reported -/

/-- The occurrence of a literal at a start. -/
def hitAt (source : CurrentSourceRecord) (literal : Bytes) (start : Nat) : RawExactItem :=
  .matched {
    source := sourceRef source
    start := UInt64.ofNat start
    stop := UInt64.ofNat (start + literal.length)
    bytesHex := hex literal }

/-- The occurrences in the bytes of an object that is present, or its gap. -/
def report (store : Store) (literal : Bytes) (captured : CapturedSource) : Report RawExactItem :=
  match store.find (nameOf captured.source.objectRef) with
  | some (.file bytes) => .scanned captured.source.objectRef.byteLength
      ((Patterns.occurrences literal bytes).map (hitAt captured.source literal))
  | _ => .gap (.gap ⟨sourceRef captured.source, sourceMissing⟩)

section Reports

variable {store : Store} {literal : Bytes} {captured : CapturedSource} {bytes : Bytes}

theorem report_holds (hholds : store.Holds captured.source.objectRef bytes) :
    report store literal captured = .scanned captured.source.objectRef.byteLength
      ((Patterns.occurrences literal bytes).map (hitAt captured.source literal)) := by
  rw [report, hholds.found]

theorem report_lacks (hlacks : store.Lacks captured.source.objectRef) :
    report store literal captured = .gap (.gap ⟨sourceRef captured.source, sourceMissing⟩) := by
  have hnone : store.find (nameOf captured.source.objectRef) = none := hlacks
  rw [report, hnone]

/-- The object is present with its exact bytes, or it is missing. -/
def Settled (store : Store) (captured : CapturedSource) : Prop :=
  (∃ bytes, store.Holds captured.source.objectRef bytes) ∨ store.Lacks captured.source.objectRef

theorem admissible_of_readable {source : CurrentSourceRecord} (hreadable : ReadableRecord source) :
    Admissible source.objectRef maxSourceObjectBytes := by
  obtain ⟨-, -, hversion, -, hbound⟩ := hreadable
  exact ⟨hversion, by decide, hbound, fun _ => hbound⟩

/-- An occurrence within the bytes is reported with the literal it spells. -/
theorem found_eq {start : Nat} (hliteral : literal ≠ [])
    (hstart : start ∈ Patterns.occurrences literal bytes) :
    found (sourceRef captured.source) bytes start (start + literal.length) =
      .ok (hitAt captured.source literal start) := by
  have hwithin := Patterns.occurrence_within hliteral hstart
  have hslice : (bytes.take (start + literal.length)).drop start = literal := by
    rw [List.drop_take, Nat.add_sub_cancel_left, Patterns.occurrence_slice hliteral hstart]
  have hrange : ¬ (start + literal.length < start ∨ start + literal.length > bytes.length) := by
    omega
  rw [found, refuse_of_not hrange, ok_bind, hslice, pure_eq_ok, hitAt]

theorem missing_eq (source : RawSourceRef) :
    missing source = .ok (.gap ⟨source, sourceMissing⟩) := by
  have hcode : failureCode (ascii "SOURCE_OBJECT_MISSING") = .ok sourceMissing :=
    failureCode_ok sourceMissing
  rw [missing, hcode, ok_bind, pure_eq_ok]

/-- The scan of a settled source adds its report. -/
theorem scanSource_ok {compiled : Literal} {limit : Nat} {env : Env}
    {reports : List (Report RawExactItem)} {result : RawExactResult}
    (hquiet : Undisturbed env) (hreadable : ReadableRecord captured.source)
    (hsettled : Settled store captured) (haccounts : Accounts limit reports result)
    (hcountable : Countable (reports ++ [report store compiled.bytes captured])) :
    scanSource store compiled limit env captured result =
      .ok (result.add limit (report store compiled.bytes captured)) := by
  have hadmissible := admissible_of_readable hreadable
  rw [scanSource, check_ok hquiet, ok_bind]
  dsimp only
  rcases hsettled with ⟨bytes, hholds⟩ | hlacks
  · rw [report_holds hholds] at hcountable ⊢
    rw [readObject_holds (hquiet.within 1) hadmissible hholds]
    exact scanned_ok (hquiet.within 2) (fun start hstart => found_eq compiled.nonempty hstart)
      haccounts hcountable
  · rw [report_lacks hlacks]
    rw [readObject_lacks (hquiet.within 1) hadmissible hlacks]
    exact addGap_ok (missing_eq _) haccounts

/-- A source whose scan succeeds is settled. -/
theorem scanSource_settled {compiled : Literal} {limit : Nat} {env : Env}
    {result next : RawExactResult}
    (hscan : scanSource store compiled limit env captured result = .ok next) :
    Settled store captured := by
  rw [scanSource] at hscan
  obtain ⟨_, -, hscan⟩ := bind_eq_ok.mp hscan
  dsimp only at hscan
  split at hscan
  · rename_i hread
    exact Or.inr (readObject_eq_missing hread)
  · cases hscan
  · cases hscan
  · cases hscan
  · rename_i bytes hread
    exact Or.inl ⟨bytes, (readObject_eq_ok hread).1⟩

/-- What a scan that succeeds adds. -/
theorem scanSource_eq_ok {compiled : Literal} {limit : Nat} {env : Env}
    {reports : List (Report RawExactItem)} {result next : RawExactResult}
    (haccounts : Accounts limit reports result)
    (hcountable : Countable (reports ++ [report store compiled.bytes captured]))
    (hscan : scanSource store compiled limit env captured result = .ok next) :
    next = result.add limit (report store compiled.bytes captured) := by
  rw [scanSource] at hscan
  obtain ⟨_, -, hscan⟩ := bind_eq_ok.mp hscan
  dsimp only at hscan
  split at hscan
  · rename_i hread
    rw [report_lacks (readObject_eq_missing hread)]
    exact Except.ok.inj (hscan.symm.trans (addGap_ok (missing_eq _) haccounts))
  · cases hscan
  · cases hscan
  · cases hscan
  · rename_i bytes hread
    have hholds := (readObject_eq_ok hread).1
    rw [report_holds hholds] at hcountable ⊢
    exact scanned_eq_ok (fun start hstart => found_eq compiled.nonempty hstart) haccounts
      hcountable hscan

/-! ## The reports are honest -/

theorem toNat_ofNat_start {start : Nat} {source : CurrentSourceRecord}
    (hlength : bytes.length = source.objectRef.byteLength.toNat) (hstart : start ≤ bytes.length) :
    (UInt64.ofNat start).toNat = start := by
  have hword := source.objectRef.byteLength.toNat_lt
  exact UInt64.toNat_ofNat_of_lt' (by simp only [UInt64.size]; omega)

section Hits

variable {text : Text} {start : Nat}

/-- The width of an occurrence is the length of its literal. -/
theorem hit_width (hliteral : literal ≠ [])
    (hlength : bytes.length = captured.source.objectRef.byteLength.toNat)
    (hstart : start ∈ Patterns.occurrences literal bytes) :
    UInt64.ofNat start < UInt64.ofNat (start + literal.length) ∧
      UInt64.ofNat (start + literal.length) ≤ captured.source.objectRef.byteLength ∧
      (UInt64.ofNat (start + literal.length) - UInt64.ofNat start).toNat = literal.length := by
  have hwithin := Patterns.occurrence_within hliteral hstart
  have hpositive := List.length_pos_iff.mpr hliteral
  have hfirst := toNat_ofNat_start hlength (Nat.le_of_add_right_le hwithin)
  have hlast := toNat_ofNat_start hlength hwithin
  have hless : UInt64.ofNat start < UInt64.ofNat (start + literal.length) := by
    rw [UInt64.lt_iff_toNat_lt, hfirst, hlast]
    omega
  refine ⟨hless, ?_, ?_⟩
  · rw [UInt64.le_iff_toNat_le, hlast]
    omega
  · rw [UInt64.toNat_sub_of_le _ _ (UInt64.le_of_lt hless), hfirst, hlast]
    omega

theorem hit_valid (hreadable : ReadableRecord captured.source) (hnamed : Named captured.source)
    (hliteral : literal ≠ []) (hbound : literal.length ≤ maxQueryBytes)
    (hlength : bytes.length = captured.source.objectRef.byteLength.toNat)
    (hstart : start ∈ Patterns.occurrences literal bytes) :
    (hitAt captured.source literal start).validate = .ok () := by
  obtain ⟨hless, hstop, hwidth⟩ := hit_width hliteral hlength hstart
  have hsource : (sourceRef captured.source).validate = .ok () :=
    sourceRef_valid hreadable hnamed
  change ((sourceRef captured.source).validate >>= fun _ => refuse _ _) = _
  rw [hsource, ok_bind]
  refine refuse_of_not ?_
  dsimp only
  rw [hwidth]
  rintro (hbad | hbad | hbad | hbad)
  · exact absurd hless (UInt64.not_lt.mpr hbad)
  · exact absurd hstop (UInt64.not_le.mpr hbad)
  · exact absurd hbound (not_le.mpr hbad)
  · exact hbad (lowerHex_hex rfl)

theorem hit_spells (hliteral : text.bytes ≠ [])
    (hlength : bytes.length = captured.source.objectRef.byteLength.toNat)
    (hstart : start ∈ Patterns.occurrences text.bytes bytes) :
    (hitAt captured.source text.bytes start).spells text = true := by
  obtain ⟨-, -, hwidth⟩ := hit_width hliteral hlength hstart
  refine decide_eq_true ⟨hwidth, fun pair hmem => ?_⟩
  rw [pairs_hex, List.zip_map_left] at hmem
  obtain ⟨⟨left, right⟩, hpair, rfl⟩ := List.mem_map.mp hmem
  have hsame : left = right := by
    rw [List.zip_eq_zipWith, List.zipWith_self, List.mem_map] at hpair
    obtain ⟨byte, -, heq⟩ := hpair
    obtain ⟨rfl, rfl⟩ := Prod.mk.inj heq
    rfl
  exact congrArg Hex.hexByte hsame

end Hits

/-- The report of a settled source is honest. -/
theorem report_honest {text : Text} (hreadable : ReadableRecord captured.source)
    (hnamed : Named captured.source) (hliteral : text.bytes ≠ [])
    (hbound : text.bytes.length ≤ maxQueryBytes) (hsettled : Settled store captured) :
    (report store text.bytes captured).Honest rawKind text (sourceRef captured.source) := by
  rcases hsettled with ⟨bytes, hholds⟩ | hlacks
  · rw [report_holds hholds]
    have hlength := hholds.length
    refine ⟨?_, ?_, ?_, ?_, ?_⟩
    · rintro item hmem
      obtain ⟨start, -, rfl⟩ := List.mem_map.mp hmem
      rfl
    · rintro item hmem
      obtain ⟨start, hstart, rfl⟩ := List.mem_map.mp hmem
      exact hit_valid hreadable hnamed hliteral hbound hlength hstart
    · rintro item hmem
      obtain ⟨start, hstart, rfl⟩ := List.mem_map.mp hmem
      exact hit_spells hliteral hlength hstart
    · rintro item hmem
      obtain ⟨start, -, rfl⟩ := List.mem_map.mp hmem
      rfl
    · refine List.pairwise_map.mpr ((Patterns.occurrences_sorted _ _).imp_of_mem ?_)
      intro first second hfirst hsecond hless
      refine decide_eq_true ?_
      have hleft := Patterns.occurrence_within hliteral hfirst
      have hright := Patterns.occurrence_within hliteral hsecond
      rw [UInt64.lt_iff_toNat_lt, toNat_ofNat_start hlength (Nat.le_of_add_right_le hleft),
        toNat_ofNat_start hlength (Nat.le_of_add_right_le hright)]
      exact hless
  · rw [report_lacks hlacks]
    refine ⟨?_, ?_, ?_, ?_, List.pairwise_singleton _ _⟩
    · rintro item hmem
      obtain rfl := List.mem_singleton.mp hmem
      rfl
    · rintro item hmem
      obtain rfl := List.mem_singleton.mp hmem
      have hsource : (sourceRef captured.source).validate = .ok () :=
        sourceRef_valid hreadable hnamed
      change ((sourceRef captured.source).validate >>= _) = _
      rw [hsource]
      rfl
    · rintro item hmem
      obtain rfl := List.mem_singleton.mp hmem
      rfl
    · rintro item hmem
      obtain rfl := List.mem_singleton.mp hmem
      rfl

/-- A report finds no more occurrences than it scans bytes. -/
theorem report_bounded (hreadable : ReadableRecord captured.source)
    (hsettled : Settled store captured) :
    (report store literal captured).found ≤ (report store literal captured).bytes ∧
      (report store literal captured).bytes ≤ maxSourceObjectBytes.toNat := by
  obtain ⟨-, -, -, -, hbound⟩ := hreadable
  rcases hsettled with ⟨bytes, hholds⟩ | hlacks
  · rw [report_holds hholds]
    have hcount := Patterns.occurrences_length_le literal bytes
    rw [hholds.length] at hcount
    refine ⟨?_, UInt64.le_iff_toNat_le.mp hbound⟩
    rw [Report.found, List.length_map]
    exact hcount
  · rw [report_lacks hlacks]
    exact ⟨Nat.le_refl 0, Nat.zero_le _⟩

end Reports

theorem reports_countable {store : Store} {literal : Bytes} {sources : List CapturedSource}
    (hinventory : Inventory sources) (hsettled : ∀ captured ∈ sources, Settled store captured) :
    Countable (sources.map (report store literal)) := by
  refine countable_map hinventory.bounded fun captured hmem => ?_
  exact report_bounded (hinventory.coherent captured hmem).readable (hsettled captured hmem)

/-- The accounts of a raw search that succeeds are those of the selected sources. -/
theorem execute_eq_ok {env : Env} {view : PublishedView} {store : Store}
    {inventory : List CapturedSource} {request : RawExactRequest} {result : RawExactResult}
    (hinventory : view.sourceInventory (within env 2) = .ok inventory)
    (hresult : execute store env view request = .ok result) :
    Exhaustive request.limit.toNat view.generation.sequence
      ((selection request.sourceIds inventory).map (report store request.literal.bytes)) result := by
  have hselected := (inventory_of_view hinventory).sublist
    (selection_sublist request.sourceIds inventory)
  obtain ⟨literal, found, last, -, -, hfound, -, hlast, -⟩ := executeWith_eq_ok hresult
  obtain rfl := Except.ok.inj (hfound.symm.trans hinventory)
  have hsettled : ∀ captured ∈ selection request.sourceIds found, Settled store captured := by
    intro captured hmem
    obtain ⟨_, _, _, hscan⟩ := scanSources_each hlast captured hmem
    exact scanSource_settled hscan
  refine (executeWith_exhaustive hresult hinventory (reports_countable hselected hsettled) ?_).1
  intro literal hliteral captured hmem env reports result next haccounts hcountable hscan
  rw [← hliteral] at hcountable ⊢
  exact scanSource_eq_ok haccounts hcountable hscan

/-- A raw search whose selected objects are present or missing succeeds.  It
accounts for every selected source, keeps the first items of all occurrences and
gaps in source and byte order, passes the check made of it and fits in a frame. -/
theorem execute_exhaustive {env pinning reading : Env} {db : Db} {view : PublishedView}
    {store : Store} {inventory : List CapturedSource} (request : RawExactRequest)
    (scoreText : Score → Bytes) (hquiet : Undisturbed env)
    (hpinned : pinPublished pinning db = .ok view)
    (hinventory : view.sourceInventory reading = .ok inventory)
    (hnamed : ∀ captured ∈ inventory, Named captured.source)
    (hrequest : request.validate = .ok ()) (hpublished : Published request.sourceIds inventory)
    (hstore : ∀ captured ∈ selection request.sourceIds inventory, Settled store captured) :
    let reports := (selection request.sourceIds inventory).map (report store request.literal.bytes)
    (reports.flatMap Report.items).Pairwise rawKind.InOrder ∧
      ∃ result, execute store env view request = .ok result ∧
        Exhaustive request.limit.toNat view.generation.sequence reports result ∧
        RawExactResult.validateRequest request result = .ok () ∧
        ∃ frame, prepareRawExact scoreText queryRequestId result = .ok frame ∧
          frame.length ≤ maxFrameBytes := by
  have hselected := (inventory_of_view hinventory).sublist
    (selection_sublist request.sourceIds inventory)
  obtain ⟨hliteral, hbound, -, -, -⟩ := LiteralRequest.valid_of_validate hrequest
  have hhonest : ∀ captured ∈ selection request.sourceIds inventory,
      (report store request.literal.bytes captured).Honest rawKind request.literal
        (sourceRef captured.source) := by
    intro captured hmem
    exact report_honest (hselected.coherent captured hmem).readable
      (hnamed captured ((selection_sublist _ _).subset hmem)) hliteral hbound (hstore captured hmem)
  have hscan : ∀ literal : Literal, literal.bytes = request.literal.bytes →
      ∀ captured ∈ selection request.sourceIds inventory, ∀ env reports result, Undisturbed env →
      Accounts request.limit.toNat reports result →
      Countable (reports ++ [report store request.literal.bytes captured]) →
      scanSource store literal request.limit.toNat env captured result =
        .ok (result.add request.limit.toNat (report store request.literal.bytes captured)) := by
    intro literal hbytes captured hmem env reports result hquiet haccounts hcountable
    rw [← hbytes] at hcountable ⊢
    exact scanSource_ok hquiet (hselected.coherent captured hmem).readable (hstore captured hmem)
      haccounts hcountable
  obtain ⟨result, hresult, hexhaustive, hvalid⟩ :=
    executeWith_ok hquiet (pinned_sequence hpinned) hinventory hrequest hpublished hhonest
      (reports_countable hselected hstore) hscan
  have hchecked : rawKind.validateResult request.limit result = .ok () := by
    simp only [Kind.validateRequest, bind_eq_ok] at hvalid
    obtain ⟨_, -, _, hchecked, -⟩ := hvalid
    exact hchecked
  have hinOrder := items_inOrder rawKind hselected
    (fun captured hmem => (hhonest captured hmem).source)
    (fun captured hmem => (hhonest captured hmem).ordered)
  exact ⟨hinOrder, result, hresult, hexhaustive, hvalid, prepareRawExact_ok scoreText hchecked⟩

/-! ## A search of one present and one missing object -/

namespace Sample

def namespaceId : Octets 16 := Octets.replicate 16 1

def abc : Bytes := ascii "abc"

/-- The digest of the three bytes. -/
def abcDigest : Blake3Digest32 :=
  (Octets.ofBytes? 32 ((unhex (ascii
    "6437b3ac38465133ffb63b75273a8db548c558465d79db03fd359c6cd5bd9d85")).getD [])).getD
      (Octets.replicate 32 0)

/-- The digest of no bytes. -/
def emptyDigest : Blake3Digest32 :=
  ⟨(unhex (ascii "af1349b9f5f9a1a6a0404dea36dcc9499bcb25c9adc112b7cc9a93cae41f3262")).getD [],
    by decide⟩

/-- The entry of a source that was not prepared. -/
def entry (id : UInt8) (object : ObjectRef) : SourceEntry where
  captured :=
    { source := ⟨namespaceId, ⟨List.replicate 16 id, rfl⟩, 1, 1, Control.Sample.source.locator,
        Control.Sample.source.fileKey, object⟩
      preparation := ⟨namespaceId, ⟨List.replicate 16 id, rfl⟩, 1, .default, 1,
        some ⟨1, 1, object, .default, .gap .binaryContent⟩⟩ }
  stagedUnits := 0
  complete := true

def present : SourceEntry := entry 2 ⟨1, .source, abcDigest, 3⟩

def absent : SourceEntry := entry 3 ⟨1, .source, emptyDigest, 0⟩

def row (entry : SourceEntry) : Bytes × Bytes :=
  (key 1 entry.id.bytes, (encodeSource entry).toOption.getD [])

def generation : Generation := ⟨namespaceId, 1, 2, 2, 2, 0, 0⟩

def state : State := ⟨1, some namespaceId, 1, 1, some generation, none⟩

def tables : Db :=
  { Db.empty with
    generationSources := some (.ofList [row present, row absent])
    generationPages := some ∅
    generationEvidence := some ∅ }

def db : Db := tables.withState state

def view : PublishedView := ⟨generation, db⟩

/-- A directory that has only the first object. -/
def store : Store where
  find name := if name = nameOf present.captured.source.objectRef then some (.file abc) else none
  hash bytes := if bytes = abc then abcDigest else emptyDigest

def request : RawExactRequest := ⟨⟨ascii "b", by decide⟩, none, 8⟩

theorem state_readable : state.Readable := by
  refine ⟨rfl, by decide, by decide, ?_, ?_, by decide⟩
  · rintro current hcurrent
    obtain rfl := Option.some.inj hcurrent
    decide
  · rintro pending ⟨⟩

/-- The sample generation is pinned. -/
theorem pinned : pinPublished Env.quiet db = .ok view := by
  have hstate : readState db = .ok state := readState_withState tables state_readable
  have hcheck (site : Nat) : Env.quiet.check publicationFault site = .ok () := rfl
  rw [pinPublished, hcheck, ok_bind, hstate, ok_bind]
  rfl

theorem inventory_eq :
    view.sourceInventory Env.quiet = .ok [present.captured, absent.captured] := by
  decide +kernel

end Sample

theorem execute_exhaustive_sample :
    ∃ result, execute Sample.store Env.quiet Sample.view Sample.request = .ok result ∧
      result.foundMatches.toNat = 1 ∧ result.gapSources.toNat = 1 ∧
      RawExactResult.validateRequest Sample.request result = .ok () := by
  have hstore : ∀ captured ∈ selection none [Sample.present.captured, Sample.absent.captured],
      Settled Sample.store captured := by
    intro captured hmem
    rcases List.mem_cons.mp ((selection_sublist _ _).subset hmem) with rfl | hmem
    · exact Or.inl ⟨Sample.abc, by decide +kernel, by decide +kernel, by decide +kernel⟩
    · obtain rfl := List.mem_singleton.mp hmem
      exact Or.inr (by decide +kernel : Sample.store.find _ = none)
  obtain ⟨-, result, hresult, hexhaustive, hvalid, -⟩ :=
    execute_exhaustive Sample.request (fun _ => ascii "1.0") undisturbed_quiet Sample.pinned
      Sample.inventory_eq (by decide +kernel) (by decide +kernel) (by rintro _ ⟨⟩) hstore
  exact ⟨result, hresult, hexhaustive.accounts.found.trans (by decide +kernel),
    hexhaustive.accounts.gaps.trans (by decide +kernel), hvalid⟩

end RawExact

end EliotSearch.Query
