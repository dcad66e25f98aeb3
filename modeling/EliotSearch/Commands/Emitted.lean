import EliotSearch.Commands.Accepted
import EliotSearch.Control.Attempts
import Mathlib.Algebra.Order.BigOperators.Group.List

/-!
# Emitted responses

What the daemon composes: the members of a response, the bytes they take at most,
and the preparation and the generation they are taken from.  Every line that leaves
the daemon is one that the validators accept.
-/

namespace EliotSearch.Commands

open EliotSearch.Control
open EliotSearch.Library
open EliotSearch.Library.Hex
open EliotSearch.Library.Json
open EliotSearch.Library.Results
open EliotSearch.Library.Utf8
open EliotSearch.Preparation
open EliotSearch.Query

namespace Preparing

open PreparedResponse

/-! ## Composed members -/

section Assignments

variable (source : CurrentSourceRecord) (state : CurrentPreparation)
  (artifact gapReason representation status found count value : Value)

theorem base_eq : base source state =
    members source state .null .null .null (.string (Value.literal "gap")) .null .null :=
  rfl

theorem members_set_artifact :
    (members source state artifact gapReason representation status found count).set "artifact"
      value = members source state value gapReason representation status found count := by
  have hhead (old : Value) (others : List (String × Value)) :
      insertMember "artifact" value (("artifact", old) :: others) = ("artifact", value) :: others :=
    if_pos rfl
  exact congrArg Value.object (hhead artifact _)

theorem members_set_gap :
    (members source state artifact gapReason representation status found count).set "gap" value =
      members source state artifact value representation status found count := by
  simp only [members, Value.set, insertMember, String.reduceEq, String.reduceLT, if_true, if_false]

theorem members_set_representation :
    (members source state artifact gapReason representation status found count).set
      "representation_bytes" value =
      members source state artifact gapReason value status found count := by
  simp only [members, Value.set, insertMember, String.reduceEq, String.reduceLT, if_true, if_false]

theorem members_set_state :
    (members source state artifact gapReason representation status found count).set "state" value =
      members source state artifact gapReason representation value found count := by
  simp only [members, Value.set, insertMember, String.reduceEq, String.reduceLT, if_true, if_false]

theorem members_set_unit :
    (members source state artifact gapReason representation status found count).set "unit" value =
      members source state artifact gapReason representation status value count := by
  simp only [members, Value.set, insertMember, String.reduceEq, String.reduceLT, if_true, if_false]

theorem members_set_count :
    (members source state artifact gapReason representation status found count).set "unit_count"
      value = members source state artifact gapReason representation status found value := by
  simp only [members, Value.set, insertMember, String.reduceEq, String.reduceLT, if_true, if_false]

end Assignments

/-! ## Sizes -/

/-- What a composed value takes: its names ascend, it is nested at most so deep and
its spelling has at most so many bytes. -/
structure Sized (value : Value) (depth budget : Nat) : Prop where
  ordered : value.Ordered
  depth_le : value.depth ≤ depth
  budget_le : value.budget ≤ budget

theorem sized_null : Sized .null 0 4 :=
  ⟨trivial, le_rfl, le_rfl⟩

theorem sized_number (value : UInt64) : Sized (.number value) 0 20 :=
  ⟨trivial, le_rfl, le_rfl⟩

theorem sized_bool (value : Bool) : Sized (.bool value) 0 5 :=
  ⟨trivial, le_rfl, le_rfl⟩

theorem sized_string (text : Text) : Sized (.string text) 0 (6 * text.bytes.length + 2) :=
  ⟨trivial, le_rfl, le_rfl⟩

theorem Sized.mono {value : Value} {depth budget deeper larger : Nat}
    (hsized : Sized value depth budget) (hdepth : depth ≤ deeper) (hbudget : budget ≤ larger) :
    Sized value deeper larger :=
  ⟨hsized.ordered, hsized.depth_le.trans hdepth, hsized.budget_le.trans hbudget⟩

/-- An object takes what its names and its members take. -/
theorem sized_object {members : List (String × Value)} {depth budget nameBytes : Nat}
    (names : List String) (bounds : List Nat) (hmembers : members.map Prod.fst = names)
    (hnames : ascending none names = true ∧ namesBudget names = nameBytes)
    (hvalues : List.Forall₂ (fun member bound => Sized member.2 depth bound) members bounds)
    (hbudget : 2 + nameBytes + bounds.sum ≤ budget) :
    Sized (.object members) (depth + 1) budget := by
  subst hmembers
  have hall : ∀ member ∈ members, member.2.Ordered ∧ member.2.depth ≤ depth := by
    clear hbudget hnames
    induction hvalues with
    | nil => exact fun member hmem => absurd hmem List.not_mem_nil
    | cons hvalue _ ih =>
        rw [List.forall_mem_cons]
        exact ⟨⟨hvalue.ordered, hvalue.depth_le⟩, ih⟩
  have hsum : (members.map fun member => member.2.budget).sum ≤ bounds.sum := by
    refine List.Forall₂.sum_le_sum ?_
    rw [List.forall₂_map_left_iff]
    exact hvalues.imp fun _ _ hvalue => hvalue.budget_le
  constructor
  · rw [Value.Ordered]
    exact orderedMembers_of hnames.1 fun member hmem => (hall member hmem).1
  · rw [Value.depth, Nat.add_comm]
    exact Nat.succ_le_succ (membersDepth_le fun member hmem => (hall member hmem).2)
  · rw [budget_object, hnames.2]
    exact (Nat.add_le_add_left hsum _).trans hbudget

theorem sized_hexText (digest : Blake3Digest32) : Sized (.string (hexText digest.bytes)) 0 386 := by
  have hlength : (hexText digest.bytes).bytes.length = 64 := by
    change (hex digest.bytes).length = 64
    rw [hex_length, digest.length_eq]
  have hsized := sized_string (hexText digest.bytes)
  rw [hlength] at hsized
  exact hsized

theorem sized_idText (id : Octets 16) : Sized (.string (idText id)) 0 218 := by
  have hlength : (idText id).bytes.length = 36 := (grouped_uuidText id).1
  have hsized := sized_string (idText id)
  rw [hlength] at hsized
  exact hsized

theorem sized_kindText (kind : ObjectKind) :
    Sized (.string (Value.literal (kindText kind))) 0 50 := by
  refine (sized_string _).mono le_rfl ?_
  cases kind <;> decide

theorem sized_objectJson (reference : ObjectRef) : Sized (objectJson reference) 1 516 := by
  refine sized_object ["bytes", "digest", "kind", "version"] [20, 386, 50, 20] rfl
    (?_ : _ ∧ _ = 38) ?_ ?_
  · decide +kernel
  · exact .cons (sized_number _) <| .cons (sized_hexText _) <| .cons (sized_kindText _) <|
      .cons (sized_number _) .nil
  · decide

theorem sized_settingsJson (settings : PreparationSettings) :
    Sized (settingsJson settings) 1 165 := by
  refine sized_object ["line_unitizer_version", "max_unit_bytes", "preferred_unit_bytes",
      "utf8_version"] [20, 20, 20, 20] rfl (?_ : _ ∧ _ = 83) ?_ ?_
  · decide +kernel
  · exact .cons (sized_number _) <| .cons (sized_number _) <| .cons (sized_number _) <|
      .cons (sized_number _) .nil
  · decide

theorem sized_unitJson (ordinal : UInt64) (unit : UnitSpan) (text : Text) :
    Sized (unitJson ordinal unit text) 1 (227 + 6 * text.bytes.length) := by
  refine sized_object ["end", "ends_at_line_boundary", "line_end", "line_start", "ordinal",
      "start", "starts_at_line_boundary", "text"]
    [20, 5, 20, 20, 20, 20, 5, 6 * text.bytes.length + 2] rfl (?_ : _ ∧ _ = 113) ?_ ?_
  · decide +kernel
  · exact .cons (sized_number _) <| .cons (sized_bool _) <| .cons (sized_number _) <|
      .cons (sized_number _) <| .cons (sized_number _) <| .cons (sized_number _) <|
      .cons (sized_bool _) <| .cons (sized_string _) .nil
  · simp only [List.sum_cons, List.sum_nil]
    omega

/-- A response is nested twice, and what its unit does not take is bounded. -/
theorem sized_members (source : CurrentSourceRecord) (state : CurrentPreparation)
    {artifact gapReason representation status found count : Value} {unitBudget : Nat}
    (hartifact : Sized artifact 1 516) (hgap : Sized gapReason 0 104)
    (hrepresentation : Sized representation 0 20) (hstatus : Sized status 0 32)
    (hfound : Sized found 1 unitBudget) (hcount : Sized count 0 20) :
    Sized (members source state artifact gapReason representation status found count) 2
      (2210 + unitBudget) := by
  have hflat {value : Value} {budget : Nat} (hsized : Sized value 0 budget) :
      Sized value 1 budget := hsized.mono (Nat.zero_le 1) le_rfl
  have hoperation : Sized (.string (Value.literal "prepare-source")) 0 86 :=
    (sized_string _).mono le_rfl (by decide)
  refine sized_object ["artifact", "gap", "input", "operation", "outcome_revision",
      "registration_revision", "representation_bytes", "settings", "settings_revision",
      "source_id", "source_namespace_id", "source_row_revision", "state", "unit",
      "unit_count"]
    [516, 104, 516, 86, 20, 20, 20, 165, 20, 218, 218, 20, 32, unitBudget, 20] rfl
    (?_ : _ ∧ _ = 233) ?_ ?_
  · decide +kernel
  · exact .cons hartifact <| .cons (hflat hgap) <| .cons (sized_objectJson _) <|
      .cons (hflat hoperation) <| .cons (hflat (sized_number _)) <|
      .cons (hflat (sized_number _)) <| .cons (hflat hrepresentation) <|
      .cons (sized_settingsJson _) <| .cons (hflat (sized_number _)) <|
      .cons (hflat (sized_idText _)) <| .cons (hflat (sized_idText _)) <|
      .cons (hflat (sized_number _)) <| .cons (hflat hstatus) <| .cons hfound <|
      .cons (hflat hcount) .nil
  · simp only [List.sum_cons, List.sum_nil]
    omega

/-! ## Units of a view -/

section View

variable {hash : Bytes → Blake3Digest32} {env : Env} {artifact : Bytes}
  {source : CurrentSourceRecord} {settings : PreparationSettings} {view : PreparedUtf8}

/-- A text cut from a unit of an accepted artifact is acceptable. -/
theorem unitFits_of_decode {unit : UnitSpan} {text : Text}
    (hdecode : decodePreparedUtf8 hash env artifact source settings limits = .ok view)
    (hmem : unit ∈ view.units)
    (htext : view.text.get unit.sourceStart unit.sourceEnd = some text) :
    UnitFits unit text source.objectRef.byteLength.toNat settings.maxUnitBytes.toNat := by
  obtain ⟨-, -, hlength, hcover, hplaced⟩ := decodePreparedUtf8_accepted hdecode
  obtain ⟨position, hdescribes⟩ := hcover.describes unit hmem
  have hstart := hdescribes.start_eq
  have hnonempty := hdescribes.nonempty
  have hbounded := hdescribes.bounded
  have hsize : view.text.bytes.length < 2 ^ 64 := by
    rw [hlength]
    exact source.objectRef.byteLength.toNat_lt
  constructor
  · rw [hstart]
    exact hnonempty
  · rw [← hlength]
    exact hbounded
  · rw [hstart]
    exact hdescribes.fits
  · rw [(Text.get_eq_some.mp htext).2.2.2, List.length_drop, List.length_take,
      Nat.min_eq_left hbounded]
  · exact (hplaced unit hmem).lines_lt (linesOf_areLines _) (by rw [hstart]; exact hnonempty)
  · exact hdescribes.representable hsize

end View

/-! ## Responses -/

/-- The size of the largest response. -/
def responseBudget : Nat := 2437 + 6 * maxPreparationUnitBytes.toNat

/-- A response that the command line accepts. -/
structure Answer (value : Value) (source : Bytes) (ordinal : UInt64) : Prop where
  accepted : validateValue value source ordinal = some ()
  sized : Sized value 2 responseBudget

section Answers

variable {source : CurrentSourceRecord} {state : CurrentPreparation} {ordinal : UInt64}
  {value : Value}

theorem sized_status {status : String} (hlength : (Value.literal status).bytes.length ≤ 5) :
    Sized (.string (Value.literal status)) 0 32 :=
  (sized_string _).mono le_rfl (by omega)

/-- A gap is answered in a way that is accepted. -/
theorem gap_answer (hshowable : Showable source state) (reason : PreparationGap) :
    Answer ((base source state).set "gap" (.string (Value.literal (gapCode reason))))
      (uuidText source.sourceId) ordinal := by
  have hreason : Sized (.string (Value.literal (gapCode reason))) 0 104 :=
    (sized_string _).mono le_rfl (by cases reason <;> decide)
  rw [base_eq, members_set_gap]
  constructor
  · exact validateValue_gap hshowable reason ordinal
  · refine (sized_members source state (sized_null.mono (Nat.zero_le 1) (by decide)) hreason
      (sized_null.mono le_rfl (by decide)) (sized_status (by decide))
      (sized_null.mono (Nat.zero_le 1) le_rfl) (sized_null.mono le_rfl (by decide))).mono le_rfl ?_
    decide

/-- A response with a representation answers for the requested unit, or for a
representation without units. -/
theorem readyResponse_cases {artifact : ObjectRef} {view : PreparedUtf8}
    (hready : readyResponse source state artifact view ordinal = .ok value) :
    (view.text.bytes = [] ∧ ordinal = 0 ∧
      value = members source state (objectJson artifact) .null (.number 0)
        (.string (Value.literal "empty")) .null (.number 0)) ∨
    ∃ unit text, view.units[ordinal.toNat]? = some unit ∧
      view.text.get unit.sourceStart unit.sourceEnd = some text ∧
      value = members source state (objectJson artifact) .null
        (.number (UInt64.ofNat view.text.bytes.length)) (.string (Value.literal "ready"))
        (unitJson ordinal unit text) (.number (UInt64.ofNat view.units.length)) := by
  rw [readyResponse, base_eq, members_set_artifact, members_set_representation,
    members_set_count] at hready
  split at hready
  · rename_i hunits
    simp only [bind_eq_ok, refuse_eq_ok, not_not, pure_eq_ok, Except.ok.injEq] at hready
    obtain ⟨_, htext, _, hordinal, rfl⟩ := hready
    refine Or.inl ⟨htext, hordinal, ?_⟩
    rw [members_set_state, htext, hunits]
    rfl
  · simp only [bind_eq_ok, okOr_eq_ok, pure_eq_ok, Except.ok.injEq] at hready
    obtain ⟨unit, hunit, text, htext, rfl⟩ := hready
    refine Or.inr ⟨unit, text, hunit, htext, ?_⟩
    rw [members_set_state, members_set_unit]

theorem ready_answer {hash : Bytes → Blake3Digest32} {env : Env} {stored : Bytes}
    {artifact : ObjectRef} {view : PreparedUtf8} (hshowable : Showable source state)
    (hfits : ArtifactFits artifact)
    (hdecode : decodePreparedUtf8 hash env stored source state.settings limits = .ok view)
    (hready : readyResponse source state artifact view ordinal = .ok value) :
    Answer value (uuidText source.sourceId) ordinal := by
  have hlength := (decodePreparedUtf8_accepted hdecode).length
  have hword : UInt64.ofNat view.text.bytes.length = source.objectRef.byteLength := by
    rw [hlength, UInt64.ofNat_toNat]
  have hartifact := sized_objectJson artifact
  have hnone : Sized .null 0 104 := sized_null.mono le_rfl (by decide)
  rcases readyResponse_cases hready with ⟨htext, rfl, rfl⟩ | ⟨unit, text, hunit, htext, rfl⟩
  · have hempty : source.objectRef.byteLength = 0 := by
      rw [← hword, htext]
      rfl
    constructor
    · exact validateValue_empty hshowable hfits hempty
    · refine (sized_members source state hartifact hnone (sized_number 0)
        (sized_status (by decide)) (sized_null.mono (Nat.zero_le 1) le_rfl)
        (sized_number 0)).mono le_rfl ?_
      decide
  · obtain ⟨hordinal, -⟩ := List.getElem?_eq_some_iff.mp hunit
    have hfitted := unitFits_of_decode hdecode (List.mem_of_getElem? hunit) htext
    have hunits := decodePreparedUtf8_units_le hdecode
    have hcount : (UInt64.ofNat view.units.length).toNat = view.units.length :=
      UInt64.toNat_ofNat_of_lt' (Nat.lt_of_le_of_lt hunits (by decide))
    rw [hword]
    constructor
    · refine validateValue_ready hshowable hfits ?_ ?_ hfitted
      · rw [UInt64.lt_iff_toNat_lt, hcount]
        exact hordinal
      · rw [UInt64.le_iff_toNat_le, hcount]
        exact hunits
    · have hsupported := UInt32.le_iff_toNat_le.mp hshowable.supported.2.2.2.2
      have htextLength := hfitted.text_length
      have hfits := hfitted.fits
      refine (sized_members source state hartifact hnone (sized_number _)
        (sized_status (by decide)) (sized_unitJson ordinal unit text)
        (sized_number _)).mono le_rfl ?_
      rw [responseBudget]
      omega

end Answers

/-! ## Verified preparations -/

/-- What a preparation has established when it succeeds. -/
structure Established (id : SourceId) (prepared : PreparedSource) : Prop where
  named : prepared.source.sourceId = id
  readable : ReadableRecord prepared.source
  valid : prepared.current.validate = .ok ()
  stored : ∀ stored ∈ prepared.storedArtifact, Admissible stored.1 (64 * 1024 * 1024)

theorem capturePreparation_eq_ok {meeting : Meeting} {id : SourceId} {capture : PreparationCapture}
    (hcapture : capturePreparation meeting id = .ok capture) :
    capture.source.sourceId = id ∧ ReadableRecord capture.source := by
  simp only [capturePreparation, readPreparation, captureView, bind_eq_ok, refuse_eq_ok,
    okOr_eq_ok, mapError_eq_ok, pure_eq_ok, Except.ok.injEq] at hcapture
  obtain ⟨_, ⟨_, _, _, _, _, _, found, hfound, source, rfl, _, _, _, _, _, _, _, _, _, _, _, _, rfl⟩,
    _, _, rfl⟩ := hcapture
  obtain ⟨hsource, hid⟩ := Registry.readSourceById_eq_ok hfound
  obtain ⟨_, -, hdecode⟩ := recordAt_eq_some.mp hsource
  exact ⟨hid, decodeRecord_readable hdecode⟩

theorem preparationHeld_valid {db : Db} {row : CurrentPreparation} (hheld : PreparationHeld db row) :
    row.validate = .ok () := by
  unfold PreparationHeld storedPreparation at hheld
  split at hheld
  · cases hheld
  · simp only [bind_eq_ok, pure_eq_ok, Except.ok.injEq, Option.some.injEq] at hheld
    obtain ⟨found, hdecode, rfl⟩ := hheld
    exact CurrentPreparation.decode_valid hdecode

/-- A committed row is one that its decoder accepts. -/
theorem commit_valid {meeting : Meeting} {writer : Bool} {capture : PreparationCapture}
    {result : PreparationOutcome} {row : CurrentPreparation}
    (hcommit : commit meeting writer capture result = .ok row) : row.validate = .ok () := by
  unfold commit at hcommit
  rw [mapError_eq_ok] at hcommit
  cases writer with
  | true =>
      rw [if_pos rfl, commitPreparation] at hcommit
      obtain ⟨next, hattempt, -⟩ := settle_acknowledged hcommit
      exact preparationHeld_valid (commitPreparationTransaction_asked hattempt).1
  | false =>
      rw [if_neg Bool.false_ne_true] at hcommit
      exact preparationHeld_valid (commitPreparationCall_held hcommit).1

theorem Meeting.read_admissible {meeting : Meeting} {call : Nat} {reference : ObjectRef}
    {maximum : UInt64} {bytes : Bytes} (hread : meeting.read call reference maximum = .ok bytes) :
    Admissible reference maximum := by
  rw [Meeting.read, mapError_eq_ok] at hread
  exact (readObject_eq_ok hread).2

theorem prepareGap_established {meeting : Meeting} {writer : Bool} {capture : PreparationCapture}
    {reason : PreparationGap} {prepared : PreparedSource}
    (hreadable : ReadableRecord capture.source)
    (hprepare : prepareGap meeting writer capture reason = .ok prepared) :
    Established capture.source.sourceId prepared := by
  simp only [prepareGap, bind_eq_ok] at hprepare
  obtain ⟨current, hcommit, hprepare⟩ := hprepare
  have hvalid := commit_valid hcommit
  split at hprepare
  · simp only [bind_eq_ok, pure_eq_ok, Except.ok.injEq] at hprepare
    obtain ⟨stored, hread, _, -, rfl⟩ := hprepare
    refine ⟨rfl, hreadable, hvalid, fun found hfound => ?_⟩
    obtain rfl := Option.some.inj hfound
    exact Meeting.read_admissible hread
  · split at hprepare
    · obtain rfl := Except.ok.inj hprepare
      exact ⟨rfl, hreadable, hvalid, fun found hfound => by cases hfound⟩
    · cases hprepare
  · cases hprepare

/-- A preparation that succeeds is one of the requested source, with a valid row. -/
theorem prepare_established {meeting : Meeting} {writer : Bool} {id : SourceId}
    {prepared : PreparedSource} (hprepare : prepare meeting writer id = .ok prepared) :
    Established id prepared := by
  simp only [prepare, bind_eq_ok, mapError_eq_ok] at hprepare
  obtain ⟨_, -, _, -, capture, hcapture, result, -, hprepare⟩ := hprepare
  obtain ⟨rfl, hreadable⟩ := capturePreparation_eq_ok hcapture
  cases result with
  | ready artifact =>
      simp only [bind_eq_ok, pure_eq_ok, Except.ok.injEq] at hprepare
      obtain ⟨stored, hread, _, -, current, hcommit, rfl⟩ := hprepare
      refine ⟨rfl, hreadable, commit_valid hcommit, fun found hfound => ?_⟩
      obtain rfl := Option.some.inj hfound
      exact Meeting.read_admissible hread
  | gap reason => exact prepareGap_established hreadable hprepare

/-- A valid row with an outcome can be shown, and its artifact is a prepared one. -/
theorem Established.showable {id : SourceId} {prepared : PreparedSource}
    {result : PreparationOutcome} (hestablished : Established id prepared)
    (hresult : resultOf prepared.current = some result) :
    Showable prepared.source prepared.current ∧
      ∀ artifact, result = .ready artifact → ValidObject artifact .prepared := by
  obtain ⟨hrow, hregistration, hversion, hkind, hbytes⟩ := hestablished.readable
  have hvalid := hestablished.valid
  obtain ⟨outcome, houtcome, rfl⟩ := Option.map_eq_some_iff.mp hresult
  simp only [CurrentPreparation.validate, houtcome, bind_eq_ok, refuse_eq_ok, not_or,
    not_not] at hvalid
  obtain ⟨_, ⟨hsettings, hsupported⟩, _, hbound, hartifact⟩ := hvalid
  refine ⟨⟨hrow, hregistration, hsettings, hbound.1, hsupported, hkind, hversion, hbytes⟩, ?_⟩
  intro artifact hready
  rw [hready] at hartifact
  exact not_not.mp (refuse_eq_ok.mp hartifact)

/-- Whatever is answered for a preparation is accepted. -/
theorem Established.answer {id : SourceId} {prepared : PreparedSource}
    {hash : Bytes → Blake3Digest32} {env : Env} {ordinal : UInt64} {value : Value}
    (hestablished : Established id prepared)
    (hresponse : response hash env prepared ordinal = .ok value) :
    Answer value (uuidText id) ordinal := by
  rw [← hestablished.named]
  unfold response at hresponse
  split at hresponse
  · rename_i artifact hresult
    obtain ⟨hshowable, hvalid⟩ := hestablished.showable hresult
    simp only [bind_eq_ok, okOr_eq_ok, mapError_eq_ok] at hresponse
    obtain ⟨⟨reference, stored⟩, hstored, view, hdecode, hready⟩ := hresponse
    obtain ⟨hmem, hsame⟩ := Option.filter_eq_some_iff.mp hstored
    obtain rfl := of_decide_eq_true hsame
    obtain ⟨hkind, hversion, -, hpositive⟩ := hvalid _ rfl
    have hadmissible := hestablished.stored _ hmem
    refine ready_answer hshowable ⟨hkind, hversion, hadmissible.2.2.1, ?_⟩ hdecode hready
    rcases hpositive with hother | hpositive
    · exact absurd rfl hother
    · exact UInt64.pos_iff_ne_zero.mp hpositive
  · rename_i reason hresult
    obtain rfl := Except.ok.inj hresponse
    exact gap_answer (hestablished.showable hresult).1 reason
  · cases hresponse

/-- The line of an answer is bounded and accepted. -/
theorem Answer.line (reader : ValueReader) {source : Bytes} {ordinal : UInt64} {value : Value}
    (hanswer : Answer value source ordinal) :
    value.print.length < maxPreparationResponseBytes ∧
      PreparedResponse.validate reader (value.print ++ [10]) source ordinal = some value.print := by
  have hlength : value.print.length < maxPreparationResponseBytes := by
    have hprint := (print_length_le value).trans hanswer.sized.budget_le
    exact Nat.lt_of_le_of_lt hprint (by decide)
  refine ⟨hlength, ?_⟩
  have hread := reader.reads value hanswer.sized.ordered
    (Nat.lt_of_le_of_lt hanswer.sized.depth_le (by decide))
  simp only [PreparedResponse.validate, boundedLine_print hanswer.sized.ordered hlength, hread,
    hanswer.accepted, Option.bind_eq_bind, Option.bind_some, Option.pure_def]

end Preparing

/-! ## Publications -/

namespace PublishedResponse

/-- A mark that starts with a byte the front does not have is found behind it. -/
theorem splitOnce_append {first : UInt8} {front : Bytes} (hclean : first ∉ front)
    (mark rest : Bytes) :
    splitOnce (first :: mark) (front ++ (first :: mark ++ rest)) = some (front, rest) := by
  induction front with
  | nil =>
      have hstrip : strip (first :: mark) (first :: (mark ++ rest)) = some rest :=
        strip_append (first :: mark) rest
      rw [List.nil_append, List.cons_append, splitOnce, hstrip]
  | cons byte front ih =>
      rw [List.mem_cons, not_or] at hclean
      rw [List.cons_append, splitOnce, strip_cons_of_ne hclean.1, ih hclean.2]
      rfl

theorem hexByte_isLowerHex {byte found : UInt8} (hmem : found ∈ Control.hexByte byte) :
    IsLowerHex found := by
  have hall : ∀ value < 256, ∀ found ∈ Control.hexByte (UInt8.ofNat value), IsLowerHex found := by
    decide +kernel
  have hbyte := hall byte.toNat byte.toNat_lt
  rw [UInt8.ofNat_toNat] at hbyte
  exact hbyte found hmem

theorem namespace_isHex (id : Octets 16) : isHex (id.bytes.flatMap Control.hexByte) 32 = true := by
  refine decide_eq_true ⟨?_, fun byte hmem => ?_⟩
  · have hlength : (id.bytes.flatMap Control.hexByte).length = 2 * id.bytes.length := by
      rw [List.length_flatMap]
      simp [Control.hexByte]
    rw [hlength, id.length_eq]
  · obtain ⟨source, -, hbyte⟩ := List.mem_flatMap.mp hmem
    exact hexByte_isLowerHex hbyte

/-- The name of a collection is split into its namespace and its sequence. -/
theorem collection_split (generation : Generation) :
    ∃ named, strip (ascii "eliot_") generation.collection = some named ∧
      splitOnce (ascii "_g") named = some (generation.namespaceId.bytes.flatMap Control.hexByte,
        decimal generation.sequence.toNat) := by
  refine ⟨_, ?_, @splitOnce_append 95 _ ?_ [103] (decimal generation.sequence.toNat)⟩
  · rw [Generation.collection, List.append_assoc, List.append_assoc]
    exact strip_append _ _
  · intro hmem
    obtain ⟨source, -, hbyte⟩ := List.mem_flatMap.mp hmem
    exact absurd (hexByte_isLowerHex hbyte) (by decide)

/-- What a published generation must satisfy to be shown. -/
structure Presentable (generation : Generation) : Prop where
  bounded : generation.Bounded
  sequence : generation.sequence ≠ 0
  gaps : generation.gapCount ≤ generation.sourceCount

theorem presentable_of_readState {db : Db} {state : State} {generation : Generation}
    (hstate : readState db = .ok state) (hbounded : state.Bounded)
    (hcurrent : state.current = some generation) : Presentable generation := by
  have haccepted : state.AcceptsGeneration generation := by
    rcases headerReadable_of_readState hstate with ⟨-, rfl⟩ | ⟨_, _, -, -, -, hdecode⟩
    · cases hcurrent
    · exact (decodeState_readable hdecode).current_accepted generation hcurrent
  obtain ⟨-, hsequence, -, -, hgaps, -⟩ := haccepted
  exact ⟨hbounded.current generation hcurrent, hsequence, hgaps⟩

section Shown

variable (view : PublishedView)

theorem response_keys : keys (response view) names = true := by
  simp [keys, response, names, Value.asObject, List.lookup_cons]

theorem response_texts :
    textAt (response view) "operation" = some (Value.literal "publish-prepared") ∧
      textAt (response view) "state" = some (Value.literal "published") ∧
      textAt (response view) "collection" = some (Preparing.asciiText view.generation.collection
        (collection_ascii view.generation)) := by
  refine ⟨?_, ?_, ?_⟩ <;>
    simp only [textAt, Value.get, response, Value.asObject, List.lookup_cons, String.reduceBEq,
      Option.bind_some, Value.asStr]

theorem response_numbers :
    number (response view) "generation" = some view.generation.sequence ∧
      number (response view) "source_count" = some view.generation.sourceCount ∧
      number (response view) "gap_count" = some view.generation.gapCount ∧
      number (response view) "point_count" = some view.generation.pointCount ∧
      number (response view) "page_count" = some view.generation.pageCount := by
  refine ⟨?_, ?_, ?_, ?_, ?_⟩ <;>
    simp only [number, Value.get, response, Value.asObject, List.lookup_cons, String.reduceBEq,
      Option.bind_some, Value.asU64]

end Shown

/-- A presentable generation passes the validator. -/
theorem validateValue_response {view : PublishedView} (hpresentable : Presentable view.generation) :
    validateValue (response view) = some () := by
  obtain ⟨hoperation, hstate, hcollection⟩ := response_texts view
  obtain ⟨hgeneration, hsources, hgaps, hpoints, hpages⟩ := response_numbers view
  obtain ⟨named, hnamed, hsplit⟩ := collection_split view.generation
  have hbounded := hpresentable.bounded
  have hshape : keys (response view) names = true ∧ True ∧ True :=
    ⟨response_keys view, trivial, trivial⟩
  have hname : view.generation.sequence ≠ 0 ∧
      isHex (view.generation.namespaceId.bytes.flatMap Control.hexByte) 32 = true ∧ True :=
    ⟨hpresentable.sequence, namespace_isHex _, trivial⟩
  have hcounts : ¬ (view.generation.sourceCount > 4096 ∨
      view.generation.gapCount > view.generation.sourceCount ∨
      view.generation.pointCount > 1000000 ∨
      view.generation.pageCount > view.generation.pointCount ∨
      decide (view.generation.pointCount = 0) ≠ decide (view.generation.pageCount = 0)) := by
    rintro (hmany | hgap | hpoint | hpage | hempty)
    · exact absurd (UInt64.le_iff_toNat_le.mpr hbounded.sources) (UInt64.not_le.mpr hmany)
    · exact absurd hpresentable.gaps (UInt64.not_le.mpr hgap)
    · exact absurd (UInt64.le_iff_toNat_le.mpr hbounded.points) (UInt64.not_le.mpr hpoint)
    · exact absurd hbounded.pages (UInt64.not_le.mpr hpage)
    · exact hempty (decide_eq_decide.mpr hbounded.empty.symm)
  unfold validateValue
  rw [hoperation, hstate, hgeneration, hcollection, hsources, hgaps, hpoints, hpages]
  simp only [Option.bind_eq_bind, Option.bind_some]
  rw [guard_pos hshape, Option.bind_some]
  change (strip (ascii "eliot_") view.generation.collection).bind _ = _
  rw [hnamed, Option.bind_some, hsplit, Option.bind_some]
  simp only
  rw [guard_pos hname, Option.bind_some]
  exact guard_pos hcounts

theorem collection_length (generation : Generation) : generation.collection.length ≤ 60 := by
  have hnamespace := of_decide_eq_true (namespace_isHex generation.namespaceId)
  have hsequence := decimal_word_length_le generation.sequence
  have hfront : (ascii "eliot_").length = 6 := by decide
  have hmiddle : (ascii "_g").length = 2 := by decide
  rw [Generation.collection, List.length_append, List.length_append, List.length_append,
    hnamespace.1, hfront, hmiddle]
  omega

theorem sized_response (view : PublishedView) :
    Preparing.Sized (response view) 1 2048 := by
  have hcollection : Preparing.Sized (.string (Preparing.asciiText view.generation.collection
      (collection_ascii view.generation))) 0 362 := by
    have hlength := collection_length view.generation
    refine (Preparing.sized_string _).mono le_rfl ?_
    change 6 * view.generation.collection.length + 2 ≤ 362
    omega
  have hoperation : Preparing.Sized (.string (Value.literal "publish-prepared")) 0 98 :=
    (Preparing.sized_string _).mono le_rfl (by decide)
  have hstate : Preparing.Sized (.string (Value.literal "published")) 0 56 :=
    (Preparing.sized_string _).mono le_rfl (by decide)
  refine Preparing.sized_object ["collection", "gap_count", "generation", "operation",
      "page_count", "point_count", "source_count", "state"]
    [362, 20, 20, 98, 20, 20, 20, 56] rfl (?_ : _ ∧ _ = 108) ?_ ?_
  · decide +kernel
  · exact .cons hcollection <| .cons (Preparing.sized_number _) <|
      .cons (Preparing.sized_number _) <| .cons hoperation <| .cons (Preparing.sized_number _) <|
      .cons (Preparing.sized_number _) <| .cons (Preparing.sized_number _) <| .cons hstate .nil
  · decide

/-- The line of a presentable generation is bounded and accepted. -/
theorem response_line (reader : ValueReader) {view : PublishedView}
    (hpresentable : Presentable view.generation) :
    (response view).print.length < maxPublicationResponseBytes ∧
      validate reader ((response view).print ++ [10]) = some (response view).print := by
  have hsized := sized_response view
  have hlength : (response view).print.length < maxPublicationResponseBytes :=
    Nat.lt_of_le_of_lt ((print_length_le _).trans hsized.budget_le) (by decide)
  refine ⟨hlength, ?_⟩
  have hline : ¬ (((response view).print ++ [10]).length > maxPublicationResponseBytes ∨
      ¬ Valid ((response view).print ++ [10]) ∨
      ((response view).print ++ [10]).getLast? ≠ some 10) := by
    rintro (hlong | hinvalid | hlast)
    · rw [List.length_append, List.length_singleton] at hlong
      omega
    · exact hinvalid (print_line_valid hsized.ordered)
    · exact hlast List.getLast?_concat
  have hclean : ¬ (13 ∈ (response view).print ∨ 10 ∈ (response view).print) := by
    rintro (hreturn | hfeed)
    · exact print_not_mem (by decide) hreturn
    · exact print_not_mem (by decide) hfeed
  have hread := reader.reads (response view) hsized.ordered
    (Nat.lt_of_le_of_lt hsized.depth_le (by decide))
  rw [validate, if_neg hline]
  simp only [List.dropLast_concat]
  rw [if_neg hclean, hread]
  simp only [Option.bind_eq_bind, Option.bind_some, validateValue_response hpresentable,
    Option.pure_def]

end PublishedResponse

/-! ## Every line -/

/-- Whatever a run of the command writes is accepted. -/
theorem Preparing.run_accepted (reader : ValueReader) {meeting : Preparing.Meeting} {id : SourceId}
    {ordinal : UInt64} {line : Bytes} (hrun : Preparing.run meeting id ordinal = .ok line) :
    ∃ printed, line = printed ++ [10] ∧
      PreparedResponse.validate reader line (uuidText id) ordinal = some printed := by
  simp only [Preparing.run, Preparing.emit, bind_eq_ok, pure_eq_ok, Except.ok.injEq] at hrun
  obtain ⟨prepared, hprepare, value, hresponse, _, -, _, -, rfl⟩ := hrun
  have hanswer := (Preparing.prepare_established hprepare).answer hresponse
  exact ⟨value.print, rfl, (hanswer.line reader).2⟩

/-- Every line that the daemon composes for a verified preparation, and for a
generation that publications left current, stays within its bytes and passes the
validator of the command line. -/
theorem responses_accepted (reader : ValueReader) :
    (∀ meeting writer id prepared env ordinal value,
      Preparing.prepare meeting writer id = .ok prepared →
      Preparing.response meeting.hash env prepared ordinal = .ok value →
      (value.print ++ [10]).length ≤ Preparing.maxPreparationResponseBytes ∧
      (∀ later, Preparing.emit later value = do
        Preparing.check later 0
        return value.print ++ [10]) ∧
      PreparedResponse.validate reader (value.print ++ [10]) (uuidText id) ordinal =
        some value.print) ∧
    ∀ db : Db, db.PublicationAbsent → ∀ (actions : List Action) env view,
      openPublished env ((World.init db).run actions).db = .ok view →
      let line := (PublishedResponse.response view).print ++ [10]
      line.length ≤ PublishedResponse.maxPublicationResponseBytes ∧
      (∀ later, PublishedResponse.emit later view = do
        checkWith (ascii "PUBLICATION_CANCELLED") (ascii "PUBLICATION_DEADLINE") later 0
        return line) ∧
      PublishedResponse.validate reader line = some (PublishedResponse.response view).print := by
  constructor
  · intro meeting writer id prepared env ordinal value hprepare hresponse
    have hanswer := (Preparing.prepare_established hprepare).answer hresponse
    obtain ⟨hlength, haccepted⟩ := hanswer.line reader
    refine ⟨?_, fun later => ?_, haccepted⟩
    · rw [List.length_append, List.length_singleton]
      exact hlength
    · rw [Preparing.emit, refuse_of_not (Nat.not_le.mpr hlength), ok_bind]
  · intro db habsent actions env view hopened
    obtain ⟨state, hstate, hconsistent⟩ := (World.sound_run habsent actions).header
    have hbounded := hconsistent.bounded
    simp only [openPublished, pinPublished, bind_eq_ok, okOr_eq_ok, pure_eq_ok,
      Except.ok.injEq] at hopened
    obtain ⟨_, ⟨_, _, found, hfound, generation, hcurrent, _, _, _, _, _, _, _, _, rfl⟩, _, _,
      rfl⟩ := hopened
    obtain rfl := Except.ok.inj (hstate.symm.trans hfound)
    have hpresentable := PublishedResponse.presentable_of_readState hstate hbounded hcurrent
    obtain ⟨hlength, haccepted⟩ := @PublishedResponse.response_line reader
      ⟨generation, ((World.init db).run actions).db⟩ hpresentable
    refine ⟨?_, fun later => ?_, haccepted⟩
    · rw [List.length_append, List.length_singleton]
      exact hlength
    · rw [PublishedResponse.emit]
      simp only [refuse_of_not (Nat.not_le.mpr hlength), ok_bind]

namespace Sample

open Preparation.Sample in
/-- The tables in which the source of three bytes has settings. -/
def selected : Db :=
  ((World.init Db.empty).run [Control.Sample.act (.commitCurrentSource
      ⟨source.sourceNamespaceId, source.sourceId, source.locator, none, none, none⟩
      (.unix 1 1) source.objectRef),
    Control.Sample.act (.writeSettings source.sourceId .default source none)]).db

/-- The object directory with the source, and the prepared artifact under every
other name. -/
def meeting : Preparing.Meeting where
  env _ := Env.quiet
  db _ := selected
  objects _ name :=
    if name = nameOf Preparation.Sample.source.objectRef then some (.file Preparation.Sample.text)
    else some (.file Preparation.Sample.artifact)
  publishing := none
  hash := Preparation.Sample.hash

def artifact : ObjectRef :=
  ⟨sourceObjectFormatVersion, .prepared, meeting.hash Preparation.Sample.artifact,
    UInt64.ofNat Preparation.Sample.artifact.length⟩

def prepared : Preparing.PreparedSource :=
  ⟨Preparation.Sample.source,
    ⟨Preparation.Sample.source.sourceNamespaceId, Preparation.Sample.source.sourceId, 1, .default,
      1, some ⟨1, 1, Preparation.Sample.source.objectRef, .default, .ready artifact⟩⟩,
    some (artifact, Preparation.Sample.artifact)⟩

end Sample

theorem responses_accepted_sample :
    (∃ value, Preparing.response Sample.meeting.hash Env.quiet Sample.prepared 0 = .ok value ∧
      PreparedResponse.validate ValueReader.exact (value.print ++ [10])
        (uuidText Preparation.Sample.source.sourceId) 0 = some value.print) ∧
    ∃ view, openPublished Env.quiet
        ((World.init Db.empty).run (Control.Sample.uploaded ++ [Control.Sample.commit])).db =
          .ok view ∧
      PublishedResponse.validate ValueReader.exact ((PublishedResponse.response view).print ++ [10]) =
        some (PublishedResponse.response view).print := by
  have hready : (Preparing.response Sample.meeting.hash Env.quiet Sample.prepared 0).toOption.isSome =
      true := by decide +kernel
  have hopened : (openPublished Env.quiet ((World.init Db.empty).run
      (Control.Sample.uploaded ++ [Control.Sample.commit])).db).toOption.isSome = true := by
    decide +kernel
  obtain ⟨value, hvalue⟩ := Option.isSome_iff_exists.mp hready
  obtain ⟨view, hview⟩ := Option.isSome_iff_exists.mp hopened
  rw [toOption_eq_some] at hvalue hview
  refine ⟨⟨value, hvalue, ?_⟩, view, hview, ?_⟩
  · exact ((responses_accepted ValueReader.exact).1 Sample.meeting false
      Preparation.Sample.source.sourceId Sample.prepared Env.quiet 0 value (by decide +kernel)
        hvalue).2.2
  · exact ((responses_accepted ValueReader.exact).2 Db.empty Control.Sample.absent
      (Control.Sample.uploaded ++ [Control.Sample.commit]) Env.quiet view hview).2.2

end EliotSearch.Commands
