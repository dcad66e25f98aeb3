import EliotSearch.Preparation.Artifacts

/-!
# The artifact round trip

An artifact that is prepared is accepted and gives back the text and the units,
and whatever is accepted is the encoding of what it gives.

The accepting side keeps the first line that does not end before the expected
start; from there the lines of the next unit are found by reading on.
-/

namespace EliotSearch.Preparation

open EliotSearch.Control
open EliotSearch.Library
open EliotSearch.Library.Results
open EliotSearch.Library.Utf8
open EliotSearch.Library.Words
open EliotSearch.Query

/-! ## Fields -/

theorem boolean_reads (value : Bool) : Reads boolean [boolByte value] value := by
  refine (Reads.u8 _ _).bind_nil (Reads.lift ?_)
  cases value with
  | false => rfl
  | true => rfl

theorem boolean_eq_ok {bytes rest : Bytes} {value : Bool}
    (hread : boolean bytes = .ok (value, rest)) : bytes = boolByte value :: rest := by
  simp only [boolean, Reader.bind_eq_ok, Reader.u8_eq_ok, Reader.okOr_eq_ok] at hread
  obtain ⟨byte, _, rfl, hvalue, rfl⟩ := hread
  rw [eq_boolByte hvalue]

theorem usize_reads {value : Nat} (hvalue : value < 2 ^ 64) : Reads usize (putUsize value) value := by
  refine (Reads.u64 _ _).bind_nil ?_
  rw [UInt64.toNat_ofNat_of_lt' hvalue]
  exact Reads.pure value

theorem usize_eq_ok {bytes rest : Bytes} {value : Nat} (hread : usize bytes = .ok (value, rest)) :
    bytes = putUsize value ++ rest := by
  simp only [usize, Reader.bind_eq_ok, Reader.u64_eq_ok, Reader.pure_eq_ok] at hread
  obtain ⟨word, _, rfl, rfl, rfl⟩ := hread
  rw [putUsize, UInt64.ofNat_toNat]

/-- The positions of the unit are machine words. -/
def UnitSpan.Representable (unit : UnitSpan) : Prop :=
  unit.sourceStart < 2 ^ 64 ∧ unit.sourceEnd < 2 ^ 64 ∧ unit.logicalLineStart < 2 ^ 64 ∧
    unit.logicalLineEnd < 2 ^ 64

theorem readUnit_reads {unit : UnitSpan} (hunit : unit.Representable) :
    Reads readUnit (putUnit unit) unit := by
  obtain ⟨hstart, hend, hlineStart, hlineEnd⟩ := hunit
  simp only [putUnit, List.append_assoc, readUnit]
  refine (usize_reads hstart).bind ((usize_reads hend).bind ?_)
  refine (usize_reads hlineStart).bind ((usize_reads hlineEnd).bind ?_)
  exact (boolean_reads _).bind ((boolean_reads _).bind_nil (Reads.pure _))

theorem readUnit_eq_ok {bytes rest : Bytes} {unit : UnitSpan}
    (hread : readUnit bytes = .ok (unit, rest)) : bytes = putUnit unit ++ rest := by
  simp only [readUnit, Reader.bind_eq_ok, Reader.pure_eq_ok] at hread
  obtain ⟨_, _, hstart, _, _, hend, _, _, hlineStart, _, _, hlineEnd, _, _, hstarts, _, _, hends,
    rfl, rfl⟩ := hread
  rw [usize_eq_ok hstart, usize_eq_ok hend, usize_eq_ok hlineStart, usize_eq_ok hlineEnd,
    boolean_eq_ok hstarts, boolean_eq_ok hends]
  simp only [putUnit, List.append_assoc, List.cons_append, List.nil_append]

section Binding

variable {source : CurrentSourceRecord} {settings : PreparationSettings}

theorem readBinding_reads : Reads (readBinding source settings) (putBinding source settings) () := by
  have hmagic : magic.length = 8 := rfl
  have hkind : [source.objectRef.kind.tag].length = 1 := rfl
  simp only [putBinding, List.append_assoc, readBinding, bound]
  refine (Reads.expect _ (Reads.take _ hmagic)).bind ?_
  refine (Reads.expect _ (Reads.u16 _ _)).bind ?_
  refine (Reads.expect _ (Reads.take _ source.sourceNamespaceId.length_eq)).bind ?_
  refine (Reads.expect _ (Reads.take _ source.sourceId.length_eq)).bind ?_
  refine (Reads.expect _ (Reads.u64 _ _)).bind ?_
  refine (Reads.expect _ (Reads.u16 _ _)).bind ?_
  refine (Reads.expect _ (Reads.take _ hkind)).bind ?_
  refine (Reads.expect _ (Reads.take _ source.objectRef.digest.length_eq)).bind ?_
  refine (Reads.expect _ (Reads.u64 _ _)).bind ?_
  refine (Reads.expect _ (Reads.u16 _ _)).bind ?_
  refine (Reads.expect _ (Reads.u16 _ _)).bind ?_
  refine (Reads.expect _ (Reads.u32 _ _)).bind ?_
  exact Reads.expect _ (Reads.u32 _ _)

theorem readBinding_eq_ok {bytes rest : Bytes} {result : Unit}
    (hread : readBinding source settings bytes = .ok (result, rest)) :
    bytes = putBinding source settings ++ rest := by
  simp only [readBinding, bound, Reader.bind_eq_ok, Reader.expect_eq_ok, Reader.take_eq_ok,
    Reader.u16_eq_ok, Reader.u32_eq_ok, Reader.u64_eq_ok] at hread
  obtain ⟨_, _, ⟨rfl, -⟩, _, _, rfl, _, _, ⟨rfl, -⟩, _, _, ⟨rfl, -⟩, _, _, rfl, _, _, rfl,
    _, _, ⟨rfl, -⟩, _, _, ⟨rfl, -⟩, _, _, rfl, _, _, rfl, _, _, rfl, _, _, rfl, rfl⟩ := hread
  simp only [putBinding, List.append_assoc]

end Binding

/-! ## The lines of a unit -/

/-- The current line is the first of the given lines, and the scanner has the
others left. -/
structure Pending (maximum : Nat) (current : Option Line) (lines : Lines)
    (pending : List LineSpan) : Prop where
  current_eq : current = pending.head?.map LineSpan.line
  left_eq : lines.left = pending.tail
  room : lines.index + lines.left.length ≤ maximum

/-- The scanner has no more lines left than bytes. -/
theorem linesFrom_length (fuel index start offset : Nat) (rest : Bytes) (hle : start ≤ offset) :
    (linesFrom fuel index start offset rest).length ≤
      rest.length + (if start < offset then 1 else 0) := by
  induction fuel generalizing index start offset rest with
  | zero =>
      cases rest with
      | nil =>
          rw [linesFrom]
          split
          · exact le_rfl
          · exact le_rfl
      | cons byte rest => exact Nat.zero_le _
  | succ fuel ih =>
      cases rest with
      | nil =>
          rw [linesFrom]
          split
          · exact le_rfl
          · exact le_rfl
      | cons byte rest =>
          rw [linesFrom, List.length_cons]
          split
          · have hmore := ih index start (offset + 1) rest (by omega)
            rw [if_pos (by omega)] at hmore
            omega
          · rename_i hwidth
            have hpositive := Nat.pos_of_ne_zero hwidth
            have hmore := ih (index + 1) (offset + terminator (byte :: rest))
              (offset + terminator (byte :: rest)) ((byte :: rest).drop (terminator (byte :: rest)))
              le_rfl
            rw [if_neg (lt_irrefl _), List.length_drop, List.length_cons] at hmore
            rw [List.length_cons]
            omega

theorem Lines.left_length (lines : Lines) : lines.left.length ≤ lines.rest.length := by
  have hlength := linesFrom_length lines.rest.length lines.index lines.offset lines.offset
    lines.rest le_rfl
  rwa [if_neg (lt_irrefl _)] at hlength

section Seeking

variable {env : Env} {maximum : Nat}

/-- Reading on finds the first of the lines that is not behind. -/
theorem Lines.seek_ok (behind : Line → Bool) (hquiet : Undisturbed env) (fuel : Nat) (line : LineSpan)
    (more : List LineSpan) (lines : Lines) {found : LineSpan} {rest : List LineSpan}
    (hleft : lines.left = more) (hroom : lines.index + lines.left.length ≤ maximum)
    (hfuel : more.length ≤ fuel)
    (hfound : (line :: more).dropWhile (fun span => behind span.line) = found :: rest) :
    ∃ after, lines.seek env maximum behind fuel line.line = .ok (found.line, after) ∧
      Pending maximum (some found.line) after (found :: rest) := by
  induction fuel generalizing line more lines with
  | zero =>
      obtain rfl := List.eq_nil_of_length_eq_zero (Nat.le_zero.mp hfuel)
      rw [List.dropWhile_cons] at hfound
      split at hfound
      · cases hfound
      · rename_i hhere
        obtain ⟨rfl, rfl⟩ := List.cons.inj hfound
        refine ⟨lines, ?_, rfl, hleft, hroom⟩
        rw [seek, refuse_of_not hhere, ok_bind]
        rfl
  | succ fuel ih =>
      rw [List.dropWhile_cons] at hfound
      split at hfound
      · rename_i hbehind
        cases more with
        | nil => cases hfound
        | cons following more =>
            rw [List.length_cons] at hfuel
            obtain ⟨after, hnext, hafter, hafterRoom⟩ :=
              Lines.next_cons (hquiet.within lines.index) hleft hroom
            obtain ⟨last, hseek, hpending⟩ :=
              ih following more after hafter hafterRoom (by omega) hfound
            refine ⟨last, ?_, hpending⟩
            rw [seek, if_pos hbehind, hnext, ok_bind]
            dsimp only
            rw [okOr_some, ok_bind]
            exact hseek
      · rename_i hhere
        obtain ⟨rfl, rfl⟩ := List.cons.inj hfound
        refine ⟨lines, ?_, rfl, hleft, hroom⟩
        rw [seek, if_neg hhere]
        rfl

end Seeking

/-- A unit that its lines describe is accepted, and the line of its end becomes
the current one. -/
theorem acceptUnit_ok {env : Env} (hquiet : Undisturbed env) {text : Text}
    {hard maximum expected : Nat} {unit : UnitSpan} {current : Option Line} {lines : Lines}
    (hdescribes : Describes text.bytes (linesOf text.bytes) hard expected unit)
    (hexpected : IsBoundary text.bytes expected)
    (hpending : Pending maximum current lines
      ((linesOf text.bytes).dropWhile fun line => line.sourceEnd < expected)) :
    ∃ last after, acceptUnit env text hard maximum expected unit current lines =
        .ok (last, after) ∧
      Pending maximum (some last) after
        ((linesOf text.bytes).dropWhile fun line => line.sourceEnd < unit.sourceEnd) := by
  obtain ⟨first, hfirst, hlineStart, hstarts⟩ := hdescribes.first
  obtain ⟨last, hlast, hlineEnd, hends⟩ := hdescribes.last
  obtain ⟨behindFirst, hfirst⟩ := List.head?_eq_some_iff.mp hfirst
  obtain ⟨behindLast, hlast⟩ := List.head?_eq_some_iff.mp hlast
  have hstart := hdescribes.start_eq
  have hnonempty := hdescribes.nonempty
  -- the first line is among the pending ones, the last among those from the first
  have hseekFirst : ((linesOf text.bytes).dropWhile fun line => line.sourceEnd < expected).dropWhile
      (fun line => line.sourceEnd ≤ unit.sourceStart) = first :: behindFirst := by
    rw [hstart, ← hfirst]
    exact dropWhile_dropWhile _ fun line _ hline =>
      decide_eq_true (Nat.le_of_lt (of_decide_eq_true hline))
  have hseekLast : (first :: behindFirst).dropWhile
      (fun line => line.sourceEnd < unit.sourceEnd) = last :: behindLast := by
    rw [← hfirst, ← hlast]
    exact dropWhile_dropWhile _ fun line _ hline =>
      decide_eq_true (Nat.lt_of_le_of_lt (of_decide_eq_true hline) hnonempty)
  obtain ⟨hcurrent, hleft, hroom⟩ := hpending
  cases hlist : (linesOf text.bytes).dropWhile fun line => line.sourceEnd < expected with
  | nil =>
      rw [hlist] at hseekFirst
      cases hseekFirst
  | cons head more =>
      rw [hlist] at hseekFirst hcurrent hleft
      have hfuel : more.length ≤ lines.rest.length := by
        have hlength := lines.left_length
        rwa [hleft] at hlength
      obtain ⟨middle, hmiddle, hmiddlePending⟩ := Lines.seek_ok
        (fun line => line.stop ≤ unit.sourceStart) hquiet lines.rest.length head more lines hleft
        hroom hfuel hseekFirst
      have hmiddleFuel : behindFirst.length ≤ middle.rest.length := by
        have hlength := middle.left_length
        rwa [hmiddlePending.left_eq] at hlength
      obtain ⟨after, hafter, hafterPending⟩ := Lines.seek_ok
        (fun line => line.stop < unit.sourceEnd) hquiet middle.rest.length first
        behindFirst middle hmiddlePending.left_eq hmiddlePending.room hmiddleFuel hseekLast
      have hinText : InText text hard expected unit := by
        rw [InText, hstart]
        simp only [not_or, not_not, not_le, not_lt, gt_iff_lt]
        exact ⟨trivial, hnonempty, hdescribes.bounded, hdescribes.fits, hexpected,
          hdescribes.boundary⟩
      have hdescribed : Described first.line last.line unit := by
        rw [Described, hstart, hlineStart, hlineEnd, hstarts, hends]
        simp only [LineSpan.line, not_or, not_not, true_and, ne_eq]
        exact ⟨decide_eq_decide.mpr eq_comm, decide_eq_decide.mpr eq_comm⟩
      refine ⟨last.line, after, ?_, hlast ▸ hafterPending⟩
      rw [acceptUnit, refuse_of_not (not_not.mpr hinText), ok_bind, hcurrent]
      change (lines.seek env maximum _ lines.rest.length head.line >>= _) = _
      rw [hmiddle, ok_bind]
      dsimp only
      rw [hafter, ok_bind]
      dsimp only
      rw [refuse_of_not (not_not.mpr hdescribed), ok_bind]
      rfl

/-! ## Units -/

/-- A line has an index below the number of the lines. -/
theorem linesFrom_index (fuel index start offset : Nat) (rest : Bytes) :
    ∀ span ∈ linesFrom fuel index start offset rest,
      span.lineIndex < index + (linesFrom fuel index start offset rest).length := by
  induction fuel generalizing index start offset rest with
  | zero =>
      cases rest with
      | nil =>
          rw [linesFrom]
          split
          · simp
          · simp
      | cons byte rest => simp [linesFrom]
  | succ fuel ih =>
      cases rest with
      | nil =>
          rw [linesFrom]
          split
          · simp
          · simp
      | cons byte rest =>
          rw [linesFrom]
          split
          · exact ih _ _ _ _
          · rw [List.forall_mem_cons, List.length_cons]
            refine ⟨Nat.lt_add_of_pos_right (Nat.succ_pos _), fun span hspan => ?_⟩
            have hbelow := ih _ _ _ _ span hspan
            omega

/-- The positions of a unit of a text are machine words. -/
theorem Describes.representable {text : Text} {hard start : Nat} {unit : UnitSpan}
    (hdescribes : Describes text.bytes (linesOf text.bytes) hard start unit)
    (htext : text.bytes.length < 2 ^ 64) : unit.Representable := by
  obtain ⟨first, hfirst, hlineStart, -⟩ := hdescribes.first
  obtain ⟨last, hlast, hlineEnd, -⟩ := hdescribes.last
  have hlength := linesFrom_length text.bytes.length 0 0 0 text.bytes le_rfl
  rw [if_neg (lt_irrefl _)] at hlength
  have hindex (line : LineSpan) (hline : line ∈ linesOf text.bytes) :
      line.lineIndex + 1 < 2 ^ 64 := by
    have hbelow := linesFrom_index text.bytes.length 0 0 0 text.bytes line hline
    omega
  have hfirstIndex := hindex first ((List.dropWhile_sublist _).subset (List.mem_of_head? hfirst))
  have hlastIndex := hindex last ((List.dropWhile_sublist _).subset (List.mem_of_head? hlast))
  have hbounded := hdescribes.bounded
  have hnonempty := hdescribes.nonempty
  refine ⟨?_, ?_, ?_, ?_⟩
  · rw [hdescribes.start_eq]
    omega
  · omega
  · rw [hlineStart]
    omega
  · rw [hlineEnd]
    exact hlastIndex

/-- Units that cover the rest of a text are read back. -/
theorem readUnitsFrom_reads {env : Env} (hquiet : Undisturbed env) {text : Text}
    {hard maximum : Nat} (htext : text.bytes.length < 2 ^ 64) (units : List UnitSpan)
    (expected : Nat) (current : Option Line) (lines : Lines)
    (hcover : Cover text.bytes (linesOf text.bytes) hard expected units)
    (hexpected : IsBoundary text.bytes expected)
    (hpending : Pending maximum current lines
      ((linesOf text.bytes).dropWhile fun line => line.sourceEnd < expected)) :
    Reads (readUnitsFrom env text hard maximum units.length expected current lines)
      (units.flatMap putUnit) units := by
  induction units generalizing expected current lines with
  | nil => exact Reads.refuse_bind (not_not.mpr hcover) (Reads.pure [])
  | cons unit units ih =>
      obtain ⟨hdescribes, hcover⟩ := hcover
      obtain ⟨last, after, haccept, hafter⟩ :=
        acceptUnit_ok (hquiet.within 1) hdescribes hexpected hpending
      rw [List.length_cons, readUnitsFrom, List.flatMap_cons]
      refine Reads.lift_bind (check_ok (hquiet.within 0) _) ?_
      refine (readUnit_reads (hdescribes.representable htext)).bind ?_
      refine Reads.lift_bind haccept ?_
      exact (ih _ _ _ hcover hdescribes.boundary hafter).bind_nil (Reads.pure _)

/-- The units of a text are read back behind the text. -/
theorem readUnits_reads {env : Env} (hquiet : Undisturbed env) {text : Text}
    {settings : PreparationSettings} {limits : PreparationLimits} {units : List UnitSpan}
    (htext : text.bytes.length < 2 ^ 64)
    (hroom : (linesOf text.bytes).length ≤ limits.maxLines)
    (hcover : Cover text.bytes (linesOf text.bytes) settings.maxUnitBytes.toNat 0 units) :
    Reads (readUnits env text units.length settings limits) (units.flatMap putUnit) units := by
  have hall : (linesOf text.bytes).dropWhile (fun line => line.sourceEnd < 0) =
      linesOf text.bytes := by
    cases linesOf text.bytes with
    | nil => rfl
    | cons line lines => rfl
  have hleft : Lines.left ⟨text.bytes, 0, 0⟩ = linesOf text.bytes := rfl
  have hstart := text.boundary_start
  cases units with
  | nil =>
      have hempty : text.bytes = [] := List.eq_nil_of_length_eq_zero hcover.symm
      have hnone : linesOf text.bytes = [] := by
        rw [hempty]
        rfl
      refine Reads.refuse_bind (by simp [hempty]) ?_
      refine Reads.lift_bind (Lines.next_nil ((hquiet.within 1).within 0) hempty) ?_
      refine readUnitsFrom_reads hquiet htext [] 0 none _ hcover hstart ⟨?_, ?_, ?_⟩
      · rw [hall, hnone]
        rfl
      · rw [hall, hleft, hnone]
        rfl
      · rw [hleft, hnone]
        exact Nat.zero_le _
  | cons unit units =>
      obtain ⟨first, hfirst, -⟩ := hcover.1.first
      have hbytes := Nat.lt_of_lt_of_le hcover.1.nonempty hcover.1.bounded
      cases hlist : linesOf text.bytes with
      | nil =>
          rw [hlist] at hfirst
          cases hfirst
      | cons head more =>
          have hstartRoom : 0 + (Lines.left ⟨text.bytes, 0, 0⟩).length ≤ limits.maxLines := by
            rwa [hleft, Nat.zero_add]
          obtain ⟨after, hnext, hafter, hafterRoom⟩ :=
            Lines.next_cons ((hquiet.within 1).within 0) (hleft.trans hlist) hstartRoom
          refine Reads.refuse_bind ?_ ?_
          · rw [not_not, decide_eq_false (List.ne_nil_of_length_pos hbytes)]
            rfl
          · refine Reads.lift_bind hnext ?_
            refine readUnitsFrom_reads hquiet htext (unit :: units) 0 _ after hcover hstart
              ⟨?_, ?_, hafterRoom⟩
            · rw [hall, hlist]
              rfl
            · rw [hall, hlist]
              exact hafter

theorem readUnitsFrom_eq_ok {env : Env} {text : Text} {hard maximum : Nat} (count expected : Nat)
    (current : Option Line) (lines : Lines) {bytes rest : Bytes} {units : List UnitSpan}
    (hread : readUnitsFrom env text hard maximum count expected current lines bytes =
      .ok (units, rest)) :
    bytes = units.flatMap putUnit ++ rest ∧ units.length = count := by
  induction count generalizing expected current lines bytes units with
  | zero =>
      simp only [readUnitsFrom, Reader.bind_eq_ok, Reader.refuse_eq_ok, Reader.pure_eq_ok] at hread
      obtain ⟨_, _, ⟨-, rfl⟩, rfl, rfl⟩ := hread
      exact ⟨rfl, rfl⟩
  | succ count ih =>
      simp only [readUnitsFrom, Reader.bind_eq_ok, Reader.lift_eq_ok, Reader.pure_eq_ok] at hread
      obtain ⟨_, _, ⟨-, rfl⟩, unit, _, hunit, _, _, ⟨-, rfl⟩, more, _, hmore, rfl, rfl⟩ := hread
      obtain ⟨rfl, rfl⟩ := ih _ _ _ hmore
      rw [readUnit_eq_ok hunit, List.flatMap_cons, List.append_assoc]
      exact ⟨rfl, rfl⟩

/-! ## Artifacts -/

section Artifacts

variable {hash : Bytes → Blake3Digest32} {source : CurrentSourceRecord}
  {settings : PreparationSettings}

theorem putUnit_length (unit : UnitSpan) : (putUnit unit).length = unitBytes := by
  simp [putUnit, putUsize, unitBytes]

theorem encoding_length (text : Bytes) (units : List UnitSpan) :
    (encoding source settings text units).length =
      units.length * unitBytes + headerBytes + text.length := by
  have hunits : (units.flatMap putUnit).length = units.length * unitBytes := by
    simp [List.length_flatMap, putUnit_length]
  have hmagic : magic.length = 8 := rfl
  simp [encoding, putBinding, putUsize, hunits, hmagic, headerBytes]
  omega

/-- The parts that the encoding of a covered text consists of are read back. -/
theorem readArtifact_reads {env : Env} (hquiet : Undisturbed env) {text : Text}
    {limits : PreparationLimits} {units : List UnitSpan} {size : Nat}
    (hlength : text.bytes.length = source.objectRef.byteLength.toNat)
    (hdigest : hash text.bytes = source.objectRef.digest)
    (hlimit : limits.checkTextLength text.bytes.length = .ok ())
    (hcount : units.length ≤ limits.maxUnits)
    (hsize : encodedSize text.bytes.length units.length = .ok size)
    (hroom : (linesOf text.bytes).length ≤ limits.maxLines)
    (hcover : Cover text.bytes (linesOf text.bytes) settings.maxUnitBytes.toNat 0 units) :
    Reads (readArtifact hash env size source settings limits)
      (encoding source settings text.bytes units) ⟨text, units⟩ := by
  have htext : text.bytes.length < 2 ^ 64 := hlength ▸ source.objectRef.byteLength.toNat_lt
  have hunits : units.length < 2 ^ 64 := by
    simp only [encodedSize, bind_eq_ok, refuse_eq_ok] at hsize
    obtain ⟨_, hsmall, -⟩ := hsize
    rw [unitBytes] at hsmall
    omega
  have hchecks (env : Env) (hquiet : Undisturbed env) (count : Nat) :
      checkEach env count = .ok () := by
    induction count with
    | zero => rfl
    | succ count ih => rw [checkEach, ih, ok_bind, check_ok hquiet]
  have hverify : verifyDigest hash (within env 1) source text.bytes = .ok () := by
    rw [verifyDigest, hchecks _ ((hquiet.within 1).within 0), ok_bind,
      check_ok ((hquiet.within 1).within 1), ok_bind, refuse_of_not (not_not.mpr hdigest)]
  simp only [encoding, List.append_assoc, readArtifact]
  refine readBinding_reads.bind ((usize_reads htext).bind ((usize_reads hunits).bind ?_))
  refine Reads.refuse_bind (not_lt.mpr hcount) (Reads.lift_bind hlimit ?_)
  refine Reads.refuse_bind (not_not.mpr hlength) (Reads.lift_bind hsize ?_)
  refine Reads.refuse_bind (not_not.mpr rfl) (Reads.lift_bind (check_ok (hquiet.within 0) 0) ?_)
  refine (Reads.take _ rfl).bind (Reads.okOr_bind (Text.ofBytes_eq_some.mpr rfl) ?_)
  refine Reads.lift_bind hverify ?_
  exact (readUnits_reads (hquiet.within 2) htext hroom hcover).bind_nil (Reads.pure _)

theorem readArtifact_eq_ok {env : Env} {limits : PreparationLimits} {size : Nat}
    {bytes rest : Bytes} {view : PreparedUtf8}
    (hread : readArtifact hash env size source settings limits bytes = .ok (view, rest)) :
    bytes = encoding source settings view.text.bytes view.units ++ rest := by
  simp only [readArtifact, readUnits, Reader.bind_eq_ok, Reader.refuse_eq_ok, Reader.lift_eq_ok,
    Reader.okOr_eq_ok, Reader.take_eq_ok, Reader.pure_eq_ok] at hread
  obtain ⟨_, _, hbinding, textLength, _, htextLength, unitCount, _, hunitCount, _, _, ⟨-, rfl⟩,
    _, _, ⟨-, rfl⟩, _, _, ⟨-, rfl⟩, _, _, ⟨-, rfl⟩, _, _, ⟨-, rfl⟩, _, _, ⟨-, rfl⟩,
    textBytes, _, ⟨rfl, hlength⟩, text, _, ⟨htext, rfl⟩, _, _, ⟨-, rfl⟩, units, _,
    ⟨_, _, ⟨-, rfl⟩, _, _, ⟨-, rfl⟩, hunits⟩, rfl, rfl⟩ := hread
  obtain ⟨rfl, rfl⟩ := readUnitsFrom_eq_ok _ _ _ _ hunits
  rw [readBinding_eq_ok hbinding, usize_eq_ok htextLength, usize_eq_ok hunitCount, ← hlength,
    ← Text.ofBytes_eq_some.mp htext]
  simp only [encoding, List.append_assoc]

/-- What is accepted is the encoding of its binding, text and units. -/
theorem decodePreparedUtf8_eq_ok {env : Env} {artifact : Bytes} {limits : PreparationLimits}
    {view : PreparedUtf8}
    (hdecode : decodePreparedUtf8 hash env artifact source settings limits = .ok view) :
    artifact = encoding source settings view.text.bytes view.units := by
  simp only [decodePreparedUtf8, decode, bind_eq_ok, refuse_eq_ok, not_not, pure_eq_ok,
    Except.ok.injEq] at hdecode
  obtain ⟨_, -, _, -, _, -, ⟨found, rest⟩, hread, _, hrest, _, -, rfl⟩ := hdecode
  have hbytes := readArtifact_eq_ok hread
  obtain rfl : rest = [] := hrest
  rwa [List.append_nil] at hbytes

/-- An artifact that is prepared is the encoding of the text and its units. -/
theorem prepareUtf8_eq_ok {env : Env} {bytes artifact : Bytes} {limits : PreparationLimits}
    (hprepare : prepareUtf8 hash env source bytes settings limits = .ok artifact) :
    bytes.length = source.objectRef.byteLength.toNat ∧ hash bytes = source.objectRef.digest ∧
      settings.IsSupported ∧ Bindable source ∧
      ∃ product units, materializeUtf8 (within env 2) bytes limits.materialization = .ok product ∧
        unitizeText (within env 3) product settings limits.maxUnits = .ok units ∧
        (∃ size, encodedSize product.text.bytes.length units.length = .ok size ∧
          size ≤ limits.maxEncodedBytes) ∧
        artifact = encoding source settings product.text.bytes units := by
  simp only [prepareUtf8, validate, verifyDigest, encode, bind_eq_ok, refuse_eq_ok, not_not,
    mapError_eq_ok, pure_eq_ok, Except.ok.injEq, not_lt, gt_iff_lt] at hprepare
  obtain ⟨_, ⟨_, -, _, -, _, hsettings, _, hsource, -⟩, _, hlength, _, ⟨_, -, _, -, hdigest⟩,
    product, hproduct, units, hunits, _, -, size, hsize, _, hencoded, _, -, _, -, _, -, rfl⟩ :=
    hprepare
  exact ⟨hlength, hdigest, hsettings, hsource, product, units, hproduct, hunits,
    ⟨size, hsize, hencoded⟩, rfl⟩

/-- Limits that a materialization respects are respected by its text. -/
theorem materializeUtf8_within {env : Env} {bytes : Bytes} {limits : PreparationLimits}
    {product : MaterializedText}
    (hproduct : materializeUtf8 env bytes limits.materialization = .ok product) :
    bytes.length ≤ limits.maxInputBytes ∧ bytes.length ≤ limits.maxOutputBytes := by
  simp only [materializeUtf8, bind_eq_ok, refuse_eq_ok, not_lt, gt_iff_lt] at hproduct
  obtain ⟨_, -, _, -, _, hinput, _, houtput, -⟩ := hproduct
  exact ⟨hinput, houtput⟩

/-- The encoding of a covered text is accepted under limits that it respects. -/
theorem decodePreparedUtf8_encoding {env : Env} (hquiet : Undisturbed env) {text : Text}
    {limits : PreparationLimits} {units : List UnitSpan} (hvalid : limits.validate = .ok ())
    (hsettings : settings.IsSupported) (hsource : Bindable source)
    (hlength : text.bytes.length = source.objectRef.byteLength.toNat)
    (hdigest : hash text.bytes = source.objectRef.digest)
    (hlimit : limits.checkTextLength text.bytes.length = .ok ())
    (hcount : units.length ≤ limits.maxUnits)
    {size : Nat} (hsize : encodedSize text.bytes.length units.length = .ok size)
    (hencoded : size ≤ limits.maxEncodedBytes)
    (hroom : (linesOf text.bytes).length ≤ limits.maxLines)
    (hcover : Cover text.bytes (linesOf text.bytes) settings.maxUnitBytes.toNat 0 units) :
    decodePreparedUtf8 hash env (encoding source settings text.bytes units) source settings
      limits = .ok ⟨text, units⟩ := by
  have hartifact : (encoding source settings text.bytes units).length = size := by
    simp only [encodedSize, bind_eq_ok, pure_eq_ok, Except.ok.injEq] at hsize
    obtain ⟨_, -, rfl⟩ := hsize
    exact encoding_length _ _
  have hread := (readArtifact_reads ((hquiet.within 1).within 0) hlength hdigest hlimit hcount
    hsize hroom hcover).run
  have hheader : ¬ size < headerBytes := by
    rw [← hartifact, encoding_length]
    omega
  rw [decodePreparedUtf8, validate, check_ok (hquiet.within 0), ok_bind, hvalid, ok_bind,
    refuse_of_not (not_not.mpr hsettings), ok_bind, refuse_of_not (not_not.mpr hsource), ok_bind,
    ← hlength, hlimit, ok_bind, decode, hartifact, refuse_of_not (not_lt.mpr hencoded), ok_bind,
    refuse_of_not hheader, ok_bind, hread, ok_bind]
  dsimp only
  rw [refuse_of_not (not_not.mpr rfl), ok_bind, check_ok ((hquiet.within 1).within 1), ok_bind,
    pure_eq_ok]

/-- A prepared artifact is accepted under limits that are at least as large. -/
theorem decodePreparedUtf8_prepared {env other : Env} {bytes artifact : Bytes}
    {limits larger : PreparationLimits}
    (hprepare : prepareUtf8 hash env source bytes settings limits = .ok artifact)
    (hlarger : limits.LE larger) (hvalid : larger.validate = .ok ()) (hquiet : Undisturbed other) :
    ∃ product units view, materializeUtf8 (within env 2) bytes limits.materialization =
        .ok product ∧
      unitizeText (within env 3) product settings limits.maxUnits = .ok units ∧
      decodePreparedUtf8 hash other artifact source settings larger = .ok view ∧
      view.text.bytes = bytes ∧ view.units = units := by
  obtain ⟨hlength, hdigest, hsettings, hsource, product, units, hproduct, hunits,
    ⟨size, hsize, hencoded⟩, rfl⟩ := prepareUtf8_eq_ok hprepare
  obtain ⟨hinput, houtput⟩ := materializeUtf8_within hproduct
  obtain ⟨htext, hlines, hlineCount⟩ := materializeUtf8_eq_ok hproduct
  rw [← htext] at hlines
  obtain ⟨hcover, hunitCount⟩ := unitizeText_cover hlines hunits
  have hlimit : larger.checkTextLength bytes.length = .ok () := by
    rw [PreparationLimits.checkTextLength,
      refuse_of_not (not_lt.mpr (hinput.trans hlarger.input)), ok_bind,
      refuse_of_not (not_lt.mpr (houtput.trans hlarger.output))]
  have hroom : (linesOf product.text.bytes).length ≤ larger.maxLines := by
    rw [← hlines]
    exact hlineCount.trans hlarger.lines
  refine ⟨product, units, ⟨product.text, units⟩, hproduct, hunits, ?_, htext, rfl⟩
  exact decodePreparedUtf8_encoding hquiet hvalid hsettings hsource (htext ▸ hlength)
    (htext ▸ hdigest) (htext ▸ hlimit) (hunitCount.trans hlarger.units) hsize
    (hencoded.trans hlarger.encoded) hroom (hlines ▸ hcover)

end Artifacts

/-- Preparation and acceptance are inverse to each other: a prepared artifact is
accepted under all limits that are at least as large and can be served, and an
accepted artifact is determined by its view. -/
theorem artifact_round_trip (hash : Bytes → Blake3Digest32) (source : CurrentSourceRecord)
    (settings : PreparationSettings) :
    (∀ env bytes limits artifact, prepareUtf8 hash env source bytes settings limits =
        .ok artifact →
      ∃ product units, materializeUtf8 (within env 2) bytes limits.materialization =
          .ok product ∧
        unitizeText (within env 3) product settings limits.maxUnits = .ok units ∧
        ∀ other larger, Undisturbed other → limits.LE larger → larger.Valid →
          ∃ view, decodePreparedUtf8 hash other artifact source settings larger = .ok view ∧
            view.text.bytes = bytes ∧ view.units = units) ∧
    (∀ env artifact limits view,
      decodePreparedUtf8 hash env artifact source settings limits = .ok view →
        artifact = encoding source settings view.text.bytes view.units) ∧
    (∀ env other first second limits otherLimits view,
      decodePreparedUtf8 hash env first source settings limits = .ok view →
      decodePreparedUtf8 hash other second source settings otherLimits = .ok view →
        first = second) := by
  refine ⟨?_, ?_, ?_⟩
  · intro env bytes limits artifact hprepare
    obtain ⟨-, -, -, -, product, units, hproduct, hunits, -⟩ := prepareUtf8_eq_ok hprepare
    refine ⟨product, units, hproduct, hunits, fun other larger hquiet hlarger hvalid => ?_⟩
    obtain ⟨found, cut, view, hfound, hcut, hview, htext, hviewUnits⟩ :=
      decodePreparedUtf8_prepared hprepare hlarger (PreparationLimits.validate_eq_ok.mpr hvalid)
        hquiet
    obtain rfl := Except.ok.inj (hfound.symm.trans hproduct)
    obtain rfl := Except.ok.inj (hcut.symm.trans hunits)
    exact ⟨view, hview, htext, hviewUnits⟩
  · intro env artifact limits view hdecode
    exact decodePreparedUtf8_eq_ok hdecode
  · intro env other first second limits otherLimits view hfirst hsecond
    rw [decodePreparedUtf8_eq_ok hfirst, decodePreparedUtf8_eq_ok hsecond]

namespace Sample

def text : Bytes := Json.ascii "abc"

/-- The digest of the three bytes. -/
def digest : Blake3Digest32 :=
  ⟨(Hex.unhex (Json.ascii
    "6437b3ac38465133ffb63b75273a8db548c558465d79db03fd359c6cd5bd9d85")).getD [], by decide⟩

def hash (bytes : Bytes) : Blake3Digest32 :=
  if bytes = text then digest else Octets.replicate 32 0

def source : CurrentSourceRecord :=
  ⟨Octets.replicate 16 1, Octets.replicate 16 2, 1, 1, Json.ascii "/text", .unix 1 1,
    ⟨sourceObjectFormatVersion, .source, digest, 3⟩⟩

def limits : PreparationLimits := ⟨16, 16, 4, 4, 256⟩

/-- Limits whose lines could not be held in memory. -/
def unservable : PreparationLimits := { limits with maxLines := 2 ^ 59 }

/-- Surroundings in which the operation is cancelled. -/
def cancelled : Env := ⟨fun _ => some .cancelled, Env.quiet.fate⟩

def units : List UnitSpan := [⟨0, 3, 0, 1, true, true⟩]

def artifact : Bytes := encoding source .default text units

theorem prepared : prepareUtf8 hash Env.quiet source text .default limits = .ok artifact := by
  decide +kernel

end Sample

theorem artifact_round_trip_sample :
    ∃ view, decodePreparedUtf8 Sample.hash Env.quiet Sample.artifact Sample.source .default
        Sample.limits = .ok view ∧
      view.text.bytes = Sample.text ∧
      Sample.artifact = encoding Sample.source .default view.text.bytes view.units := by
  obtain ⟨hprepares, haccepted, -⟩ := artifact_round_trip Sample.hash Sample.source .default
  obtain ⟨_, _, -, -, hdecodes⟩ := hprepares Env.quiet Sample.text Sample.limits Sample.artifact
    Sample.prepared
  obtain ⟨view, hview, htext, -⟩ := hdecodes Env.quiet Sample.limits undisturbed_quiet
    ⟨le_rfl, le_rfl, le_rfl, le_rfl, le_rfl⟩
    (PreparationLimits.validate_eq_ok.mp (by decide +kernel))
  exact ⟨view, hview, htext, haccepted _ _ _ _ hview⟩

/-- Limits that are at least as large may be refused, and acceptance may be
cancelled. -/
theorem decode_refused :
    prepareUtf8 Sample.hash Env.quiet Sample.source Sample.text .default Sample.limits =
        .ok Sample.artifact ∧
      Sample.limits.LE Sample.unservable ∧
      (decodePreparedUtf8 Sample.hash Env.quiet Sample.artifact Sample.source .default
        Sample.unservable matches .error .offsetOverflow) ∧
      (decodePreparedUtf8 Sample.hash Sample.cancelled Sample.artifact Sample.source .default
        Sample.limits matches .error .cancelled) := by
  refine ⟨Sample.prepared, ⟨?_, ?_, ?_, ?_, ?_⟩, ?_, ?_⟩
  all_goals decide +kernel

end EliotSearch.Preparation
