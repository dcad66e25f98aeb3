import EliotSearch.Preparation.RoundTrip

/-!
# Materialized texts

When the transform succeeds, and that the lines it lists are the logical lines
of the text: each one ends with its own terminator and contains no other.
-/

namespace EliotSearch.Preparation

open EliotSearch.Control
open EliotSearch.Library
open EliotSearch.Library.Results
open EliotSearch.Library.Utf8
open EliotSearch.Query

/-! ## Logical lines -/

/-- The bytes behind the content of a line, and the length of its terminator:
both ends of a line, one of them, or none at the end of the text. -/
inductive Ending : Bytes → Nat → Prop where
  | pair (rest : Bytes) : Ending (13 :: 10 :: rest) 2
  | feed (rest : Bytes) : Ending (10 :: rest) 1
  | carriage (rest : Bytes) (halone : rest.head? ≠ some 10) : Ending (13 :: rest) 1
  | absent : Ending [] 0

/-- The span is the logical line of the text at the given start. -/
structure IsLine (text : Bytes) (index start : Nat) (line : LineSpan) : Prop where
  index_eq : line.lineIndex = index
  start_eq : line.sourceStart = start
  nonempty : start < line.sourceEnd
  ordered : start ≤ line.contentEnd ∧ line.contentEnd ≤ line.sourceEnd ∧
    line.sourceEnd ≤ text.length
  content : ∀ byte ∈ (text.take line.contentEnd).drop start, byte ≠ 10 ∧ byte ≠ 13
  ending : Ending (text.drop line.contentEnd) (line.sourceEnd - line.contentEnd)

/-- The spans are the logical lines of the rest of a text, with consecutive
indices. -/
def AreLines (text : Bytes) : (index start : Nat) → List LineSpan → Prop
  | _, start, [] => start = text.length
  | index, start, line :: lines =>
      IsLine text index start line ∧ AreLines text (index + 1) line.sourceEnd lines

theorem terminator_cons (byte : UInt8) (rest : Bytes) :
    terminator (byte :: rest) = if byte = 13 ∧ rest.head? = some 10 then 2
      else if byte = 10 ∨ byte = 13 then 1 else 0 :=
  rfl

theorem ending_of_terminator {bytes : Bytes} (hwidth : terminator bytes ≠ 0) :
    Ending bytes (terminator bytes) := by
  cases bytes with
  | nil => exact absurd rfl hwidth
  | cons byte rest =>
      rw [terminator_cons] at hwidth ⊢
      split
      · rename_i hpair
        obtain ⟨rfl, hfeed⟩ := hpair
        obtain ⟨behind, rfl⟩ := List.head?_eq_some_iff.mp hfeed
        exact .pair behind
      · rename_i hsingle
        rw [if_neg hsingle] at hwidth
        split
        · rename_i hends
          rcases hends with rfl | rfl
          · exact .feed rest
          · exact .carriage rest fun hfeed => hsingle ⟨rfl, hfeed⟩
        · rename_i hother
          exact absurd (if_neg hother) hwidth

theorem ne_of_terminator {byte : UInt8} {rest : Bytes} (hwidth : terminator (byte :: rest) = 0) :
    byte ≠ 10 ∧ byte ≠ 13 := by
  rw [terminator_cons] at hwidth
  split at hwidth
  · cases hwidth
  · split at hwidth
    · cases hwidth
    · rename_i hother
      exact not_or.mp hother

/-- An ending has the length of its terminator. -/
theorem Ending.width {bytes : Bytes} {width : Nat} (hending : Ending bytes width) :
    width = terminator bytes := by
  cases hending with
  | pair rest => rfl
  | feed rest => rfl
  | carriage rest halone =>
      have hsingle : ¬ ((13 : UInt8) = 13 ∧ rest.head? = some 10) := fun hpair => halone hpair.2
      rw [terminator_cons, if_neg hsingle]
      rfl
  | absent => rfl

/-- What stands behind the content of a line starts with a terminator byte. -/
theorem Ending.head {bytes : Bytes} {width : Nat} (hending : Ending bytes width) :
    bytes = [] ∨ ∃ byte ∈ bytes.head?, byte = 10 ∨ byte = 13 := by
  cases hending with
  | pair rest => exact Or.inr ⟨13, rfl, Or.inr rfl⟩
  | feed rest => exact Or.inr ⟨10, rfl, Or.inl rfl⟩
  | carriage rest halone => exact Or.inr ⟨13, rfl, Or.inr rfl⟩
  | absent => exact Or.inl rfl

section Lines

variable {text : Bytes}

/-- The bytes of a line up to one more position. -/
theorem content_succ {start offset : Nat} {byte : UInt8} {rest : Bytes}
    (hrest : byte :: rest = text.drop offset) (hstart : start ≤ offset)
    (hcontent : ∀ other ∈ (text.take offset).drop start, other ≠ 10 ∧ other ≠ 13)
    (hbyte : byte ≠ 10 ∧ byte ≠ 13) :
    ∀ other ∈ (text.take (offset + 1)).drop start, other ≠ 10 ∧ other ≠ 13 := by
  have hget : text[offset]? = some byte := by
    have hhead := congrArg List.head? hrest
    rw [List.head?_drop] at hhead
    exact hhead.symm
  have hbound : offset < text.length := (List.getElem?_eq_some_iff.mp hget).1
  have htake : text.take (offset + 1) = text.take offset ++ [byte] := by
    rw [List.take_add_one, hget]
    rfl
  have hlength : (text.take offset).length = offset := List.length_take_of_le hbound.le
  rw [htake, List.drop_append_of_le_length (by rw [hlength]; exact hstart)]
  intro other hmem
  rcases List.mem_append.mp hmem with hmem | hmem
  · exact hcontent other hmem
  · obtain rfl := List.mem_singleton.mp hmem
    exact hbyte

/-- What is left of a line at the end of the text is its last line. -/
theorem linesFrom_nil_areLines (fuel index start offset : Nat) (hstart : start ≤ offset)
    (hoffset : offset ≤ text.length) (hrest : [] = text.drop offset)
    (hcontent : ∀ byte ∈ (text.take offset).drop start, byte ≠ 10 ∧ byte ≠ 13) :
    AreLines text index start (linesFrom fuel index start offset []) := by
  have hlength : offset = text.length :=
    le_antisymm hoffset (List.drop_eq_nil_iff.mp hrest.symm)
  rw [linesFrom]
  split
  · rename_i hopen
    refine ⟨⟨rfl, rfl, hopen, ⟨hstart, le_rfl, hoffset⟩, hcontent, ?_⟩, hlength⟩
    rw [← hrest, Nat.sub_self]
    exact .absent
  · rename_i hclosed
    exact (le_antisymm hstart (not_lt.mp hclosed)).trans hlength

/-- The scanner lists logical lines. -/
theorem linesFrom_areLines (fuel index start offset : Nat) (rest : Bytes)
    (hfuel : rest.length ≤ fuel) (hstart : start ≤ offset) (hoffset : offset ≤ text.length)
    (hrest : rest = text.drop offset)
    (hcontent : ∀ byte ∈ (text.take offset).drop start, byte ≠ 10 ∧ byte ≠ 13) :
    AreLines text index start (linesFrom fuel index start offset rest) := by
  induction fuel generalizing index start offset rest with
  | zero =>
      obtain rfl := List.eq_nil_of_length_eq_zero (Nat.le_zero.mp hfuel)
      exact linesFrom_nil_areLines 0 index start offset hstart hoffset hrest hcontent
  | succ fuel ih =>
      cases rest with
      | nil => exact linesFrom_nil_areLines _ index start offset hstart hoffset hrest hcontent
      | cons byte rest =>
          rw [List.length_cons] at hfuel
          have hlength := congrArg List.length hrest
          rw [List.length_cons, List.length_drop] at hlength
          have hdrop (count : Nat) : (byte :: rest).drop count = text.drop (offset + count) := by
            rw [hrest, List.drop_drop]
          rw [linesFrom]
          split
          · rename_i hplain
            exact ih _ _ (offset + 1) rest (by omega) (by omega) (by omega) (hdrop 1)
              (content_succ hrest hstart hcontent (ne_of_terminator hplain))
          · rename_i hwidth
            have hpositive := Nat.pos_of_ne_zero hwidth
            have hle := terminator_le (byte :: rest)
            rw [List.length_cons] at hle
            have hbound : offset + terminator (byte :: rest) ≤ text.length := by omega
            have hending : Ending (text.drop offset)
                (offset + terminator (byte :: rest) - offset) := by
              rw [← hrest, Nat.add_sub_cancel_left]
              exact ending_of_terminator hwidth
            refine ⟨⟨rfl, rfl, hstart.trans_lt (Nat.lt_add_of_pos_right hpositive),
              ⟨hstart, Nat.le_add_right _ _, hbound⟩, hcontent, hending⟩, ?_⟩
            refine ih _ _ _ _ ?_ le_rfl hbound (hdrop _) ?_
            · rw [List.length_drop, List.length_cons]
              omega
            · rw [List.drop_take_self]
              exact fun byte hmem => absurd hmem List.not_mem_nil

theorem linesOf_areLines (text : Bytes) : AreLines text 0 0 (linesOf text) := by
  refine linesFrom_areLines _ 0 0 0 text le_rfl le_rfl (Nat.zero_le _) rfl ?_
  rw [List.drop_take_self]
  exact fun byte hmem => absurd hmem List.not_mem_nil

/-- A line ends its content no later than another one at the same start. -/
theorem IsLine.content_le {index other start : Nat} {first second : LineSpan}
    (hfirst : IsLine text index start first) (hsecond : IsLine text other start second) :
    first.contentEnd ≤ second.contentEnd := by
  by_contra hlater
  have hbefore := not_le.mp hlater
  have hwithin := hfirst.ordered
  rcases hsecond.ending.head with hend | ⟨byte, hbyte, hends⟩
  · have hlength := List.drop_eq_nil_iff.mp hend
    omega
  · have hget : text[second.contentEnd]? = some byte := by rwa [List.head?_drop] at hbyte
    have hmem : byte ∈ (text.take first.contentEnd).drop start := by
      refine List.mem_of_getElem? (i := second.contentEnd - start) ?_
      rw [List.getElem?_drop, Nat.add_sub_cancel' hsecond.ordered.1,
        List.getElem?_take_of_lt hbefore]
      exact hget
    obtain ⟨hfeed, hcarriage⟩ := hfirst.content byte hmem
    rcases hends with rfl | rfl
    · exact hfeed rfl
    · exact hcarriage rfl

/-- A text has one line at a start. -/
theorem IsLine.unique {index start : Nat} {first second : LineSpan}
    (hfirst : IsLine text index start first) (hsecond : IsLine text index start second) :
    first = second := by
  have hcontent : first.contentEnd = second.contentEnd :=
    le_antisymm (hfirst.content_le hsecond) (hsecond.content_le hfirst)
  have hwidth := hfirst.ending.width
  rw [hcontent, ← hsecond.ending.width] at hwidth
  have hleft := hfirst.ordered
  have hright := hsecond.ordered
  have hend : first.sourceEnd = second.sourceEnd := by omega
  cases first
  cases second
  have hindex := hfirst.index_eq.trans hsecond.index_eq.symm
  have hstart := hfirst.start_eq.trans hsecond.start_eq.symm
  dsimp only at hindex hstart hend hcontent
  rw [hindex, hstart, hend, hcontent]

theorem AreLines.le {index start : Nat} {lines : List LineSpan}
    (hlines : AreLines text index start lines) : start ≤ text.length := by
  cases lines with
  | nil => exact Nat.le_of_eq hlines
  | cons line lines => exact hlines.1.nonempty.le.trans hlines.1.ordered.2.2

/-- A text has one list of lines. -/
theorem AreLines.unique {index start : Nat} {first second : List LineSpan}
    (hfirst : AreLines text index start first) (hsecond : AreLines text index start second) :
    first = second := by
  induction first generalizing index start second with
  | nil =>
      cases second with
      | nil => rfl
      | cons line lines =>
          have hend : start = text.length := hfirst
          have hnonempty := hsecond.1.nonempty
          have hbound := hsecond.1.ordered.2.2
          omega
  | cons line lines ih =>
      cases second with
      | nil =>
          have hend : start = text.length := hsecond
          have hnonempty := hfirst.1.nonempty
          have hbound := hfirst.1.ordered.2.2
          omega
      | cons other others =>
          obtain rfl := hfirst.1.unique hsecond.1
          rw [ih hfirst.2 hsecond.2]

end Lines

/-! ## Binary content -/

/-- Bytes are refused exactly for a zero byte or too many control bytes. -/
theorem rejectControls_eq_ok {env : Env} (hquiet : Undisturbed env) {threshold : Nat}
    (index controls : Nat) (bytes : Bytes) (hbelow : controls < threshold) :
    rejectControls env threshold index controls bytes = .ok () ↔
      0 ∉ bytes ∧ controls + bytes.countP (fun byte => decide (IsControl byte)) < threshold := by
  induction bytes generalizing index controls with
  | nil => simpa [rejectControls] using hbelow
  | cons byte bytes ih =>
      simp only [rejectControls, periodicCheck_ok hquiet, ok_bind, bind_eq_ok, refuse_eq_ok,
        List.mem_cons, not_or, List.countP_cons]
      by_cases hcontrol : IsControl byte
      · simp only [hcontrol, true_and, not_le, if_true, decide_true]
        constructor
        · rintro ⟨_, hbyte, _, hnext, hrest⟩
          obtain ⟨hzero, hcount⟩ := (ih (index + 1) (controls + 1) hnext).mp hrest
          exact ⟨⟨Ne.symm hbyte, hzero⟩, by omega⟩
        · rintro ⟨⟨hbyte, hzero⟩, hcount⟩
          exact ⟨(), Ne.symm hbyte, (), by omega,
            (ih (index + 1) (controls + 1) (by omega)).mpr ⟨hzero, by omega⟩⟩
      · simp only [hcontrol, false_and, not_false_iff, true_and, if_false, decide_false]
        constructor
        · rintro ⟨_, hbyte, _, hrest⟩
          obtain ⟨hzero, hcount⟩ := (ih (index + 1) controls hbelow).mp hrest
          exact ⟨⟨Ne.symm hbyte, hzero⟩, by simpa using hcount⟩
        · rintro ⟨⟨hbyte, hzero⟩, hcount⟩
          exact ⟨(), Ne.symm hbyte, (),
            (ih (index + 1) controls hbelow).mpr ⟨hzero, by simpa using hcount⟩⟩

/-- Bytes that pass do so when nothing disturbs the checks. -/
theorem rejectControls_quiet {env : Env} {threshold : Nat} (index controls : Nat) (bytes : Bytes)
    (hpass : rejectControls env threshold index controls bytes = .ok ()) :
    rejectControls Env.quiet threshold index controls bytes = .ok () := by
  induction bytes generalizing index controls with
  | nil => rfl
  | cons byte bytes ih =>
      simp only [rejectControls, bind_eq_ok] at hpass
      obtain ⟨_, -, _, hbyte, _, hcontrol, hrest⟩ := hpass
      rw [rejectControls, periodicCheck_ok undisturbed_quiet, ok_bind, hbyte, ok_bind, hcontrol,
        ok_bind]
      exact ih _ _ hrest

theorem rejectBinaryControls_eq_ok {env : Env} (hquiet : Undisturbed env) {bytes : Bytes} :
    rejectBinaryControls env bytes = .ok () ↔
      0 ∉ bytes ∧ bytes.countP (fun byte => decide (IsControl byte)) <
        max 4 ((bytes.length + 99) / 100) := by
  rw [rejectBinaryControls, max_comm, rejectControls_eq_ok hquiet 0 0 bytes (by omega),
    Nat.zero_add]

/-! ## Success -/

section Scanning

variable {env : Env} {maximum : Nat}

theorem pushLine_ok {lines : List LineSpan} (start contentEnd stop : Nat)
    (hroom : lines.length < maximum) :
    pushLine lines start contentEnd stop maximum =
      .ok (lines ++ [⟨lines.length, start, stop, contentEnd⟩]) := by
  rw [pushLine, refuse_of_not (not_le.mpr hroom), ok_bind, pure_eq_ok]

theorem scanFrom_nil_ok (hquiet : Undisturbed env) (fuel start index : Nat)
    (lines : List LineSpan)
    (hroom : lines.length + (linesFrom fuel lines.length start index []).length ≤ maximum) :
    ∃ found, scanFrom env maximum fuel start index [] lines = .ok found := by
  rw [linesFrom] at hroom
  rw [scanFrom, checkWith_ok hquiet]
  split
  · rename_i hopen
    rw [if_pos hopen, List.length_singleton] at hroom
    rw [pushLine_ok _ _ _ hroom, ok_bind]
    exact ⟨_, rfl⟩
  · exact ⟨_, rfl⟩

/-- A scan that has room for every line succeeds. -/
theorem scanFrom_ok (hquiet : Undisturbed env) (fuel start index : Nat) (rest : Bytes)
    (lines : List LineSpan) (hfuel : rest.length ≤ fuel)
    (hroom : lines.length + (linesFrom fuel lines.length start index rest).length ≤ maximum) :
    ∃ found, scanFrom env maximum fuel start index rest lines = .ok found := by
  induction fuel generalizing start index rest lines with
  | zero =>
      obtain rfl := List.eq_nil_of_length_eq_zero (Nat.le_zero.mp hfuel)
      exact scanFrom_nil_ok hquiet 0 start index lines hroom
  | succ fuel ih =>
      cases rest with
      | nil => exact scanFrom_nil_ok hquiet _ start index lines hroom
      | cons byte rest =>
          rw [List.length_cons] at hfuel
          rw [linesFrom] at hroom
          rw [scanFrom, periodicCheck_ok hquiet, ok_bind]
          split
          · rename_i hplain
            rw [hplain] at hroom
            exact ih start (index + 1) rest lines (by omega) hroom
          · rename_i hwidth
            have hpositive := Nat.pos_of_ne_zero hwidth
            split at hroom
            · exact absurd ‹_› hwidth
            · rw [List.length_cons] at hroom
              rw [pushLine_ok _ _ _ (by omega), ok_bind]
              refine ih _ _ _ _ ?_ ?_
              · rw [List.length_drop, List.length_cons]
                omega
              · rw [List.length_append, List.length_singleton]
                omega

end Scanning

/-- What the transform needs of the bytes and of its limits. -/
structure Materializable (bytes : Bytes) (limits : MaterializationLimits) : Prop where
  input : bytes.length ≤ limits.maxInputBytes
  output : bytes.length ≤ limits.maxOutputBytes
  zero : 0 ∉ bytes
  controls : bytes.countP (fun byte => decide (IsControl byte)) < max 4 ((bytes.length + 99) / 100)
  valid : Valid bytes
  lines : ∃ lines, AreLines bytes 0 0 lines ∧ lines.length ≤ limits.maxLines

theorem materializable_of_ok {env : Env} {bytes : Bytes} {limits : MaterializationLimits}
    {product : MaterializedText} (hproduct : materializeUtf8 env bytes limits = .ok product) :
    Materializable bytes limits := by
  obtain ⟨htext, hlines, hcount⟩ := materializeUtf8_eq_ok hproduct
  simp only [materializeUtf8, bind_eq_ok, refuse_eq_ok, okOr_eq_ok, not_lt, gt_iff_lt] at hproduct
  obtain ⟨_, -, _, -, _, hinput, _, houtput, _, hcontrols, text, hvalid, -⟩ := hproduct
  obtain ⟨hzero, hfew⟩ := (rejectBinaryControls_eq_ok undisturbed_quiet).mp
    (rejectControls_quiet _ _ _ hcontrols)
  refine ⟨hinput, houtput, hzero, hfew, ?_, product.lines, ?_, hcount⟩
  · rw [← Text.ofBytes_eq_some.mp hvalid]
    exact text.valid
  · rw [hlines]
    exact linesOf_areLines bytes

theorem Materializable.ok {env : Env} {bytes : Bytes} {limits : MaterializationLimits}
    (hable : Materializable bytes limits) (hlimits : limits.validate = .ok ())
    (hquiet : Undisturbed env) : ∃ product, materializeUtf8 env bytes limits = .ok product := by
  obtain ⟨lines, hlines, hcount⟩ := hable.lines
  obtain rfl := hlines.unique (linesOf_areLines bytes)
  have hcontrols : rejectBinaryControls (within env 1) bytes = .ok () :=
    (rejectBinaryControls_eq_ok (hquiet.within 1)).mpr ⟨hable.zero, hable.controls⟩
  obtain ⟨found, hscan⟩ : ∃ found, scanLines (within env 3) limits.maxLines bytes = .ok found := by
    refine scanFrom_ok (hquiet.within 3) _ 0 0 bytes [] le_rfl ?_
    rw [List.length_nil, Nat.zero_add]
    exact hcount
  have htext : Text.ofBytes bytes = some ⟨bytes, hable.valid⟩ := Text.ofBytes_eq_some.mpr rfl
  refine ⟨⟨⟨bytes, hable.valid⟩, found⟩, ?_⟩
  rw [materializeUtf8, checkWith_ok (hquiet.within 0), ok_bind, hlimits, ok_bind,
    refuse_of_not (not_lt.mpr hable.input), ok_bind, refuse_of_not (not_lt.mpr hable.output),
    ok_bind, hcontrols, ok_bind, htext, okOr_some, ok_bind, checkWith_ok (hquiet.within 2), ok_bind,
    hscan, ok_bind, pure_eq_ok]

/-- The transform succeeds exactly on valid texts that are not binary and within
the limits.  It keeps the bytes and lists their logical lines. -/
theorem materializeUtf8_iff (bytes : Bytes) (limits : MaterializationLimits)
    (hlimits : limits.validate = .ok ()) :
    (∀ env, Undisturbed env →
      ((∃ product, materializeUtf8 env bytes limits = .ok product) ↔
        Materializable bytes limits)) ∧
    ∀ env product, materializeUtf8 env bytes limits = .ok product →
      Materializable bytes limits ∧ product.text.bytes = bytes ∧
        AreLines bytes 0 0 product.lines := by
  constructor
  · intro env hquiet
    constructor
    · rintro ⟨product, hproduct⟩
      exact materializable_of_ok hproduct
    · intro hable
      exact hable.ok hlimits hquiet
  · intro env product hproduct
    obtain ⟨htext, hlines, -⟩ := materializeUtf8_eq_ok hproduct
    refine ⟨materializable_of_ok hproduct, htext, ?_⟩
    rw [hlines]
    exact linesOf_areLines bytes

/-- Three lines with the three terminators and a tail. -/
theorem materializeUtf8_iff_sample :
    ∃ product, materializeUtf8 Env.quiet [97, 13, 10, 13, 98, 10, 99] ⟨16, 16, 8⟩ = .ok product ∧
      product.lines = [⟨0, 0, 3, 1⟩, ⟨1, 3, 4, 3⟩, ⟨2, 4, 6, 5⟩, ⟨3, 6, 7, 7⟩] ∧
      AreLines [97, 13, 10, 13, 98, 10, 99] 0 0 product.lines := by
  obtain ⟨hsucceeds, hshows⟩ := materializeUtf8_iff [97, 13, 10, 13, 98, 10, 99] ⟨16, 16, 8⟩ rfl
  have hable : Materializable [97, 13, 10, 13, 98, 10, 99] ⟨16, 16, 8⟩ :=
    ⟨by decide, by decide, by decide, by decide, by decide, _, linesOf_areLines _, by decide⟩
  obtain ⟨product, hproduct⟩ := (hsucceeds Env.quiet undisturbed_quiet).mpr hable
  obtain ⟨-, -, hlines⟩ := hshows Env.quiet product hproduct
  refine ⟨product, hproduct, ?_, hlines⟩
  rw [hlines.unique (linesOf_areLines _)]
  rfl

end EliotSearch.Preparation
