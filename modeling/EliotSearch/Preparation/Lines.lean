import EliotSearch.Library.Results
import EliotSearch.Library.Utf8
import EliotSearch.Query.Objects

/-!
# Logical lines

A line ends with a line feed, a carriage return or both in this order.  The
materializer lists all lines of a text; a saved artifact is accepted with a
second scanner that reads them one at a time.  Both read the same lines.

Offsets are natural numbers, as a text is far smaller than a machine word.
-/

namespace EliotSearch.Preparation

open EliotSearch.Control
open EliotSearch.Library
open EliotSearch.Library.Results
open EliotSearch.Library.Utf8
open EliotSearch.Query

/-! ## Failures -/

/-- Failures of the selected exact UTF-8 transform. -/
inductive MaterializationError where
  | invalidLimits
  | inputTooLarge
  | outputTooLarge
  | binaryContent
  | invalidUtf8
  | tooManyLines
  | offsetOverflow
  | cancelled
  | deadline
  deriving DecidableEq, Repr

/-- A preparation refusal or operation failure, never a fabricated empty result. -/
inductive PreparationError where
  | binaryContent
  | invalidUtf8
  | inputTooLarge
  | outputTooLarge
  | tooManyLines
  | tooManyUnits
  | unitTooLarge
  | encodedTooLarge
  | invalidSettings
  | invalidLimits
  | offsetOverflow
  | cancelled
  | deadline
  | invalidArtifact
  | bindingMismatch
  | integrityFailure
  deriving DecidableEq, Repr

/-- Stable content-free machine error code. -/
def PreparationError.code : PreparationError → Bytes
  | binaryContent => Json.ascii "PREPARATION_BINARY_CONTENT"
  | invalidUtf8 => Json.ascii "PREPARATION_INVALID_UTF8"
  | inputTooLarge => Json.ascii "PREPARATION_INPUT_TOO_LARGE"
  | outputTooLarge => Json.ascii "PREPARATION_OUTPUT_TOO_LARGE"
  | tooManyLines => Json.ascii "PREPARATION_TOO_MANY_LINES"
  | tooManyUnits => Json.ascii "PREPARATION_TOO_MANY_UNITS"
  | unitTooLarge => Json.ascii "PREPARATION_UNIT_TOO_LARGE"
  | encodedTooLarge => Json.ascii "PREPARATION_ENCODED_TOO_LARGE"
  | invalidSettings => Json.ascii "PREPARATION_SETTINGS_INVALID"
  | invalidLimits => Json.ascii "PREPARATION_LIMITS_INVALID"
  | offsetOverflow => Json.ascii "PREPARATION_OFFSET_OVERFLOW"
  | cancelled => Json.ascii "PREPARATION_CANCELLED"
  | deadline => Json.ascii "PREPARATION_DEADLINE"
  | invalidArtifact => Json.ascii "PREPARATION_ARTIFACT_INVALID"
  | bindingMismatch => Json.ascii "PREPARATION_BINDING_MISMATCH"
  | integrityFailure => Json.ascii "PREPARATION_INTEGRITY_FAILURE"

def MaterializationError.preparation : MaterializationError → PreparationError
  | invalidLimits => .invalidLimits
  | inputTooLarge => .inputTooLarge
  | outputTooLarge => .outputTooLarge
  | binaryContent => .binaryContent
  | invalidUtf8 => .invalidUtf8
  | tooManyLines => .tooManyLines
  | offsetOverflow => .offsetOverflow
  | cancelled => .cancelled
  | deadline => .deadline

def check (env : Env) (site : Nat) : Except PreparationError Unit :=
  checkWith .cancelled .deadline env site

theorem check_ok {env : Env} (hquiet : Undisturbed env) (site : Nat) : check env site = .ok () :=
  checkWith_ok hquiet site

/-- A check made at every thousandth offset or so. -/
def periodicCheck {ε : Type} (cancelled deadline : ε) (env : Env) (offset : Nat) :
    Except ε Unit :=
  if offset % 1024 = 0 then checkWith cancelled deadline env (offset + 1) else .ok ()

theorem periodicCheck_ok {ε : Type} {cancelled deadline : ε} {env : Env}
    (hquiet : Undisturbed env) (offset : Nat) :
    periodicCheck cancelled deadline env offset = .ok () := by
  unfold periodicCheck
  split
  · exact checkWith_ok hquiet _
  · rfl

/-! ## Lines -/

/-- Exact line coordinates in unchanged source and representation bytes. -/
structure LineSpan where
  lineIndex : Nat
  sourceStart : Nat
  /-- Exclusive byte end including the terminator. -/
  sourceEnd : Nat
  /-- Exclusive byte end excluding the terminator. -/
  contentEnd : Nat
  deriving DecidableEq

/-- The length of the line terminator at the front of the bytes. -/
def terminator : Bytes → Nat
  | [] => 0
  | byte :: rest =>
      if byte = 13 ∧ rest.head? = some 10 then 2
      else if byte = 10 ∨ byte = 13 then 1
      else 0

/-- The lines of the rest of a text, the first of which has the given index and
start. -/
def linesFrom : (fuel index start offset : Nat) → Bytes → List LineSpan
  | _, index, start, offset, [] =>
      if start < offset then [⟨index, start, offset, offset⟩] else []
  | 0, _, _, _, _ => []
  | fuel + 1, index, start, offset, byte :: rest =>
      match terminator (byte :: rest) with
      | 0 => linesFrom fuel index start (offset + 1) rest
      | width => ⟨index, start, offset + width, offset⟩ ::
          linesFrom fuel (index + 1) (offset + width) (offset + width)
            ((byte :: rest).drop width)

/-- The lines of a text. -/
def linesOf (text : Bytes) : List LineSpan := linesFrom text.length 0 0 0 text

/-! ## The inventory -/

def pushLine (lines : List LineSpan) (start contentEnd stop maximum : Nat) :
    Except MaterializationError (List LineSpan) := do
  refuse (lines.length ≥ maximum) .tooManyLines
  return lines ++ [⟨lines.length, start, stop, contentEnd⟩]

/-- Scan the rest of a text, of which the current line has started. -/
def scanFrom (env : Env) (maximum : Nat) : (fuel start index : Nat) → Bytes → List LineSpan →
    Except MaterializationError (List LineSpan)
  | _, start, index, [], lines => do
      let lines ← if start < index then pushLine lines start index index maximum else pure lines
      checkWith .cancelled .deadline env 0
      return lines
  | 0, _, _, _, lines => return lines
  | fuel + 1, start, index, byte :: rest, lines => do
      periodicCheck .cancelled .deadline env index
      match terminator (byte :: rest) with
      | 0 => scanFrom env maximum fuel start (index + 1) rest lines
      | width => do
          let lines ← pushLine lines start index (index + width) maximum
          scanFrom env maximum fuel (index + width) (index + width) ((byte :: rest).drop width) lines

def scanLines (env : Env) (maximum : Nat) (bytes : Bytes) :
    Except MaterializationError (List LineSpan) :=
  scanFrom env maximum bytes.length 0 0 bytes []

theorem pushLine_eq_ok {lines found : List LineSpan} {start contentEnd stop maximum : Nat}
    (hpush : pushLine lines start contentEnd stop maximum = .ok found) :
    found = lines ++ [⟨lines.length, start, stop, contentEnd⟩] ∧ found.length ≤ maximum := by
  simp only [pushLine, bind_eq_ok, refuse_eq_ok, pure_eq_ok, Except.ok.injEq] at hpush
  obtain ⟨_, hroom, rfl⟩ := hpush
  refine ⟨rfl, ?_⟩
  rw [List.length_append, List.length_singleton]
  omega

/-- What is left of a line at the end of the text is its last line. -/
theorem scanFrom_end {env : Env} {maximum : Nat} (fuel start index : Nat)
    (lines : List LineSpan) {found : List LineSpan} (hroom : lines.length ≤ maximum)
    (hscan : scanFrom env maximum fuel start index [] lines = .ok found) :
    found = lines ++ linesFrom fuel lines.length start index [] ∧ found.length ≤ maximum := by
  rw [scanFrom] at hscan
  rw [linesFrom]
  by_cases hopen : start < index
  · rw [if_pos hopen] at hscan ⊢
    simp only [bind_eq_ok, pure_eq_ok, Except.ok.injEq] at hscan
    obtain ⟨_, hpush, _, -, rfl⟩ := hscan
    exact pushLine_eq_ok hpush
  · rw [if_neg hopen] at hscan ⊢
    simp only [pure_eq_ok, ok_bind, bind_eq_ok, Except.ok.injEq] at hscan
    obtain ⟨_, -, rfl⟩ := hscan
    exact ⟨(List.append_nil _).symm, hroom⟩

/-- A scan that succeeds lists the lines of the text, and they are within the
maximum. -/
theorem scanFrom_eq_ok {env : Env} {maximum : Nat} (fuel start index : Nat) (rest : Bytes)
    (lines : List LineSpan) {found : List LineSpan} (hfuel : rest.length ≤ fuel)
    (hroom : lines.length ≤ maximum)
    (hscan : scanFrom env maximum fuel start index rest lines = .ok found) :
    found = lines ++ linesFrom fuel lines.length start index rest ∧ found.length ≤ maximum := by
  induction fuel generalizing start index rest lines with
  | zero =>
      obtain rfl := List.eq_nil_of_length_eq_zero (Nat.le_zero.mp hfuel)
      exact scanFrom_end 0 start index lines hroom hscan
  | succ fuel ih =>
      cases rest with
      | nil => exact scanFrom_end (fuel + 1) start index lines hroom hscan
      | cons byte rest =>
          rw [List.length_cons] at hfuel
          simp only [scanFrom, bind_eq_ok] at hscan
          obtain ⟨_, -, hscan⟩ := hscan
          rw [linesFrom]
          split at hscan
          · exact ih start (index + 1) rest lines (by omega) hroom hscan
          · rename_i hwidth
            have hpositive := Nat.pos_of_ne_zero hwidth
            simp only [bind_eq_ok] at hscan
            obtain ⟨more, hpush, hscan⟩ := hscan
            obtain ⟨rfl, hmore⟩ := pushLine_eq_ok hpush
            have hshorter : ((byte :: rest).drop (terminator (byte :: rest))).length ≤ fuel := by
              rw [List.length_drop, List.length_cons]
              omega
            obtain ⟨hfound, hlength⟩ := ih _ _ _ _ hshorter hmore hscan
            refine ⟨?_, hlength⟩
            rw [hfound, List.append_assoc, List.length_append, List.length_singleton]
            rfl

theorem scanLines_eq_ok {env : Env} {maximum : Nat} {bytes : Bytes} {found : List LineSpan}
    (hscan : scanLines env maximum bytes = .ok found) :
    found = linesOf bytes ∧ found.length ≤ maximum :=
  scanFrom_eq_ok bytes.length 0 0 bytes [] le_rfl (Nat.zero_le _) hscan

/-! ## The second scanner -/

/-- A line as the second scanner returns it. -/
structure Line where
  start : Nat
  stop : Nat
  index : Nat
  deriving DecidableEq

/-- What is left to scan, and the offset and the index of its first line. -/
structure Lines where
  rest : Bytes
  offset : Nat
  index : Nat

/-- The end of the line that has started, and what is behind it. -/
def lineEnd (env : Env) : (offset : Nat) → Bytes → Except PreparationError (Nat × Bytes)
  | offset, [] => return (offset, [])
  | offset, byte :: rest => do
      periodicCheck .cancelled .deadline env offset
      match terminator (byte :: rest) with
      | 0 => lineEnd env (offset + 1) rest
      | width => return (offset + width, (byte :: rest).drop width)

/-- The next line, or none at the end of the text. -/
def Lines.next (env : Env) (maximum : Nat) (lines : Lines) :
    Except PreparationError (Option Line × Lines) := do
  check env 0
  if lines.rest = [] then return (none, lines)
  else do
    refuse (lines.index ≥ maximum) .tooManyLines
    let (stop, rest) ← lineEnd env lines.offset lines.rest
    return (some ⟨lines.offset, stop, lines.index⟩, ⟨rest, stop, lines.index + 1⟩)

def LineSpan.line (span : LineSpan) : Line := ⟨span.sourceStart, span.sourceEnd, span.lineIndex⟩

/-- The lines that the second scanner has still to return. -/
def Lines.left (lines : Lines) : List LineSpan :=
  linesFrom lines.rest.length lines.index lines.offset lines.offset lines.rest

theorem terminator_le (bytes : Bytes) : terminator bytes ≤ bytes.length := by
  unfold terminator
  split
  · exact Nat.le_refl 0
  · rename_i byte rest
    split
    · rename_i hpair
      cases rest with
      | nil => cases hpair.2
      | cons next rest => exact Nat.succ_le_succ (Nat.succ_pos _)
    · split
      · exact Nat.succ_le_succ (Nat.zero_le _)
      · exact Nat.zero_le _

/-- More fuel than bytes lists the same lines. -/
theorem linesFrom_fuel (fuel other index start offset : Nat) (rest : Bytes)
    (hfuel : rest.length ≤ fuel) (hother : rest.length ≤ other) :
    linesFrom fuel index start offset rest = linesFrom other index start offset rest := by
  induction fuel generalizing other index start offset rest with
  | zero =>
      obtain rfl := List.eq_nil_of_length_eq_zero (Nat.le_zero.mp hfuel)
      rw [linesFrom, linesFrom]
  | succ fuel ih =>
      cases rest with
      | nil => rw [linesFrom, linesFrom]
      | cons byte rest =>
          rw [List.length_cons] at hfuel hother
          obtain ⟨other, rfl⟩ : ∃ less, other = less + 1 := ⟨other - 1, by omega⟩
          rw [linesFrom, linesFrom]
          split
          · exact ih other _ _ _ rest (by omega) (by omega)
          · rename_i hwidth
            have hpositive := Nat.pos_of_ne_zero hwidth
            have hlength : ((byte :: rest).drop (terminator (byte :: rest))).length ≤
                rest.length := by
              rw [List.length_drop, List.length_cons]
              omega
            rw [ih other _ _ _ _ (hlength.trans (by omega)) (hlength.trans (by omega))]

/-- The line that has started ends where the scanner says, and the lines behind it
are those of the rest. -/
theorem lineEnd_ok {env : Env} (hquiet : Undisturbed env) (index start offset : Nat)
    (rest : Bytes) (hle : start ≤ offset) (hopen : start < offset ∨ rest ≠ []) :
    ∃ stop behind content, lineEnd env offset rest = .ok (stop, behind) ∧
      linesFrom rest.length index start offset rest = ⟨index, start, stop, content⟩ ::
        linesFrom behind.length (index + 1) stop stop behind := by
  induction rest generalizing offset with
  | nil =>
      have hstarted : start < offset := hopen.resolve_right (not_not.mpr rfl)
      refine ⟨offset, [], offset, rfl, ?_⟩
      rw [linesFrom, if_pos hstarted, linesFrom, if_neg (lt_irrefl offset)]
  | cons byte rest ih =>
      rw [lineEnd, periodicCheck_ok hquiet, ok_bind, List.length_cons, linesFrom]
      split
      · obtain ⟨stop, behind, content, hend, hlines⟩ :=
          ih (offset + 1) (Nat.le_succ_of_le hle) (Or.inl (Nat.lt_succ_of_le hle))
        exact ⟨stop, behind, content, hend, hlines⟩
      · rename_i hwidth
        have hpositive := Nat.pos_of_ne_zero hwidth
        refine ⟨_, _, offset, rfl, congrArg (List.cons _) ?_⟩
        refine linesFrom_fuel _ _ _ _ _ _ ?_ le_rfl
        rw [List.length_drop, List.length_cons]
        omega

theorem Lines.next_nil {env : Env} {maximum : Nat} {lines : Lines} (hquiet : Undisturbed env)
    (hrest : lines.rest = []) : lines.next env maximum = .ok (none, lines) := by
  rw [next, check_ok hquiet, ok_bind, if_pos hrest]
  rfl

/-- The second scanner returns the lines that it has left, one at a time. -/
theorem Lines.next_cons {env : Env} {maximum : Nat} {lines : Lines} (hquiet : Undisturbed env)
    {span : LineSpan} {more : List LineSpan} (hleft : lines.left = span :: more)
    (hroom : lines.index + lines.left.length ≤ maximum) :
    ∃ behind, lines.next env maximum = .ok (some span.line, behind) ∧ behind.left = more ∧
      behind.index + behind.left.length ≤ maximum := by
  have hrest : lines.rest ≠ [] := by
    intro hempty
    rw [left, hempty, linesFrom, if_neg (lt_irrefl _)] at hleft
    cases hleft
  obtain ⟨stop, behind, content, hend, hlines⟩ :=
    lineEnd_ok hquiet lines.index lines.offset lines.offset lines.rest le_rfl (Or.inr hrest)
  have hsplit : span :: more = ⟨lines.index, lines.offset, stop, content⟩ ::
      linesFrom behind.length (lines.index + 1) stop stop behind := by
    rw [← hleft, ← hlines]
    rfl
  obtain ⟨rfl, rfl⟩ := List.cons.inj hsplit
  rw [hleft, List.length_cons] at hroom
  have hindex : ¬ lines.index ≥ maximum := by omega
  refine ⟨⟨behind, stop, lines.index + 1⟩, ?_, rfl, ?_⟩
  · rw [next, check_ok hquiet, ok_bind, if_neg hrest, refuse_of_not hindex, ok_bind, hend, ok_bind]
    rfl
  · change lines.index + 1 + (linesFrom behind.length (lines.index + 1) stop stop behind).length ≤
      maximum
    omega

/-! ## Where lines end -/

/-- A line terminator ends with an ASCII byte. -/
theorem terminator_last {bytes : Bytes} (hwidth : terminator bytes ≠ 0) :
    ∃ byte, bytes[terminator bytes - 1]? = some byte ∧ byte.toNat < 128 := by
  unfold terminator at hwidth ⊢
  split at hwidth
  · exact absurd rfl hwidth
  · rename_i byte rest
    split
    · rename_i hpair
      refine ⟨10, ?_, by decide⟩
      rw [← hpair.2, List.head?_eq_getElem?]
      rfl
    · rename_i hsingle
      rw [if_neg hsingle] at hwidth
      split
      · rename_i hends
        refine ⟨byte, rfl, ?_⟩
        rcases hends with rfl | rfl
        · decide
        · decide
      · rename_i hother
        rw [if_neg hother] at hwidth
        exact absurd rfl hwidth

/-- The last line of a text ends with it. -/
theorem linesFrom_end {bytes : Bytes} (fuel index start offset : Nat)
    (hoffset : offset ≤ bytes.length) (hrest : [] = bytes.drop offset) :
    ∀ span ∈ linesFrom fuel index start offset [], IsBoundary bytes span.sourceEnd := by
  have hend := List.drop_eq_nil_iff.mp hrest.symm
  intro span hspan
  rw [linesFrom] at hspan
  split at hspan
  · obtain rfl := List.mem_singleton.mp hspan
    exact Or.inl (le_antisymm hoffset hend)
  · cases hspan

/-- A line ends between two scalars. -/
theorem linesFrom_boundary {scalars : List Char} (fuel index start offset : Nat) (rest : Bytes)
    (hfuel : rest.length ≤ fuel) (hoffset : offset ≤ (encode scalars).length)
    (hrest : rest = (encode scalars).drop offset) :
    ∀ span ∈ linesFrom fuel index start offset rest,
      IsBoundary (encode scalars) span.sourceEnd := by
  induction fuel generalizing index start offset rest with
  | zero =>
      obtain rfl := List.eq_nil_of_length_eq_zero (Nat.le_zero.mp hfuel)
      exact linesFrom_end 0 index start offset hoffset hrest
  | succ fuel ih =>
      cases rest with
      | nil => exact linesFrom_end (fuel + 1) index start offset hoffset hrest
      | cons byte rest =>
          rw [List.length_cons] at hfuel
          have hlength := congrArg List.length hrest
          rw [List.length_cons, List.length_drop] at hlength
          have hdrop (count : Nat) : (byte :: rest).drop count =
              (encode scalars).drop (offset + count) := by
            rw [hrest, List.drop_drop]
          rw [linesFrom]
          split
          · exact ih _ _ _ rest (by omega) (by omega) (hdrop 1)
          · rename_i hwidth
            have hle := terminator_le (byte :: rest)
            have hpositive := Nat.pos_of_ne_zero hwidth
            rw [List.length_cons] at hle
            obtain ⟨last, hlast, hascii⟩ := terminator_last hwidth
            rw [List.forall_mem_cons]
            constructor
            · rw [hrest, List.getElem?_drop, ← hrest] at hlast
              have hafter := boundary_after_ascii hlast hascii
              rwa [Nat.add_assoc, Nat.sub_add_cancel hpositive] at hafter
            · refine ih _ _ _ _ ?_ (by omega) (hdrop _)
              rw [List.length_drop, List.length_cons]
              omega

end EliotSearch.Preparation
