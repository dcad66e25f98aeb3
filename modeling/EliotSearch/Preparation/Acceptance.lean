import EliotSearch.Preparation.Layout

/-!
# What is accepted

Whatever bytes an artifact has, an accepted view has the bound text, and its units
cover that text with the lines that the materializer lists.

The accepting scanner is also written with offsets into the text, as the decoder
reads it, to show that it stays inside the text and always stops.
-/

namespace EliotSearch.Preparation

open EliotSearch.Control
open EliotSearch.Library
open EliotSearch.Library.Results
open EliotSearch.Library.Utf8
open EliotSearch.Query

/-! ## The lines that are read -/

/-- A line that is found in any surroundings is found in quiet ones. -/
theorem lineEnd_quiet {env : Env} (offset : Nat) (rest : Bytes) {found : Nat × Bytes}
    (hfound : lineEnd env offset rest = .ok found) : lineEnd Env.quiet offset rest = .ok found := by
  induction rest generalizing offset with
  | nil => exact hfound
  | cons byte rest ih =>
      rw [lineEnd, bind_eq_ok] at hfound
      obtain ⟨_, -, hfound⟩ := hfound
      rw [lineEnd, periodicCheck_ok undisturbed_quiet, ok_bind]
      split at hfound
      · exact ih (offset + 1) hfound
      · exact hfound

/-- The current line is the first of the given lines, and the others are left. -/
structure Ahead (current : Option Line) (lines : Lines) (ahead : List LineSpan) : Prop where
  current_eq : current = ahead.head?.map LineSpan.line
  left_eq : lines.left = ahead.tail

section Reading

variable {env : Env} {maximum : Nat}

/-- A line that is read is the first that was left. -/
theorem Lines.next_eq_ok {lines behind : Lines} {current : Option Line}
    (hnext : lines.next env maximum = .ok (current, behind)) :
    Ahead current behind lines.left := by
  rw [next, bind_eq_ok] at hnext
  obtain ⟨_, -, hnext⟩ := hnext
  split at hnext
  · rename_i hrest
    obtain ⟨rfl, rfl⟩ := Prod.mk.inj (Except.ok.inj hnext)
    have hleft : lines.left = [] := by rw [left, hrest, linesFrom, if_neg (lt_irrefl _)]
    constructor
    · rw [hleft]
      rfl
    · rw [hleft]
      rfl
  · rename_i hrest
    simp only [bind_eq_ok, refuse_eq_ok, pure_eq_ok, Except.ok.injEq, Prod.mk.injEq] at hnext
    obtain ⟨_, -, ⟨stop, rest⟩, hend, rfl, rfl⟩ := hnext
    obtain ⟨_, _, content, hquiet, hlines⟩ := lineEnd_ok undisturbed_quiet lines.index
      lines.offset lines.offset lines.rest le_rfl (Or.inr hrest)
    rw [lineEnd_quiet _ _ hend] at hquiet
    obtain ⟨rfl, rfl⟩ := Prod.mk.inj (Except.ok.inj hquiet)
    have hleft : lines.left = ⟨lines.index, lines.offset, stop, content⟩ ::
        linesFrom rest.length (lines.index + 1) stop stop rest := hlines
    constructor
    · rw [hleft]
      rfl
    · rw [hleft]
      rfl

/-- Reading on ends at the first line that is not behind. -/
theorem Lines.seek_eq_ok (behind : Line → Bool) (fuel : Nat) (line : LineSpan) (lines : Lines)
    {found : Line} {after : Lines}
    (hseek : lines.seek env maximum behind fuel line.line = .ok (found, after)) :
    Ahead (some found) after
      ((line :: lines.left).dropWhile fun span => behind span.line) := by
  induction fuel generalizing line lines with
  | zero =>
      rw [seek, bind_eq_ok] at hseek
      obtain ⟨_, hhere, hseek⟩ := hseek
      obtain ⟨rfl, rfl⟩ := Prod.mk.inj (Except.ok.inj hseek)
      rw [List.dropWhile_cons, if_neg (refuse_eq_ok.mp hhere)]
      exact ⟨rfl, rfl⟩
  | succ fuel ih =>
      rw [seek] at hseek
      split at hseek
      · rename_i hbehind
        rw [List.dropWhile_cons, if_pos hbehind]
        simp only [bind_eq_ok, okOr_eq_ok] at hseek
        obtain ⟨⟨following, more⟩, hnext, next, rfl, hseek⟩ := hseek
        obtain ⟨hcurrent, hleft⟩ := Lines.next_eq_ok hnext
        cases hlist : lines.left with
        | nil =>
            rw [hlist] at hcurrent
            cases hcurrent
        | cons span spans =>
            rw [hlist] at hcurrent hleft
            obtain rfl := Option.some.inj hcurrent
            have hfound := ih span more hseek
            rwa [hleft] at hfound
      · rename_i hhere
        obtain ⟨rfl, rfl⟩ := Prod.mk.inj (Except.ok.inj hseek)
        rw [List.dropWhile_cons, if_neg hhere]
        exact ⟨rfl, rfl⟩

end Reading

/-! ## The units that are read -/

section Units

variable {env : Env} {text : Text} {hard maximum expected : Nat}

/-- An accepted unit starts at the expected boundary and is described by its lines. -/
theorem acceptUnit_eq_ok {unit : UnitSpan} {current : Option Line} {lines after : Lines}
    {last : Line}
    (hahead : Ahead current lines
      ((linesOf text.bytes).dropWhile fun line => line.sourceEnd < expected))
    (haccept : acceptUnit env text hard maximum expected unit current lines = .ok (last, after)) :
    Describes text.bytes (linesOf text.bytes) hard expected unit ∧
      IsBoundary text.bytes expected ∧
      Ahead (some last) after
        ((linesOf text.bytes).dropWhile fun line => line.sourceEnd < unit.sourceEnd) := by
  simp only [acceptUnit, bind_eq_ok, refuse_eq_ok, okOr_eq_ok, not_not, pure_eq_ok,
    Except.ok.injEq, Prod.mk.injEq] at haccept
  obtain ⟨_, hinText, current, rfl, ⟨first, middle⟩, hfirst, ⟨_, _⟩, hlast, _, hdescribed, rfl,
    rfl⟩ := haccept
  simp only [InText, not_or, not_not, not_le, not_lt, gt_iff_lt] at hinText
  obtain ⟨rfl, hnonempty, hbounded, hfits, hstart, hstop⟩ := hinText
  simp only [Described, not_or, not_not, ne_eq] at hdescribed
  obtain ⟨hlineStart, hlineEnd, hstarts, hends⟩ := hdescribed
  obtain ⟨hcurrent, hleft⟩ := hahead
  cases hlist : (linesOf text.bytes).dropWhile fun line => line.sourceEnd < unit.sourceStart with
  | nil =>
      rw [hlist] at hcurrent
      cases hcurrent
  | cons head more =>
      rw [hlist] at hcurrent hleft
      obtain rfl := Option.some.inj hcurrent
      have hfirstAhead := Lines.seek_eq_ok _ _ _ _ hfirst
      -- the pending lines start with one that does not end before the unit
      have hdropFirst : (head :: lines.left).dropWhile
          (fun span => decide (span.line.stop ≤ unit.sourceStart)) =
          (linesOf text.bytes).dropWhile fun line => line.sourceEnd ≤ unit.sourceStart := by
        have hmore : head :: lines.left = head :: more := congrArg (List.cons head) hleft
        rw [hmore, ← hlist]
        exact dropWhile_dropWhile _ fun line _ hline =>
          decide_eq_true (Nat.le_of_lt (of_decide_eq_true hline))
      rw [hdropFirst] at hfirstAhead
      obtain ⟨hfirstCurrent, hfirstLeft⟩ := hfirstAhead
      cases hfirstList : (linesOf text.bytes).dropWhile
          fun line => line.sourceEnd ≤ unit.sourceStart with
      | nil =>
          rw [hfirstList] at hfirstCurrent
          cases hfirstCurrent
      | cons firstSpan firstMore =>
          rw [hfirstList] at hfirstCurrent hfirstLeft
          obtain rfl := Option.some.inj hfirstCurrent
          have hlastAhead := Lines.seek_eq_ok _ _ _ _ hlast
          have hdropLast : (firstSpan :: middle.left).dropWhile
              (fun span => decide (span.line.stop < unit.sourceEnd)) =
              (linesOf text.bytes).dropWhile fun line => line.sourceEnd < unit.sourceEnd := by
            have hmore : firstSpan :: middle.left = firstSpan :: firstMore :=
              congrArg (List.cons firstSpan) hfirstLeft
            rw [hmore, ← hfirstList]
            exact dropWhile_dropWhile _ fun line _ hline =>
              decide_eq_true (Nat.lt_of_le_of_lt (of_decide_eq_true hline) hnonempty)
          rw [hdropLast] at hlastAhead
          refine ⟨⟨rfl, hnonempty, hbounded, hfits, hstop, ?_, ?_⟩, hstart, hlastAhead⟩
          · refine ⟨firstSpan, ?_, hlineStart, hstarts.trans (decide_eq_decide.mpr eq_comm)⟩
            rw [hfirstList]
            rfl
          · obtain ⟨lastSpan, hlastSpan, rfl⟩ := Option.map_eq_some_iff.mp
              hlastAhead.current_eq.symm
            exact ⟨lastSpan, hlastSpan, hlineEnd, hends.trans (decide_eq_decide.mpr eq_comm)⟩

/-- Units that are accepted cover the rest of the text from boundary to boundary. -/
theorem readUnitsFrom_cover (count expected : Nat) (current : Option Line) (lines : Lines)
    {bytes rest : Bytes} {units : List UnitSpan}
    (hahead : Ahead current lines
      ((linesOf text.bytes).dropWhile fun line => line.sourceEnd < expected))
    (hread : readUnitsFrom env text hard maximum count expected current lines bytes =
      .ok (units, rest)) :
    Cover text.bytes (linesOf text.bytes) hard expected units ∧
      ∀ unit ∈ units, IsBoundary text.bytes unit.sourceStart := by
  induction count generalizing expected current lines bytes units with
  | zero =>
      simp only [readUnitsFrom, Reader.bind_eq_ok, Reader.refuse_eq_ok, Reader.pure_eq_ok,
        not_not] at hread
      obtain ⟨_, _, ⟨hend, rfl⟩, rfl, rfl⟩ := hread
      exact ⟨hend, fun unit hmem => absurd hmem List.not_mem_nil⟩
  | succ count ih =>
      simp only [readUnitsFrom, Reader.bind_eq_ok, Reader.lift_eq_ok, Reader.pure_eq_ok] at hread
      obtain ⟨_, _, ⟨-, rfl⟩, unit, _, -, ⟨last, after⟩, _, ⟨haccept, rfl⟩, more, _, hmore, rfl,
        rfl⟩ := hread
      obtain ⟨hdescribes, hstart, hafter⟩ := acceptUnit_eq_ok hahead haccept
      obtain ⟨hcover, hboundaries⟩ := ih _ _ _ hafter hmore
      refine ⟨⟨hdescribes, hcover⟩, ?_⟩
      rw [List.forall_mem_cons, hdescribes.start_eq]
      exact ⟨hstart, hboundaries⟩

theorem readUnits_cover {settings : PreparationSettings} {limits : PreparationLimits}
    {count : Nat} {bytes rest : Bytes} {units : List UnitSpan}
    (hread : readUnits env text count settings limits bytes = .ok (units, rest)) :
    Cover text.bytes (linesOf text.bytes) settings.maxUnitBytes.toNat 0 units ∧
      ∀ unit ∈ units, IsBoundary text.bytes unit.sourceStart := by
  simp only [readUnits, Reader.bind_eq_ok, Reader.refuse_eq_ok, Reader.lift_eq_ok] at hread
  obtain ⟨_, _, ⟨-, rfl⟩, ⟨current, lines⟩, _, ⟨hnext, rfl⟩, hread⟩ := hread
  refine readUnitsFrom_cover _ _ _ _ ?_ hread
  have hall : (linesOf text.bytes).dropWhile (fun line => line.sourceEnd < 0) =
      linesOf text.bytes := by
    cases linesOf text.bytes with
    | nil => rfl
    | cons line lines => rfl
  rw [hall]
  exact Lines.next_eq_ok hnext

/-- As many units are read as are announced. -/
theorem readUnitsFrom_length (count expected : Nat) (current : Option Line) (lines : Lines)
    {bytes rest : Bytes} {units : List UnitSpan}
    (hread : readUnitsFrom env text hard maximum count expected current lines bytes =
      .ok (units, rest)) : units.length = count := by
  induction count generalizing expected current lines bytes units with
  | zero =>
      simp only [readUnitsFrom, Reader.bind_eq_ok, Reader.refuse_eq_ok, Reader.pure_eq_ok] at hread
      obtain ⟨_, _, -, rfl, -⟩ := hread
      rfl
  | succ count ih =>
      simp only [readUnitsFrom, Reader.bind_eq_ok, Reader.lift_eq_ok, Reader.pure_eq_ok] at hread
      obtain ⟨_, _, -, unit, _, -, ⟨last, after⟩, _, -, more, _, hmore, rfl, rfl⟩ := hread
      exact congrArg Nat.succ (ih _ _ _ hmore)

end Units

/-! ## The scanner with offsets -/

/-- Why the decoder with offsets gives no view: a failure of its own, a byte
outside the text, or a loop that goes on. -/
inductive Fault where
  | refused (error : PreparationError)
  | outOfRange
  | unfinished
  deriving DecidableEq

/-- The whole text, the offset of the next line and its index. -/
structure Cursor where
  bytes : Bytes
  offset : Nat
  index : Nat
  deriving DecidableEq

namespace Cursor

/-- The end of the line at an offset, a byte at a time. -/
def scan (env : Env) (bytes : Bytes) : (fuel offset : Nat) → Except Fault Nat
  | 0, _ => .error .unfinished
  | fuel + 1, offset =>
      if offset < bytes.length then do
        (periodicCheck .cancelled .deadline env offset).mapError Fault.refused
        let byte ← okOr bytes[offset]? .outOfRange
        if byte = 13 ∧ bytes[offset + 1]? = some 10 then return offset + 2
        else if byte = 10 ∨ byte = 13 then return offset + 1
        else scan env bytes fuel (offset + 1)
      else return offset

def next (env : Env) (maximum : Nat) (cursor : Cursor) :
    Except Fault (Option Line × Cursor) := do
  (check env 0).mapError Fault.refused
  if cursor.offset = cursor.bytes.length then return (none, cursor)
  else do
    refuse (cursor.index ≥ maximum) (.refused .tooManyLines)
    let stop ← scan env cursor.bytes (cursor.bytes.length + 1) cursor.offset
    return (some ⟨cursor.offset, stop, cursor.index⟩, ⟨cursor.bytes, stop, cursor.index + 1⟩)

def seek (env : Env) (maximum : Nat) (behind : Line → Bool) :
    (fuel : Nat) → Line → Cursor → Except Fault (Line × Cursor)
  | 0, _, _ => .error .unfinished
  | fuel + 1, line, cursor =>
      if behind line then do
        let (following, cursor) ← cursor.next (within env cursor.index) maximum
        let line ← okOr following (.refused .invalidArtifact)
        seek env maximum behind fuel line cursor
      else return (line, cursor)

def acceptUnit (env : Env) (text : Text) (hard maximum expected : Nat) (unit : UnitSpan)
    (current : Option Line) (cursor : Cursor) : Except Fault (Line × Cursor) := do
  refuse (¬ InText text hard expected unit) (.refused .invalidArtifact)
  let first ← okOr current (.refused .invalidArtifact)
  let (first, cursor) ← cursor.seek env maximum (fun line => line.stop ≤ unit.sourceStart)
    (text.bytes.length + 1) first
  let (last, cursor) ← cursor.seek env maximum (fun line => line.stop < unit.sourceEnd)
    (text.bytes.length + 1) first
  refuse (¬ Described first last unit) (.refused .invalidArtifact)
  return (last, cursor)

end Cursor

/-- A reader whose failures are the decoder's own. -/
def refusing {α : Type} (reader : Reader PreparationError α) : Reader Fault α :=
  fun bytes => (reader bytes).mapError Fault.refused

namespace Cursor

def readUnitsFrom (env : Env) (text : Text) (hard maximum : Nat) : (count expected : Nat) →
    Option Line → Cursor → Reader Fault (List UnitSpan)
  | 0, expected, _, _ => do
      Reader.refuse (expected ≠ text.bytes.length) (.refused .invalidArtifact)
      return []
  | count + 1, expected, current, cursor => do
      refusing (Reader.lift (check (within env 0) count))
      let unit ← refusing readUnit
      let (last, cursor) ← Reader.lift
        (cursor.acceptUnit (within env 1) text hard maximum expected unit current)
      let units ← readUnitsFrom env text hard maximum count unit.sourceEnd (some last) cursor
      return unit :: units

def readUnits (env : Env) (text : Text) (count : Nat) (settings : PreparationSettings)
    (limits : PreparationLimits) : Reader Fault (List UnitSpan) := do
  Reader.refuse (decide (text.bytes = []) ≠ decide (count = 0)) (.refused .invalidArtifact)
  let cursor : Cursor := ⟨text.bytes, 0, 0⟩
  let (current, cursor) ← Reader.lift
    (cursor.next (within (within env 1) cursor.index) limits.maxLines)
  readUnitsFrom env text settings.maxUnitBytes.toNat limits.maxLines count 0 current cursor

end Cursor

/-! ## The scanners agree -/

/-- The line that has started ends inside the text, and what is behind it is the
rest of the text. -/
theorem lineEnd_drop {env : Env} {text : Bytes} (offset : Nat) (rest : Bytes) {stop : Nat}
    {behind : Bytes} (hrest : rest = text.drop offset) (hoffset : offset ≤ text.length)
    (hend : lineEnd env offset rest = .ok (stop, behind)) :
    behind = text.drop stop ∧ offset ≤ stop ∧ stop ≤ text.length ∧
      (rest ≠ [] → offset < stop) := by
  induction rest generalizing offset with
  | nil =>
      obtain ⟨rfl, rfl⟩ := Prod.mk.inj (Except.ok.inj hend)
      exact ⟨hrest, le_rfl, hoffset, fun hne => absurd rfl hne⟩
  | cons byte rest ih =>
      have hlength := congrArg List.length hrest
      rw [List.length_cons, List.length_drop] at hlength
      have hdrop (count : Nat) : (byte :: rest).drop count = text.drop (offset + count) := by
        rw [hrest, List.drop_drop]
      simp only [lineEnd, bind_eq_ok] at hend
      obtain ⟨_, -, hend⟩ := hend
      split at hend
      · obtain ⟨hbehind, hle, hstop, -⟩ := ih (offset + 1) (hdrop 1) (by omega) hend
        exact ⟨hbehind, by omega, hstop, fun _ => by omega⟩
      · rename_i hwidth
        obtain ⟨rfl, rfl⟩ := Prod.mk.inj (Except.ok.inj hend)
        have hle := terminator_le (byte :: rest)
        have hpositive := Nat.pos_of_ne_zero hwidth
        rw [List.length_cons] at hle
        exact ⟨hdrop _, by omega, by omega, fun _ => by omega⟩

/-- Scanning by offsets finds the same end. -/
theorem Cursor.scan_mirrors {env : Env} {text : Bytes} (fuel offset : Nat) (rest : Bytes)
    (hrest : rest = text.drop offset) (hfuel : rest.length < fuel) :
    Mirrors Fault.refused (fun found stop => found.1 = stop) (lineEnd env offset rest)
      (scan env text fuel offset) := by
  induction fuel generalizing offset rest with
  | zero => exact absurd hfuel (Nat.not_lt_zero _)
  | succ fuel ih =>
      cases rest with
      | nil =>
          have hend : ¬ offset < text.length := not_lt.mpr (List.drop_eq_nil_iff.mp hrest.symm)
          rw [scan, if_neg hend]
          exact rfl
      | cons byte rest =>
          rw [List.length_cons] at hfuel
          have hlength := congrArg List.length hrest
          rw [List.length_cons, List.length_drop] at hlength
          have hinside : offset < text.length := by omega
          have hbyte : text[offset]? = some byte := by
            rw [← Nat.add_zero offset, ← List.getElem?_drop, ← hrest]
            rfl
          have hnext : text[offset + 1]? = rest.head? := by
            rw [← List.getElem?_drop, ← hrest, List.head?_eq_getElem?]
            rfl
          rw [scan, if_pos hinside, lineEnd]
          refine (Mirrors.mapError _).bind ?_
          rintro _ _ rfl
          rw [hbyte, okOr_some, ok_bind, hnext, terminator]
          by_cases hpair : byte = 13 ∧ rest.head? = some 10
          · rw [if_pos hpair, if_pos hpair]
            exact rfl
          · rw [if_neg hpair, if_neg hpair]
            by_cases hsingle : byte = 10 ∨ byte = 13
            · rw [if_pos hsingle, if_pos hsingle]
              exact rfl
            · rw [if_neg hsingle, if_neg hsingle]
              refine ih (offset + 1) rest ?_ (by omega)
              rw [← List.drop_drop, ← hrest]
              rfl

/-- The cursor is at the scanner's place in the text. -/
structure Cursor.Agrees (text : Bytes) (lines : Lines) (cursor : Cursor) : Prop where
  cursor_eq : cursor = ⟨text, lines.offset, lines.index⟩
  rest_eq : lines.rest = text.drop lines.offset
  inside : lines.offset ≤ text.length

section Cursors

variable {env : Env} {text : Bytes} {lines : Lines} {cursor : Cursor}

/-- Both scanners return the same line, which ends where they go on. -/
theorem Cursor.next_mirrors (maximum : Nat) (hagrees : cursor.Agrees text lines) :
    Mirrors Fault.refused
      (fun found other => found.1 = other.1 ∧ other.2.Agrees text found.2 ∧
        ∀ line, found.1 = some line → line.stop = found.2.offset ∧ lines.offset < found.2.offset)
      (lines.next env maximum) (cursor.next env maximum) := by
  obtain ⟨rfl, hrest, hinside⟩ := hagrees
  have hlength := congrArg List.length hrest
  rw [List.length_drop] at hlength
  rw [Lines.next, next]
  refine (Mirrors.mapError _).bind ?_
  rintro _ _ rfl
  by_cases hend : lines.rest = []
  · have hoffset : lines.offset = text.length := by
      rw [hend, List.length_nil] at hlength
      omega
    rw [if_pos hend, if_pos hoffset]
    exact ⟨rfl, ⟨rfl, hrest, hinside⟩, by rintro line ⟨⟩⟩
  · have hoffset : lines.offset ≠ text.length := by
      intro hsame
      rw [hsame, Nat.sub_self] at hlength
      exact hend (List.eq_nil_of_length_eq_zero hlength)
    rw [if_neg hend, if_neg hoffset]
    refine (Mirrors.refuse _ _).bind ?_
    rintro _ _ -
    have hscan : Mirrors Fault.refused (fun found stop => found.1 = stop)
        (lineEnd env lines.offset lines.rest) (scan env text (text.length + 1) lines.offset) :=
      scan_mirrors (text.length + 1) lines.offset lines.rest hrest (by omega)
    refine (hscan.and_of_ok fun found hfound =>
      lineEnd_drop lines.offset lines.rest hrest hinside hfound).bind ?_
    rintro ⟨stop, behind⟩ _ ⟨rfl, hbehind, -, hstop, hafter⟩
    refine ⟨rfl, ⟨rfl, hbehind, hstop⟩, ?_⟩
    rintro line hline
    obtain rfl := Option.some.inj hline
    exact ⟨rfl, hafter hend⟩

/-- Both scanners read on to the same line.  A line that ends with the text is
never behind, so neither runs out of fuel. -/
theorem Cursor.seek_mirrors (maximum : Nat) {behind : Line → Bool}
    (hbehind : ∀ line, behind line → line.stop < text.length) (fuel other : Nat) (line : Line)
    (lines : Lines) (cursor : Cursor) (hagrees : cursor.Agrees text lines)
    (hline : line.stop = lines.offset) (hfuel : lines.rest.length ≤ fuel)
    (hother : lines.rest.length < other) :
    Mirrors Fault.refused
      (fun found after => found.1 = after.1 ∧ after.2.Agrees text found.2 ∧
        found.1.stop = found.2.offset)
      (lines.seek env maximum behind fuel line) (cursor.seek env maximum behind other line) := by
  induction fuel generalizing other line lines cursor with
  | zero =>
      obtain ⟨other, rfl⟩ := Nat.exists_eq_succ_of_ne_zero (Nat.ne_zero_of_lt hother)
      have hlength := congrArg List.length hagrees.rest_eq
      rw [List.length_drop] at hlength
      have hhere : ¬ behind line := fun hback => by
        have hshort := hbehind line hback
        omega
      rw [Lines.seek, refuse_of_not hhere, ok_bind, seek, if_neg hhere]
      exact ⟨rfl, hagrees, hline⟩
  | succ fuel ih =>
      obtain ⟨other, rfl⟩ := Nat.exists_eq_succ_of_ne_zero (Nat.ne_zero_of_lt hother)
      rw [Lines.seek, seek]
      split
      · have hindex : cursor.index = lines.index := by rw [hagrees.cursor_eq]
        rw [hindex]
        refine (next_mirrors maximum hagrees).bind ?_
        rintro ⟨current, after⟩ ⟨_, cursorAfter⟩ ⟨rfl, hafter, hlineAfter⟩
        cases current with
        | none => exact rfl
        | some following =>
            obtain ⟨hstop, hmoved⟩ := hlineAfter following rfl
            have hrest : lines.rest.length = text.length - lines.offset := by
              rw [hagrees.rest_eq, List.length_drop]
            have hrestAfter : after.rest.length = text.length - after.offset := by
              rw [hafter.rest_eq, List.length_drop]
            have hinside : after.offset ≤ text.length := hafter.inside
            have hmoved : lines.offset < after.offset := hmoved
            exact ih other following after cursorAfter hafter hstop (by omega) (by omega)
      · exact ⟨rfl, hagrees, hline⟩

/-- Both scanners accept the same units. -/
theorem Cursor.acceptUnit_mirrors {text : Text} (hard maximum expected : Nat) (unit : UnitSpan)
    (current : Option Line) (hagrees : cursor.Agrees text.bytes lines)
    (hcurrent : ∀ line, current = some line → line.stop = lines.offset) :
    Mirrors Fault.refused
      (fun found after => found.1 = after.1 ∧ after.2.Agrees text.bytes found.2 ∧
        found.1.stop = found.2.offset)
      (Preparation.acceptUnit env text hard maximum expected unit current lines)
      (acceptUnit env text hard maximum expected unit current cursor) := by
  rw [Preparation.acceptUnit, acceptUnit]
  by_cases hinText : InText text hard expected unit
  · rw [refuse_of_not (not_not.mpr hinText), refuse_of_not (not_not.mpr hinText), ok_bind, ok_bind]
    simp only [InText, not_or, not_le, not_lt, gt_iff_lt] at hinText
    obtain ⟨-, hnonempty, hbounded, -⟩ := hinText
    have hrest (lines : Lines) (cursor : Cursor) (hagrees : cursor.Agrees text.bytes lines) :
        lines.rest.length < text.bytes.length + 1 := by
      rw [hagrees.rest_eq, List.length_drop]
      omega
    cases current with
    | none => exact rfl
    | some first =>
        rw [okOr_some, okOr_some, ok_bind, ok_bind]
        refine (seek_mirrors maximum ?_ _ _ first lines cursor hagrees (hcurrent first rfl) le_rfl
          (hrest _ _ hagrees)).bind ?_
        · intro line hline
          have hstop := of_decide_eq_true hline
          omega
        rintro ⟨first, middle⟩ ⟨_, cursorMiddle⟩ ⟨rfl, hmiddle, hfirst⟩
        refine (seek_mirrors maximum ?_ _ _ first middle cursorMiddle hmiddle hfirst le_rfl
          (hrest _ _ hmiddle)).bind ?_
        · intro line hline
          have hstop := of_decide_eq_true hline
          omega
        rintro ⟨last, after⟩ ⟨_, cursorAfter⟩ ⟨rfl, hafter, hlast⟩
        refine (Mirrors.refuse _ _).bind ?_
        rintro _ _ -
        exact ⟨rfl, hafter, hlast⟩
  · rw [refuse, if_pos hinText, refuse, if_pos hinText]
    exact rfl

/-- Readers that read nothing agree where their steps do. -/
theorem lift_mirrors {α β : Type} {Agree : α → β → Prop} {first : Except PreparationError α}
    {second : Except Fault β} (hsteps : Mirrors Fault.refused Agree first second) (bytes : Bytes) :
    Mirrors Fault.refused (fun found other => Agree found.1 other.1 ∧ found.2 = other.2)
      (Reader.lift first bytes) (Reader.lift second bytes) := by
  cases first with
  | error error =>
      cases second with
      | error other => exact hsteps
      | ok other => exact hsteps.elim
  | ok value =>
      cases second with
      | error other => exact hsteps.elim
      | ok other => exact ⟨hsteps, rfl⟩

theorem Cursor.readUnitsFrom_mirrors {text : Text} (hard maximum : Nat) (count expected : Nat)
    (current : Option Line) (lines : Lines) (cursor : Cursor) (bytes : Bytes)
    (hagrees : cursor.Agrees text.bytes lines)
    (hcurrent : ∀ line, current = some line → line.stop = lines.offset) :
    Mirrors Fault.refused Eq
      (Preparation.readUnitsFrom env text hard maximum count expected current lines bytes)
      (readUnitsFrom env text hard maximum count expected current cursor bytes) := by
  induction count generalizing expected current lines cursor bytes with
  | zero =>
      unfold Preparation.readUnitsFrom readUnitsFrom Reader.refuse Reader.lift refuse
      split
      · exact rfl
      · exact rfl
  | succ count ih =>
      rw [Preparation.readUnitsFrom, readUnitsFrom]
      refine (Mirrors.mapError _).bind ?_
      rintro ⟨_, bytes⟩ _ rfl
      refine (Mirrors.mapError _).bind ?_
      rintro ⟨unit, bytes⟩ _ rfl
      refine (lift_mirrors (acceptUnit_mirrors hard maximum expected unit current hagrees hcurrent)
        bytes).bind ?_
      rintro ⟨⟨last, after⟩, bytes⟩ ⟨⟨_, cursorAfter⟩, _⟩ ⟨⟨rfl, hafter, hlast⟩, rfl⟩
      refine (ih unit.sourceEnd (some last) after cursorAfter bytes hafter ?_).bind ?_
      · rintro line hline
        obtain rfl := Option.some.inj hline
        exact hlast
      · rintro units _ rfl
        exact rfl

/-- The decoder with offsets never leaves the text and always stops: it does what the
decoder does. -/
theorem Cursor.readUnits_eq (text : Text) (count : Nat) (settings : PreparationSettings)
    (limits : PreparationLimits) (bytes : Bytes) :
    readUnits env text count settings limits bytes =
      (Preparation.readUnits env text count settings limits bytes).mapError Fault.refused := by
  have hagrees : (⟨text.bytes, 0, 0⟩ : Cursor).Agrees text.bytes ⟨text.bytes, 0, 0⟩ :=
    ⟨rfl, rfl, Nat.zero_le _⟩
  refine Mirrors.eq_mapError ?_
  rw [Preparation.readUnits, readUnits]
  refine (lift_mirrors (Mirrors.refuse _ _) bytes).bind ?_
  rintro ⟨_, bytes⟩ ⟨_, _⟩ ⟨-, rfl⟩
  refine (lift_mirrors (next_mirrors limits.maxLines hagrees) bytes).bind ?_
  rintro ⟨⟨current, lines⟩, bytes⟩ ⟨⟨_, cursor⟩, _⟩ ⟨⟨rfl, hafter, hline⟩, rfl⟩
  exact readUnitsFrom_mirrors _ _ _ _ _ _ _ _ hafter fun line hcurrent => (hline line hcurrent).1

end Cursors

/-! ## Acceptance -/

/-- The unit starts between two scalars and has the lines of its first and its last
byte. -/
structure Placed (text : Bytes) (lines : List LineSpan) (unit : UnitSpan) : Prop where
  boundary : IsBoundary text unit.sourceStart
  first : ∃ line ∈ lines, line.Contains unit.sourceStart ∧
    unit.logicalLineStart = line.lineIndex ∧
    unit.startsAtLineBoundary = decide (line.sourceStart = unit.sourceStart)
  last : ∃ line ∈ lines, line.Contains (unit.sourceEnd - 1) ∧
    unit.logicalLineEnd = line.lineIndex + 1 ∧
    unit.endsAtLineBoundary = decide (line.sourceEnd = unit.sourceEnd)

theorem Describes.placed {text : Bytes} {lines : List LineSpan} {hard start : Nat}
    {unit : UnitSpan} (hdescribes : Describes text lines hard start unit)
    (hlines : AreLines text 0 0 lines) (hboundary : IsBoundary text unit.sourceStart) :
    Placed text lines unit := by
  obtain ⟨first, hfirst, hlineStart, hstarts⟩ := hdescribes.first
  obtain ⟨last, hlast, hlineEnd, hends⟩ := hdescribes.last
  have hnonempty := hdescribes.nonempty
  have hbounded := hdescribes.bounded
  rw [← getElem?_partitionPoint] at hfirst hlast
  rw [← hdescribes.start_eq] at hfirst hstarts hnonempty
  refine ⟨hboundary, ⟨first, List.mem_of_getElem? hfirst, ?_, hlineStart, hstarts⟩,
    ⟨last, List.mem_of_getElem? hlast, ?_, hlineEnd, hends⟩⟩
  · exact contains_first hlines (by omega) hfirst
  · exact contains_last hlines (by omega) hbounded hlast

/-- Lines are numbered in their order. -/
theorem AreLines.numbered {text : Bytes} {index start : Nat} {lines : List LineSpan}
    (hlines : AreLines text index start lines) :
    (∀ line ∈ lines, index ≤ line.lineIndex) ∧
      lines.Pairwise fun first second => first.lineIndex < second.lineIndex := by
  induction lines generalizing index start with
  | nil => exact ⟨fun line hmem => absurd hmem List.not_mem_nil, List.Pairwise.nil⟩
  | cons line lines ih =>
      obtain ⟨hline, hrest⟩ := hlines
      obtain ⟨hbehind, hpairs⟩ := ih hrest
      have hindex := hline.index_eq
      rw [List.forall_mem_cons]
      refine ⟨⟨hindex.ge, fun other hmem => (Nat.le_succ index).trans (hbehind other hmem)⟩, ?_⟩
      refine List.pairwise_cons.mpr ⟨fun other hmem => ?_, hpairs⟩
      have hother := hbehind other hmem
      omega

/-- A unit that is not empty starts before it ends, in lines as in bytes. -/
theorem Placed.lines_lt {text : Bytes} {lines : List LineSpan} {unit : UnitSpan}
    (hplaced : Placed text lines unit) (hlines : AreLines text 0 0 lines)
    (hnonempty : unit.sourceStart < unit.sourceEnd) :
    unit.logicalLineStart < unit.logicalLineEnd := by
  obtain ⟨first, hfirst, ⟨hbefore, hinside⟩, hstart, -⟩ := hplaced.first
  obtain ⟨last, hlast, ⟨hlastBefore, hlastInside⟩, hend, -⟩ := hplaced.last
  obtain ⟨left, hleft, rfl⟩ := List.mem_iff_getElem.mp hfirst
  obtain ⟨right, hright, rfl⟩ := List.mem_iff_getElem.mp hlast
  rw [hstart, hend]
  rcases Nat.lt_trichotomy left right with hlt | rfl | hgt
  · have hnumbered := List.pairwise_iff_getElem.mp hlines.numbered.2 _ _ hleft hright hlt
    exact Nat.lt_succ_of_lt hnumbered
  · exact Nat.lt_succ_self _
  · have hordered := List.pairwise_iff_getElem.mp hlines.ordered _ _ hright hleft hgt
    omega

theorem Cover.describes {text : Bytes} {lines : List LineSpan} {hard start : Nat}
    {units : List UnitSpan} (hcover : Cover text lines hard start units) :
    ∀ unit ∈ units, ∃ position, Describes text lines hard position unit := by
  induction units generalizing start with
  | nil => exact fun unit hmem => absurd hmem List.not_mem_nil
  | cons unit units ih =>
      obtain ⟨hdescribes, hcover⟩ := hcover
      rw [List.forall_mem_cons]
      exact ⟨⟨start, hdescribes⟩, ih hcover⟩

/-- The materializer lists the lines of every text. -/
theorem scanLines_ok {env : Env} (hquiet : Undisturbed env) (text : Bytes) :
    scanLines env text.length text = .ok (linesOf text) := by
  have hlength := linesFrom_length text.length 0 0 0 text le_rfl
  rw [if_neg (lt_irrefl _)] at hlength
  obtain ⟨found, hfound⟩ : ∃ found, scanLines env text.length text = .ok found := by
    refine scanFrom_ok hquiet _ 0 0 text [] le_rfl ?_
    rw [List.length_nil, Nat.zero_add]
    exact hlength
  rw [hfound, (scanLines_eq_ok hfound).1]

/-- Units whose positions are machine words are spelled apart. -/
theorem putUnits_injective {first second : List UnitSpan}
    (hfirst : ∀ unit ∈ first, unit.Representable) (hsecond : ∀ unit ∈ second, unit.Representable)
    (heq : first.flatMap putUnit = second.flatMap putUnit) : first = second := by
  have hpositive (unit : UnitSpan) (units : List UnitSpan) :
      (unit :: units).flatMap putUnit ≠ [] := by
    refine List.ne_nil_of_length_pos ?_
    rw [List.flatMap_cons, List.length_append, putUnit_length, unitBytes]
    omega
  induction first generalizing second with
  | nil =>
      cases second with
      | nil => rfl
      | cons unit second => exact absurd heq.symm (hpositive unit second)
  | cons unit first ih =>
      cases second with
      | nil => exact absurd heq (hpositive unit first)
      | cons other second =>
          obtain ⟨hunit, hfirst⟩ := List.forall_mem_cons.mp hfirst
          obtain ⟨hother, hsecond⟩ := List.forall_mem_cons.mp hsecond
          rw [List.flatMap_cons, List.flatMap_cons] at heq
          obtain ⟨hspelled, hrest⟩ :=
            List.append_inj heq ((putUnit_length unit).trans (putUnit_length other).symm)
          have hread := (readUnit_reads hunit).run
          rw [hspelled, (readUnit_reads hother).run] at hread
          rw [(Prod.mk.inj (Except.ok.inj hread)).1, ih hfirst hsecond hrest]

/-- Encodings of texts of one length have one text and the same units. -/
theorem encoding_injective {source : CurrentSourceRecord} {settings : PreparationSettings}
    {first second : Bytes} {units others : List UnitSpan}
    (hunits : ∀ unit ∈ units, unit.Representable) (hothers : ∀ unit ∈ others, unit.Representable)
    (hlength : first.length = second.length)
    (heq : encoding source settings first units = encoding source settings second others) :
    first = second ∧ units = others := by
  simp only [encoding, List.append_assoc, hlength] at heq
  have hcounted := List.append_cancel_left (List.append_cancel_left heq)
  have hcounts : (putUsize units.length).length = (putUsize others.length).length := by
    simp only [putUsize, Words.le64_length]
  obtain ⟨htexts, hspelled⟩ := List.append_inj (List.append_inj hcounted hcounts).2 hlength
  exact ⟨htexts, putUnits_injective hunits hothers hspelled⟩

/-- A view has no more units than the limits allow. -/
theorem decodePreparedUtf8_units_le {hash : Bytes → Blake3Digest32} {env : Env} {artifact : Bytes}
    {source : CurrentSourceRecord} {settings : PreparationSettings} {limits : PreparationLimits}
    {view : PreparedUtf8}
    (hdecode : decodePreparedUtf8 hash env artifact source settings limits = .ok view) :
    view.units.length ≤ limits.maxUnits := by
  simp only [decodePreparedUtf8, decode, bind_eq_ok, refuse_eq_ok, not_not, pure_eq_ok,
    Except.ok.injEq] at hdecode
  obtain ⟨_, -, _, -, _, -, ⟨found, rest⟩, hread, _, -, _, -, rfl⟩ := hdecode
  simp only [readArtifact, Reader.bind_eq_ok, Reader.refuse_eq_ok, Reader.lift_eq_ok,
    Reader.okOr_eq_ok, Reader.take_eq_ok, Reader.pure_eq_ok, not_not] at hread
  obtain ⟨_, _, -, textLength, _, -, unitCount, _, -, _, _, ⟨hcount, -⟩, _, _, -, _, _, -, _, _, -,
    _, _, -, _, _, -, textBytes, _, -, text, _, -, _, _, -, units, _, hunits, rfl, rfl⟩ := hread
  simp only [readUnits, Reader.bind_eq_ok, Reader.refuse_eq_ok, Reader.lift_eq_ok] at hunits
  obtain ⟨_, _, -, ⟨current, lines⟩, _, -, hunits⟩ := hunits
  rw [readUnitsFrom_length _ _ _ _ hunits]
  exact Nat.not_lt.mp hcount

/-- An accepted view is encoded by its artifact, is bound to the source and has units
that cover the text. -/
structure AcceptedView (hash : Bytes → Blake3Digest32) (artifact : Bytes)
    (source : CurrentSourceRecord) (settings : PreparationSettings) (view : PreparedUtf8) :
    Prop where
  encoded : artifact = encoding source settings view.text.bytes view.units
  digest : hash view.text.bytes = source.objectRef.digest
  length : view.text.bytes.length = source.objectRef.byteLength.toNat
  covered : Cover view.text.bytes (linesOf view.text.bytes) settings.maxUnitBytes.toNat 0 view.units
  placed : ∀ unit ∈ view.units, Placed view.text.bytes (linesOf view.text.bytes) unit

theorem decodePreparedUtf8_accepted {hash : Bytes → Blake3Digest32} {env : Env} {artifact : Bytes}
    {source : CurrentSourceRecord} {settings : PreparationSettings} {limits : PreparationLimits}
    {view : PreparedUtf8}
    (hdecode : decodePreparedUtf8 hash env artifact source settings limits = .ok view) :
    AcceptedView hash artifact source settings view := by
  have hencoded := decodePreparedUtf8_eq_ok hdecode
  simp only [decodePreparedUtf8, decode, bind_eq_ok, refuse_eq_ok, not_not, pure_eq_ok,
    Except.ok.injEq] at hdecode
  obtain ⟨_, -, _, -, _, -, ⟨found, rest⟩, hread, _, -, _, -, rfl⟩ := hdecode
  simp only [readArtifact, Reader.bind_eq_ok, Reader.refuse_eq_ok, Reader.lift_eq_ok,
    Reader.okOr_eq_ok, Reader.take_eq_ok, Reader.pure_eq_ok, not_not] at hread
  obtain ⟨_, _, -, textLength, _, -, unitCount, _, -, _, _, -, _, _, -, _, _, ⟨hbound, rfl⟩,
    _, _, -, _, _, -, _, _, -, textBytes, _, ⟨rfl, hlength⟩, text, _, ⟨htext, rfl⟩, _, _,
    ⟨hverify, rfl⟩, units, _, hunits, rfl, rfl⟩ := hread
  obtain rfl := Text.ofBytes_eq_some.mp htext
  simp only [verifyDigest, bind_eq_ok, refuse_eq_ok, not_not] at hverify
  obtain ⟨_, -, _, -, hdigest⟩ := hverify
  obtain ⟨hcover, hboundaries⟩ := readUnits_cover hunits
  refine ⟨hencoded, hdigest, hlength.trans hbound, hcover, fun unit hmem => ?_⟩
  obtain ⟨_, hdescribes⟩ := hcover.describes unit hmem
  exact hdescribes.placed (linesOf_areLines _) (hboundaries unit hmem)

/-- Whatever the bytes of an artifact, what is accepted is the bound text with units
that cover it, described by the lines that the materializer lists.  The decoder
never looks outside the text, and it always stops. -/
theorem decodePreparedUtf8_sound (hash : Bytes → Blake3Digest32) (env : Env) (artifact : Bytes)
    (source : CurrentSourceRecord) (settings : PreparationSettings)
    (limits : PreparationLimits) :
    (∀ view, decodePreparedUtf8 hash env artifact source settings limits = .ok view →
      artifact = encoding source settings view.text.bytes view.units ∧
      hash view.text.bytes = source.objectRef.digest ∧
      view.text.bytes.length = source.objectRef.byteLength.toNat ∧
      ∃ lines, scanLines Env.quiet view.text.bytes.length view.text.bytes = .ok lines ∧
        Cover view.text.bytes lines settings.maxUnitBytes.toNat 0 view.units ∧
        ∀ unit ∈ view.units, Placed view.text.bytes lines unit) ∧
    ∀ text count bytes,
      Cursor.readUnits env text count settings limits bytes =
        (readUnits env text count settings limits bytes).mapError Fault.refused := by
  refine ⟨?_, fun text count bytes => Cursor.readUnits_eq text count settings limits bytes⟩
  intro view hdecode
  have haccepted := decodePreparedUtf8_accepted hdecode
  exact ⟨haccepted.encoded, haccepted.digest, haccepted.length, linesOf view.text.bytes,
    scanLines_ok undisturbed_quiet _, haccepted.covered, haccepted.placed⟩

theorem decodePreparedUtf8_sound_sample :
    ∃ view, decodePreparedUtf8 Sample.hash Env.quiet Sample.artifact Sample.source .default
        Sample.limits = .ok view ∧
      Sample.hash view.text.bytes = Sample.digest ∧ view.text.bytes.length = 3 := by
  obtain ⟨view, hdecode⟩ : ∃ view, decodePreparedUtf8 Sample.hash Env.quiet Sample.artifact
      Sample.source .default Sample.limits = .ok view := by
    have haccepted : (decodePreparedUtf8 Sample.hash Env.quiet Sample.artifact Sample.source
        .default Sample.limits).toBool := by decide +kernel
    generalize decodePreparedUtf8 Sample.hash Env.quiet Sample.artifact Sample.source .default
      Sample.limits = result at haccepted
    cases result with
    | error error => cases haccepted
    | ok view => exact ⟨view, rfl⟩
  obtain ⟨hsound, -⟩ := decodePreparedUtf8_sound Sample.hash Env.quiet Sample.artifact
    Sample.source .default Sample.limits
  obtain ⟨-, hdigest, hlength, -⟩ := hsound view hdecode
  exact ⟨view, hdecode, hdigest, hlength⟩

/-- The positions of the units of a view are machine words. -/
theorem AcceptedView.representable {hash : Bytes → Blake3Digest32} {artifact : Bytes}
    {source : CurrentSourceRecord} {settings : PreparationSettings} {view : PreparedUtf8}
    (haccepted : AcceptedView hash artifact source settings view) :
    ∀ unit ∈ view.units, unit.Representable := by
  intro unit hmem
  obtain ⟨position, hdescribes⟩ := haccepted.covered.describes unit hmem
  exact hdescribes.representable (haccepted.length ▸ source.objectRef.byteLength.toNat_lt)

/-- An artifact has one view, whoever decodes it. -/
theorem decodePreparedUtf8_unique {hash : Bytes → Blake3Digest32} {env other : Env}
    {artifact : Bytes} {source : CurrentSourceRecord} {settings : PreparationSettings}
    {limits larger : PreparationLimits} {first second : PreparedUtf8}
    (hfirst : decodePreparedUtf8 hash env artifact source settings limits = .ok first)
    (hsecond : decodePreparedUtf8 hash other artifact source settings larger = .ok second) :
    first = second := by
  have hfound := decodePreparedUtf8_accepted hfirst
  have hother := decodePreparedUtf8_accepted hsecond
  obtain ⟨htext, hunits⟩ := encoding_injective hfound.representable hother.representable
    (hfound.length.trans hother.length.symm) (hfound.encoded.symm.trans hother.encoded)
  cases first with
  | mk text units =>
      cases second with
      | mk other others => exact congrArg₂ PreparedUtf8.mk (Text.ext htext) hunits

end EliotSearch.Preparation
