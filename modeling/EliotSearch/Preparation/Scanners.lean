import EliotSearch.Preparation.Acceptance

/-!
# Two scanners of lines

The materializer lists all lines at once and puts the open tail behind them; the
decoder returns one line at a time and ends the last one with the text.  Drained
from the start, the second lists what the first does, under every ceiling.
-/

namespace EliotSearch.Preparation

open EliotSearch.Control
open EliotSearch.Library
open EliotSearch.Library.Results
open EliotSearch.Query

/-- The lines that a cursor returns until it returns none, and where it is then. -/
def Cursor.drain (env : Env) (maximum : Nat) :
    (fuel : Nat) → Cursor → Except Fault (List Line × Cursor)
  | 0, _ => .error .unfinished
  | fuel + 1, cursor => do
      let (current, cursor) ← cursor.next (within env cursor.index) maximum
      match current with
      | none => return ([], cursor)
      | some line => do
          let (lines, cursor) ← drain env maximum fuel cursor
          return (line :: lines, cursor)

/-! ## Why a scan fails -/

theorem periodicCheck_disturbed {ε : Type} {cancelled deadline error : ε} {env : Env} {offset : Nat}
    (hcheck : periodicCheck cancelled deadline env offset = .error error) :
    (error = cancelled ∨ error = deadline) ∧ ¬ Undisturbed env := by
  unfold periodicCheck at hcheck
  split at hcheck
  · exact checkWith_disturbed hcheck
  · cases hcheck

theorem pushLine_eq_error {lines : List LineSpan} {start contentEnd stop maximum : Nat}
    {error : MaterializationError}
    (hpush : pushLine lines start contentEnd stop maximum = .error error) :
    error = .tooManyLines ∧ maximum ≤ lines.length := by
  simp only [pushLine, bind_eq_error, refuse_eq_error, pure_eq_ok, reduceCtorEq, and_false,
    exists_false, or_false] at hpush
  exact ⟨hpush.2.symm, hpush.1⟩

/-- What is left of a line at the end of the text is one line more. -/
theorem scanFrom_end_error {env : Env} {maximum : Nat} {error : MaterializationError}
    (fuel start index : Nat) (lines : List LineSpan)
    (hscan : scanFrom env maximum fuel start index [] lines = .error error) :
    (error = .tooManyLines ∧
        maximum < lines.length + (linesFrom fuel lines.length start index []).length) ∨
      (error = .cancelled ∨ error = .deadline) ∧ ¬ Undisturbed env := by
  rw [scanFrom] at hscan
  rw [linesFrom]
  by_cases hopen : start < index
  · rw [if_pos hopen] at hscan ⊢
    rcases bind_eq_error.mp hscan with hpush | ⟨_, -, hlast⟩
    · obtain ⟨rfl, hfull⟩ := pushLine_eq_error hpush
      exact Or.inl ⟨rfl, Nat.lt_succ_of_le hfull⟩
    · rcases bind_eq_error.mp hlast with hcheck | ⟨_, -, hdone⟩
      · exact Or.inr (checkWith_disturbed hcheck)
      · cases hdone
  · rw [if_neg hopen, pure_eq_ok, ok_bind] at hscan
    rcases bind_eq_error.mp hscan with hcheck | ⟨_, -, hdone⟩
    · exact Or.inr (checkWith_disturbed hcheck)
    · cases hdone

/-- The materializer refuses a text for its lines only if it has more than the ceiling. -/
theorem scanFrom_eq_error {env : Env} {maximum : Nat} {error : MaterializationError}
    (fuel start index : Nat) (rest : Bytes) (lines : List LineSpan) (hfuel : rest.length ≤ fuel)
    (hscan : scanFrom env maximum fuel start index rest lines = .error error) :
    (error = .tooManyLines ∧
        maximum < lines.length + (linesFrom fuel lines.length start index rest).length) ∨
      (error = .cancelled ∨ error = .deadline) ∧ ¬ Undisturbed env := by
  induction fuel generalizing start index rest lines with
  | zero =>
      obtain rfl := List.eq_nil_of_length_eq_zero (Nat.le_zero.mp hfuel)
      exact scanFrom_end_error 0 start index lines hscan
  | succ fuel ih =>
      cases rest with
      | nil => exact scanFrom_end_error (fuel + 1) start index lines hscan
      | cons byte rest =>
          rw [List.length_cons] at hfuel
          rw [scanFrom] at hscan
          rcases bind_eq_error.mp hscan with hcheck | ⟨_, -, hscan⟩
          · exact Or.inr (periodicCheck_disturbed hcheck)
          · rw [linesFrom]
            split at hscan
            · exact ih start (index + 1) rest lines (by omega) hscan
            · rename_i hwidth
              have hpositive := Nat.pos_of_ne_zero hwidth
              have hshorter : ((byte :: rest).drop (terminator (byte :: rest))).length ≤ fuel := by
                rw [List.length_drop, List.length_cons]
                omega
              rcases bind_eq_error.mp hscan with hpush | ⟨more, hpush, hscan⟩
              · obtain ⟨rfl, hfull⟩ := pushLine_eq_error hpush
                rw [List.length_cons]
                exact Or.inl ⟨rfl, by omega⟩
              · obtain ⟨rfl, -⟩ := pushLine_eq_ok hpush
                have hrest := ih _ _ _ _ hshorter hscan
                rwa [List.length_append, List.length_singleton, Nat.add_assoc,
                  Nat.add_comm 1] at hrest

theorem lineEnd_eq_error {env : Env} {offset : Nat} {rest : Bytes} {error : PreparationError}
    (hend : lineEnd env offset rest = .error error) :
    (error = .cancelled ∨ error = .deadline) ∧ ¬ Undisturbed env := by
  induction rest generalizing offset with
  | nil => cases hend
  | cons byte rest ih =>
      rw [lineEnd] at hend
      rcases bind_eq_error.mp hend with hcheck | ⟨_, -, hend⟩
      · exact periodicCheck_disturbed hcheck
      · split at hend
        · exact ih hend
        · cases hend

/-- Where something is left to scan, a line is left. -/
theorem Lines.left_ne_nil {lines : Lines} (hrest : lines.rest ≠ []) : lines.left ≠ [] := by
  obtain ⟨stop, behind, content, -, hlines⟩ := lineEnd_ok undisturbed_quiet lines.index
    lines.offset lines.offset lines.rest le_rfl (Or.inr hrest)
  rw [left, hlines]
  exact List.cons_ne_nil _ _

/-- The decoder refuses the next line only at the ceiling. -/
theorem Lines.next_eq_error {env : Env} {maximum : Nat} {lines : Lines} {error : PreparationError}
    (hnext : lines.next env maximum = .error error) :
    (error = .tooManyLines ∧ maximum ≤ lines.index ∧ lines.left ≠ []) ∨
      (error = .cancelled ∨ error = .deadline) ∧ ¬ Undisturbed env := by
  rw [next] at hnext
  rcases bind_eq_error.mp hnext with hcheck | ⟨_, -, hnext⟩
  · exact Or.inr (checkWith_disturbed hcheck)
  · split at hnext
    · cases hnext
    · rename_i hrest
      rcases bind_eq_error.mp hnext with hfull | ⟨_, -, hnext⟩
      · obtain ⟨hindex, rfl⟩ := refuse_eq_error.mp hfull
        exact Or.inl ⟨rfl, hindex, left_ne_nil hrest⟩
      · rcases bind_eq_error.mp hnext with hend | ⟨_, -, hdone⟩
        · exact Or.inr (lineEnd_eq_error hend)
        · cases hdone

/-! ## What a scan comes to -/

/-- What a scan comes to: all it lists, within the ceiling, or a refusal of more than the
ceiling allows, or a disturbance. -/
inductive Scanned {ε α : Type} (env : Env) (maximum count : Nat) (whole : α)
    (crowded cancelled deadline : ε) : Except ε α → Prop where
  | whole (hroom : count ≤ maximum) :
      Scanned env maximum count whole crowded cancelled deadline (.ok whole)
  | crowded (hmany : maximum < count) :
      Scanned env maximum count whole crowded cancelled deadline (.error crowded)
  | disturbed {error : ε} (herror : error = cancelled ∨ error = deadline)
      (hdisturbed : ¬ Undisturbed env) :
      Scanned env maximum count whole crowded cancelled deadline (.error error)

section Outcomes

variable {ε α : Type} {env : Env} {maximum count : Nat} {whole : α}
  {crowded cancelled deadline : ε} {result : Except ε α}

theorem Scanned.eq_ok (hscanned : Scanned env maximum count whole crowded cancelled deadline result)
    {found : α} (hfound : result = .ok found) : found = whole ∧ count ≤ maximum := by
  cases hscanned with
  | whole hroom => exact ⟨(Except.ok.inj hfound).symm, hroom⟩
  | crowded _ => cases hfound
  | disturbed _ _ => cases hfound

theorem Scanned.eq_crowded
    (hscanned : Scanned env maximum count whole crowded cancelled deadline result)
    (hcancelled : crowded ≠ cancelled) (hdeadline : crowded ≠ deadline)
    (hcrowded : result = .error crowded) : maximum < count := by
  cases hscanned with
  | whole _ => cases hcrowded
  | crowded hmany => exact hmany
  | disturbed herror _ =>
      obtain rfl := Except.error.inj hcrowded
      rcases herror with herror | herror
      · exact absurd herror hcancelled
      · exact absurd herror hdeadline

theorem Scanned.undisturbed
    (hscanned : Scanned env maximum count whole crowded cancelled deadline result)
    (hquiet : Undisturbed env) :
    if count ≤ maximum then result = .ok whole else result = .error crowded := by
  cases hscanned with
  | whole hroom => rw [if_pos hroom]
  | crowded hmany => rw [if_neg (Nat.not_le.mpr hmany)]
  | disturbed _ hdisturbed => exact absurd hquiet hdisturbed

end Outcomes

theorem scanLines_scanned (env : Env) (maximum : Nat) (bytes : Bytes) :
    Scanned env maximum (linesOf bytes).length (linesOf bytes) .tooManyLines .cancelled .deadline
      (scanLines env maximum bytes) := by
  cases hscan : scanLines env maximum bytes with
  | ok found =>
      obtain ⟨rfl, hroom⟩ := scanLines_eq_ok hscan
      exact .whole hroom
  | error error =>
      rcases scanFrom_eq_error bytes.length 0 0 bytes [] le_rfl hscan with
        ⟨rfl, hmany⟩ | ⟨herror, hdisturbed⟩
      · rw [List.length_nil, Nat.zero_add] at hmany
        exact .crowded hmany
      · exact .disturbed herror hdisturbed

/-! ## The drained cursor -/

section Draining

variable {env : Env} {maximum : Nat} {text : Bytes}

theorem Lines.next_none {lines behind : Lines}
    (hnext : lines.next env maximum = .ok (none, behind)) : behind = lines ∧ lines.rest = [] := by
  rw [next, bind_eq_ok] at hnext
  obtain ⟨_, -, hnext⟩ := hnext
  split at hnext
  · rename_i hrest
    exact ⟨(Prod.mk.inj (Except.ok.inj hnext)).2.symm, hrest⟩
  · simp only [bind_eq_ok, pure_eq_ok, Except.ok.injEq, Prod.mk.injEq, reduceCtorEq, false_and,
      and_false, exists_false] at hnext

theorem Lines.next_some {lines behind : Lines} {line : Line}
    (hnext : lines.next env maximum = .ok (some line, behind)) :
    lines.index < maximum ∧ behind.index = lines.index + 1 := by
  rw [next, bind_eq_ok] at hnext
  obtain ⟨_, -, hnext⟩ := hnext
  split at hnext
  · cases (Prod.mk.inj (Except.ok.inj hnext)).1
  · simp only [bind_eq_ok, refuse_eq_ok, not_le, ge_iff_le, pure_eq_ok, Except.ok.injEq,
      Prod.mk.injEq] at hnext
    obtain ⟨_, hroom, _, -, -, rfl⟩ := hnext
    exact ⟨hroom, rfl⟩

/-- A drained cursor returned the lines that were left and is at the end of the text. -/
theorem Cursor.drain_scanned (fuel : Nat) {lines : Lines} {cursor : Cursor}
    (hagrees : cursor.Agrees text lines) (hfuel : lines.rest.length < fuel)
    (hindex : lines.index ≤ maximum) :
    Scanned env maximum (lines.index + lines.left.length)
      (lines.left.map LineSpan.line, ⟨text, text.length, lines.index + lines.left.length⟩)
      (.refused .tooManyLines) (.refused .cancelled) (.refused .deadline)
      (cursor.drain env maximum fuel) := by
  induction fuel generalizing lines cursor with
  | zero => exact absurd hfuel (Nat.not_lt_zero _)
  | succ fuel ih =>
      rw [drain]
      have hmirrors := @next_mirrors (within env cursor.index) text lines cursor maximum hagrees
      cases hnext : lines.next (within env cursor.index) maximum with
      | error error =>
          rw [hnext] at hmirrors
          cases hcursor : cursor.next (within env cursor.index) maximum with
          | ok other =>
              rw [hcursor] at hmirrors
              exact hmirrors.elim
          | error other =>
              rw [hcursor] at hmirrors
              obtain rfl : other = .refused error := hmirrors
              rw [error_bind]
              rcases Lines.next_eq_error hnext with ⟨rfl, hfull, hleft⟩ | ⟨herror, hdisturbed⟩
              · have hsome := List.length_pos_of_ne_nil hleft
                exact .crowded (by omega)
              · refine .disturbed (herror.imp (congrArg _) (congrArg _)) fun hquiet => ?_
                exact hdisturbed (hquiet.within _)
      | ok found =>
          obtain ⟨current, behind⟩ := found
          rw [hnext] at hmirrors
          cases hcursor : cursor.next (within env cursor.index) maximum with
          | error other =>
              rw [hcursor] at hmirrors
              exact hmirrors.elim
          | ok other =>
              obtain ⟨same, cursorBehind⟩ := other
              rw [hcursor] at hmirrors
              obtain ⟨rfl, (hbehind : cursorBehind.Agrees text behind), hmoved⟩ := hmirrors
              obtain ⟨hcurrent, hrest⟩ := Lines.next_eq_ok hnext
              rw [ok_bind]
              cases current with
              | none =>
                  obtain ⟨rfl, hempty⟩ := Lines.next_none hnext
                  have hleft : behind.left = [] := by
                    rw [Lines.left, hempty, linesFrom, if_neg (lt_irrefl _)]
                  obtain rfl : cursorBehind = ⟨text, text.length, behind.index⟩ := by
                    have hbeyond := List.drop_eq_nil_iff.mp (hbehind.rest_eq.symm.trans hempty)
                    rw [hbehind.cursor_eq, le_antisymm hbehind.inside hbeyond]
                  rw [hleft]
                  exact .whole hindex
              | some line =>
                  obtain ⟨hroom, hnumber⟩ := Lines.next_some hnext
                  obtain ⟨-, hlater⟩ := hmoved line rfl
                  have hshorter : behind.rest.length < fuel := by
                    have hinside : behind.offset ≤ text.length := hbehind.inside
                    have hlater : lines.offset < behind.offset := hlater
                    have hrestLength := congrArg List.length hagrees.rest_eq
                    have hbehindLength := congrArg List.length hbehind.rest_eq
                    rw [List.length_drop] at hrestLength hbehindLength
                    omega
                  have hscanned := ih hbehind hshorter (hnumber ▸ hroom)
                  cases hleft : lines.left with
                  | nil =>
                      rw [hleft] at hcurrent
                      cases hcurrent
                  | cons span more =>
                      rw [hleft] at hcurrent hrest
                      obtain rfl := Option.some.inj hcurrent
                      have hcount : behind.index + behind.left.length =
                          lines.index + (span :: more).length := by
                        rw [hnumber, hrest, List.tail_cons, List.length_cons]
                        omega
                      rw [hcount, hrest, List.tail_cons] at hscanned
                      dsimp only
                      generalize cursorBehind.drain env maximum fuel = result at hscanned ⊢
                      cases hscanned with
                      | whole hroom => exact .whole hroom
                      | crowded hmany => exact .crowded hmany
                      | disturbed herror hdisturbed => exact .disturbed herror hdisturbed

end Draining

theorem Cursor.drain_scanned_start (env : Env) (maximum : Nat) (bytes : Bytes) :
    Scanned env maximum (linesOf bytes).length
      ((linesOf bytes).map LineSpan.line, ⟨bytes, bytes.length, (linesOf bytes).length⟩)
      (.refused .tooManyLines) (.refused .cancelled) (.refused .deadline)
      (drain env maximum (bytes.length + 1) ⟨bytes, 0, 0⟩) := by
  have hagrees : (⟨bytes, 0, 0⟩ : Cursor).Agrees bytes ⟨bytes, 0, 0⟩ :=
    ⟨rfl, rfl, Nat.zero_le _⟩
  have hscanned := @drain_scanned env maximum _ _ _ _ hagrees (Nat.lt_succ_self _) (Nat.zero_le _)
  rwa [Nat.zero_add] at hscanned

/-- Drained from the start, the decoder's scanner lists the lines of the materializer's, ends
with the text and refuses the same texts for having too many.  A disturbance of one of them
does not change what the other says about the text. -/
theorem scanners_agree (env other : Env) (maximum : Nat) (bytes : Bytes) :
    let scanned := scanLines env maximum bytes
    let drained := Cursor.drain other maximum (bytes.length + 1) ⟨bytes, 0, 0⟩
    (Undisturbed env → Undisturbed other →
      scanned = .error .tooManyLines ∧ drained = .error (.refused .tooManyLines) ∨
      ∃ spans, scanned = .ok spans ∧
        drained = .ok (spans.map LineSpan.line, ⟨bytes, bytes.length, spans.length⟩)) ∧
    (∀ spans lines cursor, scanned = .ok spans → drained = .ok (lines, cursor) →
      lines = spans.map LineSpan.line ∧ cursor.offset = bytes.length) ∧
    (scanned = .error .tooManyLines → ∀ found, drained ≠ .ok found) ∧
    (drained = .error (.refused .tooManyLines) → ∀ spans, scanned ≠ .ok spans) := by
  intro scanned drained
  have hscanned := scanLines_scanned env maximum bytes
  have hdrained := Cursor.drain_scanned_start other maximum bytes
  refine ⟨fun hquiet hother => ?_, fun spans lines cursor hspans hlines => ?_,
    fun hcrowded found hfound => ?_, fun hcrowded spans hspans => ?_⟩
  · have hspans := hscanned.undisturbed hquiet
    have hlines := hdrained.undisturbed hother
    by_cases hroom : (linesOf bytes).length ≤ maximum
    · rw [if_pos hroom] at hspans hlines
      exact Or.inr ⟨_, hspans, hlines⟩
    · rw [if_neg hroom] at hspans hlines
      exact Or.inl ⟨hspans, hlines⟩
  · obtain ⟨rfl, -⟩ := hscanned.eq_ok hspans
    obtain ⟨hfound, -⟩ := hdrained.eq_ok hlines
    obtain ⟨rfl, rfl⟩ := Prod.mk.inj hfound
    exact ⟨rfl, rfl⟩
  · have hmany := hscanned.eq_crowded (by decide) (by decide) hcrowded
    exact absurd (hdrained.eq_ok hfound).2 (Nat.not_le.mpr hmany)
  · have hmany := hdrained.eq_crowded (by decide) (by decide) hcrowded
    exact absurd (hscanned.eq_ok hspans).2 (Nat.not_le.mpr hmany)

namespace Sample

/-- Four lines with each of the terminators and an open tail. -/
def lined : Bytes := Json.ascii "a\r\n\rb\nc"

end Sample

theorem scanners_agree_sample :
    scanLines Env.quiet 3 Sample.lined = .error .tooManyLines ∧
      ∃ spans, scanLines Env.quiet 4 Sample.lined = .ok spans ∧ spans.length = 4 ∧
        Cursor.drain Env.quiet 4 8 ⟨Sample.lined, 0, 0⟩ =
          .ok (spans.map LineSpan.line, ⟨Sample.lined, 7, 4⟩) := by
  refine ⟨by decide, linesOf Sample.lined, by decide, by decide, ?_⟩
  have hspans : scanLines Env.quiet 4 Sample.lined = .ok (linesOf Sample.lined) := by decide
  rcases (scanners_agree Env.quiet Env.quiet 4 Sample.lined).1 undisturbed_quiet
    undisturbed_quiet with ⟨hcrowded, -⟩ | ⟨spans, hfound, hdrained⟩
  · rw [hspans] at hcrowded
    cases hcrowded
  · rw [hspans] at hfound
    obtain rfl := Except.ok.inj hfound
    exact hdrained

end EliotSearch.Preparation
