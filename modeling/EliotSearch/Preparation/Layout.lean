import EliotSearch.Preparation.Materialization

/-!
# Unit layout

Where each unit of a text ends: with a line if one ends in the preferred range,
else with its own line if that is short enough, else between two scalars.
-/

namespace EliotSearch.Preparation

open EliotSearch.Control
open EliotSearch.Library
open EliotSearch.Library.Results
open EliotSearch.Library.Utf8
open EliotSearch.Query

/-! ## Lines and positions -/

/-- The line contains the position. -/
def LineSpan.Contains (line : LineSpan) (position : Nat) : Prop :=
  line.sourceStart ≤ position ∧ position < line.sourceEnd

instance (line : LineSpan) (position : Nat) : Decidable (line.Contains position) :=
  inferInstanceAs (Decidable (_ ∧ _))

section Positions

variable {text : Bytes} {index start : Nat} {lines : List LineSpan}

/-- Every line of the rest of a text is behind its start. -/
theorem AreLines.within (hlines : AreLines text index start lines) :
    ∀ line ∈ lines, start ≤ line.sourceStart ∧ line.sourceStart < line.sourceEnd ∧
      line.sourceEnd ≤ text.length := by
  induction lines generalizing index start with
  | nil => exact fun line hmem => absurd hmem List.not_mem_nil
  | cons line lines ih =>
      obtain ⟨hline, hrest⟩ := hlines
      have hstart := hline.start_eq
      have hnonempty := hline.nonempty
      rw [List.forall_mem_cons]
      refine ⟨⟨hstart.ge, by omega, hline.ordered.2.2⟩, fun other hmem => ?_⟩
      obtain ⟨hbehind, hother⟩ := ih hrest other hmem
      exact ⟨by omega, hother⟩

/-- Lines end in their order, and each starts where the one before it ends. -/
theorem AreLines.ordered (hlines : AreLines text index start lines) :
    lines.Pairwise fun first second => first.sourceEnd ≤ second.sourceStart := by
  induction lines generalizing index start with
  | nil => exact List.Pairwise.nil
  | cons line lines ih =>
      obtain ⟨hline, hrest⟩ := hlines
      exact List.pairwise_cons.mpr
        ⟨fun other hmem => (hrest.within other hmem).1, ih hrest⟩

/-- Every position of the rest of a text is in one of its lines. -/
theorem AreLines.exists_contains (hlines : AreLines text index start lines) {position : Nat}
    (hstart : start ≤ position) (hposition : position < text.length) :
    ∃ line ∈ lines, line.Contains position := by
  induction lines generalizing index start with
  | nil =>
      have hend : start = text.length := hlines
      omega
  | cons line lines ih =>
      obtain ⟨hline, hrest⟩ := hlines
      rcases Nat.lt_or_ge position line.sourceEnd with hinside | hbehind
      · exact ⟨line, List.mem_cons_self, hline.start_eq.trans_le hstart, hinside⟩
      · obtain ⟨other, hmem, hcontains⟩ := ih hrest hbehind
        exact ⟨other, List.mem_cons_of_mem _ hmem, hcontains⟩

/-- The last line of a text that is not empty ends with it. -/
theorem AreLines.exists_last (hlines : AreLines text index start lines)
    (hstart : start < text.length) : ∃ line ∈ lines, line.sourceEnd = text.length := by
  obtain ⟨line, hmem, -, hinside⟩ := hlines.exists_contains (Nat.le_sub_one_of_lt hstart)
    (Nat.sub_one_lt_of_lt hstart)
  have hbound := (hlines.within line hmem).2.2
  exact ⟨line, hmem, by omega⟩

/-- Two lines of a text are the same or one is before the other. -/
theorem AreLines.trichotomy (hlines : AreLines text index start lines) {first second : LineSpan}
    (hfirst : first ∈ lines) (hsecond : second ∈ lines) :
    first = second ∨ first.sourceEnd ≤ second.sourceStart ∨
      second.sourceEnd ≤ first.sourceStart := by
  have hpairs := hlines.ordered
  obtain ⟨left, hleft, rfl⟩ := List.mem_iff_getElem.mp hfirst
  obtain ⟨right, hright, rfl⟩ := List.mem_iff_getElem.mp hsecond
  rcases Nat.lt_trichotomy left right with hlt | rfl | hgt
  · exact Or.inr (Or.inl (List.pairwise_iff_getElem.mp hpairs _ _ hleft hright hlt))
  · exact Or.inl rfl
  · exact Or.inr (Or.inr (List.pairwise_iff_getElem.mp hpairs _ _ hright hleft hgt))

end Positions

/-! ## The end of a unit -/

/-- A line ends at the position. -/
def IsLineEnd (lines : List LineSpan) (position : Nat) : Prop :=
  ∃ line ∈ lines, line.sourceEnd = position

/-- The end of a unit that starts at a position. -/
inductive EndsUnit (text : Bytes) (lines : List LineSpan) (preferred hard start : Nat) :
    Nat → Prop where
  /-- The greatest line end in the preferred range. -/
  | lineEnd (stop : Nat) (hline : IsLineEnd lines stop) (hstart : start < stop)
      (hpreferred : stop ≤ start + preferred)
      (hgreatest : ∀ other, IsLineEnd lines other → start < other → other ≤ start + preferred →
        other ≤ stop) :
      EndsUnit text lines preferred hard start stop
  /-- The end of the current line, when none ends in the preferred range. -/
  | currentLine (line : LineSpan) (hline : line ∈ lines) (hcontains : line.Contains start)
      (hnone : ∀ other, IsLineEnd lines other → start < other → start + preferred < other)
      (hfits : line.sourceEnd ≤ start + hard) :
      EndsUnit text lines preferred hard start line.sourceEnd
  /-- The greatest scalar boundary in the preferred range of a long line. -/
  | scalarBoundary (stop : Nat)
      (hnone : ∀ other, IsLineEnd lines other → start < other → start + hard < other)
      (hboundary : IsBoundary text stop) (hstart : start < stop)
      (hpreferred : stop ≤ start + preferred)
      (hgreatest : ∀ other, IsBoundary text other → start < other → other ≤ start + preferred →
        other ≤ stop) :
      EndsUnit text lines preferred hard start stop
  /-- The end of one scalar that is longer than the preferred range. -/
  | oneScalar (stop : Nat)
      (hnone : ∀ other, IsLineEnd lines other → start < other → start + hard < other)
      (hwide : ∀ other, IsBoundary text other → start < other → start + preferred < other)
      (hboundary : IsBoundary text stop) (hstart : start < stop) (hfits : stop ≤ start + hard)
      (hleast : ∀ other, IsBoundary text other → start < other → stop ≤ other) :
      EndsUnit text lines preferred hard start stop

section Ends

variable {text : Bytes} {lines : List LineSpan}

theorem retreat_greatest {start stop other : Nat} (hboundary : IsBoundary text other)
    (hstart : start < other) (hstop : other ≤ stop) : other ≤ retreat text start stop := by
  induction stop with
  | zero => omega
  | succ stop ih =>
      rw [retreat]
      split
      · rename_i hinside
        refine ih (Nat.le_of_lt_succ (lt_of_le_of_ne hstop ?_))
        rintro rfl
        exact hinside.2 hboundary
      · exact hstop

theorem advance_least {hard fuel stop other : Nat} (hboundary : IsBoundary text other)
    (hstop : stop ≤ other) : advance text hard fuel stop ≤ other := by
  induction fuel generalizing stop with
  | zero => exact hstop
  | succ fuel ih =>
      rw [advance]
      split
      · rename_i hinside
        refine ih (Nat.lt_of_le_of_ne hstop ?_)
        rintro rfl
        exact hinside.2 hboundary
      · exact hstop

theorem le_advance (hard fuel stop : Nat) : stop ≤ advance text hard fuel stop := by
  induction fuel generalizing stop with
  | zero => exact le_rfl
  | succ fuel ih =>
      rw [advance]
      split
      · exact (Nat.le_succ _).trans (ih (stop + 1))
      · exact le_rfl

/-- The partition point of the line ends up to a position. -/
theorem line_before_iff (hlines : AreLines text 0 0 lines) {limit index : Nat} {line : LineSpan}
    (hline : lines[index]? = some line) :
    index < partitionPoint (fun line : LineSpan => line.sourceEnd ≤ limit) lines ↔
      line.sourceEnd ≤ limit := by
  constructor
  · intro hbefore
    have hpasses := of_lt_partitionPoint hbefore hline
    exact of_decide_eq_true hpasses
  · intro hlimit
    refine lt_partitionPoint ?_ hline (decide_eq_true hlimit)
    refine hlines.ordered.imp_of_mem ?_
    intro first second _ hsecond hordered hpasses
    have hnonempty := (hlines.within second hsecond).2.1
    have hend := of_decide_eq_true hpasses
    exact decide_eq_true (by omega)

/-- Lines at two positions end in the order of the positions. -/
theorem line_le (hlines : AreLines text 0 0 lines) {left right : Nat} {first second : LineSpan}
    (hfirst : lines[left]? = some first) (hsecond : lines[right]? = some second)
    (hle : left ≤ right) : first.sourceEnd ≤ second.sourceEnd := by
  obtain ⟨hleft, rfl⟩ := List.getElem?_eq_some_iff.mp hfirst
  obtain ⟨hright, rfl⟩ := List.getElem?_eq_some_iff.mp hsecond
  rcases hle.eq_or_lt with rfl | hlt
  · exact le_rfl
  · have hordered := List.pairwise_iff_getElem.mp hlines.ordered left right hleft hright hlt
    have hnonempty := (hlines.within _ (List.getElem_mem hright)).2.1
    omega

/-- The last line that ends up to a position, if it ends behind the start, ends at
the greatest line end there. -/
theorem ends_before (hlines : AreLines text 0 0 lines) (start : Nat) {limit : Nat}
    {line : LineSpan}
    (hline : lines[partitionPoint (fun line : LineSpan => line.sourceEnd ≤ limit) lines - 1]? =
      some line)
    (hsome : partitionPoint (fun line : LineSpan => line.sourceEnd ≤ limit) lines ≠ 0) :
    line.sourceEnd ≤ limit ∧ ∀ other, IsLineEnd lines other → start < other → other ≤ limit →
      other ≤ line.sourceEnd := by
  refine ⟨(line_before_iff hlines hline).mp (by omega), ?_⟩
  rintro other ⟨last, hmem, rfl⟩ - hlimit
  obtain ⟨index, hindex⟩ := List.mem_iff_getElem?.mp hmem
  have hbefore := (line_before_iff hlines hindex).mpr hlimit
  exact line_le hlines hindex hline (by omega)

/-- When no line ends between the start and a position, the first line that ends
behind the position contains the start. -/
theorem contains_after (hlines : AreLines text 0 0 lines) {start limit : Nat} {line : LineSpan}
    (hstart : start < text.length) (hlimit : start ≤ limit)
    (hline : lines[partitionPoint (fun line : LineSpan => line.sourceEnd ≤ limit) lines]? =
      some line)
    (hnone : ∀ other, IsLineEnd lines other → start < other → limit < other) :
    line.Contains start ∧
      ∀ other, IsLineEnd lines other → start < other → line.sourceEnd ≤ other := by
  have hmem := List.mem_of_getElem? hline
  have hbehind : limit < line.sourceEnd := by
    have hfails := not_of_partitionPoint hline
    exact not_le.mp (of_decide_eq_false hfails)
  obtain ⟨own, hown, hcontains⟩ := hlines.exists_contains (Nat.zero_le _) hstart
  have hownEnd := hnone own.sourceEnd ⟨own, hown, rfl⟩ hcontains.2
  have hleast (other : Nat) (hother : IsLineEnd lines other) (hafter : start < other) :
      line.sourceEnd ≤ other := by
    have hlater := hnone other hother hafter
    obtain ⟨last, hlast, rfl⟩ := hother
    obtain ⟨index, hindex⟩ := List.mem_iff_getElem?.mp hlast
    have hnot := mt (line_before_iff hlines hindex).mp (not_le.mpr hlater)
    exact line_le hlines hline hindex (not_lt.mp hnot)
  refine ⟨?_, hleast⟩
  have hfirst := hleast own.sourceEnd ⟨own, hown, rfl⟩ hcontains.2
  rcases hlines.trichotomy hmem hown with rfl | hbefore | hafter
  · exact hcontains
  · have hstartOwn := hcontains.1
    omega
  · have hnonempty := (hlines.within line hmem).2.1
    omega

/-- When the last line that ends up to a position does not end behind the start, no
line ends between them. -/
theorem none_before (hlines : AreLines text 0 0 lines) {start limit : Nat}
    (hnone : (if partitionPoint (fun line : LineSpan => line.sourceEnd ≤ limit) lines = 0 then none
      else lines[partitionPoint (fun line : LineSpan => line.sourceEnd ≤ limit) lines - 1]?).filter
        (fun line => line.sourceEnd > start) = none) :
    ∀ other, IsLineEnd lines other → start < other → limit < other := by
  intro other hother hafter
  by_contra hwithin
  have hlimit := not_lt.mp hwithin
  obtain ⟨line, hmem, rfl⟩ := id hother
  obtain ⟨index, hindex⟩ := List.mem_iff_getElem?.mp hmem
  have hbefore := (line_before_iff hlines hindex).mpr hlimit
  have hsome : partitionPoint (fun line : LineSpan => line.sourceEnd ≤ limit) lines ≠ 0 := by omega
  have hlength : partitionPoint (fun line : LineSpan => line.sourceEnd ≤ limit) lines ≤
      lines.length := List.takeWhile_sublist _ |>.length_le
  obtain ⟨last, hlast⟩ : ∃ last,
      lines[partitionPoint (fun line : LineSpan => line.sourceEnd ≤ limit) lines - 1]? =
        some last := ⟨_, List.getElem?_eq_getElem (by omega)⟩
  obtain ⟨-, hgreatest⟩ := ends_before hlines start hlast hsome
  rw [if_neg hsome, hlast, Option.filter_some] at hnone
  split at hnone
  · cases hnone
  · rename_i hbehind
    have hend := hgreatest line.sourceEnd hother hafter hlimit
    exact hbehind (decide_eq_true (by omega))

/-- The chosen end is the end of the unit. -/
theorem chooseEnd_ends (hlines : AreLines text 0 0 lines) {start preferred hard stop : Nat}
    (hstart : start < text.length) (hpreferred : preferred ≤ hard)
    (hchoose : chooseEnd text lines start preferred hard = .ok stop) :
    EndsUnit text lines preferred hard start stop := by
  obtain ⟨final, hfinal, hfinalEnd⟩ := hlines.exists_last (Nat.zero_lt_of_lt hstart)
  have hlineBound (other : Nat) (hother : IsLineEnd lines other) : other ≤ text.length := by
    obtain ⟨line, hmem, rfl⟩ := hother
    exact (hlines.within line hmem).2.2
  unfold chooseEnd at hchoose
  dsimp only at hchoose
  split at hchoose
  · rename_i hshort
    obtain rfl := Except.ok.inj hchoose
    exact .lineEnd _ ⟨final, hfinal, hfinalEnd⟩ hstart (by omega)
      fun other hother _ _ => hlineBound other hother
  · set limit := min (start + preferred) text.length with hlimit
    have hlimitStart : start ≤ limit := by omega
    split at hchoose
    · rename_i line hline
      obtain rfl := Except.ok.inj hchoose
      obtain ⟨hfound, hbehind⟩ := Option.filter_eq_some_iff.mp hline
      split at hfound
      · cases hfound
      · rename_i hsome
        obtain ⟨hend, hgreatest⟩ := ends_before hlines start hfound hsome
        refine .lineEnd _ ⟨line, List.mem_of_getElem? hfound, rfl⟩ (of_decide_eq_true hbehind)
          (by omega) fun other hother hafter hwithin => hgreatest other hother hafter ?_
        have hbound := hlineBound other hother
        omega
    · rename_i line hbefore hline
      obtain rfl := Except.ok.inj hchoose
      obtain ⟨hfound, hwithin⟩ := Option.filter_eq_some_iff.mp hline
      have hnone := none_before hlines hbefore
      have hfits := of_decide_eq_true hwithin
      obtain ⟨hcontains, hleast⟩ := contains_after hlines hstart hlimitStart hfound hnone
      refine .currentLine line (List.mem_of_getElem? hfound) hcontains
        (fun other hother hafter => ?_) (by omega)
      have hlater := hnone other hother hafter
      have hbound := hlineBound other hother
      omega
    · rename_i hbefore hcurrent
      have hnone := none_before hlines hbefore
      have hlong : ∀ other, IsLineEnd lines other → start < other → start + hard < other := by
        intro other hother hafter
        have hlater := hnone other hother hafter
        have hbound := hlineBound other hother
        have hlength : partitionPoint (fun line : LineSpan => line.sourceEnd ≤ limit) lines <
            lines.length := by
          by_contra hall
          obtain ⟨index, hindex⟩ := List.mem_iff_getElem?.mp hfinal
          have hindexBound := (List.getElem?_eq_some_iff.mp hindex).1
          have hfinalWithin : final.sourceEnd ≤ limit :=
            (line_before_iff hlines hindex).mp (by omega)
          have hfinalLater := hnone final.sourceEnd ⟨final, hfinal, rfl⟩ (by omega)
          omega
        obtain ⟨line, hline⟩ : ∃ line,
            lines[partitionPoint (fun line : LineSpan => line.sourceEnd ≤ limit) lines]? =
              some line := ⟨_, List.getElem?_eq_getElem hlength⟩
        obtain ⟨-, hleast⟩ := contains_after hlines hstart hlimitStart hline hnone
        have hfirst := hleast other hother hafter
        rw [hline, Option.filter_some] at hcurrent
        split at hcurrent
        · cases hcurrent
        · rename_i hpast
          have hpastHard : ¬ line.sourceEnd ≤ min (start + hard) text.length := fun hwithin =>
            hpast (decide_eq_true hwithin)
          have hlineWithin := (hlines.within line (List.mem_of_getElem? hline)).2.2
          omega
      simp only [bind_eq_ok, refuse_eq_ok, not_or, not_le, not_lt, pure_eq_ok, Except.ok.injEq]
        at hchoose
      obtain ⟨_, ⟨hafter, hwithin⟩, rfl⟩ := hchoose
      have hretreat : retreat text start limit ≤ limit := (retreat_spec start limit).1
      have hretreatBoundary : start < retreat text start limit →
          IsBoundary text (retreat text start limit) := (retreat_spec start limit).2
      split
      · rename_i hshort
        rw [if_pos hshort] at hwithin hafter
        refine .oneScalar _ hlong (fun other hother hbehind => ?_) ?_ hafter (by omega)
          fun other hother hbehind => advance_least hother hbehind
        · by_contra hinside
          have hbound := hother.le
          have hgreatest := retreat_greatest hother hbehind (by omega : other ≤ limit)
          omega
        · exact advance_spec _ _ _ (by omega) hwithin
      · rename_i hlongEnough
        have hpast := not_le.mp hlongEnough
        refine .scalarBoundary _ hlong (hretreatBoundary hpast) hpast (by omega)
          fun other hother hbehind hinside => ?_
        have hbound := hother.le
        exact retreat_greatest hother hbehind (by omega)

/-- The next boundary behind a position is at most four bytes away. -/
theorem next_boundary {text : Text} {start : Nat} (hboundary : IsBoundary text.bytes start)
    (hstart : start < text.bytes.length) :
    ∃ stop, IsBoundary text.bytes stop ∧ start < stop ∧ stop ≤ start + 4 := by
  obtain ⟨scalars, hscalars⟩ := text.valid
  rw [← hscalars] at hboundary hstart ⊢
  obtain ⟨front, back, rfl, rfl⟩ := isBoundary_iff.mp hboundary
  cases back with
  | nil =>
      rw [List.append_nil] at hstart
      exact absurd hstart (lt_irrefl _)
  | cons scalar back =>
      have hpositive := scalar.utf8Size_pos
      have hsize := scalar.utf8Size_le_four
      have hlength : (Utf8.encode (front ++ [scalar])).length =
          (Utf8.encode front).length + scalar.utf8Size := by
        rw [encode_append, List.length_append, encode_cons, encode_nil, List.append_nil,
          String.length_utf8EncodeChar]
      refine ⟨(Utf8.encode (front ++ [scalar])).length, ?_, by omega, by omega⟩
      exact isBoundary_iff.mpr ⟨front ++ [scalar], back, by simp, rfl⟩

/-- The end of the text or of one scalar is within a hard range of four bytes. -/
theorem chooseEnd_ne_tooLarge {text : Text} {start preferred hard : Nat}
    (hboundary : IsBoundary text.bytes start) (hstart : start < text.bytes.length)
    (hpreferred : preferred ≤ hard) (hfour : 4 ≤ hard) :
    chooseEnd text.bytes lines start preferred hard ≠ .error .unitTooLarge := by
  intro hchoose
  unfold chooseEnd at hchoose
  dsimp only at hchoose
  split at hchoose
  · cases hchoose
  · split at hchoose
    · cases hchoose
    · cases hchoose
    · simp only [bind_eq_error, refuse_eq_error, pure_eq_ok, reduceCtorEq, and_false, exists_const,
        or_false, and_true] at hchoose
      obtain ⟨stop, hstop, hafter, hnear⟩ := next_boundary hboundary hstart
      have hbound := hstop.le
      split at hchoose
      · have hle : start + 1 ≤ advance text.bytes (min (start + hard) text.bytes.length)
            (min (start + hard) text.bytes.length - start) (start + 1) := le_advance _ _ _
        have hleast : advance text.bytes (min (start + hard) text.bytes.length)
            (min (start + hard) text.bytes.length - start) (start + 1) ≤ stop :=
          advance_least hstop hafter
        omega
      · rename_i hlong
        have hretreat : retreat text.bytes start (min (start + preferred) text.bytes.length) ≤
            min (start + preferred) text.bytes.length := (retreat_spec _ _).1
        omega

end Ends

/-! ## The layout -/

/-- The unit ends where it has to and is described by the lines of its first and
last byte. -/
structure Laid (text : Bytes) (lines : List LineSpan) (preferred hard : Nat) (unit : UnitSpan) :
    Prop where
  ends : EndsUnit text lines preferred hard unit.sourceStart unit.sourceEnd
  first : ∃ line ∈ lines, line.Contains unit.sourceStart ∧
    unit.logicalLineStart = line.lineIndex ∧
    unit.startsAtLineBoundary = decide (line.sourceStart = unit.sourceStart)
  last : ∃ line ∈ lines, line.Contains (unit.sourceEnd - 1) ∧
    unit.logicalLineEnd = line.lineIndex + 1 ∧
    unit.endsAtLineBoundary = decide (line.sourceEnd = unit.sourceEnd)

/-- A long unit covers a part of one line or is one scalar. -/
theorem Laid.of_long {text : Bytes} {lines : List LineSpan} {preferred hard : Nat}
    {unit : UnitSpan} (hlaid : Laid text lines preferred hard unit)
    (hlong : unit.sourceStart + preferred < unit.sourceEnd) :
    (∃ line ∈ lines, line.Contains unit.sourceStart ∧ unit.sourceEnd ≤ line.sourceEnd) ∨
      ∀ other, IsBoundary text other → unit.sourceStart < other → unit.sourceEnd ≤ other := by
  generalize hstop : unit.sourceEnd = stop at hlong ⊢
  have hends := hstop ▸ hlaid.ends
  cases hends with
  | lineEnd _ _ _ hpreferred => omega
  | currentLine line hline hcontains => exact Or.inl ⟨line, hline, hcontains, le_rfl⟩
  | scalarBoundary _ _ _ _ hpreferred => omega
  | oneScalar _ _ _ _ _ _ hleast => exact Or.inr hleast

section Lines

variable {text : Bytes} {lines : List LineSpan} {line : LineSpan}

/-- The first line that ends behind a position contains it. -/
theorem contains_first (hlines : AreLines text 0 0 lines) {start : Nat}
    (hstart : start < text.length)
    (hline : lines[partitionPoint (fun line : LineSpan => line.sourceEnd ≤ start) lines]? =
      some line) : line.Contains start :=
  (contains_after hlines hstart le_rfl hline fun _ _ hafter => hafter).1

/-- The first line that does not end before a position contains the byte before it. -/
theorem contains_last (hlines : AreLines text 0 0 lines) {stop : Nat} (hpositive : 0 < stop)
    (hstop : stop ≤ text.length)
    (hline : lines[partitionPoint (fun line : LineSpan => line.sourceEnd < stop) lines]? =
      some line) : line.Contains (stop - 1) := by
  refine contains_first hlines (by omega) ?_
  rw [← hline]
  congr 2
  funext line
  exact decide_eq_decide.mpr (Nat.le_sub_one_iff_lt hpositive)

end Lines

theorem EndsUnit.after {text : Bytes} {lines : List LineSpan} {preferred hard start stop : Nat}
    (hends : EndsUnit text lines preferred hard start stop) : start < stop := by
  cases hends with
  | lineEnd _ _ hstart => exact hstart
  | currentLine _ _ hcontains => exact hcontains.2
  | scalarBoundary _ _ _ hstart => exact hstart
  | oneScalar _ _ _ _ hstart => exact hstart

theorem EndsUnit.fits {text : Bytes} {lines : List LineSpan} {preferred hard start stop : Nat}
    (hends : EndsUnit text lines preferred hard start stop) (hpreferred : preferred ≤ hard) :
    stop ≤ start + hard := by
  cases hends with
  | lineEnd _ _ _ hwithin => omega
  | currentLine _ _ _ _ hfits => exact hfits
  | scalarBoundary _ _ _ _ hwithin => omega
  | oneScalar _ _ _ _ _ hfits => exact hfits

theorem AreLines.boundary {text : Text} {lines : List LineSpan}
    (hlines : AreLines text.bytes 0 0 lines) :
    ∀ line ∈ lines, IsBoundary text.bytes line.sourceEnd := by
  obtain ⟨scalars, hscalars⟩ := text.valid
  rw [hlines.unique (linesOf_areLines _), ← hscalars]
  exact linesFrom_boundary _ _ _ _ _ le_rfl (Nat.zero_le _) rfl

section Runs

variable {env : Env} {text : Text} {lines : List LineSpan} {preferred hard maxUnits : Nat}

/-- Every unit that is cut ends where it has to. -/
theorem unitizeFrom_laid (hlines : AreLines text.bytes 0 0 lines) (hpreferred : preferred ≤ hard)
    (fuel start : Nat) (units : List UnitSpan) {found : List UnitSpan}
    (hlaid : ∀ unit ∈ units, Laid text.bytes lines preferred hard unit)
    (hunits : unitizeFrom env text.bytes lines preferred hard maxUnits fuel start units =
      .ok found) :
    ∀ unit ∈ found, Laid text.bytes lines preferred hard unit := by
  induction fuel generalizing start units with
  | zero =>
      obtain rfl := Except.ok.inj hunits
      exact hlaid
  | succ fuel ih =>
      rw [unitizeFrom] at hunits
      split at hunits
      · obtain rfl := Except.ok.inj hunits
        exact hlaid
      · rename_i hinside
        have hstart := not_le.mp hinside
        simp only [bind_eq_ok, refuse_eq_ok, okOr_eq_ok, not_or, not_le, not_lt, ge_iff_le]
          at hunits
        obtain ⟨_, -, _, -, stop, hchoose, _, ⟨hnonempty, -⟩, first, hfirst, last, hlast,
          hunits⟩ := hunits
        have hends := chooseEnd_ends hlines hstart hpreferred hchoose
        refine ih stop _ ?_ hunits
        intro unit hmem
        rcases List.mem_append.mp hmem with hold | hnew
        · exact hlaid unit hold
        · obtain rfl := List.mem_singleton.mp hnew
          refine ⟨hends, ?_, ?_⟩
          · exact ⟨first, List.mem_of_getElem? hfirst, contains_first hlines hstart hfirst, rfl, rfl⟩
          · refine ⟨last, List.mem_of_getElem? hlast, ?_, rfl, rfl⟩
            exact contains_last hlines (Nat.zero_lt_of_lt hnonempty)
              (chooseEnd_boundary hlines.boundary hchoose).le hlast

/-- Every pass of the loop moves on, so a fuel of the bytes that are left is enough. -/
theorem unitizeFrom_fuel (fuel more start : Nat) (units : List UnitSpan)
    (hfuel : text.bytes.length ≤ start + fuel) :
    unitizeFrom env text.bytes lines preferred hard maxUnits (fuel + more) start units =
      unitizeFrom env text.bytes lines preferred hard maxUnits fuel start units := by
  induction fuel generalizing start units with
  | zero =>
      cases more with
      | zero => rfl
      | succ more =>
          rw [Nat.zero_add, unitizeFrom, unitizeFrom,
            if_pos (show start ≥ text.bytes.length from hfuel)]
  | succ fuel ih =>
      rw [Nat.add_right_comm, unitizeFrom, unitizeFrom]
      split
      · rfl
      · refine bind_congr fun _ => bind_congr fun _ => bind_congr fun stop => ?_
        by_cases hrefused : stop ≤ start ∨ stop - start > hard
        · rw [refuse, if_pos hrefused]
          rfl
        · rw [refuse_of_not hrefused, ok_bind, ok_bind]
          refine bind_congr fun _ => bind_congr fun _ => ?_
          exact ih stop _ (by omega)

/-- Whatever the units so far, no unit is too large when the hard range holds a
scalar. -/
theorem unitizeFrom_ne_tooLarge (hlines : AreLines text.bytes 0 0 lines)
    (hpreferred : preferred ≤ hard) (hfour : 4 ≤ hard) (fuel start : Nat) (units : List UnitSpan)
    (hboundary : IsBoundary text.bytes start) :
    unitizeFrom env text.bytes lines preferred hard maxUnits fuel start units ≠
      .error .unitTooLarge := by
  induction fuel generalizing start units with
  | zero => exact fun hunits => nomatch hunits
  | succ fuel ih =>
      intro hunits
      rw [unitizeFrom] at hunits
      split at hunits
      · cases hunits
      · rename_i hinside
        have hstart := not_le.mp hinside
        rcases bind_eq_error.mp hunits with hcheck | ⟨_, -, hunits⟩
        · rcases checkWith_eq_error hcheck with hreason | hreason <;> cases hreason
        rcases bind_eq_error.mp hunits with hroom | ⟨_, -, hunits⟩
        · cases (refuse_eq_error.mp hroom).2
        rcases bind_eq_error.mp hunits with hchoose | ⟨stop, hchoose, hunits⟩
        · exact chooseEnd_ne_tooLarge hboundary hstart hpreferred hfour hchoose
        have hends := chooseEnd_ends hlines hstart hpreferred hchoose
        have hafter := hends.after
        have hfits := hends.fits hpreferred
        rcases bind_eq_error.mp hunits with hrefused | ⟨_, -, hunits⟩
        · have hlarge := (refuse_eq_error.mp hrefused).1
          omega
        rcases bind_eq_error.mp hunits with hfirst | ⟨first, -, hunits⟩
        · cases (okOr_eq_error.mp hfirst).2
        rcases bind_eq_error.mp hunits with hlast | ⟨last, -, hunits⟩
        · cases (okOr_eq_error.mp hlast).2
        exact ih stop _ (chooseEnd_boundary hlines.boundary hchoose) hunits

end Runs

/-- The units of every materialized text tile it and end where they have to.  The
loop needs no more steps than the text has bytes, and a unit is too large only
when the hard range is shorter than a scalar. -/
theorem unitizeText_layout (env other : Env) (bytes : Bytes) (limits : MaterializationLimits)
    (product : MaterializedText) (settings : PreparationSettings) (maxUnits : Nat)
    (hproduct : materializeUtf8 other bytes limits = .ok product)
    (hsettings : settings.IsSupported) :
    (∀ fuel, product.text.bytes.length ≤ fuel →
      unitizeFrom env product.text.bytes product.lines settings.preferredUnitBytes.toNat
          settings.maxUnitBytes.toNat maxUnits fuel 0 [] =
        unitizeFrom env product.text.bytes product.lines settings.preferredUnitBytes.toNat
          settings.maxUnitBytes.toNat maxUnits product.text.bytes.length 0 []) ∧
    (∀ units, unitizeText env product settings maxUnits = .ok units →
      Cover product.text.bytes product.lines settings.maxUnitBytes.toNat 0 units ∧
      ∀ unit ∈ units,
        Laid product.text.bytes product.lines settings.preferredUnitBytes.toNat
          settings.maxUnitBytes.toNat unit ∧
        (unit.sourceStart + settings.preferredUnitBytes.toNat < unit.sourceEnd →
          (∃ line ∈ product.lines,
            line.Contains unit.sourceStart ∧ unit.sourceEnd ≤ line.sourceEnd) ∨
          ∀ next, IsBoundary product.text.bytes next → unit.sourceStart < next →
            unit.sourceEnd ≤ next)) ∧
    (4 ≤ settings.maxUnitBytes.toNat →
      unitizeText env product settings maxUnits ≠ .error .unitTooLarge) := by
  obtain ⟨htext, hlist, -⟩ := materializeUtf8_eq_ok hproduct
  rw [← htext] at hlist
  have hlines : AreLines product.text.bytes 0 0 product.lines := by
    rw [hlist]
    exact linesOf_areLines _
  have hpreferred : settings.preferredUnitBytes.toNat ≤ settings.maxUnitBytes.toNat :=
    hsettings.2.2.2.1
  refine ⟨?_, ?_, ?_⟩
  · intro fuel hfuel
    obtain ⟨more, rfl⟩ := Nat.exists_eq_add_of_le hfuel
    exact unitizeFrom_fuel _ more 0 [] (by omega)
  · intro units hunits
    obtain ⟨hcover, -⟩ := unitizeText_cover hlist hunits
    simp only [unitizeText, bind_eq_ok, pure_eq_ok, Except.ok.injEq] at hunits
    obtain ⟨found, hfound, _, -, rfl⟩ := hunits
    have hlaid := unitizeFrom_laid hlines hpreferred _ 0 []
      (fun unit hmem => absurd hmem List.not_mem_nil) hfound
    exact ⟨hcover, fun unit hmem => ⟨hlaid unit hmem, (hlaid unit hmem).of_long⟩⟩
  · intro hfour hunits
    rcases bind_eq_error.mp hunits with hfrom | ⟨found, -, hlate⟩
    · exact unitizeFrom_ne_tooLarge hlines hpreferred hfour _ 0 [] product.text.boundary_start hfrom
    rcases bind_eq_error.mp hlate with hcheck | ⟨_, -, hlate⟩
    · rcases checkWith_eq_error hcheck with hreason | hreason <;> cases hreason
    · cases hlate

/-- A line with both terminators is too long for the preferred range, a scalar of
three bytes too. -/
theorem unitizeText_layout_sample :
    ∃ product, materializeUtf8 Env.quiet [97, 98, 13, 10, 226, 130, 172] ⟨16, 16, 8⟩ =
        .ok product ∧
      unitizeText Env.quiet product ⟨1, 1, 2, 4⟩ 8 =
        .ok [⟨0, 4, 0, 1, true, true⟩, ⟨4, 7, 1, 2, true, true⟩] ∧
      Cover product.text.bytes product.lines 4 0
        [⟨0, 4, 0, 1, true, true⟩, ⟨4, 7, 1, 2, true, true⟩] := by
  have hvalid : Valid [97, 98, 13, 10, 226, 130, 172] := ⟨['a', 'b', '\r', '\n', '€'], by decide⟩
  have hproduct : materializeUtf8 Env.quiet [97, 98, 13, 10, 226, 130, 172] ⟨16, 16, 8⟩ =
      .ok ⟨⟨[97, 98, 13, 10, 226, 130, 172], hvalid⟩, [⟨0, 0, 4, 2⟩, ⟨1, 4, 7, 7⟩]⟩ := by
    rfl
  have hlayout := unitizeText_layout Env.quiet Env.quiet _ _ _ ⟨1, 1, 2, 4⟩ 8 hproduct (by decide)
  have hunits : unitizeText Env.quiet
      ⟨⟨[97, 98, 13, 10, 226, 130, 172], hvalid⟩, [⟨0, 0, 4, 2⟩, ⟨1, 4, 7, 7⟩]⟩ ⟨1, 1, 2, 4⟩ 8 =
        .ok [⟨0, 4, 0, 1, true, true⟩, ⟨4, 7, 1, 2, true, true⟩] := by
    rfl
  exact ⟨_, hproduct, hunits, (hlayout.2.1 _ hunits).1⟩

end EliotSearch.Preparation
