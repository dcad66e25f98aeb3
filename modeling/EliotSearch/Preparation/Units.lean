import EliotSearch.Library.BinarySearch
import EliotSearch.Preparation.Lines

/-!
# Materialized texts and their units

The selected transform leaves the bytes of a source unchanged and lists its
lines.  The unitizer cuts the text into ranges that prefer to end with a line
and never split a scalar.
-/

namespace EliotSearch.Preparation

open EliotSearch.Control
open EliotSearch.Library
open EliotSearch.Library.Results
open EliotSearch.Library.Utf8
open EliotSearch.Query

/-! ## Materialization -/

def isizeMax : Nat := 2 ^ 63 - 1

/-- The bytes of one line in memory. -/
def lineSpanBytes : Nat := 32

/-- Fail-only execution ceilings, excluded from transform identity. -/
structure MaterializationLimits where
  maxInputBytes : Nat
  maxOutputBytes : Nat
  maxLines : Nat
  deriving DecidableEq

def MaterializationLimits.validate (limits : MaterializationLimits) :
    Except MaterializationError Unit := do
  refuse (limits.maxInputBytes = 0 ∨ limits.maxOutputBytes = 0 ∨ limits.maxLines = 0)
    .invalidLimits
  refuse (limits.maxLines * lineSpanBytes > isizeMax) .offsetOverflow

/-- The original input allocation as UTF-8, with one attached line inventory. -/
structure MaterializedText where
  text : Text
  lines : List LineSpan

/-- A control byte other than a tab, a line end and a form feed. -/
def IsControl (byte : UInt8) : Prop := byte < 32 ∧ byte ∉ ([9, 10, 13, 12] : List UInt8)

instance (byte : UInt8) : Decidable (IsControl byte) := inferInstanceAs (Decidable (_ ∧ _))

/-- Refuse a zero byte and too many control bytes. -/
def rejectControls (env : Env) (threshold : Nat) :
    (index controls : Nat) → Bytes → Except MaterializationError Unit
  | _, _, [] => return ()
  | index, controls, byte :: rest => do
      periodicCheck .cancelled .deadline env index
      refuse (byte = 0) .binaryContent
      refuse (IsControl byte ∧ controls + 1 ≥ threshold) .binaryContent
      rejectControls env threshold (index + 1)
        (if IsControl byte then controls + 1 else controls) rest

def rejectBinaryControls (env : Env) (bytes : Bytes) : Except MaterializationError Unit :=
  rejectControls env (max ((bytes.length + 99) / 100) 4) 0 0 bytes

/-- Moves verified retained bytes into unchanged UTF-8 text and exact line ranges. -/
def materializeUtf8 (env : Env) (bytes : Bytes) (limits : MaterializationLimits) :
    Except MaterializationError MaterializedText := do
  checkWith .cancelled .deadline (within env 0) 0
  limits.validate
  refuse (bytes.length > limits.maxInputBytes) .inputTooLarge
  refuse (bytes.length > limits.maxOutputBytes) .outputTooLarge
  rejectBinaryControls (within env 1) bytes
  let text ← okOr (Text.ofBytes bytes) .invalidUtf8
  checkWith .cancelled .deadline (within env 2) 0
  let lines ← scanLines (within env 3) limits.maxLines text.bytes
  return { text, lines }

/-- The transform keeps the bytes and lists their lines. -/
theorem materializeUtf8_eq_ok {env : Env} {bytes : Bytes} {limits : MaterializationLimits}
    {product : MaterializedText} (hproduct : materializeUtf8 env bytes limits = .ok product) :
    product.text.bytes = bytes ∧ product.lines = linesOf bytes ∧
      product.lines.length ≤ limits.maxLines := by
  simp only [materializeUtf8, bind_eq_ok, okOr_eq_ok, pure_eq_ok, Except.ok.injEq] at hproduct
  obtain ⟨_, -, _, -, _, -, _, -, _, -, text, htext, _, -, lines, hlines, rfl⟩ := hproduct
  obtain ⟨hlist, hcount⟩ := scanLines_eq_ok hlines
  have hbytes := Text.ofBytes_eq_some.mp htext
  rw [hbytes] at hlist
  exact ⟨hbytes, hlist, hcount⟩

/-! ## Units -/

/-- A text descriptor in exact source and identical representation byte
coordinates. -/
structure UnitSpan where
  sourceStart : Nat
  sourceEnd : Nat
  logicalLineStart : Nat
  logicalLineEnd : Nat
  startsAtLineBoundary : Bool
  endsAtLineBoundary : Bool
  deriving DecidableEq

/-- The last boundary after the start and up to a position, or the start. -/
def retreat (text : Bytes) (start : Nat) : Nat → Nat
  | 0 => 0
  | stop + 1 =>
      if stop + 1 > start ∧ ¬ IsBoundary text (stop + 1) then retreat text start stop else stop + 1

/-- The first boundary from a position up to the hard end, or the position behind
that. -/
def advance (text : Bytes) (hard : Nat) : (fuel : Nat) → Nat → Nat
  | 0, stop => stop
  | fuel + 1, stop =>
      if stop ≤ hard ∧ ¬ IsBoundary text stop then advance text hard fuel (stop + 1) else stop

def chooseEnd (text : Bytes) (lines : List LineSpan) (start preferredBytes hardBytes : Nat) :
    Except PreparationError Nat :=
  let preferred := min (start + preferredBytes) text.length
  let hard := min (start + hardBytes) text.length
  if hard = text.length ∧ text.length - start ≤ preferredBytes then .ok text.length
  else
    let after := partitionPoint (fun line : LineSpan => line.sourceEnd ≤ preferred) lines
    let before := if after = 0 then none else lines[after - 1]?
    match before.filter fun line => line.sourceEnd > start,
        lines[after]?.filter fun line => line.sourceEnd ≤ hard with
    | some line, _ => .ok line.sourceEnd
    | none, some line => .ok line.sourceEnd
    | none, none => do
        let stop := retreat text start preferred
        let stop := if stop ≤ start then advance text hard (hard - start) (start + 1) else stop
        refuse (stop ≤ start ∨ stop > hard) .unitTooLarge
        return stop

/-- Cut the rest of a text into units; a unit is never empty, so the fuel of a
whole text is its length. -/
def unitizeFrom (env : Env) (text : Bytes) (lines : List LineSpan)
    (preferred hard maxUnits : Nat) : (fuel start : Nat) → List UnitSpan →
    Except PreparationError (List UnitSpan)
  | 0, _, units => return units
  | fuel + 1, start, units =>
      if start ≥ text.length then return units
      else do
        check env start
        refuse (units.length ≥ maxUnits) .tooManyUnits
        let stop ← chooseEnd text lines start preferred hard
        refuse (stop ≤ start ∨ stop - start > hard) .unitTooLarge
        let first ← okOr
          lines[partitionPoint (fun line : LineSpan => line.sourceEnd ≤ start) lines]?
          .invalidArtifact
        let last ← okOr
          lines[partitionPoint (fun line : LineSpan => line.sourceEnd < stop) lines]?
          .invalidArtifact
        let unit : UnitSpan := {
          sourceStart := start
          sourceEnd := stop
          logicalLineStart := first.lineIndex
          logicalLineEnd := last.lineIndex + 1
          startsAtLineBoundary := decide (first.sourceStart = start)
          endsAtLineBoundary := decide (last.sourceEnd = stop) }
        unitizeFrom env text lines preferred hard maxUnits fuel stop (units ++ [unit])

def unitizeText (env : Env) (product : MaterializedText) (settings : PreparationSettings)
    (maxUnits : Nat) : Except PreparationError (List UnitSpan) := do
  let text := product.text.bytes
  let units ← unitizeFrom env text product.lines settings.preferredUnitBytes.toNat
    settings.maxUnitBytes.toNat maxUnits text.length 0 []
  check env text.length
  return units

/-! ## What units are -/

/-- The unit covers a range that starts at the given position, ends between two
scalars and is described by the lines it touches. -/
structure Describes (text : Bytes) (lines : List LineSpan) (hard start : Nat) (unit : UnitSpan) :
    Prop where
  start_eq : unit.sourceStart = start
  nonempty : start < unit.sourceEnd
  bounded : unit.sourceEnd ≤ text.length
  fits : unit.sourceEnd - start ≤ hard
  boundary : IsBoundary text unit.sourceEnd
  first : ∃ line, (lines.dropWhile fun line => line.sourceEnd ≤ start).head? = some line ∧
    unit.logicalLineStart = line.lineIndex ∧
    unit.startsAtLineBoundary = decide (line.sourceStart = start)
  last : ∃ line, (lines.dropWhile fun line => line.sourceEnd < unit.sourceEnd).head? = some line ∧
    unit.logicalLineEnd = line.lineIndex + 1 ∧
    unit.endsAtLineBoundary = decide (line.sourceEnd = unit.sourceEnd)

/-- The units cover the rest of the text from a position. -/
def Cover (text : Bytes) (lines : List LineSpan) (hard : Nat) : (start : Nat) →
    List UnitSpan → Prop
  | start, [] => start = text.length
  | start, unit :: units =>
      Describes text lines hard start unit ∧ Cover text lines hard unit.sourceEnd units

section Ends

variable {text : Bytes} {lines : List LineSpan}

theorem retreat_spec (start stop : Nat) :
    retreat text start stop ≤ stop ∧
      (start < retreat text start stop → IsBoundary text (retreat text start stop)) := by
  induction stop with
  | zero => exact ⟨le_rfl, fun hlt => absurd hlt (Nat.not_lt_zero _)⟩
  | succ stop ih =>
      rw [retreat]
      split
      · exact ⟨ih.1.trans (Nat.le_succ _), ih.2⟩
      · rename_i hstop
        refine ⟨le_rfl, fun hlt => ?_⟩
        by_contra hinside
        exact hstop ⟨hlt, hinside⟩

theorem advance_spec (hard fuel stop : Nat) (hfuel : hard < stop + fuel)
    (hle : advance text hard fuel stop ≤ hard) :
    IsBoundary text (advance text hard fuel stop) := by
  induction fuel generalizing stop with
  | zero =>
      rw [advance] at hle
      omega
  | succ fuel ih =>
      rw [advance] at hle ⊢
      split
      · rename_i hinside
        rw [if_pos hinside] at hle
        exact ih (stop + 1) (by omega) hle
      · rename_i hstop
        rw [if_neg hstop] at hle
        by_contra hinside
        exact hstop ⟨hle, hinside⟩

/-- The chosen end of a unit is a boundary of the text. -/
theorem chooseEnd_boundary {start preferred hard stop : Nat}
    (hlines : ∀ line ∈ lines, IsBoundary text line.sourceEnd)
    (hchoose : chooseEnd text lines start preferred hard = .ok stop) : IsBoundary text stop := by
  unfold chooseEnd at hchoose
  dsimp only at hchoose
  split at hchoose
  · obtain rfl := Except.ok.inj hchoose
    exact Or.inl rfl
  · split at hchoose
    · rename_i line hline
      obtain rfl := Except.ok.inj hchoose
      have hfound := (Option.filter_eq_some_iff.mp hline).1
      split at hfound
      · cases hfound
      · exact hlines line (List.mem_of_getElem? hfound)
    · rename_i line _ hline
      obtain rfl := Except.ok.inj hchoose
      exact hlines line (List.mem_of_getElem? (Option.filter_eq_some_iff.mp hline).1)
    · simp only [bind_eq_ok, refuse_eq_ok, not_or, not_le, not_lt, pure_eq_ok, Except.ok.injEq]
        at hchoose
      obtain ⟨_, ⟨hafter, hwithin⟩, rfl⟩ := hchoose
      split
      · rename_i hnone
        rw [if_pos hnone] at hwithin
        exact advance_spec _ _ _ (by omega) hwithin
      · rename_i hsome
        exact (retreat_spec start _).2 (not_le.mp hsome)

end Ends

/-- Units that are cut cover the rest of the text. -/
theorem unitizeFrom_cover {env : Env} {text : Bytes} {lines : List LineSpan}
    {preferred hard maxUnits : Nat} (hlines : ∀ line ∈ lines, IsBoundary text line.sourceEnd)
    (fuel start : Nat) (units : List UnitSpan) {found : List UnitSpan}
    (hfuel : text.length ≤ start + fuel) (hstart : start ≤ text.length)
    (hroom : units.length ≤ maxUnits)
    (hunits : unitizeFrom env text lines preferred hard maxUnits fuel start units = .ok found) :
    ∃ more, found = units ++ more ∧ Cover text lines hard start more ∧
      found.length ≤ maxUnits := by
  induction fuel generalizing start units with
  | zero =>
      obtain rfl := Except.ok.inj hunits
      exact ⟨[], (List.append_nil _).symm, le_antisymm hstart hfuel, hroom⟩
  | succ fuel ih =>
      rw [unitizeFrom] at hunits
      split at hunits
      · rename_i hend
        obtain rfl := Except.ok.inj hunits
        exact ⟨[], (List.append_nil _).symm, le_antisymm hstart hend, hroom⟩
      · simp only [bind_eq_ok, refuse_eq_ok, okOr_eq_ok, not_or, not_le, not_lt, ge_iff_le,
          getElem?_partitionPoint] at hunits
        obtain ⟨_, -, _, hfree, stop, hchoose, _, ⟨hnonempty, hfits⟩, first, hfirst, last, hlast,
          hunits⟩ := hunits
        have hboundary := chooseEnd_boundary hlines hchoose
        have hgrown : (units ++ [(⟨start, stop, first.lineIndex, last.lineIndex + 1,
            decide (first.sourceStart = start), decide (last.sourceEnd = stop)⟩ :
              UnitSpan)]).length ≤ maxUnits := by
          rw [List.length_append, List.length_singleton]
          omega
        obtain ⟨more, rfl, hcover, hlength⟩ :=
          ih stop _ (by omega) hboundary.le hgrown hunits
        refine ⟨_ :: more, by rw [List.append_assoc, List.singleton_append], ⟨?_, hcover⟩, hlength⟩
        exact ⟨rfl, hnonempty, hboundary.le, hfits, hboundary, ⟨first, hfirst, rfl, rfl⟩,
          ⟨last, hlast, rfl, rfl⟩⟩

/-- The units of a materialized text cover it. -/
theorem unitizeText_cover {env : Env} {product : MaterializedText}
    {settings : PreparationSettings} {maxUnits : Nat} {units : List UnitSpan}
    (hlines : product.lines = linesOf product.text.bytes)
    (hunits : unitizeText env product settings maxUnits = .ok units) :
    Cover product.text.bytes product.lines settings.maxUnitBytes.toNat 0 units ∧
      units.length ≤ maxUnits := by
  simp only [unitizeText, bind_eq_ok, pure_eq_ok, Except.ok.injEq] at hunits
  obtain ⟨found, hfound, _, -, rfl⟩ := hunits
  have hboundary : ∀ line ∈ product.lines, IsBoundary product.text.bytes line.sourceEnd := by
    obtain ⟨scalars, hscalars⟩ := product.text.valid
    rw [hlines, ← hscalars]
    exact linesFrom_boundary _ _ _ _ _ le_rfl (Nat.zero_le _) rfl
  obtain ⟨more, rfl, hcover, hlength⟩ := unitizeFrom_cover hboundary _ 0 [] (by omega)
    (Nat.zero_le _) (Nat.zero_le _) hfound
  exact ⟨hcover, hlength⟩

end EliotSearch.Preparation
