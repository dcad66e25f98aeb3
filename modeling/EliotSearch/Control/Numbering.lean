import EliotSearch.Control.Transition
import EliotSearch.Library.Logs

/-!
# Numbering of builds

Every build that the header names was reserved once, under a sequence that no
other reservation has.  The reservation fixes the namespace, the wanted
revision, the counts and the captured sources of the build for good.
-/

namespace EliotSearch.Control

open EliotSearch.Library
open EliotSearch.Library.Results
open EliotSearch.Library.Words

/-- Two headers of one reservation. -/
structure Generation.SameBuild (left right : Generation) : Prop where
  namespace_eq : left.namespaceId = right.namespaceId
  sequence_eq : left.sequence = right.sequence
  wanted_eq : left.wantedRevision = right.wantedRevision
  sources_eq : left.sourceCount = right.sourceCount
  gaps_eq : left.gapCount = right.gapCount

theorem Generation.SameBuild.refl (generation : Generation) : generation.SameBuild generation :=
  ⟨rfl, rfl, rfl, rfl, rfl⟩

theorem Generation.SameBuild.symm {left right : Generation} (hsame : left.SameBuild right) :
    right.SameBuild left :=
  ⟨hsame.namespace_eq.symm, hsame.sequence_eq.symm, hsame.wanted_eq.symm, hsame.sources_eq.symm,
    hsame.gaps_eq.symm⟩

theorem Generation.SameBuild.trans {first second third : Generation}
    (hfirst : first.SameBuild second) (hsecond : second.SameBuild third) :
    first.SameBuild third :=
  ⟨hfirst.namespace_eq.trans hsecond.namespace_eq, hfirst.sequence_eq.trans hsecond.sequence_eq,
    hfirst.wanted_eq.trans hsecond.wanted_eq, hfirst.sources_eq.trans hsecond.sources_eq,
    hfirst.gaps_eq.trans hsecond.gaps_eq⟩

/-- The log reserved the generation for these captured sources. -/
def Reserved (history : List Event) (generation : Generation) (sources : List CapturedSource) :
    Prop :=
  ∃ reserved, Event.reserved reserved sources ∈ history ∧
    generation.SameBuild reserved.generation

/-- Reservations are numbered upwards. -/
def Event.Below : Event → Event → Prop
  | .reserved earlier _, .reserved later _ =>
      earlier.generation.sequence < later.generation.sequence
  | _, _ => True

def Event.IsReservation : Event → Prop
  | .reserved _ _ => True
  | _ => False

/-- Every reservation has a larger sequence than the ones before it. -/
abbrev Increasing (history : List Event) : Prop :=
  Justified (fun before event => ∀ earlier ∈ before, Event.Below earlier event) history

theorem Event.Below.of_not_reservation {earlier event : Event} (hevent : ¬ event.IsReservation) :
    Event.Below earlier event := by
  cases event with
  | reserved pending sources => exact absurd trivial hevent
  | _ => cases earlier <;> trivial

/-- A sequence is reserved at most once. -/
theorem Reserved.unique {history : List Event} {left right : Generation}
    {first second : List CapturedSource} (hincreasing : Increasing history)
    (hleft : Reserved history left first) (hright : Reserved history right second)
    (hsequence : left.sequence = right.sequence) :
    first = second ∧ left.SameBuild right := by
  obtain ⟨reserved, hmem, hsame⟩ := hleft
  obtain ⟨other, hother, hsameOther⟩ := hright
  have hequal : reserved.generation.sequence = other.generation.sequence :=
    (hsame.sequence_eq.symm.trans hsequence).trans hsameOther.sequence_eq
  rcases hincreasing.ordered hmem hother with heq | hlt | hgt
  · obtain ⟨rfl, rfl⟩ := Event.reserved.inj heq
    exact ⟨rfl, hsame.trans hsameOther.symm⟩
  · have hlt : reserved.generation.sequence < other.generation.sequence := hlt
    exact absurd (hequal ▸ hlt) (UInt64.lt_irrefl _)
  · have hgt : other.generation.sequence < reserved.generation.sequence := hgt
    exact absurd (hequal ▸ hgt) (UInt64.lt_irrefl _)

theorem Reserved.mono {earlier later : List Event} {generation : Generation}
    {sources : List CapturedSource} (hsubset : ∀ event ∈ earlier, event ∈ later)
    (hreserved : Reserved earlier generation sources) : Reserved later generation sources := by
  obtain ⟨reserved, hmem, hsame⟩ := hreserved
  exact ⟨reserved, hsubset _ hmem, hsame⟩

theorem Reserved.same {history : List Event} {left right : Generation}
    {sources : List CapturedSource} (hreserved : Reserved history left sources)
    (hsame : right.SameBuild left) : Reserved history right sources := by
  obtain ⟨reserved, hmem, hbuild⟩ := hreserved
  exact ⟨reserved, hmem, hsame.trans hbuild⟩

/-! ## The numbering of a header -/

/-- The header names only reserved builds: the pending one is the latest, the
current one is older. -/
structure Numbered (history : List Event) (state : State) : Prop where
  version : state.version = 1
  named : state.namespaceId = none ↔ state.nextSequence = 0
  reserved : ∀ p sources, Event.reserved p sources ∈ history →
    state.namespaceId = some p.generation.namespaceId ∧ p.generation.sequence ≠ 0 ∧
      p.generation.sequence ≤ state.nextSequence
  increasing : Increasing history
  pending : ∀ p ∈ state.pending, p.generation.sequence = state.nextSequence ∧
    ∃ sources, Reserved history p.generation sources
  current : ∀ g ∈ state.current, ∃ sources, Reserved history g sources
  ordered : ∀ g ∈ state.current, ∀ p ∈ state.pending, g.sequence < p.generation.sequence
  present : state.current.isSome = (state.currentRevision != 0)

namespace Numbered

variable {history : List Event} {state : State}

theorem initial : Numbered [] State.default where
  version := rfl
  named := by simp [State.default]
  reserved := fun _ _ hmem => absurd hmem List.not_mem_nil
  increasing := Justified.nil
  pending := by simp [State.default]
  current := by simp [State.default]
  ordered := by simp [State.default]
  present := rfl

/-- What is known of a build that the header names. -/
theorem of_reserved (hnumbered : Numbered history state) {g : Generation}
    {sources : List CapturedSource} (hreserved : Reserved history g sources) :
    state.namespaceId = some g.namespaceId ∧ g.sequence ≠ 0 ∧
      g.sequence ≤ state.nextSequence := by
  obtain ⟨reserved, hmem, hsame⟩ := hreserved
  have hbounds := hnumbered.reserved reserved sources hmem
  rw [hsame.namespace_eq, hsame.sequence_eq]
  exact hbounds

/-- Other transactions extend the log without a reservation. -/
theorem log (hnumbered : Numbered history state) {event : Option Event}
    (hevent : ∀ found ∈ event, ¬ found.IsReservation) :
    Numbered (history ++ event.toList) state := by
  have hsubset : ∀ found ∈ history, found ∈ history ++ event.toList :=
    fun found hmem => List.mem_append_left _ hmem
  refine ⟨hnumbered.version, hnumbered.named, ?_, ?_, ?_, ?_, hnumbered.ordered,
    hnumbered.present⟩
  · intro p sources hmem
    rcases List.mem_append.mp hmem with hold | hnew
    · exact hnumbered.reserved p sources hold
    · have hreservation : Event.IsReservation (.reserved p sources) := trivial
      exact absurd hreservation (hevent _ (by simpa using hnew))
  · refine hnumbered.increasing.append_toList fun found hfound earlier _ => ?_
    exact Event.Below.of_not_reservation (hevent found hfound)
  · intro p hp
    obtain ⟨hsequence, sources, hreserved⟩ := hnumbered.pending p hp
    exact ⟨hsequence, sources, hreserved.mono hsubset⟩
  · intro g hg
    obtain ⟨sources, hreserved⟩ := hnumbered.current g hg
    exact ⟨sources, hreserved.mono hsubset⟩

theorem log_none (hnumbered : Numbered history state) :
    Numbered (history ++ (none : Option Event).toList) state := by
  simpa using hnumbered

/-- The header of the pending build moves on. -/
theorem update (hnumbered : Numbered history state) {p after : PendingGeneration}
    (hpending : state.pending = some p) (hsame : after.generation.SameBuild p.generation) :
    Numbered history { state with pending := some after } := by
  obtain ⟨hsequence, sources, hreserved⟩ := hnumbered.pending p hpending
  refine ⟨hnumbered.version, hnumbered.named, hnumbered.reserved, hnumbered.increasing, ?_,
    hnumbered.current, ?_, hnumbered.present⟩
  · intro found hfound
    obtain rfl := Option.some.inj hfound
    exact ⟨hsame.sequence_eq.trans hsequence, sources, hreserved.same hsame⟩
  · intro g hg found hfound
    obtain rfl := Option.some.inj hfound
    rw [hsame.sequence_eq]
    exact hnumbered.ordered g hg p hpending

/-- The pending slot is released. -/
theorem release (hnumbered : Numbered history state) :
    Numbered history { state with pending := none } where
  version := hnumbered.version
  named := hnumbered.named
  reserved := hnumbered.reserved
  increasing := hnumbered.increasing
  pending := fun _ hmem => absurd hmem (Option.not_mem_none _)
  current := hnumbered.current
  ordered := fun _ _ _ hmem => absurd hmem (Option.not_mem_none _)
  present := hnumbered.present

theorem settled_generation {p after : PendingGeneration} {operation : PendingOperation}
    {applied : Bool} (hsettled : settled p operation applied = .ok after) :
    after.generation = p.generation := by
  cases applied with
  | false =>
      obtain rfl := Except.ok.inj hsettled
      rfl
  | true =>
      cases operation with
      | create =>
          obtain rfl := Except.ok.inj hsettled
          rfl
      | insert page =>
          simp only [settled, bind_eq_ok] at hsettled
          obtain ⟨uploadedPages, _, hafter⟩ := hsettled
          obtain rfl := Except.ok.inj hafter
          rfl

variable {wanted : Option ℕ} {captures : List CorpusCapture} {rows left : Rows} {after : State}
  {event : Option Event}

/-- Every publication transaction keeps the numbering. -/
theorem step (hnumbered : Numbered history state)
    (htransition : Transition wanted captures history rows state event left after) :
    Numbered (history ++ event.toList) after := by
  cases htransition with
  | @reserve capture namespaceId sequence captured fresh idle named next room =>
      have hlarger : ∀ p sources, Event.reserved p sources ∈ history →
          p.generation.sequence < sequence := by
        intro p sources hmem
        have hle := (hnumbered.reserved p sources hmem).2.2
        rw [UInt64.le_iff_toNat_le] at hle
        rw [UInt64.lt_iff_toNat_lt]
        omega
      have hpositive : sequence ≠ 0 := by
        rintro rfl
        simp at next
      have hlogged : Event.reserved (reservedBuild capture state namespaceId sequence)
          capture.sources ∈ history ++ [Event.reserved
            (reservedBuild capture state namespaceId sequence) capture.sources] :=
        List.mem_append_right _ List.mem_cons_self
      refine ⟨hnumbered.version, by simp [hpositive], ?_, ?_, ?_, ?_, ?_, hnumbered.present⟩
      · intro p sources hmem
        rcases List.mem_append.mp hmem with hold | hnew
        · obtain ⟨hnamespace, hnonzero, -⟩ := hnumbered.reserved p sources hold
          exact ⟨congrArg some (named _ hnamespace).symm, hnonzero,
            UInt64.le_of_lt (hlarger p sources hold)⟩
        · obtain ⟨rfl, rfl⟩ := Event.reserved.inj (List.mem_singleton.mp hnew)
          exact ⟨rfl, hpositive, UInt64.le_refl _⟩
      · refine hnumbered.increasing.concat fun earlier hearlier => ?_
        cases earlier with
        | reserved p sources => exact hlarger p sources hearlier
        | _ => trivial
      · intro p hp
        obtain rfl := Option.some.inj hp
        exact ⟨rfl, capture.sources, _, hlogged, Generation.SameBuild.refl _⟩
      · intro g hg
        obtain ⟨sources, hreserved⟩ := hnumbered.current g hg
        exact ⟨sources, hreserved.mono fun found hmem => List.mem_append_left _ hmem⟩
      · intro g hg p hp
        obtain rfl := Option.some.inj hp
        obtain ⟨sources, reserved, hmem, hsame⟩ := hnumbered.current g hg
        rw [hsame.sequence_eq]
        exact hlarger reserved sources hmem
  | persist => exact hnumbered.log_none
  | stage pending =>
      refine (hnumbered.update pending ?_).log_none
      exact ⟨rfl, rfl, rfl, rfl, rfl⟩
  | finish pending =>
      refine (hnumbered.update pending ?_).log_none
      exact ⟨rfl, rfl, rfl, rfl, rfl⟩
  | complete pending =>
      refine (hnumbered.update pending ?_).log_none
      exact ⟨rfl, rfl, rfl, rfl, rfl⟩
  | record pending =>
      refine (hnumbered.update pending ?_).log ?_
      · exact ⟨rfl, rfl, rfl, rfl, rfl⟩
      · rintro found ⟨⟩ ⟨⟩
  | settle pending inFlight result =>
      refine (hnumbered.update pending ?_).log ?_
      · rw [settled_generation result]
        exact Generation.SameBuild.refl _
      · rintro found ⟨⟩ ⟨⟩
  | @commit p revision pending fresh idle sealed created uploaded same counted =>
      obtain ⟨-, sources, hreserved⟩ := hnumbered.pending p pending
      have hinstalled : Numbered history { state with
          currentRevision := revision, current := some p.generation, pending := none } := by
        refine { hnumbered.release with
          current := ?_, ordered := fun _ _ _ hmem => absurd hmem (Option.not_mem_none _)
          present := ?_ }
        · intro g hg
          obtain rfl := Option.some.inj hg
          exact ⟨sources, hreserved⟩
        · have hnonzero : revision ≠ 0 := by
            rintro rfl
            simp at counted
          simp [hnonzero]
      refine hinstalled.log ?_
      rintro found ⟨⟩ ⟨⟩
  | abandon =>
      refine hnumbered.release.log ?_
      rintro found ⟨⟩ ⟨⟩
  | supersede =>
      refine hnumbered.release.log ?_
      rintro found ⟨⟩ ⟨⟩
  | remove => exact hnumbered.log_none
  | forget => exact hnumbered.log_none

end Numbered

end EliotSearch.Control
