import EliotSearch.Control.Numbering

/-!
# Retired generations

At most eight retired rows exist, and one fewer while a build is pending, since
every way out of the pending slot stores at most one row.  A stored row is a
printed record that the reader accepts; the row of a superseded build is the
one record that no cleanup can name.
-/

namespace EliotSearch.Control

open EliotSearch.Library
open EliotSearch.Library.Json
open EliotSearch.Library.Results
open EliotSearch.Library.Words

/-- The row of a superseded build. -/
def PendingGeneration.supersededRow (p : PendingGeneration) : RetiredGeneration :=
  ⟨p.generation, p.created, some p⟩

def Event.IsSupersession : Event → Prop
  | .superseded _ => True
  | _ => False

/-- The retired rows agree with the header and the log. -/
structure Retired (history : List Event) (rows : Rows) (state : State) : Prop where
  bounded : rows.retired.size ≤ maxRetired
  room : state.pending ≠ none → rows.retired.size < maxRetired
  accepted : ∀ id value, rows.retired[id]? = some value →
    ∃ retired, value = retiredFormat.print retired ∧ AcceptsRetired state id retired
  kept : ∀ p, Event.superseded p ∈ history →
    rows.retired[be64 p.generation.sequence]? = some (retiredFormat.print p.supersededRow)

/-- An accepted row stays accepted while no live header takes its sequence. -/
theorem AcceptsRetired.transfer {state after : State} {id : Bytes} {retired : RetiredGeneration}
    (haccepts : AcceptsRetired state id retired)
    (hnamespace : ∀ stored ∈ state.namespaceId, after.namespaceId = some stored)
    (hnext : state.nextSequence ≤ after.nextSequence)
    (hcurrent : ∀ g ∈ after.current, g.sequence ≠ retired.generation.sequence)
    (hpending : ∀ p ∈ after.pending, p.generation.sequence ≠ retired.generation.sequence) :
    AcceptsRetired after id retired := by
  obtain ⟨hid, hstored, hpositive, hbound, -, -, hunresolved⟩ := haccepts
  exact ⟨hid, hnamespace _ hstored, hpositive, UInt64.le_trans hbound hnext, hcurrent, hpending,
    hunresolved⟩

namespace Retired

variable {wanted : Option ℕ} {captures : List CorpusCapture} {history : List Event}
  {rows left : Rows} {state after : State} {event : Option Event}

theorem initial {rows : Rows} (hempty : rows.retired = ∅) : Retired [] rows State.default where
  bounded := by simp [hempty]
  room := fun hsome => absurd rfl hsome
  accepted := fun id value hget => by
    rw [hempty, Table.get_empty] at hget
    cases hget
  kept := fun _ hnone => (nomatch hnone)

/-- What is known of the row of a superseded build. -/
theorem of_superseded (hretired : Retired history rows state) {p : PendingGeneration}
    (hlogged : Event.superseded p ∈ history) :
    AcceptsRetired state (be64 p.generation.sequence) p.supersededRow := by
  obtain ⟨retired, hprint, haccepts⟩ := hretired.accepted _ _ (hretired.kept p hlogged)
  have hsame : p.supersededRow = retired := retiredFormat.print_injective hprint
  rw [hsame]
  exact haccepts

/-- No cleanup names the row of a superseded build. -/
theorem not_removable (hretired : Retired history rows state) {p : PendingGeneration}
    (hlogged : Event.superseded p ∈ history) {retired : RetiredGeneration}
    (hremovable : Removable rows state retired) :
    retired.generation.sequence ≠ p.generation.sequence := by
  intro hsequence
  obtain ⟨value, hvalue, hdecode⟩ := hremovable.stored
  rw [hsequence, hretired.kept p hlogged] at hvalue
  obtain rfl := Option.some.inj hvalue
  rw [Format.decode_print] at hdecode
  obtain rfl := Option.some.inj hdecode
  cases hremovable.settled

theorem removable_le (hretired : Retired history rows state) {retired : RetiredGeneration}
    (hremovable : Removable rows state retired) :
    retired.generation.sequence ≤ state.nextSequence := by
  obtain ⟨value, hvalue, hdecode⟩ := hremovable.stored
  obtain ⟨found, rfl, haccepts⟩ := hretired.accepted _ _ hvalue
  rw [Format.decode_print] at hdecode
  obtain rfl := Option.some.inj hdecode
  exact haccepts.2.2.2.1

/-- The log grows by an event that supersedes nothing. -/
theorem log (hretired : Retired history rows state)
    (hevent : ∀ found ∈ event, ¬ found.IsSupersession) :
    Retired (history ++ event.toList) rows state := by
  refine ⟨hretired.bounded, hretired.room, hretired.accepted, ?_⟩
  intro p hmem
  rcases List.mem_append.mp hmem with hold | hnew
  · exact hretired.kept p hold
  · have hsupersession : Event.IsSupersession (.superseded p) := trivial
    exact absurd hsupersession (hevent _ (Option.mem_toList.mp hnew))

/-- The header changes without freeing or taking the sequence of a row. -/
theorem update (hretired : Retired history rows state)
    (hnamespace : ∀ stored ∈ state.namespaceId, after.namespaceId = some stored)
    (hnext : state.nextSequence ≤ after.nextSequence)
    (hcurrent : after.current = state.current)
    (hroom : after.pending ≠ none → rows.retired.size < maxRetired)
    (hpending : ∀ p ∈ after.pending, state.nextSequence < p.generation.sequence ∨
      ∃ before ∈ state.pending, before.generation.sequence = p.generation.sequence) :
    Retired history rows after := by
  refine ⟨hretired.bounded, hroom, ?_, hretired.kept⟩
  intro id value hget
  obtain ⟨retired, hprint, haccepts⟩ := hretired.accepted id value hget
  refine ⟨retired, hprint, haccepts.transfer hnamespace hnext ?_ ?_⟩
  · rw [hcurrent]
    exact haccepts.2.2.2.2.1
  · intro p hp hsequence
    rcases hpending p hp with hlarger | ⟨before, hbefore, hsame⟩
    · rw [hsequence] at hlarger
      exact absurd haccepts.2.2.2.1 (UInt64.not_le.mpr hlarger)
    · exact haccepts.2.2.2.2.2.1 before hbefore (hsame.trans hsequence)

/-- Leaving the pending slot stores one row under a sequence of its own. -/
theorem retire (hretired : Retired history rows state) {retired : RetiredGeneration}
    (hroom : rows.retired.size < maxRetired) (hreleased : after.pending = none)
    (hnamespace : after.namespaceId = state.namespaceId)
    (hnext : after.nextSequence = state.nextSequence)
    (hcurrent : ∀ g ∈ after.current, g ∈ state.current ∨
      ∃ p ∈ state.pending, p.generation.sequence = g.sequence)
    (hlive : (∃ g ∈ state.current, g.sequence = retired.generation.sequence) ∨
      ∃ p ∈ state.pending, p.generation.sequence = retired.generation.sequence)
    (haccepts : AcceptsRetired after (be64 retired.generation.sequence) retired) :
    Retired history (rows.retire retired) after := by
  have hold : ∀ id value, rows.retired[id]? = some value →
      id ≠ be64 retired.generation.sequence ∧
        ∃ found, value = retiredFormat.print found ∧ AcceptsRetired after id found := by
    intro id value hget
    obtain ⟨found, hprint, hfound⟩ := hretired.accepted id value hget
    refine ⟨?_, found, hprint, hfound.transfer (fun stored hstored => hnamespace.trans hstored)
      (hnext ▸ UInt64.le_refl _) ?_ ?_⟩
    · rintro rfl
      have hsame := be64_injective hfound.1
      rcases hlive with ⟨g, hg, hsequence⟩ | ⟨p, hp, hsequence⟩
      · exact hfound.2.2.2.2.1 g hg (hsequence.trans hsame)
      · exact hfound.2.2.2.2.2.1 p hp (hsequence.trans hsame)
    · intro g hg
      rcases hcurrent g hg with hstays | ⟨p, hp, hsequence⟩
      · exact hfound.2.2.2.2.1 g hstays
      · rw [← hsequence]
        exact hfound.2.2.2.2.2.1 p hp
    · rw [hreleased]
      exact fun _ hnone => (nomatch hnone)
  refine ⟨Nat.le_trans Std.ExtTreeMap.size_insert_le hroom, fun hsome => absurd hreleased hsome,
    ?_, ?_⟩
  · intro id value hget
    have hinserted : (rows.retired.insert (be64 retired.generation.sequence)
        (retiredFormat.print retired))[id]? = some value := hget
    rw [Table.get_insert] at hinserted
    split at hinserted
    · rename_i hid
      obtain rfl := hid
      exact ⟨retired, (Option.some.inj hinserted).symm, haccepts⟩
    · exact (hold id value hinserted).2
  · intro p hlogged
    have hrow := hretired.kept p hlogged
    have hother := (hold _ _ hrow).1
    have hget := Table.get_insert_of_ne rows.retired (retiredFormat.print retired) (Ne.symm hother)
    exact hget.trans hrow

/-- The retired table is the same. -/
theorem same (hretired : Retired history rows state) (hsame : left.retired = rows.retired) :
    Retired history left state :=
  ⟨hsame ▸ hretired.bounded, hsame ▸ hretired.room, hsame ▸ hretired.accepted,
    hsame ▸ hretired.kept⟩

/-- The header of the pending build moves on. -/
theorem advance (hretired : Retired history rows state) {p next : PendingGeneration}
    (hpending : state.pending = some p) (hsame : next.generation.sequence = p.generation.sequence) :
    Retired history rows { state with pending := some next } := by
  refine hretired.update (fun _ hstored => hstored) (UInt64.le_refl _) rfl ?_ ?_
  · exact fun _ => hretired.room (by simp [hpending])
  · intro found hfound
    obtain rfl := Option.some.inj hfound
    exact Or.inr ⟨p, hpending, hsame.symm⟩

/-- A retired row of a live build is accepted once no header names it. -/
theorem accepts_retire {g : Generation} {retired : RetiredGeneration} {before : State}
    (hnumbered : Numbered history before) {sources : List CapturedSource}
    (hreserved : Reserved history g sources) (hgeneration : retired.generation = g)
    (hnamespace : after.namespaceId = before.namespaceId)
    (hnext : after.nextSequence = before.nextSequence)
    (hcurrent : ∀ current ∈ after.current, current.sequence ≠ g.sequence)
    (hreleased : after.pending = none)
    (hunresolved : ∀ p ∈ retired.unresolvedBuild, retired.remoteOwned = p.created ∧
      p.generation = retired.generation ∧ UnresolvedBuild p) :
    AcceptsRetired after (be64 retired.generation.sequence) retired := by
  subst hgeneration
  obtain ⟨hstored, hpositive, hbound⟩ := hnumbered.of_reserved hreserved
  refine ⟨rfl, hnamespace.trans hstored, hpositive, hnext ▸ hbound, hcurrent, ?_, hunresolved⟩
  rw [hreleased]
  exact fun _ hnone => (nomatch hnone)

/-- A supersession is logged together with the row it stores. -/
theorem log_superseded {p : PendingGeneration} (hretired : Retired history rows state)
    (hstored : rows.retired[be64 p.generation.sequence]? =
      some (retiredFormat.print p.supersededRow)) :
    Retired (history ++ [Event.superseded p]) rows state := by
  refine ⟨hretired.bounded, hretired.room, hretired.accepted, ?_⟩
  intro found hmem
  rcases List.mem_append.mp hmem with hold | hnew
  · exact hretired.kept found hold
  · obtain rfl := Event.superseded.inj (List.mem_singleton.mp hnew)
    exact hstored

/-- Every publication transaction keeps the retired rows in order. -/
theorem step (hretired : Retired history rows state) (hnumbered : Numbered history state)
    (htransition : Transition wanted captures history rows state event left after) :
    Retired (history ++ event.toList) left after := by
  have hordered : ∀ g ∈ state.current, ∀ p ∈ state.pending,
      g.sequence ≠ p.generation.sequence := by
    intro g hg p hp hsame
    have hlt := hnumbered.ordered g hg p hp
    rw [hsame] at hlt
    exact absurd hlt (UInt64.lt_irrefl _)
  cases htransition with
  | @reserve capture namespaceId sequence captured fresh idle named next room =>
      have hlarger : state.nextSequence < sequence := by
        rw [UInt64.lt_iff_toNat_lt]
        omega
      refine Retired.log (hretired.update ?_ ?_ rfl (fun _ => room) ?_) ?_
      · exact fun stored hstored => congrArg some (named stored hstored).symm
      · exact UInt64.le_of_lt hlarger
      · intro p hp
        obtain rfl := Option.some.inj hp
        exact Or.inl hlarger
      · rintro found ⟨⟩ ⟨⟩
  | persist =>
      refine Retired.log (hretired.same rfl) ?_
      rintro found ⟨⟩
  | stage pending =>
      refine Retired.log (Retired.same (hretired.advance pending ?_) ?_) ?_
      · rfl
      · rfl
      · rintro found ⟨⟩
  | finish pending =>
      refine Retired.log (Retired.same (hretired.advance pending ?_) ?_) ?_
      · rfl
      · rfl
      · rintro found ⟨⟩
  | complete pending =>
      refine Retired.log (hretired.advance pending rfl) ?_
      rintro found ⟨⟩
  | record pending =>
      refine Retired.log (hretired.advance pending rfl) ?_
      rintro found ⟨⟩ ⟨⟩
  | settle pending inFlight result =>
      refine Retired.log (hretired.advance pending ?_) ?_
      · rw [Numbered.settled_generation result]
      · rintro found ⟨⟩ ⟨⟩
  | @commit p revision pending fresh idle sealed created uploaded same counted =>
      have hroom := hretired.room (by simp [pending])
      refine Retired.log ?_ ?_
      · cases hcurrent : state.current with
        | none =>
            refine ⟨hretired.bounded, fun hsome => absurd rfl hsome, ?_, hretired.kept⟩
            intro id value hget
            obtain ⟨retired, hprint, haccepts⟩ := hretired.accepted id value hget
            refine ⟨retired, hprint, haccepts.transfer (fun _ hstored => hstored)
              (UInt64.le_refl _) ?_ (fun _ hnone => (nomatch hnone))⟩
            intro g hg
            obtain rfl := Option.some.inj hg
            exact haccepts.2.2.2.2.2.1 p pending
        | some old =>
            have hdistinct := hordered old hcurrent p pending
            obtain ⟨sources, hreserved⟩ := hnumbered.current old hcurrent
            refine hretired.retire hroom rfl rfl rfl ?_ (Or.inl ⟨old, hcurrent, rfl⟩) ?_
            · intro g hg
              obtain rfl := Option.some.inj hg
              exact Or.inr ⟨p, pending, rfl⟩
            · refine accepts_retire hnumbered hreserved rfl rfl rfl ?_ rfl (fun _ hnone => (nomatch hnone))
              intro g hg
              obtain rfl := Option.some.inj hg
              exact hdistinct.symm
      · rintro found ⟨⟩ ⟨⟩
  | @abandon p pending idle =>
      obtain ⟨-, sources, hreserved⟩ := hnumbered.pending p pending
      refine Retired.log (hretired.retire (hretired.room (by simp [pending])) rfl rfl rfl
        (fun g hg => Or.inl hg) (Or.inr ⟨p, pending, rfl⟩) ?_) ?_
      · exact accepts_retire hnumbered hreserved rfl rfl rfl
          (fun g hg => hordered g hg p pending) rfl (fun _ hnone => (nomatch hnone))
      · rintro found ⟨⟩ ⟨⟩
  | @supersede p pending unresolved room free =>
      obtain ⟨-, sources, hreserved⟩ := hnumbered.pending p pending
      refine Retired.log_superseded (hretired.retire room rfl rfl rfl
        (fun g hg => Or.inl hg) (Or.inr ⟨p, pending, rfl⟩) ?_) ?_
      · refine accepts_retire hnumbered hreserved rfl rfl rfl
          (fun g hg => hordered g hg p pending) rfl ?_
        intro found hfound
        obtain rfl := Option.some.inj hfound
        exact ⟨rfl, rfl, unresolved⟩
      · exact Table.get_insert_self _ _ _
  | remove definition keys removable owned =>
      refine Retired.log (hretired.same ?_) ?_
      · cases definition <;> rfl
      · rintro found ⟨⟩
  | @forget retired removable =>
      refine Retired.log ?_ ?_
      · refine ⟨Nat.le_trans Std.ExtTreeMap.size_erase_le hretired.bounded,
          fun hsome => Nat.lt_of_le_of_lt Std.ExtTreeMap.size_erase_le (hretired.room hsome),
          ?_, ?_⟩
        · intro id value hget
          have herased : (rows.retired.erase (be64 retired.generation.sequence))[id]? =
              some value := hget
          rw [Table.get_erase] at herased
          split at herased
          · cases herased
          · exact hretired.accepted id value herased
        · intro p hlogged
          have hother : be64 retired.generation.sequence ≠ be64 p.generation.sequence :=
            fun hsame => hretired.not_removable hlogged removable (be64_injective hsame)
          exact (Table.get_erase_of_ne rows.retired hother).trans (hretired.kept p hlogged)
      · rintro found ⟨⟩

end Retired

end EliotSearch.Control
