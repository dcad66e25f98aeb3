import EliotSearch.Control.Installation

/-!
# Reading back

Every state that successful operations leave is one that the store's own
readers accept: the header decodes, the retired rows are within their number
and their bytes, and all counters are within their bounds.
-/

namespace EliotSearch.Control

open EliotSearch.Library
open EliotSearch.Library.Json
open EliotSearch.Library.Results

/-- The bounds on the dimensions of a generation. -/
structure Generation.Bounded (generation : Generation) : Prop where
  sources : generation.sourceCount.toNat ≤ 4096
  pages : generation.pageCount ≤ generation.pointCount
  points : generation.pointCount.toNat ≤ 1000000
  empty : generation.pageCount = 0 ↔ generation.pointCount = 0

/-- What the readers rely on in a header. -/
structure State.Bounded (state : State) : Prop where
  pending : ∀ p ∈ state.pending, p.completedSources ≤ p.generation.sourceCount ∧
    p.uploadedPages ≤ p.generation.pageCount ∧ p.generation.Bounded
  current : ∀ g ∈ state.current, g.Bounded
  present : state.current.isSome = true ↔ state.currentRevision ≠ 0

/-- The stored header is absent, or stored within its bytes and decoded. -/
def HeaderReadable (db : Db) (state : State) : Prop :=
  (db.publicationState = none ∧ state = State.default) ∨
    ∃ table bytes, db.publicationState = some table ∧ table[stateKey]? = some bytes ∧
      bytes.length ≤ 16 * 1024 ∧ decodeState bytes = .ok state

theorem headerReadable_of_readState {db : Db} {state : State} (hstate : readState db = .ok state) :
    HeaderReadable db state := by
  cases htable : db.publicationState with
  | none =>
      rw [readState, htable] at hstate
      exact Or.inl ⟨htable, (Except.ok.inj hstate).symm⟩
  | some table =>
      rw [readState, htable] at hstate
      simp only [bind_eq_ok, okOr_eq_ok] at hstate
      obtain ⟨bytes, hbytes, hdecode⟩ := hstate
      have hsize := hdecode
      simp only [decodeState, bind_eq_ok, refuse_eq_ok, Nat.not_lt] at hsize
      obtain ⟨_, hlength, -⟩ := hsize
      exact Or.inr ⟨table, bytes, htable, hbytes, hlength, hdecode⟩

namespace Consistent

variable {history : List Event} {rows : Rows} {state : State}

theorem bounded_generation (hconsistent : Consistent history rows state) {g : Generation}
    {sources : List CapturedSource} (hreserved : Reserved history g sources)
    (hmeasured : Measured g) : g.Bounded where
  sources := by
    obtain ⟨hadmissible, hcount, -⟩ := hconsistent.tallied.of_reserved hreserved
    rw [hcount]
    exact hadmissible.bounded
  pages := hmeasured.pages
  points := UInt64.le_iff_toNat_le.mp hmeasured.points
  empty := hmeasured.empty

theorem bounded (hconsistent : Consistent history rows state) : state.Bounded where
  pending := by
    intro p hp
    obtain ⟨-, sources, hreserved⟩ := hconsistent.numbered.pending p hp
    have hprogress := hconsistent.progressed.pending p hp
    exact ⟨hconsistent.completed_le hp, hprogress.uploaded,
      hconsistent.bounded_generation hreserved hprogress.measured⟩
  current := by
    intro g hg
    obtain ⟨sources, hreserved⟩ := hconsistent.numbered.current g hg
    exact hconsistent.bounded_generation hreserved (hconsistent.progressed.current g hg)
  present := by
    rw [hconsistent.numbered.present]
    simp

/-- Every retired row passes the checks of its reader. -/
theorem readRetiredRow_ok (hconsistent : Consistent history rows state) {row : Bytes × Bytes}
    (hrow : row ∈ rows.retired.toList) :
    ∃ retired, readRetiredRow state row = .ok retired ∧ row.2.length ≤ 4096 := by
  obtain ⟨retired, hprint, haccepts⟩ :=
    hconsistent.retired.accepted row.1 row.2 (Table.mem_rows.mp hrow)
  have hlength : row.2.length ≤ maxRetiredBytes := by
    rw [hprint]
    exact Nat.le_trans (retiredFormat.print_length_le retired) retiredFormat_limit
  refine ⟨retired, ?_, hlength⟩
  have hdecode : retiredFormat.decode row.2 = some retired := by
    rw [hprint, Format.decode_print]
  rw [readRetiredRow, refuse_of_not (Nat.not_lt.mpr hlength), ok_bind, hdecode, okOr_some, ok_bind,
    refuse_of_not (not_not.mpr haccepts)]
  rfl

end Consistent

/-- The retired rows of a sound world are read, with their number and bytes. -/
theorem World.Sound.readRetirements_ok {world : World} (hsound : world.Sound) {state : State}
    (hstate : readState world.db = .ok state)
    (hconsistent : Consistent world.history world.db.rows state) :
    ∃ retired, readRetirements world.db = .ok retired ∧ retired.length ≤ 8 ∧
      (state.pending ≠ none → retired.length ≤ 7) := by
  rcases hsound.opened with habsent | hopened
  · obtain rfl := Except.ok.inj (habsent.readState_eq.symm.trans hstate)
    refine ⟨[], ?_, Nat.zero_le _, fun _ => Nat.zero_le _⟩
    rw [readRetirements, hstate]
    rfl
  · by_cases hnamed : state.namespaceId = none
    · refine ⟨[], ?_, Nat.zero_le _, fun _ => Nat.zero_le _⟩
      rw [readRetirements, hstate, ok_bind, if_pos hnamed]
      rfl
    · obtain ⟨table, htable⟩ := Option.isSome_iff_exists.mp hopened.retired
      have hrows : world.db.rows.retired = table := by simp [Db.rows, htable]
      have hretired := hconsistent.retired
      obtain ⟨retired, hread, hlength⟩ :
          ∃ retired, table.toList.mapM (readRetiredRow state) = .ok retired ∧
            retired.length = table.toList.length := by
        refine mapM_ok fun row hrow => ?_
        rw [← hrows] at hrow
        obtain ⟨found, hfound, -⟩ := hconsistent.readRetiredRow_ok hrow
        exact ⟨found, hfound⟩
      have hsize : table.size ≤ maxRetired := hrows ▸ hretired.bounded
      rw [Std.ExtTreeMap.length_toList] at hlength
      refine ⟨retired, ?_, hlength ▸ hsize, ?_⟩
      · rw [readRetirements, hstate, ok_bind, if_neg hnamed, htable, okOr_some, ok_bind,
          refuse_of_not (Nat.not_lt.mpr hsize), ok_bind, hread]
      · intro hpending
        have hroom : table.size < maxRetired := hrows ▸ hretired.room hpending
        rw [hlength]
        exact Nat.le_of_lt_succ hroom

/-- Every reachable publication state is accepted by its own readers and within
all their bounds. -/
theorem reachable_state_readable {db : Db} (habsent : db.PublicationAbsent)
    (actions : List Action) :
    ∃ state, readState ((World.init db).run actions).db = .ok state ∧
      HeaderReadable ((World.init db).run actions).db state ∧
      (∃ retired, readRetirements ((World.init db).run actions).db = .ok retired ∧
        retired.length ≤ 8 ∧ (state.pending ≠ none → retired.length ≤ 7)) ∧
      (∀ id value : Bytes,
        ((World.init db).run actions).db.rows.retired[id]? = some value → value.length ≤ 4096) ∧
      state.Bounded := by
  have hsound := World.sound_run habsent actions
  obtain ⟨state, hstate, hconsistent⟩ := hsound.header
  refine ⟨state, hstate, headerReadable_of_readState hstate,
    hsound.readRetirements_ok hstate hconsistent, ?_, hconsistent.bounded⟩
  intro id value hvalue
  obtain ⟨retired, -, hlength⟩ := hconsistent.readRetiredRow_ok (Table.mem_rows.mpr hvalue)
  exact hlength

theorem reachable_state_readable_sample :
    ∃ state, readState ((World.init Db.empty).run Sample.uploaded).db = .ok state ∧
      HeaderReadable ((World.init Db.empty).run Sample.uploaded).db state ∧
      (∃ retired, readRetirements ((World.init Db.empty).run Sample.uploaded).db = .ok retired ∧
        retired.length ≤ 8 ∧ (state.pending ≠ none → retired.length ≤ 7)) ∧
      (∀ id value : Bytes, ((World.init Db.empty).run Sample.uploaded).db.rows.retired[id]? = some value →
        value.length ≤ 4096) ∧
      state.Bounded :=
  reachable_state_readable Sample.absent Sample.uploaded

end EliotSearch.Control
