import EliotSearch.Control.Progress
import EliotSearch.Control.Retirement
import EliotSearch.Library.Lists

/-!
# Saved source rows

The rows under the sequence of a build always belong to the sources it
captured, and the completed-source counter is the number of complete ones.  A
build whose counter reached the source count has exactly the complete rows of
its captured corpus, and keeps them for as long as it is current.
-/

namespace EliotSearch.Control

open EliotSearch.Library
open EliotSearch.Library.Results
open EliotSearch.Library.Words

/-- The corpora a capture may return. -/
structure Admissible (sources : List CapturedSource) : Prop where
  coherent : ∀ captured ∈ sources, captured.Coherent
  distinct : (sources.map fun captured => captured.source.sourceId).Nodup
  bounded : sources.length ≤ maxSources

/-- The entry stored for a source of a sequence. -/
def entryAt (table : Table) (sequence : UInt64) (id : SourceId) : Option SourceEntry :=
  table[key sequence id.bytes]?.bind fun value => (decodeSource value).toOption

/-- The source is stored as complete. -/
def isSaved (table : Table) (sequence : UInt64) (captured : CapturedSource) : Bool :=
  (entryAt table sequence captured.source.sourceId).any SourceEntry.complete

/-- Every row of the sequence is that of a captured source. -/
def OwnedRows (table : Table) (sequence : UInt64) (sources : List CapturedSource) : Prop :=
  ∀ suffix value, table[key sequence suffix]? = some value →
    ∃ captured ∈ sources, suffix = captured.source.sourceId.bytes ∧
      ∃ entry, decodeSource value = .ok entry ∧ entry.captured = captured

/-- The rows of a sequence are the complete rows of a corpus: none is missing
and none is extra. -/
structure SavedCorpus (table : Table) (sequence : UInt64) (sources : List CapturedSource) :
    Prop where
  saved : ∀ captured ∈ sources, ∃ value entry,
    table[key sequence captured.source.sourceId.bytes]? = some value ∧
      decodeSource value = .ok entry ∧ entry.captured = captured ∧ entry.complete = true
  only : ∀ suffix value, table[key sequence suffix]? = some value →
    ∃ captured ∈ sources, suffix = captured.source.sourceId.bytes

/-- The rows of a build with the number of complete ones. -/
structure Filling (table : Table) (sequence : UInt64) (sources : List CapturedSource)
    (completed : Nat) : Prop where
  owned : OwnedRows table sequence sources
  count : sources.countP (isSaved table sequence) = completed

theorem entryAt_eq_some {table : Table} {sequence : UInt64} {id : SourceId} {value : Bytes}
    {entry : SourceEntry} (hvalue : table[key sequence id.bytes]? = some value)
    (hentry : decodeSource value = .ok entry) : entryAt table sequence id = some entry := by
  simp [entryAt, hvalue, hentry, Except.toOption]

theorem entryAt_insert {table : Table} {sequence : UInt64} {id : SourceId} {bytes : Bytes}
    {entry : SourceEntry} (hentry : decodeSource bytes = .ok entry) (other : SourceId) :
    entryAt (table.insert (key sequence id.bytes) bytes) sequence other =
      if id = other then some entry else entryAt table sequence other := by
  by_cases hid : id = other
  · rw [if_pos hid, ← hid]
    exact entryAt_eq_some (Table.get_insert_self _ _ _) hentry
  · have hkey : key sequence id.bytes ≠ key sequence other.bytes :=
      fun hsame => hid (Octets.ext (key_injective hsame).2)
    rw [if_neg hid, entryAt, Table.get_insert_of_ne table bytes hkey, entryAt]

theorem entryAt_same {sequence : UInt64} {before after : Table}
    (hsame : SameUnder sequence before after) (id : SourceId) :
    entryAt after sequence id = entryAt before sequence id := by
  rw [entryAt, entryAt, hsame]

theorem SavedCorpus.same {sequence : UInt64} {sources : List CapturedSource}
    {before after : Table} (hsaved : SavedCorpus before sequence sources)
    (hsame : SameUnder sequence before after) : SavedCorpus after sequence sources where
  saved := fun captured hmem => by
    rw [hsame]
    exact hsaved.saved captured hmem
  only := fun suffix value hvalue => hsaved.only suffix value (hsame suffix ▸ hvalue)

namespace Filling

variable {table : Table} {sequence : UInt64} {sources : List CapturedSource} {completed : Nat}

theorem same {after : Table} (hfilling : Filling table sequence sources completed)
    (hsame : SameUnder sequence table after) : Filling after sequence sources completed where
  owned := fun suffix value hvalue => hfilling.owned suffix value (hsame suffix ▸ hvalue)
  count := by
    rw [← hfilling.count]
    refine Lists.countP_congr fun captured _ => ?_
    rw [isSaved, isSaved, entryAt_same hsame]

/-- A sequence without rows has no complete source. -/
theorem empty (hempty : ∀ suffix, table[key sequence suffix]? = none) :
    Filling table sequence sources 0 where
  owned := fun suffix value hvalue => by
    rw [hempty] at hvalue
    cases hvalue
  count := by
    rw [List.countP_eq_zero]
    intro captured _
    simp [isSaved, entryAt, hempty]

/-- Writing the row of a captured source keeps all rows owned. -/
theorem owned_insert (howned : OwnedRows table sequence sources) (entry : SourceEntry)
    {bytes : Bytes} (hmem : entry.captured ∈ sources) (hentry : decodeSource bytes = .ok entry) :
    OwnedRows (table.insert (key sequence entry.captured.source.sourceId.bytes) bytes) sequence
      sources := by
  intro suffix value hvalue
  rw [Table.get_insert] at hvalue
  split at hvalue
  · rename_i hkey
    obtain rfl := Option.some.inj hvalue
    exact ⟨entry.captured, hmem, (key_injective hkey).2.symm, entry, hentry, rfl⟩
  · exact howned suffix value hvalue

/-- The count after writing one row. -/
theorem isSaved_insert (entry : SourceEntry) {bytes : Bytes}
    (hentry : decodeSource bytes = .ok entry) (captured : CapturedSource) :
    isSaved (table.insert (key sequence entry.captured.source.sourceId.bytes) bytes) sequence
        captured =
      if entry.captured.source.sourceId = captured.source.sourceId then entry.complete
      else isSaved table sequence captured := by
  rw [isSaved, entryAt_insert hentry]
  split
  · rfl
  · rfl

/-- The stored entry of a row names the source of its key. -/
theorem entry_mem (hfilling : Filling table sequence sources completed) {id : SourceId}
    {value : Bytes} {entry : SourceEntry} (hvalue : table[key sequence id.bytes]? = some value)
    (hentry : decodeSource value = .ok entry) :
    entry.captured ∈ sources ∧ entry.captured.source.sourceId = id := by
  obtain ⟨captured, hmem, hid, found, hfound, rfl⟩ := hfilling.owned _ _ hvalue
  rw [hentry] at hfound
  obtain rfl := Except.ok.inj hfound
  exact ⟨hmem, (Octets.ext hid).symm⟩

/-- A captured input is saved under a free key. -/
theorem persist (hfilling : Filling table sequence sources completed)
    {captured : CapturedSource} {bytes : Bytes} (hmem : captured ∈ sources)
    (hcoherent : captured.Coherent)
    (hfree : table[key sequence captured.source.sourceId.bytes]? = none)
    (hencode : encodeSource ⟨captured, 0, false⟩ = .ok bytes) :
    Filling (table.insert (key sequence captured.source.sourceId.bytes) bytes) sequence sources
      completed := by
  have hentry := decodeSource_encodeSource hencode hcoherent
  refine ⟨owned_insert hfilling.owned ⟨captured, 0, false⟩ hmem hentry, ?_⟩
  rw [← hfilling.count]
  refine Lists.countP_congr fun other _ => ?_
  rw [isSaved_insert ⟨captured, 0, false⟩ hentry]
  split
  · rename_i hid
    have hnone : entryAt table sequence other.source.sourceId = none := by
      rw [← hid, entryAt, hfree]
      rfl
    rw [isSaved, hnone]
    rfl
  · rfl

/-- A stored entry is rewritten without changing its source or completion. -/
theorem rewrite (hfilling : Filling table sequence sources completed) (next : SourceEntry)
    {id : SourceId} {value bytes : Bytes} {entry : SourceEntry}
    (hvalue : table[key sequence id.bytes]? = some value) (hentry : decodeSource value = .ok entry)
    (hcaptured : next.captured = entry.captured) (hcomplete : next.complete = entry.complete)
    (hencode : encodeSource next = .ok bytes) :
    Filling (table.insert (key sequence id.bytes) bytes) sequence sources completed := by
  obtain ⟨hmem, rfl⟩ := hfilling.entry_mem hvalue hentry
  have hnext := decodeSource_encodeSource hencode (hcaptured ▸ decodeSource_coherent hentry)
  rw [← hcaptured] at hmem ⊢
  refine ⟨owned_insert hfilling.owned next hmem hnext, ?_⟩
  rw [← hfilling.count]
  refine Lists.countP_congr fun other _ => ?_
  rw [isSaved_insert next hnext]
  split
  · rename_i hid
    have hstored := entryAt_eq_some hvalue hentry
    rw [isSaved, ← hid, hcaptured, hstored, hcomplete]
    rfl
  · rfl

/-- Completing a stored entry counts exactly one more. -/
theorem finish (hfilling : Filling table sequence sources completed)
    (hdistinct : (sources.map fun captured => captured.source.sourceId).Nodup) {id : SourceId}
    {value bytes : Bytes} {entry : SourceEntry}
    (hvalue : table[key sequence id.bytes]? = some value) (hentry : decodeSource value = .ok entry)
    (hincomplete : entry.complete = false)
    (hencode : encodeSource { entry with complete := true } = .ok bytes) :
    Filling (table.insert (key sequence id.bytes) bytes) sequence sources (completed + 1) := by
  obtain ⟨hmem, rfl⟩ := hfilling.entry_mem hvalue hentry
  have hcoherent : entry.captured.Coherent := decodeSource_coherent hentry
  have hnext := decodeSource_encodeSource hencode hcoherent
  refine ⟨owned_insert hfilling.owned { entry with complete := true } hmem hnext, ?_⟩
  rw [← hfilling.count]
  refine Lists.countP_succ hdistinct hmem ?_ ?_ ?_
  · rw [isSaved, entryAt_eq_some hvalue hentry]
    exact hincomplete
  · rw [isSaved_insert { entry with complete := true } hnext, if_pos rfl]
  · intro other _ hother
    rw [isSaved_insert { entry with complete := true } hnext, if_neg (Ne.symm hother)]

/-- A completely counted build has exactly its corpus saved. -/
theorem saved (hfilling : Filling table sequence sources sources.length)
    (hdistinct : (sources.map fun captured => captured.source.sourceId).Nodup) :
    SavedCorpus table sequence sources where
  saved := by
    intro captured hmem
    have hsaved := List.countP_eq_length.mp hfilling.count captured hmem
    rw [isSaved, Option.any_eq_true] at hsaved
    obtain ⟨entry, hentry, hcomplete⟩ := hsaved
    rw [entryAt, Option.bind_eq_some_iff] at hentry
    obtain ⟨value, hvalue, hdecode⟩ := hentry
    obtain ⟨owner, howner, hid, stored, hstored, hcaptured⟩ := hfilling.owned _ _ hvalue
    rw [hstored] at hdecode
    obtain rfl : stored = entry := Option.some.inj hdecode
    have hsame := Lists.eq_of_key_eq hdistinct howner hmem (Octets.ext hid).symm
    exact ⟨value, stored, hvalue, hstored, hcaptured.trans hsame, hcomplete⟩
  only := by
    intro suffix value hvalue
    obtain ⟨captured, hmem, hid, _⟩ := hfilling.owned suffix value hvalue
    exact ⟨captured, hmem, hid⟩

end Filling

/-! ## The rows of the live builds -/

/-- Every reservation counts an admissible corpus. -/
def Tallied (history : List Event) : Prop :=
  ∀ reserved sources, Event.reserved reserved sources ∈ history →
    Admissible sources ∧ reserved.generation.sourceCount.toNat = sources.length ∧
      reserved.generation.gapCount.toNat = sources.countP CapturedSource.isGap

theorem Tallied.of_reserved {history : List Event} (htallied : Tallied history) {g : Generation}
    {sources : List CapturedSource} (hreserved : Reserved history g sources) :
    Admissible sources ∧ g.sourceCount.toNat = sources.length ∧
      g.gapCount.toNat = sources.countP CapturedSource.isGap := by
  obtain ⟨reserved, hmem, hsame⟩ := hreserved
  rw [hsame.sources_eq, hsame.gaps_eq]
  exact htallied reserved sources hmem

/-- All rows belong to numbered builds; the pending build owns its rows, and
the current one has its whole corpus saved. -/
structure Filled (history : List Event) (rows : Rows) (state : State) : Prop where
  keyed : ∀ table found value, (rows.get table)[found]? = some value →
    ∃ sequence, be64 sequence <+: found ∧ sequence ≤ state.nextSequence
  pending : ∀ p ∈ state.pending, ∃ sources, Reserved history p.generation sources ∧
    Filling rows.sources p.generation.sequence sources p.completedSources.toNat
  current : ∀ g ∈ state.current, ∃ sources, Reserved history g sources ∧
    SavedCorpus rows.sources g.sequence sources

section Transitions

variable {wanted : Option ℕ} {captures : List CorpusCapture} {history : List Event}
  {rows left : Rows} {state after : State} {event : Option Event}

theorem Tallied.step (htallied : Tallied history)
    (hcaptures : ∀ capture ∈ captures, Admissible capture.sources)
    (htransition : Transition wanted captures history rows state event left after) :
    Tallied (history ++ event.toList) := by
  intro reserved sources hmem
  rcases List.mem_append.mp hmem with hold | hnew
  · exact htallied reserved sources hold
  · cases htransition with
    | @reserve capture namespaceId sequence captured fresh idle named next room =>
        obtain ⟨rfl, rfl⟩ := Event.reserved.inj (List.mem_singleton.mp hnew)
        have hadmissible := hcaptures capture captured
        have hcount : (capture.sources.countP CapturedSource.isGap) ≤ capture.sources.length :=
          List.countP_le_length
        have hword : maxSources < 2 ^ 64 := by decide
        have hbound := hadmissible.bounded
        refine ⟨hadmissible, UInt64.toNat_ofNat_of_lt' ?_, UInt64.toNat_ofNat_of_lt' ?_⟩
        · exact Nat.lt_of_le_of_lt hbound hword
        · exact Nat.lt_of_le_of_lt (Nat.le_trans hcount hbound) hword
    | _ => simp at hnew

/-- Sequences are only ever handed out upwards. -/
theorem Transition.nextSequence_le
    (htransition : Transition wanted captures history rows state event left after) :
    state.nextSequence ≤ after.nextSequence := by
  cases htransition with
  | reserve captured fresh idle named next =>
      rw [UInt64.le_iff_toNat_le]
      simp only [next]
      omega
  | _ => exact UInt64.le_refl _

namespace Filled

theorem initial {rows : Rows} (hempty : ∀ table, rows.get table = ∅) :
    Filled [] rows State.default where
  keyed := fun table found value hget => by
    rw [hempty table, Table.get_empty] at hget
    cases hget
  pending := fun _ hnone => (nomatch hnone)
  current := fun _ hnone => (nomatch hnone)

/-- A fresh sequence has no rows yet. -/
theorem fresh (hfilled : Filled history rows state) {sequence : UInt64}
    (hlarger : state.nextSequence < sequence) (table : GenerationTable) (suffix : Bytes) :
    (rows.get table)[key sequence suffix]? = none := by
  rw [Option.eq_none_iff_forall_ne_some]
  intro value hget
  obtain ⟨owner, ⟨rest, hrest⟩, hle⟩ := hfilled.keyed table _ value hget
  have hsame : key owner rest = key sequence suffix := hrest
  rw [(key_injective hsame).1] at hle
  exact absurd hle (UInt64.not_le.mpr hlarger)

theorem keyed_step (hfilled : Filled history rows state) (hnumbered : Numbered history state)
    (hretired : Retired history rows state)
    (htransition : Transition wanted captures history rows state event left after)
    (table : GenerationTable) (found value : Bytes)
    (hget : (left.get table)[found]? = some value) :
    ∃ sequence, be64 sequence <+: found ∧ sequence ≤ after.nextSequence := by
  have hnext := htransition.nextSequence_le
  have hold : (rows.get table)[found]? = some value →
      ∃ sequence, be64 sequence <+: found ∧ sequence ≤ after.nextSequence := by
    intro hbefore
    obtain ⟨sequence, hstem, hle⟩ := hfilled.keyed table found value hbefore
    exact ⟨sequence, hstem, UInt64.le_trans hle hnext⟩
  rcases htransition.confined with hsame | ⟨sequence, hedited, hconfined⟩
  · rw [hsame table] at hget
    exact hold hget
  · by_cases hstem : be64 sequence <+: found
    · refine ⟨sequence, hstem, UInt64.le_trans ?_ hnext⟩
      rcases hedited with ⟨p, hp, rfl⟩ | ⟨retired, hremovable, rfl⟩
      · rw [(hnumbered.pending p hp).1]
        exact UInt64.le_refl _
      · exact hretired.removable_le hremovable
    · rw [hconfined table found hstem] at hget
      exact hold hget

/-- A current generation that stays keeps its saved corpus. -/
theorem current_step (hfilled : Filled history rows state) (hnumbered : Numbered history state)
    (htransition : Transition wanted captures history rows state event left after) {g : Generation}
    (hg : state.current = some g) :
    ∃ sources, Reserved (history ++ event.toList) g sources ∧
      SavedCorpus left.sources g.sequence sources := by
  obtain ⟨sources, hreserved, hsaved⟩ := hfilled.current g hg
  have hkept : ¬ Edited rows state g.sequence :=
    not_edited_of_current hg (hnumbered.ordered g hg)
  refine ⟨sources, hreserved.mono fun found hmem => List.mem_append_left _ hmem, ?_⟩
  exact hsaved.same (htransition.sameUnder hkept .sources)

/-- A staged page keeps the rows of its build owned and counted. -/
theorem stage_filling {env : Env} {sequence : UInt64} {page : List UploadPoint}
    {staging : Staging} {evidence : Table} {pointCount : UInt64} {sources : List CapturedSource}
    {completed : Nat} (hfilling : Filling rows.sources sequence sources completed)
    (hstaged : stagePoints env sequence 2 ⟨rows.sources, evidence, pointCount⟩ page =
      .ok staging) : Filling staging.sources sequence sources completed := by
  refine stagePoints_invariant (fun reached => Filling reached.sources sequence sources completed)
    hstaged hfilling ?_
  intro reached point next hpoint hreached
  obtain ⟨value, entry, stagedUnits, bytes, hvalue, hentry, _, _, hencode, hrow⟩ := hpoint.row
  rw [hrow]
  exact hreached.rewrite { entry with stagedUnits } hvalue hentry rfl rfl hencode

/-- A saved chunk keeps the rows of its build owned and counted. -/
theorem persist_filling {p reserved : PendingGeneration} {sources chunk : List CapturedSource}
    {inputs : List (Bytes × Bytes)} {table : Table} {completed : Nat}
    (hincreasing : Increasing history) (htallied : Tallied history)
    (hreserved : ∃ captured, Reserved history p.generation captured ∧
      Filling rows.sources p.generation.sequence captured completed)
    (hlogged : Event.reserved reserved sources ∈ history) (hsame : p.build = reserved.build)
    (hsubset : ∀ captured ∈ chunk, captured ∈ sources)
    (hencoded : chunk.mapM (capturedRow p.generation.sequence) = .ok inputs)
    (hinserted : insertFresh rows.sources inputs = .ok table) :
    ∃ captured, Reserved history p.generation captured ∧
      Filling table p.generation.sequence captured completed := by
  obtain ⟨captured, hcaptured, hfilling⟩ := hreserved
  have hown : Reserved history reserved.generation sources :=
    ⟨reserved, hlogged, Generation.SameBuild.refl _⟩
  have hsequence : p.generation.sequence = reserved.generation.sequence :=
    congrArg BuildId.sequence hsame
  obtain ⟨rfl, -⟩ := hcaptured.unique hincreasing hown hsequence
  refine ⟨captured, hcaptured, ?_⟩
  refine insertFresh_invariant
    (fun table => Filling table p.generation.sequence captured completed) hinserted hfilling ?_
  intro row hrow table hfree hreached
  obtain ⟨source, hmem, hkey, hencode⟩ := capturedRows_eq_ok hencoded hrow
  rw [hkey] at hfree ⊢
  have hsource := hsubset source hmem
  exact hreached.persist hsource ((htallied.of_reserved hown).1.coherent source hsource) hfree
    hencode

/-- Every publication transaction keeps the rows of the live builds. -/
theorem step (hfilled : Filled history rows state) (hnumbered : Numbered history state)
    (hprogressed : Progressed state) (hretired : Retired history rows state)
    (htallied : Tallied history)
    (htransition : Transition wanted captures history rows state event left after) :
    Filled (history ++ event.toList) left after := by
  have hkeyed := hfilled.keyed_step hnumbered hretired htransition
  have hcurrent := fun g (hg : state.current = some g) =>
    hfilled.current_step hnumbered htransition hg
  have hlog : ∀ g sources, Reserved history g sources →
      Reserved (history ++ event.toList) g sources :=
    fun g sources hreserved => hreserved.mono fun found hmem => List.mem_append_left _ hmem
  cases htransition with
  | @reserve capture namespaceId sequence captured fresh idle named next room =>
      refine ⟨hkeyed, ?_, hcurrent⟩
      intro p hp
      obtain rfl := Option.some.inj hp
      have hlarger : state.nextSequence < sequence := by
        rw [UInt64.lt_iff_toNat_lt]
        omega
      refine ⟨capture.sources, ⟨_, List.mem_append_right _ List.mem_cons_self,
        Generation.SameBuild.refl _⟩, ?_⟩
      exact Filling.empty (hfilled.fresh hlarger .sources)
  | @persist p reserved sources chunk inputs table pending logged same subset encoded inserted =>
      refine ⟨hkeyed, ?_, hcurrent⟩
      intro found hfound
      obtain rfl : p = found := Option.some.inj (pending.symm.trans hfound)
      obtain ⟨captured, hcaptured, hfilling⟩ := persist_filling hnumbered.increasing htallied
        (hfilled.pending p pending) logged same subset encoded inserted
      exact ⟨captured, hlog _ _ hcaptured, hfilling⟩
  | @stage p env page bytes stagedBytes pageCount staging pending unsealed idle encoded charged
      staged counted =>
      refine ⟨hkeyed, ?_, hcurrent⟩
      intro found hfound
      obtain rfl := Option.some.inj hfound
      obtain ⟨sources, hreserved, hfilling⟩ := hfilled.pending p pending
      exact ⟨sources, (hlog _ _ hreserved).same ⟨rfl, rfl, rfl, rfl, rfl⟩,
        stage_filling hfilling staged⟩
  | @finish p id value bytes entry completedSources pending unsealed found decoded incomplete
      encoded counted =>
      refine ⟨hkeyed, ?_, hcurrent⟩
      intro next hnext
      obtain rfl := Option.some.inj hnext
      obtain ⟨sources, hreserved, hfilling⟩ := hfilled.pending p pending
      refine ⟨sources, hlog _ _ hreserved, ?_⟩
      rw [counted]
      exact hfilling.finish (htallied.of_reserved hreserved).1.distinct found decoded incomplete
        encoded
  | @complete p pending fresh finished =>
      refine ⟨hkeyed, ?_, hcurrent⟩
      intro next hnext
      obtain rfl := Option.some.inj hnext
      obtain ⟨sources, hreserved, hfilling⟩ := hfilled.pending p pending
      exact ⟨sources, hlog _ _ hreserved, hfilling⟩
  | @record p operation revision pending fresh idle sealed next counted =>
      refine ⟨hkeyed, ?_, hcurrent⟩
      intro next hnext
      obtain rfl := Option.some.inj hnext
      obtain ⟨sources, hreserved, hfilling⟩ := hfilled.pending p pending
      exact ⟨sources, hlog _ _ hreserved, hfilling⟩
  | @settle p next operation applied pending inFlight result =>
      refine ⟨hkeyed, ?_, hcurrent⟩
      intro found hfound
      obtain rfl := Option.some.inj hfound
      obtain ⟨sources, hreserved, hfilling⟩ := hfilled.pending p pending
      rw [Numbered.settled_generation result, settled_completedSources result]
      exact ⟨sources, hlog _ _ hreserved, hfilling⟩
  | @commit p revision pending fresh idle sealed created uploaded same counted =>
      refine ⟨hkeyed, fun _ hnone => (nomatch hnone), ?_⟩
      intro g hg
      obtain rfl := Option.some.inj hg
      obtain ⟨sources, hreserved, hfilling⟩ := hfilled.pending p pending
      obtain ⟨hadmissible, hcount, -⟩ := htallied.of_reserved hreserved
      rw [(hprogressed.pending p pending).finished sealed, hcount] at hfilling
      have hsame : (rows.retireCurrent state.current).sources = rows.sources := by
        cases state.current <;> rfl
      rw [hsame]
      exact ⟨sources, hlog _ _ hreserved, hfilling.saved hadmissible.distinct⟩
  | abandon => exact ⟨hkeyed, fun _ hnone => (nomatch hnone), hcurrent⟩
  | supersede => exact ⟨hkeyed, fun _ hnone => (nomatch hnone), hcurrent⟩
  | @remove retired definition keys removable owned =>
      refine ⟨hkeyed, ?_, hcurrent⟩
      intro p hp
      obtain ⟨sources, hreserved, hfilling⟩ := hfilled.pending p hp
      refine ⟨sources, hlog _ _ hreserved, hfilling.same ?_⟩
      have hother := (removable.not_pending p hp)
      cases definition with
      | sources => exact SameUnder.of_confined (Table.confined_eraseAll owned _) hother
      | pages => exact fun _ => rfl
      | evidence => exact fun _ => rfl
  | forget =>
      refine ⟨hkeyed, ?_, hcurrent⟩
      intro p hp
      obtain ⟨sources, hreserved, hfilling⟩ := hfilled.pending p hp
      exact ⟨sources, hlog _ _ hreserved, hfilling⟩

end Filled

end Transitions

end EliotSearch.Control
