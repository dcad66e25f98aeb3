import EliotSearch.Control.DeadSequences
import EliotSearch.Control.Settlement
import EliotSearch.Control.Supersession
import Mathlib.Algebra.Order.BigOperators.Group.List

/-!
# Cleaning up a retired generation

`finish_retirement` removes the rows of one retired sequence in chunks, table
by table, and forgets the retired row last.  Other callers act between its
transactions and a caller may stop after any of them.  The rows still to remove
bound the transactions of the cleanup, and its retired row stays until the
tables hold no row of the sequence.
-/

namespace EliotSearch.Control

open EliotSearch.Library
open EliotSearch.Library.Json
open EliotSearch.Library.Results
open EliotSearch.Library.Words

/-! ## Transactions of one cleanup -/

namespace World

/-- Run the next transaction of a call that is held apart from the calls of the
other callers: the world it leaves, the call while it has more to do, and what
its caller is told. -/
def resume (world : World) (env : Env) (call : Call) : World × Option Call × Reply :=
  let (next, reply) := { world with calls := [call] }.advance env 0 call
  ({ next with calls := world.calls }, next.calls.head?, reply)

end World

/-- What the other callers do before one transaction of a cleanup, and the
surroundings of that transaction. -/
structure Round where
  others : List Action
  env : Env

/-- One transaction of a cleanup, with what happened since the one before. -/
structure Turn where
  start : World
  others : List Action
  call : Call
  after : World

/-- The world a transaction of the cleanup is run in. -/
def Turn.before (turn : Turn) : World := turn.start.run turn.others

/-- A cleanup up to its reply, or up to the point where its caller stopped. -/
structure Attempt where
  world : World
  reply : Option Reply
  turns : List Turn

namespace World

/-- Drive a call through as many transactions as there are rounds. -/
def drive (world : World) (call : Call) : List Round → Attempt
  | [] => ⟨world, none, []⟩
  | round :: rounds =>
      let met := world.run round.others
      let (next, rest, reply) := met.resume round.env call
      match rest with
      | none => ⟨next, some reply, [⟨world, round.others, call, next⟩]⟩
      | some later =>
          let attempt := next.drive later rounds
          { attempt with turns := ⟨world, round.others, call, next⟩ :: attempt.turns }

theorem drive_stops {world : World} {call : Call} {round : Round} {rounds : List Round}
    {next : World} {reply : Reply}
    (hnext : (world.run round.others).resume round.env call = (next, none, reply)) :
    world.drive call (round :: rounds) =
      ⟨next, some reply, [⟨world, round.others, call, next⟩]⟩ := by
  rw [drive, hnext]

theorem drive_continues {world : World} {call : Call} {round : Round} {rounds : List Round}
    {next : World} {later : Call} {reply : Reply}
    (hnext : (world.run round.others).resume round.env call = (next, some later, reply)) :
    world.drive call (round :: rounds) = { next.drive later rounds with
      turns := ⟨world, round.others, call, next⟩ :: (next.drive later rounds).turns } := by
  rw [drive, hnext]

/-- `finish_retirement` with the other callers acting between its transactions. -/
def cleanup (world : World) (retired : RetiredGeneration) (rounds : List Round) : Attempt :=
  let (next, reply) := { world with calls := [] }.finishRetirement retired
  match next.calls with
  | [] => ⟨world, some reply, []⟩
  | call :: _ => world.drive call rounds

theorem cleanup_eq (world : World) {retired : RetiredGeneration}
    (hsettled : retired.unresolvedBuild = none) (rounds : List Round) :
    world.cleanup retired rounds = world.drive (.scanning retired GenerationTable.all) rounds := by
  simp [cleanup, finishRetirement, hsettled, push]

end World

/-- A stretch of a run: actions of any callers, or one cleanup among them. -/
inductive Episode where
  | actions (actions : List Action)
  | cleanup (retired : RetiredGeneration) (rounds : List Round)

namespace World

def episode (world : World) : Episode → World
  | .actions actions => world.run actions
  | .cleanup retired rounds => (world.cleanup retired rounds).world

/-- The world after a sequence of episodes. -/
def play (world : World) (episodes : List Episode) : World := Runs.run episode world episodes

end World

/-- Rows of the retired sequence and its retired row may be gone, and nothing
else changed outside the header. -/
structure Purges (retired : RetiredGeneration) (before after : Db) : Prop where
  confined : ∀ table, Table.Confined (be64 retired.generation.sequence) (before.rows.get table)
    (after.rows.get table)
  erases : ∀ (table : GenerationTable) (row value : Bytes),
    (after.rows.get table)[row]? = some value → (before.rows.get table)[row]? = some value
  others : ∀ id, id ≠ be64 retired.generation.sequence →
    after.rows.retired[id]? = before.rows.retired[id]?
  sources : KeepsSources before after

/-- The transaction removes rows of the retired sequence and nothing else; no
live header names the sequence. -/
structure CleansOnly (retired : RetiredGeneration) (before after : Db) : Prop extends
    Purges retired before after where
  header : readState after = readState before
  dead : DeadIn before retired.generation.sequence

theorem Purges.cleared {retired : RetiredGeneration} {before after : Db}
    (hpurges : Purges retired before after) {sequence : UInt64} {table : GenerationTable}
    (hcleared : Cleared sequence (before.rows.get table)) :
    Cleared sequence (after.rows.get table) :=
  hcleared.erased fun row value _ => hpurges.erases table row value

theorem Purges.refl (retired : RetiredGeneration) (db : Db) : Purges retired db db where
  confined := fun _ => Table.Confined.refl _ _
  erases := fun _ _ _ hvalue => hvalue
  others := fun _ _ => rfl
  sources := ⟨rfl, rfl, rfl, rfl⟩

/-! ## What is left to do -/

/-- A call of the cleanup: the tables before its own hold no row of the
sequence, and it only erases keys of the sequence. -/
inductive Cleaning (retired : RetiredGeneration) (db : Db) : Call → Prop where
  | scanning {done tables : List GenerationTable} (all : GenerationTable.all = done ++ tables)
      (cleared : ∀ table ∈ done, Cleared retired.generation.sequence (db.rows.get table)) :
      Cleaning retired db (.scanning retired tables)
  | removing {done tables : List GenerationTable} {definition : GenerationTable}
      {keys : List Bytes} (all : GenerationTable.all = done ++ definition :: tables)
      (cleared : ∀ table ∈ done, Cleared retired.generation.sequence (db.rows.get table))
      (owned : ∀ key ∈ keys, be64 retired.generation.sequence <+: key) :
      Cleaning retired db (.removing retired definition tables keys)

/-- The rows of a sequence in one table, some keys left out. -/
def Db.leftIn (db : Db) (sequence : UInt64) (keys : List Bytes) (table : GenerationTable) : Nat :=
  Table.left (db.rows.get table) (be64 sequence) keys

/-- The rows of a sequence in some tables. -/
def Db.left (db : Db) (sequence : UInt64) (tables : List GenerationTable) : Nat :=
  (tables.map (db.leftIn sequence [])).sum

/-- A bound on the transactions a cleanup still runs. -/
def Call.work (db : Db) : Call → Nat
  | .scanning retired tables => 2 * db.left retired.generation.sequence tables + tables.length + 1
  | .removing retired definition tables keys =>
      2 * db.leftIn retired.generation.sequence keys definition +
        2 * db.left retired.generation.sequence tables + tables.length + 3
  | .persisting _ _ => 0
  | .confirming _ => 0

theorem Fades.leftIn_le {sequence : UInt64} {before after : Db}
    (hfades : Fades sequence before after) (hdead : DeadIn before sequence) (keys : List Bytes)
    (table : GenerationTable) :
    after.leftIn sequence keys table ≤ before.leftIn sequence keys table := by
  apply Table.left_mono
  intro key value hstem hkey hvalue
  exact ⟨hfades.rows hdead table key value hstem hvalue, hkey⟩

theorem Fades.left_le {sequence : UInt64} {before after : Db}
    (hfades : Fades sequence before after) (hdead : DeadIn before sequence)
    (tables : List GenerationTable) : after.left sequence tables ≤ before.left sequence tables :=
  List.sum_le_sum fun table _ => hfades.leftIn_le hdead [] table

theorem Purges.left_le {retired : RetiredGeneration} {before after : Db}
    (hpurges : Purges retired before after) (sequence : UInt64) (tables : List GenerationTable) :
    after.left sequence tables ≤ before.left sequence tables := by
  refine List.sum_le_sum fun table _ => ?_
  apply Table.left_mono
  intro key value _ hkey hvalue
  exact ⟨hpurges.erases table key value hvalue, hkey⟩

/-- Other callers only take work off a cleanup. -/
theorem Fades.cleaning {retired : RetiredGeneration} {before after : Db} {call : Call}
    (hfades : Fades retired.generation.sequence before after)
    (hdead : DeadIn before retired.generation.sequence) (hcleaning : Cleaning retired before call) :
    Cleaning retired after call ∧ call.work after ≤ call.work before := by
  cases hcleaning with
  | @scanning done tables all cleared =>
      have hleft := hfades.left_le hdead tables
      refine ⟨.scanning all fun table hmem => hfades.cleared hdead (cleared table hmem), ?_⟩
      simp only [Call.work]
      omega
  | @removing done tables definition keys all cleared owned =>
      have hkeys := hfades.leftIn_le hdead keys definition
      have hleft := hfades.left_le hdead tables
      refine ⟨.removing all (fun table hmem => hfades.cleared hdead (cleared table hmem)) owned, ?_⟩
      simp only [Call.work]
      omega

/-! ## One transaction of a cleanup -/

theorem rows_get (db : Db) (definition : GenerationTable) :
    db.rows.get definition = openTable (definition.get db) := by
  cases definition <;> rfl

/-- The keys of a chunk are rows of the sequence, and without one the table
holds none. -/
theorem retirementKeys_eq_ok {env : Env} {db : Db} {definition : GenerationTable}
    {sequence : UInt64} {keys : List Bytes}
    (hkeys : retirementKeys env db definition sequence = .ok keys) :
    (∀ key ∈ keys, ∃ value, (db.rows.get definition)[key]? = some value) ∧
      (keys = [] → Cleared sequence (db.rows.get definition)) := by
  simp only [retirementKeys, observeDatabase, bind_eq_ok, okOr_eq_ok] at hkeys
  obtain ⟨_, _, found, ⟨table, htable, hfound⟩, _, _, hresult⟩ := hkeys
  obtain rfl := Except.ok.inj hfound
  obtain rfl := Except.ok.inj hresult
  have hrows : db.rows.get definition = table := by rw [rows_get, htable, openTable_some]
  rw [hrows]
  refine ⟨?_, ?_⟩
  · intro key hkey
    obtain ⟨⟨_, value⟩, hrow, rfl⟩ := List.mem_map.mp hkey
    have hfrom := List.mem_of_mem_take ((List.takeWhile_sublist _).mem hrow)
    exact ⟨value, Table.mem_rows.mp ((List.dropWhile_sublist _).mem hfrom)⟩
  · intro hnone row hrow
    have hscan : Table.scan table (be64 sequence) = [] :=
      Lists.takeWhile_take_eq_nil (by decide) (List.map_eq_nil_iff.mp hnone)
    cases hvalue : table[row]? with
    | none => rfl
    | some value =>
        have hmem := Table.mem_scan.mpr ⟨hvalue, hrow⟩
        rw [hscan] at hmem
        cases hmem

section Edits

variable {retired : RetiredGeneration} {db left : Db} {state after : State} {result : Unit}

theorem checkRetired_named (hguard : checkRetired db state retired = .ok result) :
    state.namespaceId ≠ none := by
  simp only [checkRetired, bind_eq_ok, refuse_eq_ok, not_or, not_not] at hguard
  obtain ⟨_, ⟨hnamespace, -⟩, -⟩ := hguard
  rw [hnamespace]
  exact Option.some_ne_none _

/-- Removing a chunk erases its keys from one table. -/
theorem removeKeysEdit_purges {definition : GenerationTable} {keys : List Bytes}
    (howned : ∀ key ∈ keys, be64 retired.generation.sequence <+: key)
    (hedit : removeKeysEdit retired definition keys db.openPublication state =
      .ok (left, after, result)) :
    after = state ∧ state.namespaceId ≠ none ∧ Purges retired db left ∧
      left.rows = db.rows.set
        (keys.foldl (fun table key => table.erase key) (db.rows.get definition)) definition := by
  simp only [removeKeysEdit, bind_eq_ok, pure_eq_ok, Except.ok.injEq, Prod.mk.injEq] at hedit
  obtain ⟨_, hguard, rfl, rfl, -⟩ := hedit
  have hrows : (definition.set db.openPublication (keys.foldl (fun table key => table.erase key)
      (openTable (definition.get db.openPublication)))).rows = db.rows.set
        (keys.foldl (fun table key => table.erase key) (db.rows.get definition)) definition := by
    cases definition <;> rfl
  refine ⟨rfl, checkRetired_named hguard, ⟨?_, ?_, ?_, ?_⟩, hrows⟩
  · intro table
    rw [hrows, Rows.get_set]
    split
    · rename_i hsame
      rw [hsame]
      exact Table.confined_eraseAll howned _
    · exact Table.Confined.refl _ _
  · intro table row value hvalue
    rw [hrows, Rows.get_set] at hvalue
    split at hvalue
    · rename_i hsame
      rw [hsame]
      exact Table.get_of_get_eraseAll hvalue
    · exact hvalue
  · intro id _
    rw [hrows]
    cases definition <;> rfl
  · cases definition <;> exact ⟨rfl, rfl, rfl, rfl⟩

/-- Forgetting erases the retired row. -/
theorem forgetRetiredEdit_purges
    (hedit : forgetRetiredEdit retired db.openPublication state = .ok (left, after, result)) :
    after = state ∧ state.namespaceId ≠ none ∧ Purges retired db left ∧
      left.rows = { db.rows with
        retired := db.rows.retired.erase (be64 retired.generation.sequence) } := by
  simp only [forgetRetiredEdit, bind_eq_ok, pure_eq_ok, Except.ok.injEq, Prod.mk.injEq] at hedit
  obtain ⟨_, hguard, rfl, rfl, -⟩ := hedit
  refine ⟨rfl, checkRetired_named hguard, ⟨?_, ?_, ?_, ⟨rfl, rfl, rfl, rfl⟩⟩, rfl⟩
  · intro table
    cases table <;> exact Table.Confined.refl _ _
  · intro table row value hvalue
    cases table <;> exact hvalue
  · exact fun id hid => Table.get_erase_of_ne _ hid.symm

end Edits

namespace World

variable {world : World} {retired : RetiredGeneration}

/-- The call of a cleanup is one that a world may have in flight. -/
theorem cleaning_callOk {call : Call} (hsettled : retired.unresolvedBuild = none)
    (hcleaning : Cleaning retired world.db call) (history : List Event) :
    CallOk history call := by
  cases hcleaning with
  | scanning => exact hsettled
  | removing all cleared owned => exact ⟨hsettled, owned⟩

/-- A world is sound whatever calls are in flight. -/
theorem Sound.withCalls (hsound : world.Sound) {calls : List Call}
    (hcalls : ∀ call ∈ calls, CallOk world.history call) : { world with calls := calls }.Sound :=
  ⟨hsound.header, hsound.opened, hsound.captured, hsound.agree, hsound.reserved, hcalls⟩

/-- A resumed call leaves a sound world and a call that it may have in flight. -/
theorem Sound.resume (hsound : world.Sound) (env : Env) {call : Call}
    (hcall : CallOk world.history call) :
    (world.resume env call).1.Sound ∧
      ∀ later ∈ (world.resume env call).2.1, CallOk (world.resume env call).1.history later := by
  have hapart : { world with calls := [call] }.Sound :=
    hsound.withCalls fun other hmem => List.mem_singleton.mp hmem ▸ hcall
  have hstep := advance_stepOk hapart.calls env 0 hcall
  have hnext : ({ world with calls := [call] }.advance env 0 call).1.Sound ∧
      ∃ more, ({ world with calls := [call] }.advance env 0 call).1.history =
        world.history ++ more := by
    rcases hstep.cases with hquiet | ⟨event, hpublishes⟩
    · exact ⟨hapart.quiet hquiet hstep.calls, [], by rw [hquiet.history, List.append_nil]⟩
    · exact ⟨hapart.publishes hpublishes hstep.calls, _, hpublishes.history⟩
  obtain ⟨hnext, more, hmore⟩ := hnext
  refine ⟨hnext.withCalls fun other hmem => ?_, ?_⟩
  · rw [hmore]
    exact (hsound.calls other hmem).mono fun _ hevent => List.mem_append_left _ hevent
  · intro later hlater
    exact hstep.calls later (List.mem_of_mem_head? hlater)

/-- A driven call leaves a sound world. -/
theorem Sound.drive (rounds : List Round) (hsound : world.Sound) {call : Call}
    (hcall : CallOk world.history call) : (world.drive call rounds).world.Sound := by
  induction rounds generalizing world call with
  | nil => exact hsound
  | cons round rounds ih =>
      have hmet : CallOk (world.run round.others).history call :=
        hcall.mono (hsound.history_run round.others)
      have hnext := (hsound.run round.others).resume round.env hmet
      rcases hresume : (world.run round.others).resume round.env call with ⟨next, rest, reply⟩
      rw [hresume] at hnext
      cases rest with
      | none =>
          rw [drive_stops hresume]
          exact hnext.1
      | some later =>
          rw [drive_continues hresume]
          exact ih hnext.1 (hnext.2 later rfl)

/-- A transaction that purges and keeps the header cleans only. -/
theorem Sound.cleansOnly (hsound : world.Sound)
    (hdead : DeadIn world.db retired.generation.sequence) {env : Env} {write : Edit Unit}
    (hwrite : ∀ state left after result,
      write world.db.openPublication state = .ok (left, after, result) →
        after = state ∧ state.namespaceId ≠ none ∧ Purges retired world.db left) :
    CleansOnly retired world.db (editDatabase env world.db write).db := by
  rcases editDatabase_cases env world.db write with ⟨-, hdb, -⟩ | hdurable
  · rw [hdb]
    exact ⟨Purges.refl retired world.db, rfl, hdead⟩
  · obtain ⟨found, hfound, hconsistent⟩ := hsound.header
    obtain ⟨state, left, after, value, hstate, hedit, hdb, -⟩ := hdurable
    obtain rfl : found = state := Except.ok.inj (hfound.symm.trans hstate)
    obtain ⟨rfl, hnamed, hpurges⟩ := hwrite _ _ _ _ hedit
    rw [hdb]
    refine ⟨⟨hpurges.confined, hpurges.erases, hpurges.others, ?_⟩, ?_, hdead⟩
    · exact ⟨hpurges.sources.state, hpurges.sources.rows, hpurges.sources.locators,
        hpurges.sources.preparations⟩
    · rw [readState_withState left (hconsistent.readable hnamed), hstate]

end World

/-- What one transaction of a cleanup does. -/
structure Resumed (retired : RetiredGeneration) (world : World) (call : Call)
    (next : World × Option Call × Reply) : Prop where
  cleans : CleansOnly retired world.db next.1.db
  kept : call = .scanning retired [] ∨
    next.1.db.rows.retired[be64 retired.generation.sequence]? =
      world.db.rows.retired[be64 retired.generation.sequence]?
  continues : ∀ later ∈ next.2.1, call ≠ .scanning retired [] ∧
    Cleaning retired next.1.db later ∧ later.work next.1.db < call.work world.db
  finished : next.2.2 = .published (.ok ()) →
    (∀ table, Cleared retired.generation.sequence (next.1.db.rows.get table)) ∧
      next.1.db.rows.retired[be64 retired.generation.sequence]? = none

namespace World

variable {world : World} {retired : RetiredGeneration}

theorem Sound.resume_forget (hsound : world.Sound)
    (hdead : DeadIn world.db retired.generation.sequence) (env : Env)
    (hcleared : ∀ table ∈ GenerationTable.all,
      Cleared retired.generation.sequence (world.db.rows.get table)) :
    Resumed retired world (.scanning retired []) (world.resume env (.scanning retired [])) := by
  have hcleans : CleansOnly retired world.db
      (editDatabase env world.db (forgetRetiredEdit retired)).db :=
    hsound.cleansOnly hdead fun _ _ _ _ hedit =>
      ⟨(forgetRetiredEdit_purges hedit).1, (forgetRetiredEdit_purges hedit).2.1,
        (forgetRetiredEdit_purges hedit).2.2.1⟩
  refine ⟨hcleans, Or.inl rfl, fun _ hlater => (nomatch hlater), ?_⟩
  intro hreply
  have hreply : (editDatabase env world.db (forgetRetiredEdit retired)).reply = .ok () :=
    Reply.published.inj hreply
  rcases editDatabase_cases env world.db (forgetRetiredEdit retired) with
    ⟨-, -, error, herror⟩ | hdurable
  · rw [hreply] at herror
    cases herror
  · obtain ⟨state, left, after, value, -, hedit, hdb, -⟩ := hdurable
    obtain ⟨-, -, -, hrows⟩ := forgetRetiredEdit_purges hedit
    refine ⟨fun table => ?_, ?_⟩
    · exact hcleans.cleared (hcleared table (by cases table <;> decide))
    · have hafter : (editDatabase env world.db (forgetRetiredEdit retired)).db.rows.retired =
          world.db.rows.retired.erase (be64 retired.generation.sequence) := by
        rw [hdb]
        exact congrArg Rows.retired hrows
      have hgone := Table.get_erase world.db.rows.retired (be64 retired.generation.sequence)
        (be64 retired.generation.sequence)
      rw [← hafter, if_pos rfl] at hgone
      exact hgone

/-- An acknowledged chunk leaves the rows outside its keys. -/
theorem removed_leftIn {env : Env} {definition : GenerationTable} {keys : List Bytes}
    {value : Unit} (howned : ∀ key ∈ keys, be64 retired.generation.sequence <+: key)
    (hreply : (editDatabase env world.db (removeKeysEdit retired definition keys)).reply =
      .ok value) :
    (editDatabase env world.db (removeKeysEdit retired definition keys)).db.leftIn
        retired.generation.sequence [] definition ≤
      world.db.leftIn retired.generation.sequence keys definition := by
  rcases editDatabase_cases env world.db (removeKeysEdit retired definition keys) with
    ⟨-, -, error, herror⟩ | hdurable
  · rw [hreply] at herror
    cases herror
  · obtain ⟨state, left, after, value, -, hedit, hdb, -⟩ := hdurable
    obtain ⟨-, -, -, hrows⟩ := removeKeysEdit_purges howned hedit
    have hafter : (left.withState after).rows.get definition =
        keys.foldl (fun table key => table.erase key) (world.db.rows.get definition) := by
      have hget : left.rows.get definition =
          keys.foldl (fun table key => table.erase key) (world.db.rows.get definition) := by
        rw [hrows, Rows.get_set, if_pos rfl]
      exact hget
    rw [hdb, Db.leftIn, hafter]
    exact Table.left_eraseAll _ _ _

theorem resume_scan (hdead : DeadIn world.db retired.generation.sequence) (env : Env)
    {done tables : List GenerationTable} {definition : GenerationTable}
    (hall : GenerationTable.all = done ++ definition :: tables)
    (hcleared : ∀ table ∈ done, Cleared retired.generation.sequence (world.db.rows.get table)) :
    Resumed retired world (.scanning retired (definition :: tables))
      (world.resume env (.scanning retired (definition :: tables))) := by
  have hsame : CleansOnly retired world.db world.db := ⟨Purges.refl retired world.db, rfl, hdead⟩
  simp only [resume, advance]
  cases hkeys : retirementKeys env world.db definition retired.generation.sequence with
  | error error =>
      refine ⟨hsame, Or.inr rfl, by rintro _ ⟨⟩, ?_⟩
      intro hreply
      cases hreply
  | ok keys =>
      obtain ⟨hrows, hnone⟩ := retirementKeys_eq_ok hkeys
      cases keys with
      | nil =>
          refine ⟨hsame, Or.inr rfl, ?_, by rintro ⟨⟩⟩
          intro later hlater
          obtain rfl := Option.some.inj hlater
          have hall : GenerationTable.all = (done ++ [definition]) ++ tables := by simp [hall]
          have hwork : (Call.scanning retired tables).work world.db <
              (Call.scanning retired (definition :: tables)).work world.db := by
            simp only [Call.work, Db.left, List.map_cons, List.sum_cons, List.length_cons]
            omega
          refine ⟨by rintro ⟨⟩, .scanning hall ?_, hwork⟩
          intro table hmem
          rcases List.mem_append.mp hmem with hdone | hlast
          · exact hcleared table hdone
          · obtain rfl := List.mem_singleton.mp hlast
            exact hnone rfl
      | cons key keys =>
          refine ⟨hsame, Or.inr rfl, ?_, by rintro ⟨⟩⟩
          intro later hlater
          obtain rfl := Option.some.inj hlater
          have howned := retirementKeys_owned hkeys
          obtain ⟨value, hvalue⟩ := hrows key List.mem_cons_self
          have hless : world.db.leftIn retired.generation.sequence (key :: keys) definition <
              world.db.leftIn retired.generation.sequence [] definition :=
            Table.left_lt hvalue (howned key List.mem_cons_self) List.mem_cons_self
          have hwork : (Call.removing retired definition tables (key :: keys)).work world.db <
              (Call.scanning retired (definition :: tables)).work world.db := by
            simp only [Call.work, Db.left, List.map_cons, List.sum_cons, List.length_cons]
            omega
          exact ⟨by rintro ⟨⟩, .removing hall hcleared howned, hwork⟩

theorem Sound.resume_remove (hsound : world.Sound)
    (hdead : DeadIn world.db retired.generation.sequence) (env : Env)
    {done tables : List GenerationTable} {definition : GenerationTable} {keys : List Bytes}
    (hall : GenerationTable.all = done ++ definition :: tables)
    (hcleared : ∀ table ∈ done, Cleared retired.generation.sequence (world.db.rows.get table))
    (howned : ∀ key ∈ keys, be64 retired.generation.sequence <+: key) :
    Resumed retired world (.removing retired definition tables keys)
      (world.resume env (.removing retired definition tables keys)) := by
  have hcleans : CleansOnly retired world.db
      (editDatabase env world.db (removeKeysEdit retired definition keys)).db :=
    hsound.cleansOnly hdead fun _ _ _ _ hedit =>
      ⟨(removeKeysEdit_purges howned hedit).1, (removeKeysEdit_purges howned hedit).2.1,
        (removeKeysEdit_purges howned hedit).2.2.1⟩
  have hkept := congrArg (fun table : Table => table[be64 retired.generation.sequence]?)
    ((removeKeysEdit_keepsRetired retired definition keys).editDatabase env world.db)
  simp only [World.resume, World.advance]
  cases hreply : (editDatabase env world.db (removeKeysEdit retired definition keys)).reply with
  | error error =>
      refine ⟨hcleans, Or.inr hkept, by rintro _ ⟨⟩, ?_⟩
      intro hreply
      cases hreply
  | ok value =>
      refine ⟨hcleans, Or.inr hkept, ?_, by rintro ⟨⟩⟩
      intro later hlater
      obtain rfl := Option.some.inj hlater
      refine ⟨by rintro ⟨⟩, .scanning hall ?_, ?_⟩
      · exact fun table hmem => hcleans.cleared (hcleared table hmem)
      have hcleaned := removed_leftIn howned hreply
      have hrest := hcleans.left_le retired.generation.sequence tables
      have hwork : (Call.scanning retired (definition :: tables)).work
            (editDatabase env world.db (removeKeysEdit retired definition keys)).db <
          (Call.removing retired definition tables keys).work world.db := by
        simp only [Call.work, Db.left, List.map_cons, List.sum_cons, List.length_cons] at hrest ⊢
        omega
      exact hwork

/-- One transaction of a cleanup, whatever its surroundings. -/
theorem Sound.resumed (hsound : world.Sound)
    (hdead : DeadIn world.db retired.generation.sequence) (env : Env) {call : Call}
    (hcleaning : Cleaning retired world.db call) :
    Resumed retired world call (world.resume env call) := by
  cases hcleaning with
  | @scanning done tables all cleared =>
      cases tables with
      | nil =>
          rw [List.append_nil] at all
          exact hsound.resume_forget hdead env fun table hmem => cleared table (all ▸ hmem)
      | cons definition tables => exact resume_scan hdead env all cleared
  | removing all cleared owned => exact hsound.resume_remove hdead env all cleared owned

end World

/-! ## Whole cleanups -/

theorem RetiredIn.of_same {retired : RetiredGeneration} {before after : Db}
    (hretired : RetiredIn before retired)
    (hsame : after.rows.retired[be64 retired.generation.sequence]? =
      before.rows.retired[be64 retired.generation.sequence]?) : RetiredIn after retired := by
  obtain ⟨value, hvalue, hdecode⟩ := hretired
  exact ⟨value, hsame.trans hvalue, hdecode⟩

/-- No caller but the cleanup itself finishes a cleanup of the sequence. -/
def Turn.Undisputed (sequence : UInt64) (turn : Turn) : Prop :=
  Runs.Throughout World.step (fun world action => ¬ World.Finishes sequence world action)
    turn.start turn.others

/-- What a cleanup does from the world and the call it goes on from. -/
structure Driven (retired : RetiredGeneration) (world : World) (call : Call)
    (rounds : List Round) (attempt : Attempt) : Prop where
  turns : ∀ turn ∈ attempt.turns, CleansOnly retired turn.before.db turn.after.db ∧
    (turn.call = .scanning retired [] ∨
      turn.after.db.rows.retired[be64 retired.generation.sequence]? =
        turn.before.db.rows.retired[be64 retired.generation.sequence]?)
  replies : call.work world.db ≤ rounds.length → attempt.reply ≠ none
  finished : attempt.reply = some (.published (.ok ())) →
    (∀ table, Cleared retired.generation.sequence (attempt.world.db.rows.get table)) ∧
      attempt.world.db.rows.retired[be64 retired.generation.sequence]? = none
  stays : RetiredIn world.db retired →
    (∀ turn ∈ attempt.turns, turn.Undisputed retired.generation.sequence) →
      (∀ turn ∈ attempt.turns, RetiredIn turn.before.db retired ∧
        (turn.call = .scanning retired [] ∨ RetiredIn turn.after.db retired)) ∧
      (attempt.reply = none → RetiredIn attempt.world.db retired)

namespace World

variable {world : World} {retired : RetiredGeneration}

theorem Call.work_pos {db : Db} {call : Call} (hcleaning : Cleaning retired db call) :
    0 < call.work db := by
  cases hcleaning with
  | scanning => exact Nat.succ_pos _
  | removing => exact Nat.succ_pos _

/-- A cleanup driven through any rounds. -/
theorem Sound.driven (hsettled : retired.unresolvedBuild = none) (rounds : List Round)
    (hsound : world.Sound) (hdead : DeadIn world.db retired.generation.sequence) {call : Call}
    (hcleaning : Cleaning retired world.db call) :
    Driven retired world call rounds (world.drive call rounds) := by
  induction rounds generalizing world call with
  | nil =>
      rw [World.drive]
      refine ⟨?_, ?_, ?_, ?_⟩
      · intro turn hturn
        cases hturn
      · intro hnone
        exact absurd hnone (Nat.not_le.mpr (Call.work_pos hcleaning))
      · intro hreply
        cases hreply
      · intro hretired _
        refine ⟨?_, fun _ => hretired⟩
        intro turn hturn
        cases hturn
  | cons round rounds ih =>
      have hfades : Fades retired.generation.sequence world.db (world.run round.others).db :=
        hsound.fades_run round.others
      have hmet := hsound.run round.others
      obtain ⟨hmetCleaning, hwork⟩ := hfades.cleaning hdead hcleaning
      have hresumed := hmet.resumed (hfades.dead hdead) round.env hmetCleaning
      have hnext := (hmet.resume round.env (cleaning_callOk hsettled hmetCleaning _)).1
      rcases hresume : (world.run round.others).resume round.env call with ⟨next, rest, reply⟩
      rw [hresume] at hresumed hnext
      have hrow : RetiredIn world.db retired →
          (Turn.mk world round.others call next).Undisputed retired.generation.sequence →
          RetiredIn (Turn.mk world round.others call next).before.db retired ∧
            (call = .scanning retired [] ∨ RetiredIn next.db retired) := by
        intro hretired hothers
        have hbefore := hretired.of_same (hsound.run_retired hdead hothers)
        exact ⟨hbefore, hresumed.kept.imp id fun hkept => hbefore.of_same hkept⟩
      have hturn : CleansOnly retired (Turn.mk world round.others call next).before.db next.db :=
        hresumed.cleans
      cases rest with
      | none =>
          rw [drive_stops hresume]
          refine ⟨?_, fun _ => Option.some_ne_none _, ?_, ?_⟩
          · intro turn hmem
            obtain rfl := List.mem_singleton.mp hmem
            exact ⟨hturn, hresumed.kept⟩
          · intro hreply
            exact hresumed.finished (Option.some.inj hreply)
          · intro hretired hothers
            refine ⟨?_, fun hnone => absurd hnone (Option.some_ne_none _)⟩
            intro turn hmem
            obtain rfl := List.mem_singleton.mp hmem
            exact hrow hretired (hothers _ List.mem_cons_self)
      | some later =>
          obtain ⟨hunfinished, hcleaning, hless⟩ := hresumed.continues later rfl
          have hdead : DeadIn next.db retired.generation.sequence := by
            obtain ⟨state, hstate, hdead⟩ := hfades.dead hdead
            exact ⟨state, hresumed.cleans.header.trans hstate, hdead⟩
          have hdriven := ih hnext hdead hcleaning
          rw [drive_continues hresume]
          refine ⟨?_, ?_, hdriven.finished, ?_⟩
          · intro turn hmem
            rcases List.mem_cons.mp hmem with rfl | hmem
            · exact ⟨hturn, hresumed.kept⟩
            · exact hdriven.turns turn hmem
          · intro hrounds
            refine hdriven.replies ?_
            simp only [List.length_cons] at hrounds
            have hless : later.work next.db < call.work (world.run round.others).db := hless
            omega
          · intro hretired hothers
            have hfirst := hrow hretired (hothers _ List.mem_cons_self)
            have hkept := hfirst.2.resolve_left hunfinished
            obtain ⟨hrest, hend⟩ := hdriven.stays hkept fun turn hmem =>
              hothers turn (List.mem_cons_of_mem _ hmem)
            refine ⟨?_, hend⟩
            intro turn hmem
            rcases List.mem_cons.mp hmem with rfl | hmem
            · exact hfirst
            · exact hrest turn hmem

/-- The stored retired row is accepted by the reader. -/
theorem Sound.accepted (hsound : world.Sound) (hretired : RetiredIn world.db retired) :
    ∃ state, readState world.db = .ok state ∧
      AcceptsRetired state (be64 retired.generation.sequence) retired := by
  obtain ⟨state, hstate, hconsistent⟩ := hsound.header
  obtain ⟨value, hvalue, hdecode⟩ := hretired
  obtain ⟨found, rfl, haccepts⟩ := hconsistent.retired.accepted _ _ hvalue
  rw [Format.decode_print] at hdecode
  obtain rfl := Option.some.inj hdecode
  exact ⟨state, hstate, haccepts⟩

/-- A retired generation left the header. -/
theorem Sound.dead (hsound : world.Sound) (hretired : RetiredIn world.db retired) :
    DeadIn world.db retired.generation.sequence := by
  obtain ⟨state, hstate, -, -, -, hissued, hcurrent, hpending, -⟩ := hsound.accepted hretired
  exact ⟨state, hstate, hissued, hcurrent, hpending⟩

/-- The check of a cleanup passes while its row is stored. -/
theorem Sound.checkRetired (hsound : world.Sound) (hretired : RetiredIn world.db retired) :
    ∃ state, readState world.db = .ok state ∧
      Control.checkRetired world.db.openPublication state retired = .ok () := by
  obtain ⟨state, hstate, -, hnamespace, -, -, hcurrent, hpending, -⟩ := hsound.accepted hretired
  obtain ⟨value, hvalue, hdecode⟩ := hretired
  have hlive : ¬ (state.namespaceId ≠ some retired.generation.namespaceId ∨
      (∃ current ∈ state.current, current.sequence = retired.generation.sequence) ∨
      ∃ p ∈ state.pending, p.generation.sequence = retired.generation.sequence) := by
    rintro (hother | ⟨current, hmem, hsame⟩ | ⟨p, hmem, hsame⟩)
    · exact hother hnamespace
    · exact hcurrent current hmem hsame
    · exact hpending p hmem hsame
  have hstored : (openTable world.db.openPublication.retiredGenerations)[
      be64 retired.generation.sequence]? = some value := hvalue
  refine ⟨state, hstate, ?_⟩
  simp only [Control.checkRetired, refuse_of_not hlive, hstored, hdecode, okOr_some, ok_bind]
  exact refuse_of_not fun hne => hne rfl

/-- The tables exist once a generation was retired. -/
theorem Sound.retirementKeys (hsound : world.Sound) (hretired : RetiredIn world.db retired)
    (definition : GenerationTable) :
    ∃ keys, Control.retirementKeys Env.quiet world.db definition retired.generation.sequence =
      .ok keys := by
  have hopened : world.db.Opened := by
    rcases hsound.opened with habsent | hopened
    · obtain ⟨value, hvalue, -⟩ := hretired
      rw [habsent.rows_empty.2, Table.get_empty] at hvalue
      cases hvalue
    · exact hopened
  have hsome : (definition.get world.db).isSome = true := by
    cases definition with
    | sources => exact hopened.sources
    | pages => exact hopened.pages
    | evidence => exact hopened.evidence
  obtain ⟨table, htable⟩ := Option.isSome_iff_exists.mp hsome
  simp only [Control.retirementKeys, observeDatabase, htable, okOr_some, ok_bind]
  exact ⟨_, rfl⟩

/-- Without interruptions no transaction of a cleanup fails. -/
theorem Sound.resume_quiet (hsound : world.Sound) (hretired : RetiredIn world.db retired)
    {call : Call} (hcleaning : Cleaning retired world.db call)
    (hdone : (world.resume Env.quiet call).2.1 = none) :
    (world.resume Env.quiet call).2.2 = .published (.ok ()) := by
  obtain ⟨state, hstate, hguard⟩ := hsound.checkRetired hretired
  cases hcleaning with
  | @scanning done tables all cleared =>
      cases tables with
      | nil =>
          obtain ⟨left, hforget⟩ : ∃ left,
              forgetRetiredEdit retired world.db.openPublication state = .ok (left, state, ()) := by
            simp only [forgetRetiredEdit, hguard, ok_bind]
            exact ⟨_, rfl⟩
          have hreply :
              (editDatabase Env.quiet world.db (forgetRetiredEdit retired)).reply = .ok () :=
            (editDatabase_acknowledged hstate hforget rfl rfl rfl).2
          exact congrArg Reply.published hreply
      | cons definition tables =>
          obtain ⟨keys, hkeys⟩ := hsound.retirementKeys hretired definition
          simp only [World.resume, World.advance, hkeys] at hdone
          cases keys with
          | nil => cases hdone
          | cons key keys => cases hdone
  | @removing done tables definition keys all cleared owned =>
      obtain ⟨left, hremove⟩ : ∃ left, removeKeysEdit retired definition keys
          world.db.openPublication state = .ok (left, state, ()) := by
        simp only [removeKeysEdit, hguard, ok_bind]
        exact ⟨_, rfl⟩
      have hreply : (editDatabase Env.quiet world.db
          (removeKeysEdit retired definition keys)).reply = .ok () :=
        (editDatabase_acknowledged hstate hremove rfl rfl rfl).2
      simp only [World.resume, World.advance, hreply] at hdone
      cases hdone

/-- An undisturbed cleanup never fails. -/
theorem Sound.drive_quiet (hsettled : retired.unresolvedBuild = none) (count : ℕ)
    (hsound : world.Sound) (hretired : RetiredIn world.db retired) {call : Call}
    (hcleaning : Cleaning retired world.db call) {reply : Reply}
    (hreply : (world.drive call (List.replicate count ⟨[], Env.quiet⟩)).reply = some reply) :
    reply = .published (.ok ()) := by
  induction count generalizing world call with
  | zero => cases hreply
  | succ count ih =>
      have hresumed := hsound.resumed (hsound.dead hretired) Env.quiet hcleaning
      have hnext := (hsound.resume Env.quiet (cleaning_callOk hsettled hcleaning _)).1
      have hquiet := hsound.resume_quiet hretired hcleaning
      rw [List.replicate_succ] at hreply
      rcases hresume : world.resume Env.quiet call with ⟨next, rest, told⟩
      rw [hresume] at hresumed hnext hquiet
      cases rest with
      | none =>
          rw [@drive_stops world call ⟨[], Env.quiet⟩ _ next told hresume] at hreply
          obtain rfl := Option.some.inj hreply
          exact hquiet rfl
      | some later =>
          obtain ⟨hunfinished, hcleaning, -⟩ := hresumed.continues later rfl
          rw [@drive_continues world call ⟨[], Env.quiet⟩ _ next later told hresume] at hreply
          have hkept := hresumed.kept.resolve_left hunfinished
          exact ih hnext (hretired.of_same hkept) hcleaning hreply

theorem cleaning_start (db : Db) : Cleaning retired db (.scanning retired GenerationTable.all) :=
  @Cleaning.scanning retired db [] _ rfl nofun

/-- An undisturbed cleanup succeeds. -/
theorem Sound.cleanup_succeeds (hsound : world.Sound) (hretired : RetiredIn world.db retired)
    (hsettled : retired.unresolvedBuild = none) {count : ℕ}
    (hcount : 2 * world.db.left retired.generation.sequence GenerationTable.all + 4 ≤ count) :
    (world.cleanup retired (List.replicate count ⟨[], Env.quiet⟩)).reply =
      some (.published (.ok ())) := by
  have hstart : Cleaning retired world.db (.scanning retired GenerationTable.all) :=
    cleaning_start world.db
  have hdriven := hsound.driven hsettled (List.replicate count ⟨[], Env.quiet⟩)
    (hsound.dead hretired) hstart
  have hwork : (Call.scanning retired GenerationTable.all).work world.db ≤
      (List.replicate count (Round.mk [] Env.quiet)).length := by
    rw [List.length_replicate]
    exact hcount
  obtain ⟨reply, hreply⟩ := Option.ne_none_iff_exists'.mp (hdriven.replies hwork)
  rw [cleanup_eq world hsettled, hreply, hsound.drive_quiet hsettled count hretired hstart hreply]

theorem Sound.episode (hsound : world.Sound) (episode : Episode) :
    (world.episode episode).Sound := by
  cases episode with
  | actions actions => exact hsound.run actions
  | cleanup retired rounds =>
      cases hsettled : retired.unresolvedBuild with
      | none =>
          rw [World.episode, cleanup_eq world hsettled rounds]
          exact hsound.drive rounds hsettled
      | some build =>
          have hrefused : world.cleanup retired rounds =
              ⟨world, some (.published (.error .unresolved)), []⟩ := by
            simp [cleanup, finishRetirement, hsettled]
          rw [World.episode, hrefused]
          exact hsound

theorem sound_play {db : Db} (habsent : db.PublicationAbsent) (episodes : List Episode) :
    ((World.init db).play episodes).Sound :=
  Runs.run_invariant (sound_init habsent) (fun _ episode hsound => hsound.episode episode) episodes

end World

/-- A generation that the header names, or another one that was retired. -/
def OtherGeneration (retired : RetiredGeneration) (db : Db) (other : Generation) : Prop :=
  (∃ state, readState db = .ok state ∧
    (other ∈ state.current ∨ ∃ p ∈ state.pending, p.generation = other)) ∨
  ∃ row, RetiredIn db row ∧ row.generation = other ∧ other.sequence ≠ retired.generation.sequence

/-- A cleanup leaves the rows of every other generation alone. -/
theorem CleansOnly.sameUnder {retired : RetiredGeneration} {before after : Db}
    (hcleans : CleansOnly retired before after) {other : Generation}
    (hother : OtherGeneration retired before other) (table : GenerationTable) :
    SameUnder other.sequence (before.rows.get table) (after.rows.get table) := by
  refine SameUnder.of_confined (hcleans.confined table) ?_
  obtain ⟨state, hstate, hdead⟩ := hcleans.dead
  rcases hother with ⟨found, hfound, hlive⟩ | ⟨row, -, -, hne⟩
  · obtain rfl : state = found := Except.ok.inj (hstate.symm.trans hfound)
    rcases hlive with hcurrent | ⟨p, hp, rfl⟩
    · exact hdead.not_current other hcurrent
    · exact hdead.not_pending p hp
  · exact hne

/-- In every reachable world, for every retired generation without an unresolved
build and whatever the other callers do between the transactions: each
transaction of a cleanup removes rows of its sequence only and keeps the retired
row up to the last one, the rows present at the start bound the transactions, a
success leaves no row of the sequence in any table, and while no other cleanup of
the generation finishes the retired row is there to start again from.  A stopped
cleanup leaves a reachable world, and starting again undisturbed succeeds. -/
theorem finishRetirement_exact {db : Db} (habsent : db.PublicationAbsent)
    (episodes : List Episode) {retired : RetiredGeneration}
    (hretired : RetiredIn ((World.init db).play episodes).db retired)
    (hsettled : retired.unresolvedBuild = none) (rounds : List Round) :
    let world := (World.init db).play episodes
    let sequence := retired.generation.sequence
    let attempt := world.cleanup retired rounds
    (∀ turn ∈ attempt.turns, CleansOnly retired turn.before.db turn.after.db ∧
      (∀ other, OtherGeneration retired turn.before.db other → ∀ table,
        SameUnder other.sequence (turn.before.db.rows.get table) (turn.after.db.rows.get table)) ∧
      (turn.call = .scanning retired [] ∨
        turn.after.db.rows.retired[be64 sequence]? =
          turn.before.db.rows.retired[be64 sequence]?)) ∧
    (2 * world.db.left sequence GenerationTable.all + 4 ≤ rounds.length →
      attempt.reply ≠ none) ∧
    (attempt.reply = some (.published (.ok ())) →
      (∀ table, Cleared sequence (attempt.world.db.rows.get table)) ∧
        attempt.world.db.rows.retired[be64 sequence]? = none) ∧
    ((∀ turn ∈ attempt.turns, turn.Undisputed sequence) →
      (∀ turn ∈ attempt.turns, RetiredIn turn.before.db retired ∧
        (turn.call = .scanning retired [] ∨ RetiredIn turn.after.db retired)) ∧
      (attempt.reply = none → RetiredIn attempt.world.db retired)) ∧
    attempt.world = (World.init db).play (episodes ++ [.cleanup retired rounds]) ∧
    (RetiredIn attempt.world.db retired → ∀ count,
      2 * attempt.world.db.left sequence GenerationTable.all + 4 ≤ count →
        (attempt.world.cleanup retired (List.replicate count ⟨[], Env.quiet⟩)).reply =
          some (.published (.ok ()))) := by
  have hsound := World.sound_play habsent episodes
  have hdriven := hsound.driven hsettled rounds (hsound.dead hretired) (World.cleaning_start _)
  rw [← World.cleanup_eq _ hsettled rounds] at hdriven
  have hplayed : (((World.init db).play episodes).cleanup retired rounds).world =
      (World.init db).play (episodes ++ [.cleanup retired rounds]) :=
    (Runs.run_concat World.episode (World.init db) episodes (.cleanup retired rounds)).symm
  refine ⟨?_, hdriven.replies, hdriven.finished, hdriven.stays hretired, hplayed, ?_⟩
  · intro turn hturn
    obtain ⟨hcleans, hkept⟩ := hdriven.turns turn hturn
    exact ⟨hcleans, fun other hother table => hcleans.sameUnder hother table, hkept⟩
  · intro hleft count hcount
    have hstopped := World.sound_play habsent (episodes ++ [.cleanup retired rounds])
    rw [← hplayed] at hstopped
    exact hstopped.cleanup_succeeds hleft hsettled hcount

namespace Sample

/-- The sealed build is abandoned, so its one saved input is to be removed. -/
def abandoned : List Action :=
  sealed ++ [act (.abandonBuild
    { reserved with captureComplete := true, completedSources := 1 })]

def retiredBuild : RetiredGeneration := ⟨reserved.generation, false, none⟩

/-- Before a chunk is removed another build is reserved and saves the same source. -/
def rebuilding : Round :=
  ⟨[act .captureCorpus, act (.startBuild 1 none), act (.advance 0)], Env.quiet⟩

/-- A cleanup whose caller stopped after the first chunk was found. -/
def stopped : List Episode :=
  [.actions abandoned, .cleanup retiredBuild [⟨[], Env.quiet⟩]]

end Sample

/-- The stopped cleanup is started again while another build is reserved: it
succeeds within six transactions, removes the saved input of the abandoned build
and keeps the one of the new build. -/
theorem finishRetirement_exact_sample :
    RetiredIn ((World.init Db.empty).play Sample.stopped).db Sample.retiredBuild ∧
    (∀ table, Cleared 1 ((((World.init Db.empty).play Sample.stopped).cleanup Sample.retiredBuild
      (Sample.rebuilding :: List.replicate 5 ⟨[], Env.quiet⟩)).world.db.rows.get table)) ∧
    ((((World.init Db.empty).play Sample.stopped).cleanup Sample.retiredBuild
      (Sample.rebuilding :: List.replicate 5 ⟨[], Env.quiet⟩)).world.db.rows.sources[
        key 2 Sample.sourceId.bytes]?).isSome = true := by
  have hretired : RetiredIn ((World.init Db.empty).play Sample.stopped).db Sample.retiredBuild :=
    ⟨retiredFormat.print Sample.retiredBuild, by decide +kernel, by decide +kernel⟩
  have hexact := finishRetirement_exact Sample.absent Sample.stopped hretired rfl
    (Sample.rebuilding :: List.replicate 5 ⟨[], Env.quiet⟩)
  exact ⟨hretired, (hexact.2.2.1 (by decide +kernel)).1, by decide +kernel⟩

end EliotSearch.Control
