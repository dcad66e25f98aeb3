import EliotSearch.Library.Indexing
import Mathlib.Data.List.Nodup
import Mathlib.Data.List.Perm.Basic
import Mathlib.Data.Nat.Find

/-!
# Slots that are filled by groups

A loop takes the values of its slots in order.  Where a slot is still empty it
fills the whole group of that position at once, so that later positions find
theirs.  Every slot is filled once, and the values are those that each position
has alone.
-/

namespace EliotSearch.Library

open EliotSearch.Library.Indexing
open EliotSearch.Library.Results

/-- The slots, and the positions that were filled, in the order of filling. -/
structure Slots (β : Type) where
  contents : List (Option β)
  fills : List Nat

namespace Slots

variable {β ε : Type}

def empty (size : Nat) : Slots β := ⟨List.replicate size none, []⟩

def put (slots : Slots β) (index : Nat) (value : β) : Except (Abort ε) (Slots β) := do
  let contents ← writeAt slots.contents index (some value)
  return ⟨contents, slots.fills ++ [index]⟩

/-- Fill the slots at the positions, in their order. -/
def fillEach (value : Nat → Except (Abort ε) β) :
    List Nat → Slots β → Except (Abort ε) (Slots β)
  | [], slots => return slots
  | index :: indices, slots => do
      let found ← value index
      let slots ← slots.put index found
      fillEach value indices slots

/-- Fill for a position whose slot is empty. -/
def ensure (fill : Nat → Slots β → Except (Abort ε) (Slots β)) (index : Nat) (slot : Option β)
    (slots : Slots β) : Except (Abort ε) (Slots β) :=
  if slot.isNone then fill index slots else .ok slots

/-- Take the values at the positions, in their order; a slot that is still empty is
filled first. -/
def takeEach (fill : Nat → Slots β → Except (Abort ε) (Slots β)) (lost : ε) :
    List Nat → Slots β → Except (Abort ε) (List β × Slots β)
  | [], slots => return ([], slots)
  | index :: indices, slots => do
      let slot ← readAt slots.contents index
      let slots ← ensure fill index slot slots
      let slot ← readAt slots.contents index
      let found ← okOr slot (.failed lost)
      let contents ← writeAt slots.contents index none
      let (values, slots) ← takeEach fill lost indices ⟨contents, slots.fills⟩
      return (found :: values, slots)

/-! ## Groups -/

section Groups

variable (same : Nat → Nat → Prop) [DecidableRel same]

/-- The positions of the group of one position. -/
def group (size leader : Nat) : List Nat :=
  (List.range size).filter fun index => same leader index

/-- No earlier position is in the group. -/
def Leads (index : Nat) : Prop := ∀ earlier < index, ¬ same earlier index

instance (index : Nat) : Decidable (Leads same index) :=
  inferInstanceAs (Decidable (∀ earlier < index, ¬ same earlier index))

/-- What is filled when a position is reached. -/
def block (size index : Nat) : List Nat := if Leads same index then group same size index else []

/-- The positions group by group, each group where its first position is. -/
def fillOrder (size : Nat) : List Nat := (List.range size).flatMap (block same size)

variable {same}

theorem mem_group {size leader index : Nat} :
    index ∈ group same size leader ↔ index < size ∧ same leader index := by
  rw [group, List.mem_filter, List.mem_range, decide_eq_true_iff]

theorem mem_block {size leader index : Nat} :
    index ∈ block same size leader ↔ Leads same leader ∧ index < size ∧ same leader index := by
  by_cases hleads : Leads same leader
  · rw [block, if_pos hleads, mem_group]
    exact (and_iff_right hleads).symm
  · rw [block, if_neg hleads]
    exact iff_of_false List.not_mem_nil fun hmem => hleads hmem.1

/-- Every position has one leader. -/
theorem exists_leader (hequiv : Equivalence same) (index : Nat) :
    ∃ leader ≤ index, Leads same leader ∧ same leader index := by
  induction index using Nat.strongRecOn with
  | ind index ih =>
      by_cases hleads : Leads same index
      · exact ⟨index, Nat.le_refl _, hleads, hequiv.refl index⟩
      · obtain ⟨earlier, hearlier, hsame⟩ : ∃ earlier < index, same earlier index := by
          simpa only [Leads, not_forall, not_not, exists_prop] using hleads
        obtain ⟨leader, hle, hleader, hfirst⟩ := ih earlier hearlier
        exact ⟨leader, Nat.le_trans hle (Nat.le_of_lt hearlier), hleader, hequiv.trans hfirst hsame⟩

omit [DecidableRel same] in
theorem leader_unique (hequiv : Equivalence same) {first second index : Nat}
    (hfirst : Leads same first) (hsecond : Leads same second)
    (hfirstSame : same first index) (hsecondSame : same second index) : first = second := by
  rcases Nat.lt_trichotomy first second with hlt | heq | hgt
  · exact absurd (hequiv.trans hfirstSame (hequiv.symm hsecondSame)) (hsecond first hlt)
  · exact heq
  · exact absurd (hequiv.trans hsecondSame (hequiv.symm hfirstSame)) (hfirst second hgt)

/-- The first position of the group. -/
def leader (hequiv : Equivalence same) (index : Nat) : Nat :=
  Nat.find (⟨index, hequiv.refl index⟩ : ∃ first, same first index)

theorem leader_eq (hequiv : Equivalence same) {first index : Nat} (hfirst : Leads same first)
    (hsame : same first index) : leader hequiv index = first := by
  refine (Nat.find_eq_iff _).mpr ⟨hsame, fun earlier hearlier hother => ?_⟩
  exact hfirst earlier hearlier (hequiv.trans hother (hequiv.symm hsame))

/-- Every position is filled exactly once. -/
theorem fillOrder_perm (hequiv : Equivalence same) (size : Nat) :
    (fillOrder same size).Perm (List.range size) := by
  refine (List.perm_ext_iff_of_nodup ?_ List.nodup_range).mpr fun index => ?_
  · refine List.nodup_flatMap.mpr ⟨fun leader _ => ?_, ?_⟩
    · unfold block
      split
      · exact List.nodup_range.filter _
      · exact List.nodup_nil
    · refine List.nodup_range.imp_of_mem ?_
      intro first second _ _ hne index hfirst hsecond
      obtain ⟨hfirst, -, hfirstSame⟩ := mem_block.mp hfirst
      obtain ⟨hsecond, -, hsecondSame⟩ := mem_block.mp hsecond
      exact hne (leader_unique hequiv hfirst hsecond hfirstSame hsecondSame)
  · rw [fillOrder, List.mem_flatMap]
    constructor
    · rintro ⟨leader, -, hmem⟩
      exact List.mem_range.mpr (mem_block.mp hmem).2.1
    · intro hindex
      obtain ⟨leader, hle, hleads, hsame⟩ := exists_leader hequiv index
      rw [List.mem_range] at hindex
      exact ⟨leader, List.mem_range.mpr (by omega), mem_block.mpr ⟨hleads, hindex, hsame⟩⟩

end Groups

/-! ## Filling -/

theorem put_ok {slots : Slots β} {index : Nat} {value : β}
    (hindex : index < slots.contents.length) :
    (slots.put index value : Except (Abort ε) (Slots β)) =
      .ok ⟨slots.contents.set index (some value), slots.fills ++ [index]⟩ := by
  rw [put, writeAt, if_pos hindex, ok_bind, pure_eq_ok]

/-- What the slots are once the positions are filled. -/
structure FilledBy (value : Nat → Except (Abort ε) β) (indices : List Nat)
    (before after : Slots β) : Prop where
  length : after.contents.length = before.contents.length
  fills : after.fills = before.fills ++ indices
  filled : ∀ index ∈ indices, ∃ found, value index = .ok found ∧
    after.contents[index]? = some (some found)
  kept : ∀ index ∉ indices, after.contents[index]? = before.contents[index]?

variable {value : Nat → Except (Abort ε) β}

/-- Filling fails as the first of the positions does that fails. -/
theorem fillEach_spec {indices : List Nat} {slots : Slots β} (hnodup : indices.Nodup)
    (hbounds : ∀ index ∈ indices, index < slots.contents.length) :
    (∃ reason, indices.mapM value = .error reason ∧
      fillEach value indices slots = .error reason) ∨
    (∃ values last, indices.mapM value = .ok values ∧ fillEach value indices slots = .ok last ∧
      FilledBy value indices slots last) := by
  induction indices generalizing slots with
  | nil =>
      refine Or.inr ⟨[], slots, rfl, rfl, ⟨rfl, (List.append_nil _).symm, ?_, fun _ _ => rfl⟩⟩
      rintro _ ⟨⟩
  | cons index indices ih =>
      obtain ⟨hfresh, hnodup⟩ := List.nodup_cons.mp hnodup
      rw [List.mapM_cons, fillEach]
      cases hvalue : value index with
      | error reason => exact Or.inl ⟨reason, rfl, rfl⟩
      | ok found =>
          rw [ok_bind, ok_bind, put_ok (hbounds index List.mem_cons_self), ok_bind]
          have hlater : ∀ later ∈ indices,
              later < (slots.contents.set index (some found)).length := by
            intro later hlater
            rw [List.length_set]
            exact hbounds later (List.mem_cons_of_mem _ hlater)
          rcases @ih ⟨slots.contents.set index (some found), slots.fills ++ [index]⟩ hnodup
              hlater with
            ⟨reason, hrest, hfill⟩ | ⟨values, last, hrest, hfill, hfilled⟩
          · exact Or.inl ⟨reason, by rw [hrest, error_bind], hfill⟩
          · refine Or.inr ⟨found :: values, last, by rw [hrest, ok_bind, pure_eq_ok], hfill, ?_⟩
            constructor
            · rw [hfilled.length, List.length_set]
            · rw [hfilled.fills, List.append_assoc, List.singleton_append]
            · intro other hother
              rcases List.mem_cons.mp hother with rfl | hother
              · refine ⟨found, hvalue, ?_⟩
                rw [hfilled.kept _ hfresh, List.getElem?_set_self (hbounds _ List.mem_cons_self)]
              · exact hfilled.filled other hother
            · intro other hother
              rw [hfilled.kept other fun hmem => hother (List.mem_cons_of_mem _ hmem),
                List.getElem?_set_ne (Ne.symm (List.ne_of_not_mem_cons hother))]

theorem fillEach_congr {other : Nat → Except (Abort ε) β} {indices : List Nat} {slots : Slots β}
    (hsame : ∀ index ∈ indices, value index = other index) :
    fillEach value indices slots = fillEach other indices slots := by
  induction indices generalizing slots with
  | nil => rfl
  | cons index indices ih =>
      rw [fillEach, fillEach, hsame index List.mem_cons_self]
      refine congrArg _ (funext fun found => congrArg _ (funext fun slots => ?_))
      exact ih fun later hlater => hsame later (List.mem_cons_of_mem _ hlater)

/-- What all the positions start with may be done once. -/
theorem fillEach_bind {α : Type} {first : Except (Abort ε) α} {indices : List Nat}
    {slots : Slots β} (next : α → Nat → Except (Abort ε) β) (hnonempty : indices ≠ []) :
    fillEach (fun index => do next (← first) index) indices slots =
      (do fillEach (next (← first)) indices slots) := by
  cases first with
  | error reason =>
      cases indices with
      | nil => exact absurd rfl hnonempty
      | cons index indices => rfl
  | ok shared => rfl

/-! ## Taking -/

section Taking

variable {same : Nat → Nat → Prop} [DecidableRel same] {size : Nat}

/-- Before a position is reached, the later slots are filled that have an earlier position
in their group; the slots of the other groups are empty. -/
structure Reached (same : Nat → Nat → Prop) (value : Nat → Except (Abort ε) β)
    (size index : Nat) (slots : Slots β) : Prop where
  length : slots.contents.length = size
  ready : ∀ later < size, index ≤ later → (∃ earlier < index, same earlier later) →
    ∃ found, value later = .ok found ∧ slots.contents[later]? = some (some found)
  waiting : ∀ later < size, (∀ earlier < index, ¬ same earlier later) →
    slots.contents[later]? = some none

omit [DecidableRel same] in
theorem reached_empty : Reached same value size 0 (empty size) := by
  constructor
  · exact List.length_replicate
  · rintro later - - ⟨earlier, hearlier, -⟩
    exact absurd hearlier (Nat.not_lt_zero _)
  · intro later hlater _
    rw [empty, List.getElem?_replicate_of_lt hlater]

/-- Filling the group of a leader fills the slot of every position in it. -/
theorem Reached.fill {index : Nat} {slots filled : Slots β}
    (hreached : Reached same value size index slots)
    (hfilled : FilledBy value (group same size index) slots filled) :
    ∀ later < size, index ≤ later → (∃ earlier < index + 1, same earlier later) →
      ∃ found, value later = .ok found ∧ filled.contents[later]? = some (some found) := by
  rintro later hlater hle ⟨earlier, hearlier, hsame⟩
  by_cases hmem : same index later
  · exact hfilled.filled later (mem_group.mpr ⟨hlater, hmem⟩)
  · have hbefore : earlier < index := by
      refine Nat.lt_of_le_of_ne (Nat.le_of_lt_succ hearlier) ?_
      rintro rfl
      exact hmem hsame
    rw [hfilled.kept later fun hgroup => hmem (mem_group.mp hgroup).2]
    exact hreached.ready later hlater hle ⟨earlier, hbefore, hsame⟩

/-- At a position either its group is filled now, or it was filled before. -/
theorem Reached.step {fill : Nat → Slots β → Except (Abort ε) (Slots β)} {index : Nat}
    {slots : Slots β} (hequiv : Equivalence same)
    (hfill : ∀ slots : Slots β, slots.contents.length = size → Leads same index →
      fill index slots = fillEach value (group same size index) slots)
    (hreached : Reached same value size index slots) (hindex : index < size) :
    ∃ slot, slots.contents[index]? = some slot ∧
      ((∃ reason, (block same size index).mapM value = .error reason ∧
          ensure fill index slot slots = .error reason) ∨
        (∃ values filled found, (block same size index).mapM value = .ok values ∧
          ensure fill index slot slots = .ok filled ∧
          filled.fills = slots.fills ++ block same size index ∧
          value index = .ok found ∧ filled.contents[index]? = some (some found) ∧
          Reached same value size (index + 1) ⟨filled.contents.set index none, filled.fills⟩)) := by
  by_cases hleads : Leads same index
  · refine ⟨none, hreached.waiting index hindex hleads, ?_⟩
    rw [block, if_pos hleads]
    have hbounds : ∀ member ∈ group same size index, member < slots.contents.length := by
      intro member hmember
      rw [hreached.length]
      exact (mem_group.mp hmember).1
    rw [ensure, Option.isNone_none, if_pos rfl, hfill slots hreached.length hleads]
    rcases fillEach_spec (List.nodup_range.filter _) hbounds with
      ⟨reason, hvalues, hfailed⟩ | ⟨values, filled, hvalues, hdone, hfilled⟩
    · exact Or.inl ⟨reason, hvalues, hfailed⟩
    · have hready := hreached.fill hfilled
      obtain ⟨found, hfound, hplace⟩ := hready index hindex (Nat.le_refl _)
        ⟨index, Nat.lt_succ_self _, hequiv.refl index⟩
      refine Or.inr ⟨values, filled, found, hvalues, hdone, hfilled.fills, hfound, hplace, ?_⟩
      constructor
      · rw [List.length_set, hfilled.length, hreached.length]
      · intro later hlater hle hearlier
        rw [List.getElem?_set_ne (by omega)]
        exact hready later hlater (by omega) hearlier
      · intro later hlater hnone
        have hother : ¬ same index later := hnone index (Nat.lt_succ_self _)
        have hne : index ≠ later := by
          rintro rfl
          exact hother (hequiv.refl index)
        rw [List.getElem?_set_ne hne,
          hfilled.kept later fun hgroup => hother (mem_group.mp hgroup).2]
        exact hreached.waiting later hlater fun earlier hearlier =>
          hnone earlier (Nat.lt_succ_of_lt hearlier)
  · obtain ⟨leader, hleader, hsame⟩ : ∃ earlier < index, same earlier index := by
      simpa only [Leads, not_forall, not_not, exists_prop] using hleads
    obtain ⟨found, hfound, hplace⟩ :=
      hreached.ready index hindex (Nat.le_refl _) ⟨leader, hleader, hsame⟩
    refine ⟨some found, hplace, Or.inr ⟨[], slots, found, ?_, rfl, ?_, hfound, hplace, ?_⟩⟩
    · rw [block, if_neg hleads]
      rfl
    · rw [block, if_neg hleads, List.append_nil]
    -- the group of this position was filled by its leader
    constructor
    · rw [List.length_set, hreached.length]
    · rintro later hlater hle ⟨earlier, hearlier, hlaterSame⟩
      rw [List.getElem?_set_ne (by omega)]
      rcases Nat.lt_succ_iff_lt_or_eq.mp hearlier with hbefore | rfl
      · exact hreached.ready later hlater (by omega) ⟨earlier, hbefore, hlaterSame⟩
      · exact hreached.ready later hlater (by omega)
          ⟨leader, hleader, hequiv.trans hsame hlaterSame⟩
    · intro later hlater hnone
      have hne : index ≠ later := by
        rintro rfl
        exact hnone index (Nat.lt_succ_self _) (hequiv.refl index)
      rw [List.getElem?_set_ne hne]
      exact hreached.waiting later hlater fun earlier hearlier =>
        hnone earlier (Nat.lt_succ_of_lt hearlier)

variable {fill : Nat → Slots β → Except (Abort ε) (Slots β)} {lost : ε}

/-- From a position on, the loop fails as the first position in the order of filling does
that fails, and otherwise takes the value of every position. -/
theorem takeEach_from (hequiv : Equivalence same)
    (hfill : ∀ index < size, ∀ slots : Slots β, slots.contents.length = size →
      Leads same index → fill index slots = fillEach value (group same size index) slots)
    (count index : Nat) (slots : Slots β) (hsize : index + count = size)
    (hreached : Reached same value size index slots) :
    (∃ reason, ((List.range' index count).flatMap (block same size)).mapM value =
        .error reason ∧
      takeEach fill lost (List.range' index count) slots = .error reason) ∨
    (∃ all values last, ((List.range' index count).flatMap (block same size)).mapM value =
        .ok all ∧
      (List.range' index count).mapM value = .ok values ∧
      takeEach fill lost (List.range' index count) slots = .ok (values, last) ∧
      last.fills = slots.fills ++ (List.range' index count).flatMap (block same size)) := by
  induction count generalizing index slots with
  | zero => exact Or.inr ⟨[], [], slots, rfl, rfl, rfl, (List.append_nil _).symm⟩
  | succ count ih =>
      have hindex : index < size := by omega
      obtain ⟨slot, hslot, hstep⟩ := hreached.step hequiv (hfill index hindex) hindex
      rw [List.range'_succ, List.flatMap_cons, List.mapM_append, List.mapM_cons, takeEach,
        readAt_ok hslot, ok_bind]
      rcases hstep with
        ⟨reason, hblock, hfailed⟩ | ⟨block, filled, found, hblock, hfilled, hfills, hfound, hplace,
          hnext⟩
      · refine Or.inl ⟨reason, ?_, ?_⟩
        · rw [hblock, error_bind]
        · rw [hfailed, error_bind]
      · have hinside : index < filled.contents.length :=
          (List.getElem?_eq_some_iff.mp hplace).1
        rw [hblock, ok_bind, hfound, ok_bind, hfilled, ok_bind, readAt_ok hplace, ok_bind,
          okOr_some, ok_bind, writeAt, if_pos hinside, ok_bind]
        rcases ih (index + 1) ⟨filled.contents.set index none, filled.fills⟩ (by omega) hnext with
          ⟨reason, hrest, htake⟩ | ⟨all, values, last, hrest, hvalues, htake, hlast⟩
        · refine Or.inl ⟨reason, ?_, ?_⟩
          · rw [hrest, error_bind]
          · rw [htake, error_bind]
        · refine Or.inr ⟨block ++ all, found :: values, last, ?_, ?_, ?_, ?_⟩
          · rw [hrest, ok_bind, pure_eq_ok]
          · rw [hvalues, ok_bind, pure_eq_ok]
          · rw [htake, ok_bind]
            rfl
          · rw [hlast, hfills, List.append_assoc]

/-- The whole loop. -/
theorem takeEach_spec (lost : ε) (hequiv : Equivalence same)
    (hfill : ∀ index < size, ∀ slots : Slots β, slots.contents.length = size →
      Leads same index → fill index slots = fillEach value (group same size index) slots) :
    (∃ reason, (fillOrder same size).mapM value = .error reason ∧
      takeEach fill lost (List.range size) (empty size) = .error reason) ∨
    (∃ all values last, (fillOrder same size).mapM value = .ok all ∧
      (List.range size).mapM value = .ok values ∧
      takeEach fill lost (List.range size) (empty size) = .ok (values, last) ∧
      last.fills = fillOrder same size) := by
  have hrange : List.range size = List.range' 0 size := List.range_eq_range'
  rw [fillOrder, hrange]
  exact takeEach_from hequiv hfill size 0 (empty size) (Nat.zero_add _) reached_empty

end Taking

end Slots

end EliotSearch.Library
