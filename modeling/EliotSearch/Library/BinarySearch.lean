import Mathlib.Order.Bounds.Defs
import Mathlib.Tactic.Common

/-!
# Binary search

The search keeps an interval that still contains every match and halves it
until at most one element is left.  What it finds always carries the wanted
key, and in a list sorted by that key it finds the element whenever there is
one.
-/

namespace EliotSearch.Library

section Search

variable {α κ : Type} [Ord κ]

/-- Halve the candidate interval until at most one element is left. -/
def narrow (key : α → κ) (wanted : κ) (values : List α) : Nat → Nat → Nat → Nat
  | 0, base, _ => base
  | fuel + 1, base, size =>
      if size ≤ 1 then base
      else
        narrow key wanted values fuel
          (if (values[base + size / 2]?.map fun value => compare (key value) wanted) = some .gt
            then base else base + size / 2)
          (size - size / 2)

/-- The position of an element with the wanted key. -/
def binarySearchByKey (key : α → κ) (wanted : κ) (values : List α) : Option Nat :=
  let base := narrow key wanted values values.length 0 values.length
  if (values[base]?.map fun value => compare (key value) wanted) = some .eq then some base
  else none

end Search

section Correctness

variable {α κ : Type} [Ord κ] {key : α → κ} {wanted : κ} {values : List α}

/-- The element found carries the wanted key. -/
theorem binarySearchByKey_sound [Std.LawfulEqOrd κ] {index : Nat}
    (hfound : binarySearchByKey key wanted values = some index) :
    ∃ value, values[index]? = some value ∧ key value = wanted := by
  simp only [binarySearchByKey] at hfound
  split at hfound
  · rename_i hequal
    obtain rfl := Option.some.inj hfound
    obtain ⟨value, hvalue, hcompare⟩ := Option.map_eq_some_iff.mp hequal
    exact ⟨value, hvalue, Std.LawfulEqCmp.eq_of_compare hcompare⟩
  · cases hfound

/-- The interval keeps the position of the match. -/
theorem narrow_eq [Std.TransOrd κ] {index : Nat} {value : α} {fuel base size : Nat}
    (hsorted : values.Pairwise fun first second => compare (key first) (key second) = .lt)
    (hvalue : values[index]? = some value) (hkey : key value = wanted) (hfuel : size ≤ fuel + 1)
    (hbase : base ≤ index) (hindex : index < base + size) (hinside : base + size ≤ values.length) :
    narrow key wanted values fuel base size = index := by
  induction fuel generalizing base size with
  | zero =>
      rw [narrow]
      omega
  | succ fuel ih =>
      rw [narrow]
      split
      · omega
      · rename_i hlarge
        have hhalf : 0 < size / 2 := Nat.div_pos (by omega) (by decide)
        have hrest : size / 2 ≤ size - size / 2 := by omega
        have hbound : index < values.length := (List.getElem?_eq_some_iff.mp hvalue).1
        have hget : values[index] = value := (List.getElem?_eq_some_iff.mp hvalue).2
        split
        · rename_i hafter
          refine ih (by omega) hbase ?_ (by omega)
          -- the middle lies past every match
          by_contra hlate
          obtain ⟨middle, hmiddle, hgreater⟩ := Option.map_eq_some_iff.mp hafter
          obtain ⟨hlt, hmiddleGet⟩ := List.getElem?_eq_some_iff.mp hmiddle
          rcases Nat.lt_or_ge (base + size / 2) index with hbefore | hpast
          · have hless := List.pairwise_iff_getElem.mp hsorted _ _ hlt hbound hbefore
            rw [hmiddleGet, hget, hkey, hgreater] at hless
            cases hless
          · obtain rfl : base + size / 2 = index := by omega
            rw [hmiddle, Option.some.injEq] at hvalue
            rw [hvalue, hkey, Std.ReflOrd.compare_self] at hgreater
            cases hgreater
        · rename_i hafter
          refine ih (by omega) ?_ (by omega) (by omega)
          by_contra hlate
          have hbefore : index < base + size / 2 := Nat.not_le.mp hlate
          have hmiddle : base + size / 2 < values.length := by omega
          have hless := List.pairwise_iff_getElem.mp hsorted _ _ hbound hmiddle hbefore
          rw [hget, hkey] at hless
          refine hafter ?_
          rw [List.getElem?_eq_getElem hmiddle, Option.map_some, Std.OrientedCmp.gt_of_lt hless]

/-- In a sorted list the element with the wanted key is found. -/
theorem binarySearchByKey_complete [Std.TransOrd κ] {index : Nat} {value : α}
    (hsorted : values.Pairwise fun first second => compare (key first) (key second) = .lt)
    (hvalue : values[index]? = some value) (hkey : key value = wanted) :
    binarySearchByKey key wanted values = some index := by
  have hbound : index < values.length := (List.getElem?_eq_some_iff.mp hvalue).1
  have hbase : narrow key wanted values values.length 0 values.length = index :=
    narrow_eq hsorted hvalue hkey (by omega) (Nat.zero_le _) (by omega) (by omega)
  simp [binarySearchByKey, hbase, hvalue, hkey, Std.ReflOrd.compare_self]

end Correctness

/-! ## Partition points -/

section Partition

variable {α : Type} {test : α → Bool}

/-- The position of the first value that fails the test. -/
def partitionPoint (test : α → Bool) (values : List α) : Nat := (values.takeWhile test).length

theorem getElem?_partitionPoint (values : List α) :
    values[partitionPoint test values]? = (values.dropWhile test).head? := by
  have hsplit : (values.takeWhile test ++ values.dropWhile test)[partitionPoint test values]? =
      (values.dropWhile test).head? := by
    rw [partitionPoint, List.getElem?_append_right (Nat.le_refl _), Nat.sub_self,
      List.head?_eq_getElem?]
  rwa [List.takeWhile_append_dropWhile] at hsplit

/-- A value before the partition point passes the test. -/
theorem of_lt_partitionPoint {values : List α} {index : Nat} {value : α}
    (hindex : index < partitionPoint test values) (hvalue : values[index]? = some value) :
    test value = true := by
  have hsplit : (values.takeWhile test ++ values.dropWhile test)[index]? = some value := by
    rwa [List.takeWhile_append_dropWhile]
  rw [List.getElem?_append_left hindex] at hsplit
  exact List.all_eq_true.mp List.all_takeWhile value (List.mem_of_getElem? hsplit)

/-- The value at the partition point fails the test. -/
theorem not_of_partitionPoint {values : List α} {value : α}
    (hvalue : values[partitionPoint test values]? = some value) : test value = false := by
  rw [getElem?_partitionPoint] at hvalue
  obtain ⟨rest, hrest⟩ := List.head?_eq_some_iff.mp hvalue
  have hfails := List.head?_dropWhile_not test values
  rw [hrest] at hfails
  exact hfails

/-- Where earlier values pass with later ones, a value that passes is before the
partition point. -/
theorem lt_partitionPoint {values : List α} {index : Nat} {value : α}
    (hmonotone : values.Pairwise fun earlier later => test later = true → test earlier = true)
    (hvalue : values[index]? = some value) (htest : test value = true) :
    index < partitionPoint test values := by
  induction values generalizing index with
  | nil => cases hvalue
  | cons head values ih =>
      obtain ⟨hhead, htail⟩ := List.pairwise_cons.mp hmonotone
      cases index with
      | zero =>
          obtain rfl := Option.some.inj hvalue
          rw [partitionPoint, List.takeWhile_cons_of_pos htest]
          exact Nat.succ_pos _
      | succ index =>
          have hfirst := hhead value (List.mem_of_getElem? hvalue) htest
          rw [partitionPoint, List.takeWhile_cons_of_pos hfirst]
          exact Nat.succ_lt_succ (ih htail hvalue)

/-- A stronger test drops no more than a weaker one. -/
theorem dropWhile_dropWhile {weaker : α → Bool} (values : List α)
    (himplies : ∀ value ∈ values, test value = true → weaker value = true) :
    (values.dropWhile test).dropWhile weaker = values.dropWhile weaker := by
  induction values with
  | nil => rfl
  | cons value values ih =>
      rw [List.dropWhile_cons]
      split
      · rename_i htest
        have hweaker := himplies value List.mem_cons_self htest
        rw [ih fun other hother => himplies other (List.mem_cons_of_mem _ hother),
          List.dropWhile_cons_of_pos hweaker]
      · rfl

end Partition

/-! ## The largest number that satisfies a condition -/

section Largest

variable (holds : Nat → Bool)

/-- Bisect from below: what satisfies the condition moves the lower end, what does not
moves the upper one below it. -/
def largest (low high : Nat) : Nat :=
  if low < high then
    let middle := low + (high - low + 1) / 2
    if holds middle then largest middle high else largest low (middle - 1)
  else low
  termination_by high - low

variable {holds}

/-- Where whatever is below a number that satisfies the condition satisfies it too, the
bisection ends at the largest such number. -/
theorem largest_spec {low high : Nat} (hle : low ≤ high) (hlow : holds low = true)
    (hbelow : ∀ first second, first ≤ second → second ≤ high → holds second = true →
      holds first = true) :
    IsGreatest {number | number ≤ high ∧ holds number = true} (largest holds low high) := by
  induction low, high using largest.induct holds with
  | case1 low high hlt middle hmiddle ih =>
      rw [largest, if_pos hlt]
      dsimp only
      rw [if_pos hmiddle]
      exact ih (by omega) hmiddle hbelow
  | case2 low high hlt middle hmiddle ih =>
      have hsmaller : IsGreatest {number | number ≤ middle - 1 ∧ holds number = true}
          (largest holds low (middle - 1)) :=
        ih (by omega) hlow fun first second hfirst hsecond => hbelow first second hfirst (by omega)
      rw [largest, if_pos hlt]
      dsimp only
      rw [if_neg hmiddle]
      obtain ⟨⟨hwithin, hholds⟩, hlargest⟩ := hsmaller
      refine ⟨⟨Nat.le_trans hwithin (by omega), hholds⟩, ?_⟩
      rintro number ⟨hnumber, hpasses⟩
      apply hlargest
      -- past the middle nothing satisfies the condition
      by_contra houtside
      have hpast : middle ≤ number := by
        by_contra hbefore
        exact houtside ⟨by omega, hpasses⟩
      exact hmiddle (hbelow middle number hpast hnumber hpasses)
  | case3 low high hge =>
      obtain rfl : low = high := by omega
      rw [largest, if_neg hge]
      exact ⟨⟨Nat.le_refl _, hlow⟩, fun number hnumber => hnumber.1⟩

end Largest

end EliotSearch.Library
