import Mathlib.Data.List.Nodup

/-!
# Positions and counts in lists

Elements of a list that carry distinct keys are updated one at a time: changing
a test at one key changes the count by exactly that element.  Two positions of
one list are equal or ordered.
-/

namespace EliotSearch.Library.Lists

variable {α β : Type} {key : α → β}

/-- The element of a key is unique in a list with distinct keys. -/
theorem eq_of_key_eq {values : List α} (hdistinct : (values.map key).Nodup) {first second : α}
    (hfirst : first ∈ values) (hsecond : second ∈ values) (hkey : key first = key second) :
    first = second :=
  List.inj_on_of_nodup_map hdistinct hfirst hsecond hkey

theorem countP_congr {values : List α} {before after : α → Bool}
    (hsame : ∀ value ∈ values, after value = before value) :
    values.countP after = values.countP before := by
  refine List.countP_congr fun value hmem => ?_
  rw [hsame value hmem]

/-- A test that starts to hold at one key, and nowhere else, counts one more. -/
theorem countP_succ {values : List α} {before after : α → Bool}
    (hdistinct : (values.map key).Nodup) {changed : α} (hmem : changed ∈ values)
    (hbefore : before changed = false) (hafter : after changed = true)
    (hrest : ∀ value ∈ values, key value ≠ key changed → after value = before value) :
    values.countP after = values.countP before + 1 := by
  induction values with
  | nil => cases hmem
  | cons value values ih =>
      obtain ⟨hhead, htail⟩ := List.nodup_cons.mp hdistinct
      rcases List.mem_cons.mp hmem with rfl | hmem
      · have hsame : values.countP after = values.countP before := by
          refine countP_congr fun other hother => hrest other (List.mem_cons_of_mem _ hother) ?_
          intro hkey
          exact hhead (List.mem_map.mpr ⟨other, hother, hkey⟩)
        rw [List.countP_cons_of_pos hafter, List.countP_cons_of_neg (by simp [hbefore]), hsame]
      · have hvalue : after value = before value := by
          refine hrest value List.mem_cons_self ?_
          intro hkey
          exact hhead (hkey ▸ List.mem_map.mpr ⟨changed, hmem, rfl⟩)
        have htailCount := ih htail hmem
          fun other hother => hrest other (List.mem_cons_of_mem _ hother)
        rw [List.countP_cons, List.countP_cons, htailCount, hvalue]
        omega

/-! ## Two positions of one list -/

/-- Of two splits of a list, either both are the same or one element comes
after the other. -/
theorem split_cases {first second : List α} {left right : α} {leftRest rightRest : List α}
    (hsplit : first ++ left :: leftRest = second ++ right :: rightRest) :
    first = second ∨ right ∈ leftRest ∨ left ∈ rightRest := by
  induction first generalizing second with
  | nil =>
      cases second with
      | nil => exact Or.inl rfl
      | cons head second =>
          obtain ⟨rfl, rfl⟩ := List.cons.inj hsplit
          exact Or.inr (Or.inl (List.mem_append_right _ List.mem_cons_self))
  | cons head first ih =>
      cases second with
      | nil =>
          obtain ⟨rfl, rfl⟩ := List.cons.inj hsplit
          exact Or.inr (Or.inr (List.mem_append_right _ List.mem_cons_self))
      | cons other second =>
          obtain ⟨rfl, hrest⟩ := List.cons.inj hsplit
          rcases ih hrest with rfl | hlater
          · exact Or.inl rfl
          · exact Or.inr hlater

/-- No element of a first chunk is kept only when none of the list is. -/
theorem takeWhile_take_eq_nil {keep : α → Bool} {values : List α} {count : Nat}
    (hcount : 0 < count) (hnone : (values.take count).takeWhile keep = []) :
    values.takeWhile keep = [] := by
  obtain ⟨count, rfl⟩ := Nat.exists_eq_succ_of_ne_zero (Nat.ne_of_gt hcount)
  cases values with
  | nil => rfl
  | cons value values =>
      rw [List.take_succ_cons] at hnone
      by_cases hkeep : keep value = true
      · simp [hkeep] at hnone
      · simp [hkeep]

end EliotSearch.Library.Lists
