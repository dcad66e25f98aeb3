import Mathlib.Data.List.Basic

/-!
# Lists with omissions

A list that keeps the elements of another in their order, except for some that may
be left out.
-/

namespace EliotSearch.Library

variable {α : Type}

/-- The second list is the first without some elements that may be left out. -/
inductive Omits (droppable : α → Prop) : List α → List α → Prop where
  | nil : Omits droppable [] []
  | keep {whole kept : List α} (value : α) (hrest : Omits droppable whole kept) :
      Omits droppable (value :: whole) (value :: kept)
  | drop {whole kept : List α} (value : α) (hdrop : droppable value)
      (hrest : Omits droppable whole kept) : Omits droppable (value :: whole) kept

namespace Omits

variable {droppable : α → Prop} {whole kept : List α}

theorem append_keep (homits : Omits droppable whole kept) (value : α) :
    Omits droppable (whole ++ [value]) (kept ++ [value]) := by
  induction homits with
  | nil => exact .keep value .nil
  | keep first _ ih => exact .keep first ih
  | drop first hdrop _ ih => exact .drop first hdrop ih

/-- One more element may be left out. -/
theorem remove {front back : List α} {value : α}
    (homits : Omits droppable whole (front ++ value :: back)) (hdrop : droppable value) :
    Omits droppable whole (front ++ back) := by
  generalize hkept : front ++ value :: back = kept at homits
  induction homits generalizing front with
  | nil => exact absurd hkept (by simp)
  | keep first hrest ih =>
      cases front with
      | nil =>
          obtain ⟨rfl, rfl⟩ := List.cons.inj hkept
          exact .drop value hdrop hrest
      | cons head front =>
          obtain ⟨rfl, htail⟩ := List.cons.inj hkept
          exact .keep head (ih htail)
  | drop first hfirst hrest ih => exact .drop first hfirst (ih hkept)

theorem sublist (homits : Omits droppable whole kept) : kept.Sublist whole := by
  induction homits with
  | nil => exact .slnil
  | keep value _ ih => exact ih.cons_cons value
  | drop value _ _ ih => exact ih.cons value

end Omits

end EliotSearch.Library
