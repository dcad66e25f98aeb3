import Mathlib.Tactic.Common

/-!
# Tilings of an interval

A list of half-open ranges tiles an interval when each range is nonempty and
starts where the previous one stopped.  Every offset of the interval then lies
in exactly one range.
-/

namespace EliotSearch.Library

/-- The ranges cover `[first, last)` from left to right without gap or overlap. -/
def Tiles : Nat → Nat → List (Nat × Nat) → Prop
  | first, last, [] => first = last
  | first, last, range :: ranges =>
      range.1 = first ∧ range.1 < range.2 ∧ Tiles range.2 last ranges

namespace Tiles

variable {first last : Nat} {ranges : List (Nat × Nat)}

theorem le (htiles : Tiles first last ranges) : first ≤ last := by
  induction ranges generalizing first with
  | nil => exact Nat.le_of_eq htiles
  | cons range ranges ih =>
      obtain ⟨rfl, hlt, hrest⟩ := htiles
      exact Nat.le_trans (Nat.le_of_lt hlt) (ih hrest)

/-- Two tilings that meet are one tiling. -/
theorem append {middle : Nat} {rest : List (Nat × Nat)} (hfirst : Tiles first middle ranges)
    (hrest : Tiles middle last rest) : Tiles first last (ranges ++ rest) := by
  induction ranges generalizing first with
  | nil =>
      obtain rfl : first = middle := hfirst
      exact hrest
  | cons range ranges ih =>
      obtain ⟨hstart, hlt, htail⟩ := hfirst
      exact ⟨hstart, hlt, ih htail⟩

/-- The front of a tiling tiles the part before the rest. -/
theorem split {rest : List (Nat × Nat)} (htiles : Tiles first last (ranges ++ rest)) :
    ∃ middle, Tiles first middle ranges ∧ Tiles middle last rest := by
  induction ranges generalizing first with
  | nil => exact ⟨first, rfl, htiles⟩
  | cons range ranges ih =>
      obtain ⟨hstart, hlt, htail⟩ := htiles
      obtain ⟨middle, hfirst, hrest⟩ := ih htail
      exact ⟨middle, ⟨hstart, hlt, hfirst⟩, hrest⟩

/-- A tiling has only one end. -/
theorem last_unique {other : Nat} (htiles : Tiles first last ranges)
    (hother : Tiles first other ranges) : last = other := by
  induction ranges generalizing first with
  | nil => exact htiles.symm.trans hother
  | cons range ranges ih => exact ih htiles.2.2 hother.2.2

theorem concat {stop : Nat} (htiles : Tiles first last ranges) (hlt : last < stop) :
    Tiles first stop (ranges ++ [(last, stop)]) :=
  htiles.append ⟨rfl, hlt, rfl⟩

theorem bounds (htiles : Tiles first last ranges) :
    ∀ range ∈ ranges, first ≤ range.1 ∧ range.2 ≤ last := by
  induction ranges generalizing first with
  | nil => exact fun _ hmem => absurd hmem List.not_mem_nil
  | cons head ranges ih =>
      obtain ⟨rfl, hlt, hrest⟩ := htiles
      intro range hmem
      rcases List.mem_cons.mp hmem with rfl | hmem
      · exact ⟨Nat.le_refl _, hrest.le⟩
      · have hbounds := ih hrest range hmem
        exact ⟨Nat.le_trans (Nat.le_of_lt hlt) hbounds.1, hbounds.2⟩

end Tiles

end EliotSearch.Library
