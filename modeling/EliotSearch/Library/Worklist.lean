import Mathlib.Algebra.GroupWithZero.Nat
import Mathlib.Algebra.Order.BigOperators.Group.List

/-!
# Loops over a stack of work

A loop takes the item on top of its stack; the visit changes a state, may fail,
and leaves further items that go back on top in their order.  Weights bound the
visits, and an invariant of the state and the stack describes where a loop ends.
-/

namespace EliotSearch.Library.Worklist

variable {σ ι ε : Type} {visit : σ → ι → σ × Except ε (List ι)}

/-- Visit items until the stack is empty or a visit fails; no result means that
the fuel ran out first. -/
def drain (visit : σ → ι → σ × Except ε (List ι)) : (fuel : ℕ) → σ → List ι →
    Option (σ × Except ε Unit)
  | _, state, [] => some (state, .ok ())
  | 0, _, _ :: _ => none
  | fuel + 1, state, item :: stack =>
      match visit state item with
      | (next, .error error) => some (next, .error error)
      | (next, .ok left) => drain visit fuel next (left ++ stack)

theorem drain_nil (fuel : ℕ) (state : σ) : drain visit fuel state [] = some (state, .ok ()) := by
  cases fuel <;> rfl

/-- Positive weights that every visit lowers bound the visits. -/
theorem drain_isSome (weight : ι → ℕ) (Ready : ι → Prop)
    (hpositive : ∀ item, Ready item → 0 < weight item)
    (hlower : ∀ state item next left, Ready item → visit state item = (next, .ok left) →
      (∀ other ∈ left, Ready other) ∧ (left.map weight).sum < weight item)
    {fuel : ℕ} {state : σ} {stack : List ι} (hready : ∀ item ∈ stack, Ready item)
    (hfuel : (stack.map weight).sum ≤ fuel) : (drain visit fuel state stack).isSome = true := by
  induction fuel generalizing state stack with
  | zero =>
      cases stack with
      | nil => rfl
      | cons item stack =>
          have hitem := hpositive item (hready item List.mem_cons_self)
          simp only [List.map_cons, List.sum_cons] at hfuel
          omega
  | succ fuel ih =>
      cases stack with
      | nil => rfl
      | cons item stack =>
          have hitem := hready item List.mem_cons_self
          rw [drain]
          rcases hvisit : visit state item with ⟨next, error | left⟩
          · rfl
          · obtain ⟨hleft, hless⟩ := hlower state item next left hitem hvisit
            refine ih ?_ ?_
            · intro other hmem
              rcases List.mem_append.mp hmem with hmem | hmem
              · exact hleft other hmem
              · exact hready other (List.mem_cons_of_mem _ hmem)
            · simp only [List.map_cons, List.sum_cons] at hfuel
              rw [List.map_append, List.sum_append]
              omega

/-- An invariant of the state and the stack holds of the empty stack at the end,
and a failing visit stops in what the invariant allows. -/
theorem drain_spec (Holds : σ → List ι → Prop) (Stops : σ → ε → Prop)
    (hvisit : ∀ state item stack next left, Holds state (item :: stack) →
      visit state item = (next, .ok left) → Holds next (left ++ stack))
    (hstop : ∀ state item stack next error, Holds state (item :: stack) →
      visit state item = (next, .error error) → Stops next error)
    {fuel : ℕ} {state last : σ} {stack : List ι} {result : Except ε Unit}
    (hstart : Holds state stack) (hdrain : drain visit fuel state stack = some (last, result)) :
    (result = .ok () → Holds last []) ∧ ∀ error, result = .error error → Stops last error := by
  induction fuel generalizing state stack with
  | zero =>
      cases stack with
      | nil =>
          cases hdrain
          exact ⟨fun _ => hstart, nofun⟩
      | cons item stack => cases hdrain
  | succ fuel ih =>
      cases stack with
      | nil =>
          cases hdrain
          exact ⟨fun _ => hstart, nofun⟩
      | cons item stack =>
          rw [drain] at hdrain
          rcases hnext : visit state item with ⟨next, error | left⟩
          · rw [hnext] at hdrain
            cases hdrain
            refine ⟨nofun, ?_⟩
            rintro found ⟨⟩
            exact hstop _ _ _ _ _ hstart hnext
          · rw [hnext] at hdrain
            exact ih (hvisit state item stack next left hstart hnext) hdrain

end EliotSearch.Library.Worklist
