import Mathlib.Data.List.Basic

/-!
# Loops

A loop repeats a step until the step gives a result; loops nest, so a step may
itself run out of fuel.  An invariant and a variant show that a loop ends in what
it should give.  Items handed to a party in turn stop at the first refusal.
-/

namespace EliotSearch.Library.Loops

section Repeating

variable {σ ρ : Type} {step : σ → Option (σ ⊕ ρ)}

/-- Repeat a step up to its result; no result means that some fuel ran out. -/
def loop (step : σ → Option (σ ⊕ ρ)) : (fuel : ℕ) → σ → Option ρ
  | 0, _ => none
  | fuel + 1, state =>
      match step state with
      | none => none
      | some (.inl next) => loop step fuel next
      | some (.inr result) => some result

/-- An invariant that every turn keeps, under a variant that every turn lowers,
leads to a result. -/
theorem loop_total (Holds : σ → Prop) (Gives : ρ → Prop) (variant : σ → ℕ)
    (hturn : ∀ state, Holds state →
      (∃ next, step state = some (.inl next) ∧ Holds next ∧ variant next < variant state) ∨
        ∃ result, step state = some (.inr result) ∧ Gives result)
    {fuel : ℕ} {state : σ} (hstart : Holds state) (hfuel : variant state < fuel) :
    ∃ result, loop step fuel state = some result ∧ Gives result := by
  induction fuel generalizing state with
  | zero => exact absurd hfuel (Nat.not_lt_zero _)
  | succ fuel ih =>
      rw [loop]
      rcases hturn state hstart with ⟨next, hstep, hnext, hless⟩ | ⟨result, hstep, hgives⟩
      · rw [hstep]
        exact ih hnext (Nat.lt_of_lt_of_le hless (Nat.le_of_lt_succ hfuel))
      · rw [hstep]
        exact ⟨result, rfl, hgives⟩

end Repeating

section Offers

variable {ω ι ε : Type} {offer : ω → ι → ω × Except ε Unit}

/-- Hand items to a party in turn, up to the first that it refuses. -/
def inTurn (offer : ω → ι → ω × Except ε Unit) : ω → List ι → ω × Except ε Unit
  | party, [] => (party, .ok ())
  | party, item :: items =>
      match offer party item with
      | (party, .ok ()) => inTurn offer party items
      | refused => refused

theorem inTurn_append {first middle : ω} {items others : List ι}
    (hitems : inTurn offer first items = (middle, .ok ())) :
    inTurn offer first (items ++ others) = inTurn offer middle others := by
  induction items generalizing first with
  | nil =>
      obtain rfl : first = middle := congrArg Prod.fst hitems
      rfl
  | cons item items ih =>
      rw [inTurn] at hitems
      rw [List.cons_append, inTurn]
      rcases hanswer : offer first item with ⟨next, error | _⟩
      · rw [hanswer] at hitems
        cases hitems
      · rw [hanswer] at hitems
        exact ih hitems

theorem inTurn_singleton (party : ω) (item : ι) : inTurn offer party [item] = offer party item := by
  rw [inTurn]
  rcases offer party item with ⟨next, error | _⟩
  · rfl
  · rfl

/-- One more item is handed over behind accepted ones. -/
theorem inTurn_concat {first middle : ω} {items : List ι}
    (hitems : inTurn offer first items = (middle, .ok ())) (item : ι) :
    inTurn offer first (items ++ [item]) = offer middle item := by
  rw [inTurn_append hitems, inTurn_singleton]

end Offers

end EliotSearch.Library.Loops
