import Mathlib.Tactic.Common

/-!
# Runs of a deterministic machine

A machine is a step function; a run is the left fold of its actions.  The
rules below turn a fact about one step into a fact about every run, or about
every pair of states of one run.
-/

namespace EliotSearch.Library.Runs

variable {σ α : Type} (step : σ → α → σ)

/-- The state after a sequence of actions. -/
def run (start : σ) (actions : List α) : σ := actions.foldl step start

@[simp]
theorem run_nil (start : σ) : run step start [] = start :=
  rfl

@[simp]
theorem run_cons (start : σ) (action : α) (actions : List α) :
    run step start (action :: actions) = run step (step start action) actions :=
  rfl

theorem run_append (start : σ) (first second : List α) :
    run step start (first ++ second) = run step (run step start first) second :=
  List.foldl_append

theorem run_concat (start : σ) (actions : List α) (action : α) :
    run step start (actions ++ [action]) = step (run step start actions) action := by
  rw [run_append]
  rfl

variable {step}

/-- What holds at the start and survives each step holds after every run. -/
theorem run_invariant {Holds : σ → Prop} {start : σ} (hstart : Holds start)
    (hstep : ∀ state action, Holds state → Holds (step state action)) (actions : List α) :
    Holds (run step start actions) := by
  induction actions generalizing start with
  | nil => exact hstart
  | cons action actions ih => exact ih (hstep start action hstart)

/-- Every action of a run meets a condition on the state it is taken in. -/
def Throughout (step : σ → α → σ) (Meets : σ → α → Prop) (start : σ) : List α → Prop
  | [] => True
  | action :: actions => Meets start action ∧ Throughout step Meets (step start action) actions

instance decidableThroughout {Meets : σ → α → Prop}
    [hmeets : ∀ state action, Decidable (Meets state action)] :
    ∀ (start : σ) (actions : List α), Decidable (Throughout step Meets start actions)
  | _, [] => inferInstanceAs (Decidable True)
  | start, action :: actions =>
      @instDecidableAnd _ _ (hmeets start action)
        (decidableThroughout (step start action) actions)

theorem throughout_append {Meets : σ → α → Prop} {start : σ} {first second : List α} :
    Throughout step Meets start (first ++ second) ↔
      Throughout step Meets start first ∧
        Throughout step Meets (run step start first) second := by
  induction first generalizing start with
  | nil => simp [Throughout]
  | cons action actions ih =>
      constructor
      · rintro ⟨hfirst, hrest⟩
        exact ⟨⟨hfirst, (ih.mp hrest).1⟩, (ih.mp hrest).2⟩
      · rintro ⟨⟨hfirst, hactions⟩, hsecond⟩
        exact ⟨hfirst, ih.mpr ⟨hactions, hsecond⟩⟩

/-- What holds at the start and survives each step that meets the condition
holds after every run that meets it throughout. -/
theorem run_invariant_throughout {Meets : σ → α → Prop} (Holds : σ → Prop) {start : σ}
    (hstart : Holds start)
    (hstep : ∀ state action, Holds state → Meets state action → Holds (step state action))
    {actions : List α} (hmeets : Throughout step Meets start actions) :
    Holds (run step start actions) := by
  induction actions generalizing start with
  | nil => exact hstart
  | cons action actions ih => exact ih (hstep start action hstart hmeets.1) hmeets.2

/-- A reflexive and transitive relation that contains every step from a state
satisfying an invariant relates the two ends of every run. -/
theorem run_relation (Holds : σ → Prop) (Relates : σ → σ → Prop)
    (hrefl : ∀ state, Relates state state)
    (htrans : ∀ first second third, Relates first second → Relates second third →
      Relates first third)
    (hholds : ∀ state action, Holds state → Holds (step state action))
    (hstep : ∀ state action, Holds state → Relates state (step state action))
    {start : σ} (hstart : Holds start) (actions : List α) :
    Relates start (run step start actions) := by
  induction actions generalizing start with
  | nil => exact hrefl start
  | cons action actions ih =>
      have hfirst := hstep start action hstart
      have hrest := ih (hholds start action hstart)
      exact htrans _ _ _ hfirst hrest

/-- A property that holds after a run but not before it was established by one
of its steps. -/
theorem exists_establishing_step (Holds : σ → Prop) {start : σ} {actions : List α}
    (hbefore : ¬ Holds start) (hafter : Holds (run step start actions)) :
    ∃ before action later, actions = before ++ action :: later ∧
      ¬ Holds (run step start before) ∧ Holds (step (run step start before) action) := by
  induction actions generalizing start with
  | nil => exact absurd hafter hbefore
  | cons action actions ih =>
      by_cases hnext : Holds (step start action)
      · exact ⟨[], action, actions, rfl, hbefore, hnext⟩
      · obtain ⟨before, found, later, rfl, hnot, hholds⟩ := ih hnext hafter
        exact ⟨action :: before, found, later, rfl, hnot, hholds⟩

end EliotSearch.Library.Runs
