import Mathlib.Data.List.Basic

/-!
# Scanning arguments with options

A scanner goes over a list of arguments.  Each argument may take the next one as its
value, and a state collects what was read.
-/

namespace EliotSearch.Library.Options

variable {α ε ε' σ τ : Type}

section Scan

variable (take : α → Option α → σ → Except ε (Bool × σ))

/-- Goes over the arguments; `take` sees an argument and the one behind it, and tells
whether the latter was its value. -/
def scan : List α → σ → Except ε σ
  | [], state => .ok state
  | argument :: rest, state =>
      match take argument rest.head? state with
      | .error error => .error error
      | .ok (false, state) => scan rest state
      | .ok (true, state) =>
          match rest with
          | [] => .ok state
          | _ :: rest => scan rest state

/-- An argument that can be the last one does not look at the next. -/
def Local : Prop :=
  ∀ argument state used next, take argument none state = .ok (used, next) →
    used = false ∧ ∀ value, take argument (some value) state = .ok (false, next)

end Scan

section Rules

variable {take : α → Option α → σ → Except ε (Bool × σ)} {state next : σ}

/-- Arguments that are accepted are read first, whatever stands behind them. -/
theorem scan_append (hlocal : Local take) {front : List α} (back : List α)
    (hfront : scan take front state = .ok next) :
    scan take (front ++ back) state = scan take back next := by
  fun_induction scan take front state with
  | case1 state =>
      obtain rfl := Except.ok.inj hfront
      rfl
  | case2 argument rest state error htake => cases hfront
  | case3 argument rest state after htake ih =>
      rw [List.cons_append, scan]
      cases rest with
      | nil =>
          have htaken : take argument back.head? state = .ok (false, after) := by
            cases back with
            | nil => exact htake
            | cons value back => exact (hlocal argument state false after htake).2 value
          rw [List.nil_append, htaken]
          exact ih hfront
      | cons value rest =>
          have htaken : take argument (value :: rest ++ back).head? state = .ok (false, after) :=
            htake
          rw [htaken]
          exact ih hfront
  | case4 argument state after htake =>
      exact absurd (hlocal argument state true after htake).1 (by decide)
  | case5 argument state after value rest htake ih =>
      rw [List.cons_append, scan]
      have htaken : take argument (value :: rest ++ back).head? state = .ok (true, after) := htake
      rw [htaken]
      exact ih hfront

/-- What every argument preserves holds after all of them. -/
theorem scan_invariant {Holds : σ → Prop} {arguments : List α}
    (hstep : ∀ argument value state used next, Holds state →
      take argument value state = .ok (used, next) → Holds next)
    (hscan : scan take arguments state = .ok next) (hstate : Holds state) : Holds next := by
  fun_induction scan take arguments state with
  | case1 state =>
      obtain rfl := Except.ok.inj hscan
      exact hstate
  | case2 argument rest state error htake => cases hscan
  | case3 argument rest state after htake ih =>
      exact ih hscan (hstep _ _ _ _ _ hstate htake)
  | case4 argument state after htake =>
      obtain rfl := Except.ok.inj hscan
      exact hstep _ _ _ _ _ hstate htake
  | case5 argument state after value rest htake ih =>
      exact ih hscan (hstep _ _ _ _ _ hstate htake)

end Rules

section Forwarding

variable {take : α → Option α → σ → Except ε (Bool × σ)}
  {other : α → Option α → τ → Except ε' (Bool × τ)}

/-- A scanner that writes arguments for another one: when each argument writes what takes
the other from agreement to agreement, then so do all.  `Good` is a condition on the end
of the first scan. -/
theorem scan_forward {written : σ → List α} {Good : σ → Prop} {Agree : σ → τ → Prop}
    {arguments : List α} {state next : σ} {first reached : τ} (hlocal : Local other)
    (hstep : ∀ argument value state used next reached, Agree state reached →
      take argument value state = .ok (used, next) → Good next →
      ∃ added after, written next = written state ++ added ∧
        scan other added reached = .ok after ∧ Agree next after)
    (hgood : ∀ argument value state used next,
      take argument value state = .ok (used, next) → Good next → Good state)
    (hscan : scan take arguments state = .ok next) (hnext : Good next)
    (hreached : scan other (written state) first = .ok reached) (hagree : Agree state reached) :
    ∃ last, scan other (written next) first = .ok last ∧ Agree next last := by
  -- The end of the scan is good, so every state before it is.
  have hforward : ∀ {argument value state used after reached},
      scan other (written state) first = .ok reached → Agree state reached →
      take argument value state = .ok (used, after) → Good after →
      ∃ last, scan other (written after) first = .ok last ∧ Agree after last := by
    intro argument value state used after reached hreached hagree htake hafter
    obtain ⟨added, last, hwritten, hadded, hlast⟩ :=
      hstep argument value state used after reached hagree htake hafter
    refine ⟨last, ?_, hlast⟩
    rw [hwritten, scan_append hlocal added hreached]
    exact hadded
  have hback : ∀ {arguments state}, scan take arguments state = .ok next → Good state := by
    intro arguments state hscan
    fun_induction scan take arguments state with
    | case1 state =>
        obtain rfl := Except.ok.inj hscan
        exact hnext
    | case2 argument rest state error htake => cases hscan
    | case3 argument rest state after htake ih => exact hgood _ _ _ _ _ htake (ih hscan)
    | case4 argument state after htake =>
        obtain rfl := Except.ok.inj hscan
        exact hgood _ _ _ _ _ htake hnext
    | case5 argument state after value rest htake ih => exact hgood _ _ _ _ _ htake (ih hscan)
  fun_induction scan take arguments state generalizing reached with
  | case1 state =>
      obtain rfl := Except.ok.inj hscan
      exact ⟨reached, hreached, hagree⟩
  | case2 argument rest state error htake => cases hscan
  | case3 argument rest state after htake ih =>
      obtain ⟨last, hlast, hagrees⟩ := hforward hreached hagree htake (hback hscan)
      exact ih hscan hlast hagrees
  | case4 argument state after htake =>
      obtain rfl := Except.ok.inj hscan
      exact hforward hreached hagree htake hnext
  | case5 argument state after value rest htake ih =>
      obtain ⟨last, hlast, hagrees⟩ := hforward hreached hagree htake (hback hscan)
      exact ih hscan hlast hagrees

end Forwarding

end EliotSearch.Library.Options
