import Mathlib.Tactic.Common

/-!
# Fallible computations

Guards and option lifts for `Except`, each with the equation that says when it
succeeds.  A successful computation written in `do` notation is taken apart
with `bind_eq_ok`, one step at a time.
-/

namespace EliotSearch.Library.Results

variable {ε ε' α β : Type}

/-- Stop with an error exactly when the condition holds. -/
def refuse (condition : Prop) [Decidable condition] (error : ε) : Except ε Unit :=
  if condition then .error error else .ok ()

/-- Lift an option, naming the error reported for `none`. -/
def okOr (value : Option α) (error : ε) : Except ε α :=
  match value with
  | none => .error error
  | some value => .ok value

theorem bind_eq_ok {first : Except ε α} {next : α → Except ε β} {result : β} :
    (first >>= next) = .ok result ↔ ∃ value, first = .ok value ∧ next value = .ok result := by
  cases first with
  | error error => simp [bind, Except.bind]
  | ok value => simp [bind, Except.bind]

theorem bind_eq_error {first : Except ε α} {next : α → Except ε β} {error : ε} :
    (first >>= next) = .error error ↔
      first = .error error ∨ ∃ value, first = .ok value ∧ next value = .error error := by
  cases first with
  | error found => simp [bind, Except.bind]
  | ok value => simp [bind, Except.bind]

@[simp]
theorem ok_bind (value : α) (next : α → Except ε β) :
    ((Except.ok value : Except ε α) >>= next) = next value :=
  rfl

@[simp]
theorem error_bind (error : ε) (next : α → Except ε β) :
    ((Except.error error : Except ε α) >>= next) = .error error :=
  rfl

@[simp]
theorem pure_eq_ok (value : α) : (pure value : Except ε α) = .ok value :=
  rfl

@[simp]
theorem throw_eq_error (error : ε) : (throw error : Except ε α) = .error error :=
  rfl

@[simp]
theorem refuse_eq_ok {condition : Prop} [Decidable condition] {error : ε} {result : Unit} :
    refuse condition error = .ok result ↔ ¬ condition := by
  unfold refuse
  split <;> simp_all

@[simp]
theorem refuse_eq_error {condition : Prop} [Decidable condition] {error found : ε} :
    refuse condition error = .error found ↔ condition ∧ error = found := by
  unfold refuse
  split <;> simp_all

theorem refuse_of_not {condition : Prop} [Decidable condition] {error : ε}
    (hpasses : ¬ condition) : refuse condition error = .ok () :=
  refuse_eq_ok.mpr hpasses

theorem refuse_of {condition : Prop} [Decidable condition] {error : ε}
    (hholds : condition) : refuse condition error = .error error :=
  if_pos hholds

@[simp]
theorem okOr_eq_ok {value : Option α} {error : ε} {result : α} :
    okOr value error = .ok result ↔ value = some result := by
  cases value <;> simp [okOr]

@[simp]
theorem okOr_eq_error {value : Option α} {error found : ε} :
    okOr value error = .error found ↔ value = none ∧ error = found := by
  cases value <;> simp [okOr]

@[simp]
theorem okOr_some (value : α) (error : ε) : okOr (some value) error = .ok value :=
  rfl

@[simp]
theorem mapError_eq_ok {translate : ε → ε'} {first : Except ε α} {result : α} :
    first.mapError translate = .ok result ↔ first = .ok result := by
  cases first <;> simp [Except.mapError]

@[simp]
theorem mapError_eq_error {translate : ε → ε'} {first : Except ε α} {error : ε'} :
    first.mapError translate = .error error ↔
      ∃ found, first = .error found ∧ translate found = error := by
  cases first <;> simp [Except.mapError]

theorem toOption_eq_some {result : Except ε α} {value : α} :
    result.toOption = some value ↔ result = .ok value := by
  cases result <;> simp [Except.toOption]

/-- A traversal succeeds when each element does, and keeps the length. -/
theorem mapM_ok {values : List α} {next : α → Except ε β}
    (hnext : ∀ value ∈ values, ∃ result, next value = .ok result) :
    ∃ results, values.mapM next = .ok results ∧ results.length = values.length := by
  induction values with
  | nil => exact ⟨[], rfl, rfl⟩
  | cons value values ih =>
      obtain ⟨result, hresult⟩ := hnext value List.mem_cons_self
      obtain ⟨results, hresults, hlength⟩ :=
        ih fun other hmem => hnext other (List.mem_cons_of_mem _ hmem)
      refine ⟨result :: results, ?_, by simp [hlength]⟩
      rw [List.mapM_cons, hresult, ok_bind, hresults]
      rfl

/-- A traversal that succeeds keeps every position. -/
theorem mapM_eq_ok {values : List α} {next : α → Except ε β} {results : List β}
    (hresults : values.mapM next = .ok results) :
    results.length = values.length ∧ ∀ (index : Nat) (value : α), values[index]? = some value →
      ∃ result, next value = .ok result ∧ results[index]? = some result := by
  induction values generalizing results with
  | nil =>
      obtain rfl := Except.ok.inj hresults
      exact ⟨rfl, fun _ _ hvalue => nomatch hvalue⟩
  | cons value values ih =>
      simp only [List.mapM_cons, bind_eq_ok, pure_eq_ok, Except.ok.injEq] at hresults
      obtain ⟨result, hresult, results, hrest, rfl⟩ := hresults
      obtain ⟨hlength, heach⟩ := ih hrest
      refine ⟨congrArg Nat.succ hlength, fun index other hother => ?_⟩
      cases index with
      | zero =>
          obtain rfl := Option.some.inj hother
          exact ⟨result, hresult, rfl⟩
      | succ index => exact heach index other hother

/-- A traversal fails where an element does. -/
theorem mapM_eq_error {values : List α} {next : α → Except ε β} {reason : ε}
    (hfailed : values.mapM next = .error reason) : ∃ value ∈ values, next value = .error reason := by
  induction values with
  | nil => cases hfailed
  | cons value values ih =>
      rw [List.mapM_cons] at hfailed
      rcases bind_eq_error.mp hfailed with hfirst | ⟨result, -, hrest⟩
      · exact ⟨value, List.mem_cons_self, hfirst⟩
      · rcases bind_eq_error.mp hrest with hrest | ⟨results, -, hlast⟩
        · obtain ⟨other, hmem, hother⟩ := ih hrest
          exact ⟨other, List.mem_cons_of_mem _ hmem, hother⟩
        · cases hlast

theorem mapM_congr {values : List α} {first second : α → Except ε β}
    (hsame : ∀ value ∈ values, first value = second value) :
    values.mapM first = values.mapM second := by
  induction values with
  | nil => rfl
  | cons value values ih =>
      rw [List.mapM_cons, List.mapM_cons, hsame value List.mem_cons_self,
        ih fun other hother => hsame other (List.mem_cons_of_mem _ hother)]

/-! ## Folds -/

section Folds

variable {σ : Type} {visit : σ → α → Except ε σ} {values : List α} {first last : σ}

/-- What every step keeps, given the values seen so far, holds at the end of a
fold that succeeds. -/
theorem foldlM_invariant (Holds : List α → σ → Prop) (hfold : values.foldlM visit first = .ok last)
    (hfirst : Holds [] first)
    (hstep : ∀ seen state value next, value ∈ values → Holds seen state →
      visit state value = .ok next → Holds (seen ++ [value]) next) : Holds values last := by
  have hgeneral : ∀ (rest seen : List α) (state : σ), (∀ value ∈ rest, value ∈ values) →
      Holds seen state → rest.foldlM visit state = .ok last → Holds (seen ++ rest) last := by
    intro rest
    induction rest with
    | nil =>
        intro seen state _ hholds hrest
        obtain rfl := Except.ok.inj hrest
        simpa using hholds
    | cons value rest ih =>
        intro seen state hmem hholds hrest
        rw [List.foldlM_cons, bind_eq_ok] at hrest
        obtain ⟨next, hvisit, hrest⟩ := hrest
        have hnext := hstep seen state value next (hmem value List.mem_cons_self) hholds hvisit
        have hlast := ih (seen ++ [value]) next
          (fun other hother => hmem other (List.mem_cons_of_mem _ hother)) hnext hrest
        simpa using hlast
  simpa using hgeneral values [] first (fun _ hmem => hmem) hfirst hfold

/-- A fold succeeds when every step does from what the earlier steps keep. -/
theorem foldlM_ok (Holds : List α → σ → Prop) (hfirst : Holds [] first)
    (hstep : ∀ seen value rest state, values = seen ++ value :: rest → Holds seen state →
      ∃ next, visit state value = .ok next ∧ Holds (seen ++ [value]) next) :
    ∃ last, values.foldlM visit first = .ok last ∧ Holds values last := by
  have hgeneral : ∀ (rest seen : List α) (state : σ), values = seen ++ rest → Holds seen state →
      ∃ last, rest.foldlM visit state = .ok last ∧ Holds values last := by
    intro rest
    induction rest with
    | nil =>
        intro seen state hvalues hholds
        refine ⟨state, rfl, ?_⟩
        simpa [hvalues] using hholds
    | cons value rest ih =>
        intro seen state hvalues hholds
        obtain ⟨next, hvisit, hnext⟩ := hstep seen value rest state hvalues hholds
        obtain ⟨last, hrest, hlast⟩ := ih (seen ++ [value]) next (by simpa using hvalues) hnext
        refine ⟨last, ?_, hlast⟩
        rw [List.foldlM_cons, hvisit, ok_bind, hrest]
  exact hgeneral values [] first rfl hfirst

end Folds

/-! ## Simulations -/

/-- The second computation fails where the first does, with the translated error,
and otherwise gives an agreeing value. -/
def Mirrors {α' : Type} (translate : ε → ε') (Agree : α → α' → Prop) :
    Except ε α → Except ε' α' → Prop
  | .ok value, .ok other => Agree value other
  | .error error, .error other => other = translate error
  | _, _ => False

namespace Mirrors

variable {α' β' : Type} {translate : ε → ε'} {Agree : α → α' → Prop} {After : β → β' → Prop}

theorem bind {first : Except ε α} {second : Except ε' α'} {next : α → Except ε β}
    {next' : α' → Except ε' β'} (hfirst : Mirrors translate Agree first second)
    (hnext : ∀ value other, Agree value other → Mirrors translate After (next value) (next' other)) :
    Mirrors translate After (first >>= next) (second >>= next') := by
  cases first with
  | error error =>
      cases second with
      | error other => exact hfirst
      | ok other => exact hfirst.elim
  | ok value =>
      cases second with
      | error other => exact hfirst.elim
      | ok other => exact hnext value other hfirst

/-- What holds of every value of the first computation holds of the agreeing values. -/
theorem and_of_ok {Holds : α → Prop} {first : Except ε α} {second : Except ε' α'}
    (hmirrors : Mirrors translate Agree first second)
    (hholds : ∀ value, first = .ok value → Holds value) :
    Mirrors translate (fun value other => Agree value other ∧ Holds value) first second := by
  cases first with
  | error error =>
      cases second with
      | error other => exact hmirrors
      | ok other => exact hmirrors.elim
  | ok value =>
      cases second with
      | error other => exact hmirrors.elim
      | ok other => exact ⟨hmirrors, hholds value rfl⟩

theorem mapError (first : Except ε α) : Mirrors translate Eq first (first.mapError translate) := by
  cases first with
  | error error => exact rfl
  | ok value => exact rfl

theorem refuse (condition : Prop) [Decidable condition] (error : ε) :
    Mirrors translate Eq (refuse condition error) (Results.refuse condition (translate error)) := by
  unfold Results.refuse
  split
  · exact rfl
  · exact rfl

theorem okOr (value : Option α) (error : ε) :
    Mirrors translate Eq (okOr value error) (Results.okOr value (translate error)) := by
  cases value with
  | none => exact rfl
  | some value => exact rfl

theorem eq_mapError {first : Except ε α} {second : Except ε' α}
    (hmirrors : Mirrors translate Eq first second) : second = first.mapError translate := by
  cases first with
  | error error =>
      cases second with
      | error other => exact congrArg Except.error hmirrors
      | ok other => exact hmirrors.elim
  | ok value =>
      cases second with
      | error other => exact hmirrors.elim
      | ok other => exact congrArg Except.ok (Eq.symm hmirrors)

end Mirrors

end EliotSearch.Library.Results
