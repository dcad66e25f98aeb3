import Mathlib.Data.List.Infix
import Mathlib.Tactic.Common

/-!
# Computations that can be cut off

A computation over a store records every store that it passes through, so that a
crash can leave any of them behind.  The rules below follow a computation step by
step: what it passes through keeps an invariant, and what it returns and leaves
satisfies its postcondition.
-/

namespace EliotSearch.Library.Crash

/-- What a computation returns, the store it leaves, and the stores it passed through,
one behind each change. -/
structure Passage (σ ε α : Type) where
  result : Except ε α
  left : σ
  passed : List σ

/-- A computation over a store. -/
def Op (σ ε α : Type) : Type := σ → Passage σ ε α

namespace Op

variable {σ τ ε δ α β : Type}

instance : Monad (Op σ ε) where
  pure value store := ⟨.ok value, store, []⟩
  bind op next store :=
    match (op store).result with
    | .ok value =>
        let behind := next value (op store).left
        ⟨behind.result, behind.left, (op store).passed ++ behind.passed⟩
    | .error error => ⟨.error error, (op store).left, (op store).passed⟩

def fail (error : ε) : Op σ ε α := fun store => ⟨.error error, store, []⟩

/-- Look at the store. -/
def read (look : σ → Except ε α) : Op σ ε α := fun store => ⟨look store, store, []⟩

/-- Refuse to go on under a condition. -/
def refuse (condition : Prop) [Decidable condition] (error : ε) : Op σ ε Unit :=
  if condition then fail error else pure ()

/-- Change the store, through all the given stores up to the last one. -/
def change (through : σ → List σ) : Op σ ε Unit :=
  fun store => ⟨.ok (), (through store).getLastD store, through store⟩

/-- Work on a part of the store. -/
def zoom (get : σ → τ) (set : σ → τ → σ) (op : Op τ ε α) : Op σ ε α := fun store =>
  ⟨(op (get store)).result, set store (op (get store)).left,
    (op (get store)).passed.map (set store)⟩

def mapError (rename : ε → δ) (op : Op σ ε α) : Op σ δ α := fun store =>
  ⟨(op store).result.mapError rename, (op store).left, (op store).passed⟩

/-- Where a computation fails, what it left behind is cleared away. -/
def clearing (op : Op σ ε α) (clear : σ → List σ) : Op σ ε α := fun store =>
  match (op store).result with
  | .ok value => ⟨.ok value, (op store).left, (op store).passed⟩
  | .error error => ⟨.error error, (clear (op store).left).getLastD (op store).left,
      (op store).passed ++ clear (op store).left⟩

/-- The store after a crash behind so many changes, or at the end. -/
def stopped (op : Op σ ε α) (point : Nat) (store : σ) : σ :=
  ((store :: (op store).passed)[point]?).getD (op store).left

end Op

open Op

variable {σ τ ε δ α β : Type} {Inv : σ → Prop} {op : Op σ ε α} {store : σ}

/-- Everything passed through keeps the invariant, and the end satisfies the
postcondition. -/
structure Ends (Inv : σ → Prop) (op : Op σ ε α) (store : σ) (Post : Except ε α → σ → Prop) :
    Prop where
  passed : ∀ passed ∈ (op store).passed, Inv passed
  post : Post (op store).result (op store).left

/-- The computation returns a value. -/
def Completes (Inv : σ → Prop) (op : Op σ ε α) (store : σ) (Post : α → σ → Prop) : Prop :=
  Ends Inv op store fun result left => ∃ value, result = .ok value ∧ Post value left

/-- The computation fails with an error. -/
def Refuses (Inv : σ → Prop) (op : Op σ ε α) (store : σ) (error : ε) (Post : σ → Prop) : Prop :=
  Ends Inv op store fun result left => result = .error error ∧ Post left

section Rules

theorem Ends.mono {Post Weaker : Except ε α → σ → Prop} (hends : Ends Inv op store Post)
    (hpost : ∀ result left, Post result left → Weaker result left) : Ends Inv op store Weaker :=
  ⟨hends.passed, hpost _ _ hends.post⟩

/-- A computation goes on where the one before it completes. -/
theorem Completes.bind {next : α → Op σ ε β} {Mid : α → σ → Prop}
    {Post : Except ε β → σ → Prop} (hfirst : Completes Inv op store Mid)
    (hnext : ∀ value left, Mid value left → Ends Inv (next value) left Post) :
    Ends Inv (op >>= next) store Post := by
  obtain ⟨hpassed, value, hresult, hmid⟩ := hfirst
  have hbehind := hnext value _ hmid
  have hrun : (op >>= next) store = ⟨(next value (op store).left).result,
      (next value (op store).left).left,
      (op store).passed ++ (next value (op store).left).passed⟩ := by
    change (match (op store).result with
      | .ok value => _
      | .error error => _) = _
    rw [hresult]
  constructor
  · rw [hrun]
    intro found hmem
    rcases List.mem_append.mp hmem with hmem | hmem
    · exact hpassed found hmem
    · exact hbehind.passed found hmem
  · rw [hrun]
    exact hbehind.post

/-- A computation ends where the one before it refuses to go on. -/
theorem Refuses.bind {next : α → Op σ ε β} {error : ε} {Post : σ → Prop}
    (hfirst : Refuses Inv op store error Post) : Refuses Inv (op >>= next) store error Post := by
  obtain ⟨hpassed, hresult, hpost⟩ := hfirst
  have hrun : (op >>= next) store = ⟨.error error, (op store).left, (op store).passed⟩ := by
    change (match (op store).result with
      | .ok value => _
      | .error error => _) = _
    rw [hresult]
  constructor
  · rw [hrun]
    exact hpassed
  · rw [hrun]
    exact ⟨rfl, hpost⟩

theorem completes_pure {value : α} {Post : α → σ → Prop} (hpost : Post value store) :
    Completes Inv (pure value : Op σ ε α) store Post :=
  ⟨fun _ hmem => absurd hmem List.not_mem_nil, value, rfl, hpost⟩

theorem refuses_fail {error : ε} {Post : σ → Prop} (hpost : Post store) :
    Refuses Inv (fail error : Op σ ε α) store error Post :=
  ⟨fun _ hmem => absurd hmem List.not_mem_nil, rfl, hpost⟩

theorem completes_read {look : σ → Except ε α} {value : α} (hlook : look store = .ok value) :
    Completes Inv (read look) store fun found left => found = value ∧ left = store :=
  ⟨fun _ hmem => absurd hmem List.not_mem_nil, value, hlook, rfl, rfl⟩

theorem completes_refuse {condition : Prop} [Decidable condition] {error : ε}
    (hcondition : ¬ condition) :
    Completes Inv (refuse condition error : Op σ ε Unit) store fun _ left => left = store := by
  rw [refuse, if_neg hcondition]
  exact completes_pure rfl

theorem refuses_refuse {condition : Prop} [Decidable condition] {error : ε}
    (hcondition : condition) :
    Refuses Inv (refuse condition error : Op σ ε Unit) store error fun left => left = store := by
  rw [refuse, if_pos hcondition]
  exact refuses_fail rfl

theorem completes_change {through : σ → List σ} (hpassed : ∀ passed ∈ through store, Inv passed) :
    Completes Inv (change through : Op σ ε Unit) store fun _ left =>
      left = (through store).getLastD store :=
  ⟨hpassed, (), rfl, rfl⟩

theorem Completes.zoom {get : σ → τ} {set : σ → τ → σ} {part : Op τ ε α} {Within : τ → Prop}
    {Mid : α → τ → Prop} {Post : α → σ → Prop} (hpart : Completes Within part (get store) Mid)
    (hinside : ∀ found, Within found → Inv (set store found))
    (hpost : ∀ value left, Mid value left → Post value (set store left)) :
    Completes Inv (Op.zoom get set part) store Post := by
  obtain ⟨hpassed, value, hresult, hmid⟩ := hpart
  refine ⟨fun found hmem => ?_, value, hresult, hpost _ _ hmid⟩
  obtain ⟨inner, hinner, rfl⟩ := List.mem_map.mp hmem
  exact hinside inner (hpassed inner hinner)

theorem Completes.mapError {rename : ε → δ} {Post : α → σ → Prop}
    (hcompletes : Completes Inv op store Post) :
    Completes Inv (op.mapError rename) store Post := by
  obtain ⟨hpassed, value, hresult, hpost⟩ := hcompletes
  refine ⟨hpassed, value, ?_, hpost⟩
  rw [Op.mapError, hresult]
  rfl

theorem Completes.clearing {clear : σ → List σ} {Post : α → σ → Prop}
    (hcompletes : Completes Inv op store Post) :
    Completes Inv (op.clearing clear) store Post := by
  obtain ⟨hpassed, value, hresult, hpost⟩ := hcompletes
  have hrun : op.clearing clear store = ⟨.ok value, (op store).left, (op store).passed⟩ := by
    rw [Op.clearing, hresult]
  constructor
  · rw [hrun]
    exact hpassed
  · rw [hrun]
    exact ⟨value, rfl, hpost⟩

theorem Completes.mono {Post Weaker : α → σ → Prop} (hcompletes : Completes Inv op store Post)
    (hpost : ∀ value left, Post value left → Weaker value left) :
    Completes Inv op store Weaker :=
  Ends.mono hcompletes fun _ _ ⟨value, hresult, hvalue⟩ => ⟨value, hresult, hpost _ _ hvalue⟩

/-- Wherever a computation is cut off, the invariant holds. -/
theorem Ends.stopped {Post : Except ε α → σ → Prop} (hends : Ends Inv op store Post)
    (hstore : Inv store) (hleft : ∀ result left, Post result left → Inv left) (point : Nat) :
    Inv (op.stopped point store) := by
  unfold Op.stopped
  cases hfound : (store :: (op store).passed)[point]? with
  | none => exact hleft _ _ hends.post
  | some found =>
      rcases List.mem_cons.mp (List.mem_of_getElem? hfound) with rfl | hmem
      · exact hstore
      · exact hends.passed found hmem

end Rules

/-- What is written piece by piece is written completely in the end. -/
theorem getLastD_inits (pieces : List β) (make : List β → σ) (store : σ) :
    (pieces.inits.map make).getLastD store = make pieces := by
  induction pieces generalizing make store with
  | nil => rfl
  | cons piece pieces ih =>
      rw [List.inits_cons, List.map_cons, List.map_map, List.getLastD_cons]
      exact ih (make ∘ List.cons piece) (make [])

/-- Everything passed through and left keeps the invariant, whether or not the
computation returns a value; a value satisfies the postcondition. -/
structure Preserves (Inv : σ → Prop) (op : Op σ ε α) (store : σ) (Post : α → σ → Prop) :
    Prop where
  passed : ∀ passed ∈ (op store).passed, Inv passed
  left : Inv (op store).left
  post : ∀ value, (op store).result = .ok value → Post value (op store).left

section Preservation

theorem preserves_pure {value : α} {Post : α → σ → Prop} (hstore : Inv store)
    (hpost : Post value store) : Preserves Inv (pure value : Op σ ε α) store Post where
  passed _ hmem := absurd hmem List.not_mem_nil
  left := hstore
  post := by
    rintro _ ⟨⟩
    exact hpost

theorem preserves_fail {error : ε} {Post : α → σ → Prop} (hstore : Inv store) :
    Preserves Inv (fail error : Op σ ε α) store Post where
  passed _ hmem := absurd hmem List.not_mem_nil
  left := hstore
  post := nofun

theorem preserves_read {look : σ → Except ε α} (hstore : Inv store) :
    Preserves Inv (read look) store fun value left => look store = .ok value ∧ left = store where
  passed _ hmem := absurd hmem List.not_mem_nil
  left := hstore
  post _ hvalue := ⟨hvalue, rfl⟩

theorem preserves_refuse {condition : Prop} [Decidable condition] {error : ε}
    (hstore : Inv store) :
    Preserves Inv (refuse condition error : Op σ ε Unit) store fun _ left =>
      ¬ condition ∧ left = store := by
  rw [refuse]
  by_cases hcondition : condition
  · rw [if_pos hcondition]
    exact preserves_fail hstore
  · rw [if_neg hcondition]
    exact preserves_pure hstore ⟨hcondition, rfl⟩

theorem preserves_change {through : σ → List σ} (hstore : Inv store)
    (hpassed : ∀ passed ∈ through store, Inv passed) :
    Preserves Inv (change through : Op σ ε Unit) store fun _ left =>
      left = (through store).getLastD store where
  passed := hpassed
  left := by
    change Inv ((through store).getLastD store)
    cases hthrough : through store with
    | nil => exact hstore
    | cons first rest =>
        rw [List.getLastD_cons, List.getLastD_eq_getLast?]
        rw [hthrough] at hpassed
        cases hlast : rest.getLast? with
        | none => exact hpassed first List.mem_cons_self
        | some found =>
            exact hpassed found (List.mem_cons_of_mem _ (List.mem_of_getLast? hlast))
  post _ _ := rfl

theorem Preserves.bind {next : α → Op σ ε β} {Mid : α → σ → Prop} {Post : β → σ → Prop}
    (hfirst : Preserves Inv op store Mid)
    (hnext : ∀ value left, Inv left → Mid value left → Preserves Inv (next value) left Post) :
    Preserves Inv (op >>= next) store Post := by
  have hrun : (op >>= next) store = match (op store).result with
      | .ok value => ⟨(next value (op store).left).result, (next value (op store).left).left,
          (op store).passed ++ (next value (op store).left).passed⟩
      | .error error => ⟨.error error, (op store).left, (op store).passed⟩ := rfl
  cases hresult : (op store).result with
  | error error =>
      rw [hresult] at hrun
      refine ⟨?_, ?_, ?_⟩
      · rw [hrun]
        exact hfirst.passed
      · rw [hrun]
        exact hfirst.left
      · rw [hrun]
        exact nofun
  | ok value =>
      rw [hresult] at hrun
      have hbehind := hnext value _ hfirst.left (hfirst.post value hresult)
      refine ⟨?_, ?_, ?_⟩
      · rw [hrun]
        intro found hmem
        rcases List.mem_append.mp hmem with hmem | hmem
        · exact hfirst.passed found hmem
        · exact hbehind.passed found hmem
      · rw [hrun]
        exact hbehind.left
      · rw [hrun]
        exact hbehind.post

theorem Preserves.mono {Post Weaker : α → σ → Prop} (hpreserves : Preserves Inv op store Post)
    (hpost : ∀ value left, Inv left → Post value left → Weaker value left) :
    Preserves Inv op store Weaker :=
  ⟨hpreserves.passed, hpreserves.left, fun value hvalue =>
    hpost value _ hpreserves.left (hpreserves.post value hvalue)⟩

/-- What keeps an invariant keeps any weaker one. -/
theorem Preserves.weaken {Wider : σ → Prop} {Post : α → σ → Prop}
    (hpreserves : Preserves Inv op store Post) (hwider : ∀ found, Inv found → Wider found) :
    Preserves Wider op store Post where
  passed found hmem := hwider found (hpreserves.passed found hmem)
  left := hwider _ hpreserves.left
  post := hpreserves.post

/-- Behind the computation its own invariant is known besides the weaker one. -/
theorem Preserves.within {Wider : σ → Prop} {Post : α → σ → Prop}
    (hpreserves : Preserves Inv op store Post) (hwider : ∀ found, Inv found → Wider found) :
    Preserves Wider op store fun value left => Inv left ∧ Post value left :=
  (hpreserves.mono fun _ _ hleft hpost => ⟨hleft, hpost⟩).weaken hwider

theorem Preserves.mapError {rename : ε → δ} {Post : α → σ → Prop}
    (hpreserves : Preserves Inv op store Post) : Preserves Inv (op.mapError rename) store Post := by
  refine ⟨hpreserves.passed, hpreserves.left, fun value hvalue => hpreserves.post value ?_⟩
  change (op store).result.mapError rename = .ok value at hvalue
  cases hresult : (op store).result with
  | error error =>
      rw [hresult] at hvalue
      cases hvalue
  | ok found =>
      rw [hresult] at hvalue
      exact congrArg _ (Except.ok.inj hvalue)

/-- What is cleared away behind a failure keeps the invariant too. -/
theorem Preserves.clearing {clear : σ → List σ} {Post : α → σ → Prop}
    (hpreserves : Preserves Inv op store Post)
    (hclear : ∀ found, Inv found → ∀ cleared ∈ clear found, Inv cleared) :
    Preserves Inv (op.clearing clear) store Post := by
  have hrun : op.clearing clear store = match (op store).result with
      | .ok value => ⟨.ok value, (op store).left, (op store).passed⟩
      | .error error => ⟨.error error, (clear (op store).left).getLastD (op store).left,
          (op store).passed ++ clear (op store).left⟩ := rfl
  cases hresult : (op store).result with
  | ok value =>
      rw [hresult] at hrun
      refine ⟨?_, ?_, ?_⟩
      · rw [hrun]
        exact hpreserves.passed
      · rw [hrun]
        exact hpreserves.left
      · rw [hrun]
        rintro _ ⟨⟩
        exact hpreserves.post value hresult
  | error error =>
      rw [hresult] at hrun
      have hchange := preserves_change (ε := ε) hpreserves.left (hclear _ hpreserves.left)
      refine ⟨?_, ?_, ?_⟩
      · rw [hrun]
        intro found hmem
        rcases List.mem_append.mp hmem with hmem | hmem
        · exact hpreserves.passed found hmem
        · exact hclear _ hpreserves.left found hmem
      · rw [hrun]
        exact hchange.left
      · rw [hrun]
        exact nofun

/-- Work on a part keeps what its own invariant says of the whole. -/
theorem Preserves.zoom {get : σ → τ} {set : σ → τ → σ} {part : Op τ ε α} {Within : τ → Prop}
    {Mid : α → τ → Prop} {Post : α → σ → Prop} (hpart : Preserves Within part (get store) Mid)
    (hinside : ∀ found, Within found → Inv (set store found))
    (hpost : ∀ value left, Within left → Mid value left → Post value (set store left)) :
    Preserves Inv (Op.zoom get set part) store Post where
  passed found hmem := by
    obtain ⟨inner, hinner, rfl⟩ := List.mem_map.mp hmem
    exact hinside inner (hpart.passed inner hinner)
  left := hinside _ hpart.left
  post value hvalue := hpost value _ hpart.left (hpart.post value hvalue)

/-- Work on a part keeps an invariant that says nothing about the part. -/
theorem preserves_zoom {get : σ → τ} {set : σ → τ → σ} {part : Op τ ε α}
    (hinside : ∀ found, Inv (set store found)) :
    Preserves Inv (Op.zoom get set part) store fun _ _ => True where
  passed found hmem := by
    obtain ⟨inner, -, rfl⟩ := List.mem_map.mp hmem
    exact hinside inner
  left := hinside _
  post _ _ := trivial

/-- From every store of an invariant on, a computation keeps it. -/
def Steady (Inv : σ → Prop) (op : Op σ ε α) : Prop :=
  ∀ ⦃store⦄, Inv store → Preserves Inv op store fun _ _ => True

theorem steady_pure (value : α) : Steady Inv (pure value : Op σ ε α) :=
  fun _ hstore => preserves_pure hstore trivial

theorem steady_fail (error : ε) : Steady Inv (fail error : Op σ ε α) :=
  fun _ hstore => preserves_fail hstore

theorem steady_read (look : σ → Except ε α) : Steady Inv (read look) :=
  fun _ hstore => (preserves_read hstore).mono fun _ _ _ _ => trivial

theorem steady_refuse (condition : Prop) [Decidable condition] (error : ε) :
    Steady Inv (refuse condition error : Op σ ε Unit) :=
  fun _ hstore => (preserves_refuse hstore).mono fun _ _ _ _ => trivial

theorem Steady.bind {next : α → Op σ ε β} (hfirst : Steady Inv op)
    (hnext : ∀ value, Steady Inv (next value)) : Steady Inv (op >>= next) := by
  intro store hstore
  refine (hfirst hstore).bind ?_
  rintro value _ hleft -
  exact hnext value hleft

theorem Preserves.stopped {Post : α → σ → Prop} (hpreserves : Preserves Inv op store Post)
    (hstore : Inv store) (point : Nat) : Inv (op.stopped point store) := by
  unfold Op.stopped
  cases hfound : (store :: (op store).passed)[point]? with
  | none => exact hpreserves.left
  | some found =>
      rcases List.mem_cons.mp (List.mem_of_getElem? hfound) with rfl | hmem
      · exact hstore
      · exact hpreserves.passed found hmem

end Preservation

end EliotSearch.Library.Crash
