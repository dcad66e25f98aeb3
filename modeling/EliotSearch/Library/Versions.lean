import Mathlib.Tactic.Common

/-!
# Versioned contents

A store carries a content and a version that may be unreadable.  Along an
honest history each step either keeps both or strictly raises the version, so
equal versions imply equal contents: there is no A-B-A.  A snapshot is a fact
about the content as it was at one version.
-/

namespace EliotSearch.Library

/-- How a version and a content are read off a state. -/
structure Versioned (σ γ : Type) where
  version : σ → Option ℕ
  content : σ → γ

namespace Versioned

variable {σ γ : Type} (store : Versioned σ γ)

/-- The later state has the same version and content, or a larger version. -/
def Evolves (before after : σ) : Prop :=
  (store.version after = store.version before ∧ store.content after = store.content before) ∨
    ∃ old new, store.version before = some old ∧ store.version after = some new ∧ old < new

variable {store}

theorem Evolves.refl (state : σ) : store.Evolves state state :=
  Or.inl ⟨rfl, rfl⟩

theorem Evolves.trans {first second third : σ} (hfirst : store.Evolves first second)
    (hsecond : store.Evolves second third) : store.Evolves first third := by
  rcases hfirst with ⟨hversion, hcontent⟩ | ⟨old, middle, hold, hmiddle, hlt⟩
  · rcases hsecond with ⟨hversion', hcontent'⟩ | ⟨old, new, hold, hnew, hlt⟩
    · exact Or.inl ⟨hversion'.trans hversion, hcontent'.trans hcontent⟩
    · exact Or.inr ⟨old, new, hversion ▸ hold, hnew, hlt⟩
  · rcases hsecond with ⟨hversion, _⟩ | ⟨middle', new, hmiddle', hnew, hlt'⟩
    · exact Or.inr ⟨old, middle, hold, hversion.trans hmiddle, hlt⟩
    · rw [hmiddle] at hmiddle'
      obtain rfl := Option.some.inj hmiddle'
      exact Or.inr ⟨old, new, hold, hnew, Nat.lt_trans hlt hlt'⟩

/-- Equal versions along a history imply equal contents. -/
theorem Evolves.content_eq {before after : σ} (hevolves : store.Evolves before after)
    (hversion : store.version after = store.version before) :
    store.content after = store.content before := by
  rcases hevolves with ⟨_, hcontent⟩ | ⟨old, new, hold, hnew, hlt⟩
  · exact hcontent
  · rw [hold, hnew] at hversion
    exact absurd (Option.some.inj hversion) (Nat.ne_of_gt hlt)

theorem Evolves.version_le {before after : σ} {old : ℕ} (hevolves : store.Evolves before after)
    (hold : store.version before = some old) :
    ∃ new, store.version after = some new ∧ old ≤ new := by
  rcases hevolves with ⟨hversion, _⟩ | ⟨old', new, hold', hnew, hlt⟩
  · exact ⟨old, hversion.trans hold, Nat.le_refl old⟩
  · rw [hold] at hold'
    obtain rfl := Option.some.inj hold'
    exact ⟨new, hnew, Nat.le_of_lt hlt⟩

/-- Between two states of one version nothing changes. -/
theorem Evolves.squeeze {first second third : σ} {version : ℕ}
    (hfirst : store.Evolves first second) (hsecond : store.Evolves second third)
    (hversion : store.version first = some version) (hthird : store.version third = some version) :
    store.version second = some version ∧ store.content second = store.content first := by
  obtain ⟨middle, hmiddle, hle⟩ := hfirst.version_le hversion
  obtain ⟨last, hlast, hle'⟩ := hsecond.version_le hmiddle
  rw [hthird] at hlast
  obtain rfl := Option.some.inj hlast
  obtain rfl := Nat.le_antisymm hle hle'
  exact ⟨hmiddle, hfirst.content_eq (hmiddle.trans hversion.symm)⟩

variable (store)

/-- The content satisfied `Fact` at the given version, which is not in the
future; while the version stays, so does the fact. -/
def Snapshot (state : σ) (version : ℕ) (Fact : γ → Prop) : Prop :=
  ∃ now, store.version state = some now ∧ version ≤ now ∧
    (version = now → Fact (store.content state))

variable {store}

theorem Snapshot.taken {state : σ} {version : ℕ} {Fact : γ → Prop}
    (hversion : store.version state = some version) (hfact : Fact (store.content state)) :
    store.Snapshot state version Fact :=
  ⟨version, hversion, Nat.le_refl version, fun _ => hfact⟩

theorem Snapshot.evolves {before after : σ} {version : ℕ} {Fact : γ → Prop}
    (hsnapshot : store.Snapshot before version Fact) (hevolves : store.Evolves before after) :
    store.Snapshot after version Fact := by
  obtain ⟨now, hnow, hle, hfact⟩ := hsnapshot
  rcases hevolves with ⟨hversion, hcontent⟩ | ⟨old, new, hold, hnew, hlt⟩
  · exact ⟨now, hversion.trans hnow, hle, fun heq => hcontent ▸ hfact heq⟩
  · rw [hnow] at hold
    obtain rfl := Option.some.inj hold
    exact ⟨new, hnew, Nat.le_of_lt (Nat.lt_of_le_of_lt hle hlt),
      fun heq => absurd heq (Nat.ne_of_lt (Nat.lt_of_le_of_lt hle hlt))⟩

theorem Snapshot.fact {state : σ} {version : ℕ} {Fact : γ → Prop}
    (hsnapshot : store.Snapshot state version Fact)
    (hversion : store.version state = some version) : Fact (store.content state) := by
  obtain ⟨now, hnow, _, hfact⟩ := hsnapshot
  rw [hversion] at hnow
  exact hfact (Option.some.inj hnow)

end Versioned

end EliotSearch.Library
