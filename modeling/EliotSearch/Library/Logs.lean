import Mathlib.Tactic.Common

/-!
# Logs of justified events

A log grows at its end.  It is justified when each event was allowed by the
events before it, so a fact about the last event of a growing log becomes a
fact about every position of the whole log.
-/

namespace EliotSearch.Library

/-- Every event of the log was allowed by the events before it. -/
def Justified {ε : Type} (Allowed : List ε → ε → Prop) (log : List ε) : Prop :=
  ∀ before event after, log = before ++ event :: after → Allowed before event

namespace Justified

variable {ε : Type} {Allowed : List ε → ε → Prop} {log : List ε}

theorem nil : Justified Allowed [] := by
  intro before event after hsplit
  cases before <;> cases hsplit

/-- A justified log stays justified when it grows by an allowed event. -/
theorem concat (hlog : Justified Allowed log) {last : ε} (hlast : Allowed log last) :
    Justified Allowed (log ++ [last]) := by
  intro before event after hsplit
  rcases List.eq_nil_or_concat after with rfl | ⟨rest, final, rfl⟩
  · obtain ⟨rfl, hevent⟩ := List.append_inj' hsplit rfl
    obtain rfl : last = event := by simpa using hevent
    exact hlast
  · rw [List.concat_eq_append, ← List.cons_append, ← List.append_assoc] at hsplit
    obtain ⟨hhead, -⟩ := List.append_inj' hsplit rfl
    exact hlog before event rest hhead

/-- The log grows by at most one event. -/
theorem append_toList (hlog : Justified Allowed log) {last : Option ε}
    (hlast : ∀ event ∈ last, Allowed log event) : Justified Allowed (log ++ last.toList) := by
  cases last with
  | none => simpa using hlog
  | some event => exact hlog.concat (hlast event rfl)

theorem mono {Wider : List ε → ε → Prop} (hlog : Justified Allowed log)
    (himplies : ∀ before event, Allowed before event → Wider before event) :
    Justified Wider log :=
  fun before event after hsplit => himplies before event (hlog before event after hsplit)

/-- Of two distinct positions of a log one comes first. -/
theorem ordered {first second : ε} {Related : ε → ε → Prop}
    (hlog : Justified (fun before event => ∀ earlier ∈ before, Related earlier event) log)
    (hfirst : first ∈ log) (hsecond : second ∈ log) :
    first = second ∨ Related first second ∨ Related second first := by
  obtain ⟨before, after, rfl⟩ := List.append_of_mem hfirst
  rcases List.mem_append.mp hsecond with hbefore | hrest
  · exact Or.inr (Or.inr (hlog before first after rfl second hbefore))
  · rcases List.mem_cons.mp hrest with rfl | hafter
    · exact Or.inl rfl
    · obtain ⟨middle, rest, rfl⟩ := List.append_of_mem hafter
      refine Or.inr (Or.inl (hlog (before ++ first :: middle) second rest (by simp) first ?_))
      exact List.mem_append_right _ List.mem_cons_self

end Justified

end EliotSearch.Library
