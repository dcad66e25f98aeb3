import EliotSearch.Library.Results

/-!
# Indexed access

Loops that index slices and arrays, where an index that is out of range is an
outcome of its own.  A loop that never meets it computes what the lists alone
give.
-/

namespace EliotSearch.Library.Indexing

open EliotSearch.Library.Results

/-- What can end an indexed computation. -/
inductive Abort (ε : Type) where
  | outOfRange
  | unending
  | failed (reason : ε)
  deriving DecidableEq

variable {ε α β : Type}

/-- The result of a computation that stays in range. -/
def inRange (result : Except ε α) : Except (Abort ε) α := result.mapError Abort.failed

def readAt (values : List α) (index : Nat) : Except (Abort ε) α := okOr values[index]? .outOfRange

def writeAt (values : List α) (index : Nat) (value : α) : Except (Abort ε) (List α) :=
  if index < values.length then .ok (values.set index value) else .error .outOfRange

/-- A difference of two positions, which may not be negative. -/
def minus (first second : Nat) : Except (Abort ε) Nat :=
  if second ≤ first then .ok (first - second) else .error .outOfRange

/-- The elements from one position up to another. -/
def slice (values : List α) (start stop : Nat) : Except (Abort ε) (List α) :=
  if start ≤ stop ∧ stop ≤ values.length then .ok ((values.drop start).take (stop - start))
  else .error .outOfRange

/-- Overwrite the elements from one position up to another by as many. -/
def copyInto (values : List α) (start stop : Nat) (source : List α) :
    Except (Abort ε) (List α) :=
  if start ≤ stop ∧ stop ≤ values.length ∧ source.length = stop - start then
    .ok (values.take start ++ source ++ values.drop stop)
  else .error .outOfRange

theorem readAt_ok {values : List α} {index : Nat} {value : α}
    (hvalue : values[index]? = some value) :
    (readAt values index : Except (Abort ε) α) = .ok value := by
  rw [readAt, hvalue, okOr_some]

theorem minus_ok {first second : Nat} (hle : second ≤ first) :
    (minus first second : Except (Abort ε) Nat) = .ok (first - second) :=
  if_pos hle

theorem slice_ok {values : List α} {start stop : Nat} (hstart : start ≤ stop)
    (hstop : stop ≤ values.length) :
    (slice values start stop : Except (Abort ε) (List α)) =
      .ok ((values.drop start).take (stop - start)) :=
  if_pos ⟨hstart, hstop⟩

/-- The front of an array is followed by what is copied behind it. -/
theorem copyInto_append {front source rest : List α} (hsource : source.length ≤ rest.length) :
    (copyInto (front ++ rest) front.length (front.length + source.length) source :
        Except (Abort ε) (List α)) = .ok (front ++ source ++ rest.drop source.length) := by
  have hbound : front.length + source.length ≤ (front ++ rest).length := by
    rw [List.length_append]
    exact Nat.add_le_add_left hsource _
  rw [copyInto, if_pos ⟨Nat.le_add_right _ _, hbound, (Nat.add_sub_cancel_left _ _).symm⟩,
    List.take_left, List.drop_append, List.drop_of_length_le (Nat.le_add_right _ _),
    Nat.add_sub_cancel_left, List.nil_append]

@[simp]
theorem inRange_ok (value : α) : (inRange (.ok value) : Except (Abort ε) α) = .ok value :=
  rfl

@[simp]
theorem inRange_error (reason : ε) :
    (inRange (.error reason) : Except (Abort ε) α) = .error (.failed reason) :=
  rfl

end EliotSearch.Library.Indexing
