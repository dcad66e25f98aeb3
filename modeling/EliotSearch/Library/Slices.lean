import EliotSearch.Library.Hex
import EliotSearch.Library.Utf8

/-!
# Slices

The part of a list between two indices, which is absent unless the indices are
in order and within the list.  A part of a part is a part of the whole, and the
hexadecimal spelling of a part is a part of the spelling.
-/

namespace EliotSearch.Library.Slices

open EliotSearch.Library.Hex
open EliotSearch.Library.Utf8
open EliotSearch.Library.Words

variable {α : Type}

/-- The part of a list between two indices in order. -/
def slice (values : List α) (start stop : Nat) : Option (List α) :=
  if start ≤ stop ∧ stop ≤ values.length then some ((values.take stop).drop start) else none

theorem slice_eq_some {values part : List α} {start stop : Nat} :
    slice values start stop = some part ↔
      start ≤ stop ∧ stop ≤ values.length ∧ part = (values.take stop).drop start := by
  unfold slice
  constructor
  · intro hfound
    split at hfound
    · rename_i hrange
      exact ⟨hrange.1, hrange.2, (Option.some.inj hfound).symm⟩
    · cases hfound
  · rintro ⟨hle, hwithin, rfl⟩
    exact if_pos ⟨hle, hwithin⟩

theorem slice_length {values part : List α} {start stop : Nat}
    (hslice : slice values start stop = some part) : part.length = stop - start := by
  obtain ⟨-, hwithin, rfl⟩ := slice_eq_some.mp hslice
  rw [List.length_drop, List.length_take, min_eq_left hwithin]

/-- Cutting twice is cutting once. -/
theorem take_drop_within (values : List α) {first last start stop : Nat} (hfirst : first ≤ start)
    (hlast : stop ≤ last) :
    (((values.take last).drop first).take (stop - first)).drop (start - first) =
      (values.take stop).drop start := by
  rw [List.drop_take, List.drop_take, List.drop_take, List.drop_take, List.take_take,
    List.drop_drop]
  congr 1
  · omega
  · rw [Nat.add_sub_cancel' hfirst]

/-- A part within a part is a part of the whole. -/
theorem slice_within {values outer inner : List α} {first last start stop : Nat}
    (houter : slice values first last = some outer) (hinner : slice values start stop = some inner)
    (hfirst : first ≤ start) (hlast : stop ≤ last) :
    slice outer (start - first) (stop - first) = some inner := by
  have hlength := slice_length houter
  obtain ⟨-, -, rfl⟩ := slice_eq_some.mp houter
  obtain ⟨hle, -, rfl⟩ := slice_eq_some.mp hinner
  refine slice_eq_some.mpr ⟨by omega, by omega, ?_⟩
  exact (take_drop_within values hfirst hlast).symm

/-- The spelling of a part is a part of the spelling. -/
theorem slice_hex {bytes part : Bytes} {start stop : Nat}
    (hslice : slice bytes start stop = some part) :
    slice (hex bytes) (start * 2) (stop * 2) = some (hex part) := by
  obtain ⟨hle, hwithin, rfl⟩ := slice_eq_some.mp hslice
  refine slice_eq_some.mpr ⟨by omega, by rw [hex_length]; omega, ?_⟩
  rw [Nat.mul_comm start, Nat.mul_comm stop, hex_take, hex_drop]

/-! ## Texts -/

/-- A boundary of a text is one of its parts. -/
theorem boundary_within {bytes : Bytes} {first last index : Nat}
    (hindex : IsBoundary bytes index) (hfirst : first ≤ index) (hlast : index ≤ last)
    (hwithin : last ≤ bytes.length) :
    IsBoundary ((bytes.take last).drop first) (index - first) := by
  have hlength : ((bytes.take last).drop first).length = last - first := by
    rw [List.length_drop, List.length_take, min_eq_left hwithin]
  rcases hlast.eq_or_lt with rfl | hinside
  · exact Or.inl hlength.symm
  · rcases hindex with rfl | ⟨byte, hbyte, hstarts⟩
    · omega
    · refine Or.inr ⟨byte, ?_, hstarts⟩
      rw [List.getElem?_drop, Nat.add_sub_cancel' hfirst, List.getElem?_take_of_lt hinside]
      exact hbyte

/-- A part of a text is a part of its bytes. -/
theorem slice_of_get {text part : Text} {start stop : Nat}
    (hget : text.get start stop = some part) : slice text.bytes start stop = some part.bytes := by
  obtain ⟨hle, -, hstop, hbytes⟩ := Text.get_eq_some.mp hget
  exact slice_eq_some.mpr ⟨hle, hstop.le, hbytes⟩

/-- A part of a text within a part of it is found there. -/
theorem get_within {text outer inner : Text} {first last start stop : Nat}
    (houter : text.get first last = some outer) (hinner : text.get start stop = some inner)
    (hfirst : first ≤ start) (hlast : stop ≤ last) :
    outer.get (start - first) (stop - first) = some inner := by
  obtain ⟨-, -, hend, houterBytes⟩ := Text.get_eq_some.mp houter
  obtain ⟨hle, hstart, hstop, hinnerBytes⟩ := Text.get_eq_some.mp hinner
  refine Text.get_eq_some.mpr ⟨by omega, ?_, ?_, ?_⟩
  · rw [houterBytes]
    exact boundary_within hstart hfirst (hle.trans hlast) hend.le
  · rw [houterBytes]
    exact boundary_within hstop (hfirst.trans hle) hlast hend.le
  · rw [houterBytes, hinnerBytes, take_drop_within _ hfirst hlast]

end EliotSearch.Library.Slices
