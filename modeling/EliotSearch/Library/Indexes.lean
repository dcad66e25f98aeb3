import Mathlib.Tactic.Common

/-!
# Inverse indexes

Rows stored by key and an index that maps a label of each row back to its key
are inverse to each other when every row is indexed and every index entry names
such a row.  The rules below keep this under the two point updates: writing a
row together with its index entry, and erasing both.
-/

namespace EliotSearch.Library

/-- Every row is indexed under its label, and every label names such a row. -/
structure Inverse {κ ν ι : Type} (label : ν → ι) (rows : κ → Option ν) (index : ι → Option κ) :
    Prop where
  indexed : ∀ {key value}, rows key = some value → index (label value) = some key
  stored : ∀ {name key}, index name = some key → ∃ value, rows key = some value ∧
    label value = name

namespace Inverse

variable {κ ν ι : Type} [DecidableEq κ] [DecidableEq ι] {label : ν → ι}
  {rows rows' : κ → Option ν} {index index' : ι → Option κ}

omit [DecidableEq κ] [DecidableEq ι] in
theorem empty : Inverse label (fun _ : κ => none) (fun _ : ι => none) := by
  constructor
  · intro key value hrow
    cases hrow
  · intro name key hname
    cases hname

omit [DecidableEq κ] [DecidableEq ι] in
/-- Two rows with one label have one key. -/
theorem key_eq (hinverse : Inverse label rows index) {first second : κ} {left right : ν}
    (hfirst : rows first = some left) (hsecond : rows second = some right)
    (hlabel : label left = label right) : first = second := by
  have hindex := hinverse.indexed hfirst
  rw [hlabel, hinverse.indexed hsecond] at hindex
  exact (Option.some.inj hindex).symm

/-- Write a row and its index entry.  The label is free or already names the
key, and a row that is replaced carries the same label. -/
theorem insert (hinverse : Inverse label rows index) {key : κ} {value : ν}
    (hkeeps : ∀ {old}, rows key = some old → label old = label value)
    (hfree : ∀ {other}, index (label value) = some other → other = key)
    (hrows : ∀ other, rows' other = if key = other then some value else rows other)
    (hindex : ∀ name, index' name = if label value = name then some key else index name) :
    Inverse label rows' index' := by
  constructor
  · intro other found hfound
    rw [hrows] at hfound
    rw [hindex]
    split at hfound
    · rename_i hsame
      obtain rfl := Option.some.inj hfound
      rw [if_pos rfl, hsame]
    · rename_i hother
      have hlabel : label value ≠ label found := by
        intro heq
        have howner := hinverse.indexed hfound
        exact hother (hfree (heq ▸ howner)).symm
      rw [if_neg hlabel]
      exact hinverse.indexed hfound
  · intro name other hname
    rw [hindex] at hname
    split at hname
    · rename_i hsame
      obtain rfl := Option.some.inj hname
      exact ⟨value, by rw [hrows, if_pos rfl], hsame⟩
    · rename_i hother
      obtain ⟨found, hfound, hlabel⟩ := hinverse.stored hname
      have hkey : key ≠ other := by
        rintro rfl
        exact hother ((hkeeps hfound).symm.trans hlabel)
      exact ⟨found, by rw [hrows, if_neg hkey, hfound], hlabel⟩

/-- Erase a row and its index entry. -/
theorem erase (hinverse : Inverse label rows index) {key : κ} {value : ν}
    (hvalue : rows key = some value)
    (hrows : ∀ other, rows' other = if key = other then none else rows other)
    (hindex : ∀ name, index' name = if label value = name then none else index name) :
    Inverse label rows' index' := by
  constructor
  · intro other found hfound
    rw [hrows] at hfound
    split at hfound
    · cases hfound
    · rename_i hother
      have hlabel : label value ≠ label found :=
        fun heq => hother (hinverse.key_eq hvalue hfound heq)
      rw [hindex, if_neg hlabel]
      exact hinverse.indexed hfound
  · intro name other hname
    rw [hindex] at hname
    split at hname
    · cases hname
    · rename_i hother
      obtain ⟨found, hfound, hlabel⟩ := hinverse.stored hname
      have hkey : key ≠ other := by
        rintro rfl
        rw [hvalue] at hfound
        obtain rfl := Option.some.inj hfound
        exact hother hlabel
      exact ⟨found, by rw [hrows, if_neg hkey, hfound], hlabel⟩

end Inverse

end EliotSearch.Library
