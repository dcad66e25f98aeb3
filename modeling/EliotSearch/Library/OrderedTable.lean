import Std.Data.ExtTreeMap
import Mathlib.Data.List.Infix
import EliotSearch.Library.Results
import EliotSearch.Library.Words

/-!
# Ordered tables of byte strings

A table maps byte-string keys to byte-string values and lists its rows in
lexicographic key order.  The rows of one key prefix are contiguous in that
order, so the range scan that starts at the prefix and stops at the first
foreign key visits exactly them.
-/

namespace EliotSearch.Library

/-- An ordered key/value table; two tables with equal rows are equal. -/
abbrev Table := Std.ExtTreeMap Bytes Bytes compare

namespace Table

/-! ## Point updates -/

theorem get_insert (table : Table) (key value other : Bytes) :
    (table.insert key value)[other]? = if key = other then some value else table[other]? := by
  simp only [Std.ExtTreeMap.getElem?_insert, Std.LawfulEqCmp.compare_eq_iff_eq]

theorem get_insert_self (table : Table) (key value : Bytes) :
    (table.insert key value)[key]? = some value := by
  rw [get_insert, if_pos rfl]

theorem get_insert_of_ne (table : Table) {key other : Bytes} (value : Bytes)
    (hne : key ≠ other) : (table.insert key value)[other]? = table[other]? := by
  simp [get_insert, hne]

theorem get_erase (table : Table) (key other : Bytes) :
    (table.erase key)[other]? = if key = other then none else table[other]? := by
  simp only [Std.ExtTreeMap.getElem?_erase, Std.LawfulEqCmp.compare_eq_iff_eq]

theorem get_erase_of_ne (table : Table) {key other : Bytes} (hne : key ≠ other) :
    (table.erase key)[other]? = table[other]? := by
  simp [get_erase, hne]

@[simp]
theorem get_empty (key : Bytes) : (∅ : Table)[key]? = none := by
  simp

/-! ## Rows in key order -/

theorem mem_rows {table : Table} {key value : Bytes} :
    (key, value) ∈ table.toList ↔ table[key]? = some value :=
  Std.ExtTreeMap.mem_toList_iff_getElem?_eq_some

theorem rows_sorted (table : Table) :
    table.toList.Pairwise (fun first second => compare first.1 second.1 = .lt) :=
  Std.ExtTreeMap.ordered_keys_toList

@[simp]
theorem rows_empty : (∅ : Table).toList = [] := by
  rw [List.eq_nil_iff_forall_not_mem]
  rintro ⟨key, value⟩ hmem
  rw [mem_rows, get_empty] at hmem
  cases hmem

theorem keys_nodup (table : Table) : (table.toList.map Prod.fst).Nodup := by
  rw [List.Nodup, List.pairwise_map]
  refine (rows_sorted table).imp fun hlt heq => ?_
  rw [heq, Std.ReflOrd.compare_self] at hlt
  cases hlt

theorem rows_nodup (table : Table) : table.toList.Nodup :=
  List.Nodup.of_map _ (keys_nodup table)

/-- The rows whose key is not the given one. -/
def others (table : Table) (key : Bytes) : List (Bytes × Bytes) :=
  table.toList.filter fun row => row.1 ≠ key

theorem mem_others {table : Table} {key other value : Bytes} :
    (other, value) ∈ others table key ↔ table[other]? = some value ∧ other ≠ key := by
  rw [others, List.mem_filter, mem_rows, decide_eq_true_eq]

theorem rows_insert (table : Table) (key value : Bytes) :
    (table.insert key value).toList.Perm ((key, value) :: others table key) := by
  have hfresh : (key, value) ∉ others table key := fun hmem => (mem_others.mp hmem).2 rfl
  have hnodup : ((key, value) :: others table key).Nodup :=
    List.nodup_cons.mpr ⟨hfresh, (rows_nodup table).filter _⟩
  rw [List.perm_ext_iff_of_nodup (rows_nodup _) hnodup]
  rintro ⟨other, found⟩
  rw [mem_rows, get_insert, List.mem_cons, mem_others]
  split
  · rename_i hsame
    subst hsame
    simp [eq_comm]
  · rename_i hother
    have hne : other ≠ key := fun heq => hother heq.symm
    simp [hne]

theorem rows_erase (table : Table) (key : Bytes) :
    (table.erase key).toList.Perm (others table key) := by
  have hnodup : (others table key).Nodup := (rows_nodup table).filter _
  rw [List.perm_ext_iff_of_nodup (rows_nodup _) hnodup]
  rintro ⟨other, found⟩
  rw [mem_rows, get_erase, mem_others]
  split
  · rename_i hsame
    subst hsame
    simp
  · rename_i hother
    have hne : other ≠ key := fun heq => hother heq.symm
    simp [hne]

theorem rows_of_get {table : Table} {key value : Bytes} (hvalue : table[key]? = some value) :
    table.toList.Perm ((key, value) :: others table key) := by
  have hsame : table.insert key value = table := by
    apply Std.ExtTreeMap.ext_getElem?
    intro other
    rw [get_insert]
    split
    · rename_i hkey
      rw [← hkey, hvalue]
    · rfl
  have hrows := rows_insert table key value
  rwa [hsame] at hrows

theorem others_of_get_none {table : Table} {key : Bytes} (hnone : table[key]? = none) :
    others table key = table.toList := by
  rw [others, List.filter_eq_self]
  rintro ⟨other, value⟩ hmem
  rw [decide_eq_true_eq]
  rintro rfl
  rw [mem_rows, hnone] at hmem
  cases hmem

/-- The rows at or after a key, in key order. -/
def rowsFrom (table : Table) (start : Bytes) : List (Bytes × Bytes) :=
  table.toList.dropWhile (fun row => compare row.1 start == .lt)

/-- The rows visited by a range scan that stops at the first foreign key. -/
def scan (table : Table) (stem : Bytes) : List (Bytes × Bytes) :=
  (rowsFrom table stem).takeWhile (fun row => stem.isPrefixOf row.1)

/-! ## Prefixes are contiguous -/

theorem compare_append_left (stem left right : Bytes) :
    compare (stem ++ left) (stem ++ right) = compare left right := by
  induction stem with
  | nil => rfl
  | cons byte stem ih =>
      rw [List.cons_append, List.cons_append, List.compare_cons_cons, Std.ReflOrd.compare_self,
        Ordering.eq_then, ih]

theorem not_lt_of_prefix {stem key : Bytes} (hstem : stem <+: key) :
    compare key stem ≠ .lt := by
  induction stem generalizing key with
  | nil => cases key <;> simp
  | cons byte stem ih =>
      obtain ⟨rest, rfl⟩ := hstem
      rw [List.cons_append, List.compare_cons_cons]
      simpa using ih ⟨rest, rfl⟩

/-- A key past the stem and outside it is past every key inside it. -/
theorem lt_of_outside {stem inside outside : Bytes} (hpast : compare outside stem ≠ .lt)
    (houtside : ¬ stem <+: outside) (hinside : stem <+: inside) :
    compare inside outside = .lt := by
  induction stem generalizing inside outside with
  | nil => exact absurd List.nil_prefix houtside
  | cons byte stem ih =>
      obtain ⟨rest, rfl⟩ := hinside
      cases outside with
      | nil => simp at hpast
      | cons first outside =>
          rw [List.compare_cons_cons] at hpast
          rw [List.cons_append, List.compare_cons_cons]
          rcases hcompare : compare first byte with _ | _ | _
          · simp [hcompare] at hpast
          · have hbyte : first = byte := Std.LawfulEqCmp.eq_of_compare hcompare
            subst hbyte
            simp only [hcompare, Ordering.eq_then] at hpast ⊢
            exact ih hpast (fun hstem => houtside (List.cons_prefix_cons.mpr ⟨rfl, hstem⟩))
              ⟨rest, rfl⟩
          · have hflip : compare byte first = .lt := Std.OrientedCmp.lt_of_gt hcompare
            simp [hflip]

theorem takeWhile_eq_filter_of_sorted {stem : Bytes} {rows : List (Bytes × Bytes)}
    (hsorted : rows.Pairwise (fun first second => compare first.1 second.1 = .lt))
    (hpast : ∀ row ∈ rows, compare row.1 stem ≠ .lt) :
    rows.takeWhile (fun row => stem.isPrefixOf row.1) =
      rows.filter (fun row => stem.isPrefixOf row.1) := by
  induction rows with
  | nil => rfl
  | cons row rows ih =>
      obtain ⟨hhead, htail⟩ := List.pairwise_cons.mp hsorted
      by_cases hrow : stem <+: row.1
      · have htest : stem.isPrefixOf row.1 = true := List.isPrefixOf_iff_prefix.mpr hrow
        have hrest := ih htail (fun other hmem => hpast other (List.mem_cons_of_mem _ hmem))
        simp only [List.takeWhile_cons, List.filter_cons, htest, if_true, hrest]
      · have htest : ¬ stem.isPrefixOf row.1 = true :=
          fun hyes => hrow (List.isPrefixOf_iff_prefix.mp hyes)
        simp only [List.takeWhile_cons, List.filter_cons, htest, if_false, Bool.false_eq_true]
        rw [eq_comm, List.filter_eq_nil_iff]
        intro other hmem hother
        have hlt := hhead other hmem
        have hgt := lt_of_outside (hpast row List.mem_cons_self) hrow
          (List.isPrefixOf_iff_prefix.mp hother)
        rw [Std.OrientedCmp.gt_of_lt hlt] at hgt
        cases hgt

theorem dropWhile_lt_filter {start : Bytes} {rows : List (Bytes × Bytes)}
    (hsorted : rows.Pairwise (fun first second => compare first.1 second.1 = .lt)) :
    rows.dropWhile (fun row => compare row.1 start == .lt) =
      rows.filter (fun row => !(compare row.1 start == .lt)) := by
  induction rows with
  | nil => rfl
  | cons row rows ih =>
      obtain ⟨hhead, htail⟩ := List.pairwise_cons.mp hsorted
      by_cases hrow : compare row.1 start = .lt
      · simp [hrow, ih htail]
      · rw [List.dropWhile_cons_of_neg (by simpa using hrow),
          List.filter_cons_of_pos (by simpa using hrow), eq_comm, List.cons.injEq]
        refine ⟨rfl, List.filter_eq_self.mpr ?_⟩
        intro other hmem
        have hlt := hhead other hmem
        by_contra hbefore
        have hother : compare other.1 start = .lt := by simpa using hbefore
        exact hrow (Std.TransCmp.lt_trans hlt hother)

/-- A scan visits exactly the rows whose key extends the stem. -/
theorem scan_eq_filter (table : Table) (stem : Bytes) :
    scan table stem = table.toList.filter (fun row => stem.isPrefixOf row.1) := by
  have hsorted := rows_sorted table
  have hfrom : rowsFrom table stem =
      table.toList.filter (fun row => !(compare row.1 stem == .lt)) :=
    dropWhile_lt_filter hsorted
  rw [scan, takeWhile_eq_filter_of_sorted, hfrom, List.filter_filter]
  · apply List.filter_congr
    intro row _
    by_cases hrow : stem.isPrefixOf row.1 = true
    · have hnot := not_lt_of_prefix (List.isPrefixOf_iff_prefix.mp hrow)
      simpa [hrow] using hnot
    · simp [Bool.eq_false_iff.mpr hrow]
  · rw [hfrom]
    exact hsorted.sublist List.filter_sublist
  · intro row hmem
    rw [hfrom] at hmem
    simpa using (List.mem_filter.mp hmem).2

theorem mem_scan {table : Table} {stem key value : Bytes} :
    (key, value) ∈ scan table stem ↔ table[key]? = some value ∧ stem <+: key := by
  rw [scan_eq_filter, List.mem_filter, mem_rows, List.isPrefixOf_iff_prefix]

theorem scan_sorted (table : Table) (stem : Bytes) :
    (scan table stem).Pairwise (fun first second => compare first.1 second.1 = .lt) := by
  rw [scan_eq_filter]
  exact (rows_sorted table).sublist List.filter_sublist

/-! ## Walks -/

section Walks

open Results

variable {ε σ : Type}

/-- Visit the rows of a range that starts at the stem.  Each row is met by the
check of the state, and the first foreign key ends the walk. -/
def walkRows (check : σ → Except ε Unit) (stem : Bytes)
    (visit : σ → Bytes × Bytes → Except ε σ) : σ → List (Bytes × Bytes) → Except ε σ
  | state, [] => .ok state
  | state, row :: rows => do
      check state
      if stem.isPrefixOf row.1 then
        let next ← visit state row
        walkRows check stem visit next rows
      else
        return state

/-- Walk the rows of one stem of a table. -/
def walk (table : Table) (check : σ → Except ε Unit) (stem : Bytes)
    (visit : σ → Bytes × Bytes → Except ε σ) (first : σ) : Except ε σ :=
  walkRows check stem visit first (rowsFrom table stem)

variable {check : σ → Except ε Unit} {stem : Bytes} {visit : σ → Bytes × Bytes → Except ε σ}
  {table : Table} {first last : σ}

/-- A walk that succeeds visited exactly the rows of the stem, in order. -/
theorem foldlM_of_walk (hwalk : table.walk check stem visit first = .ok last) :
    (scan table stem).foldlM visit first = .ok last := by
  rw [walk] at hwalk
  rw [scan]
  generalize rowsFrom table stem = rows at hwalk ⊢
  induction rows generalizing first with
  | nil => exact hwalk
  | cons row rows ih =>
      rw [walkRows, bind_eq_ok] at hwalk
      obtain ⟨_, _, hwalk⟩ := hwalk
      split at hwalk
      · rename_i hrow
        rw [bind_eq_ok] at hwalk
        obtain ⟨next, hvisit, hrest⟩ := hwalk
        simp only [List.takeWhile_cons, hrow, if_true, List.foldlM_cons, hvisit, ok_bind]
        exact ih hrest
      · rename_i hrow
        simp only [List.takeWhile_cons, hrow, Bool.false_eq_true, if_false]
        exact hwalk

/-- Without a failing check the walk is the fold over the rows of the stem. -/
theorem walk_eq_foldlM (hcheck : ∀ state, check state = .ok ()) :
    table.walk check stem visit first = (scan table stem).foldlM visit first := by
  rw [walk, scan]
  generalize rowsFrom table stem = rows
  induction rows generalizing first with
  | nil => rfl
  | cons row rows ih =>
      rw [walkRows, hcheck, ok_bind]
      split
      · rename_i hrow
        simp only [List.takeWhile_cons, hrow, if_true, List.foldlM_cons]
        cases visit first row with
        | error error => rfl
        | ok next => exact ih
      · rename_i hrow
        simp only [List.takeWhile_cons, hrow, Bool.false_eq_true, if_false]
        rfl

end Walks

/-! ## Confined edits -/

/-- The two tables differ only in rows whose key extends the stem. -/
def Confined (stem : Bytes) (before after : Table) : Prop :=
  ∀ key, ¬ stem <+: key → after[key]? = before[key]?

theorem Confined.refl (stem : Bytes) (table : Table) : Confined stem table table :=
  fun _ _ => rfl

theorem Confined.trans {stem : Bytes} {first second third : Table}
    (hfirst : Confined stem first second) (hsecond : Confined stem second third) :
    Confined stem first third :=
  fun key hkey => (hsecond key hkey).trans (hfirst key hkey)

theorem confined_insert {stem key : Bytes} (hkey : stem <+: key) (table : Table) (value : Bytes) :
    Confined stem table (table.insert key value) := by
  intro other hother
  refine get_insert_of_ne table value ?_
  rintro rfl
  exact hother hkey

theorem confined_erase {stem key : Bytes} (hkey : stem <+: key) (table : Table) :
    Confined stem table (table.erase key) := by
  intro other hother
  refine get_erase_of_ne table ?_
  rintro rfl
  exact hother hkey

theorem confined_eraseAll {stem : Bytes} {keys : List Bytes} (hkeys : ∀ key ∈ keys, stem <+: key)
    (table : Table) :
    Confined stem table (keys.foldl (fun table key => table.erase key) table) := by
  induction keys generalizing table with
  | nil => exact Confined.refl stem table
  | cons key keys ih =>
      have hfirst := confined_erase (hkeys key List.mem_cons_self) table
      have hrest := ih (fun other hmem => hkeys other (List.mem_cons_of_mem _ hmem))
        (table.erase key)
      exact hfirst.trans hrest

theorem get_eraseAll (keys : List Bytes) (table : Table) (key : Bytes) :
    (keys.foldl (fun table key => table.erase key) table)[key]? =
      if key ∈ keys then none else table[key]? := by
  induction keys generalizing table with
  | nil => rfl
  | cons erased keys ih =>
      rw [List.foldl_cons, ih, get_erase]
      by_cases hlater : key ∈ keys
      · simp [hlater]
      · by_cases hsame : erased = key
        · simp [hsame]
        · have hother : key ≠ erased := fun heq => hsame heq.symm
          simp [hlater, hsame, hother]

/-- Erasing adds no row. -/
theorem get_of_get_eraseAll {keys : List Bytes} {table : Table} {key value : Bytes}
    (hget : (keys.foldl (fun table key => table.erase key) table)[key]? = some value) :
    table[key]? = some value := by
  rw [get_eraseAll] at hget
  split at hget
  · cases hget
  · exact hget

/-! ## Counting the rows of a stem -/

/-- The number of rows under a stem, some keys left out. -/
def left (table : Table) (stem : Bytes) (keys : List Bytes) : Nat :=
  ((scan table stem).filter fun row => row.1 ∉ keys).length

theorem mem_left {table : Table} {stem key value : Bytes} {keys : List Bytes} :
    (key, value) ∈ (scan table stem).filter (fun row => row.1 ∉ keys) ↔
      (table[key]? = some value ∧ stem <+: key) ∧ key ∉ keys := by
  rw [List.mem_filter, mem_scan, decide_eq_true_eq]

theorem scan_nodup (table : Table) (stem : Bytes) : (scan table stem).Nodup := by
  rw [scan_eq_filter]
  exact (rows_nodup table).filter _

/-- Fewer rows outside the keys are no more rows. -/
theorem left_mono {before after : Table} {stem : Bytes} {keys others : List Bytes}
    (hrows : ∀ key value, stem <+: key → key ∉ keys → after[key]? = some value →
      before[key]? = some value ∧ key ∉ others) :
    left after stem keys ≤ left before stem others := by
  refine (List.subperm_of_subset ((scan_nodup after stem).filter _) ?_).length_le
  rintro ⟨key, value⟩ hmem
  obtain ⟨⟨hvalue, hstem⟩, hkey⟩ := mem_left.mp hmem
  obtain ⟨hbefore, hother⟩ := hrows key value hstem hkey hvalue
  exact mem_left.mpr ⟨⟨hbefore, hstem⟩, hother⟩

/-- Leaving out the key of a row counts one row less. -/
theorem left_lt {table : Table} {stem key value : Bytes} {keys : List Bytes}
    (hvalue : table[key]? = some value) (hstem : stem <+: key) (hkey : key ∈ keys) :
    left table stem keys < left table stem [] := by
  have hrow : (key, value) ∈ scan table stem := mem_scan.mpr ⟨hvalue, hstem⟩
  have hall : left table stem [] = (scan table stem).length := by simp [left]
  rw [hall, left, List.length_filter_lt_length_iff_exists]
  exact ⟨(key, value), hrow, by simpa using hkey⟩

theorem left_eraseAll (table : Table) (stem : Bytes) (keys : List Bytes) :
    left (keys.foldl (fun table key => table.erase key) table) stem [] ≤ left table stem keys := by
  apply left_mono
  intro key value _ _ hvalue
  rw [get_eraseAll] at hvalue
  split at hvalue
  · cases hvalue
  · rename_i hother
    exact ⟨hvalue, hother⟩

end Table

end EliotSearch.Library
