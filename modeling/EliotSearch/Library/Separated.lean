import Mathlib.Data.List.Infix

/-!
# Words between separators

A word is a run of elements that are no separators, enclosed by separators or
the ends of the list.  Splitting a list at its separators gives its words, and
a search for one of them that goes on behind each occurrence does not miss it.
-/

namespace EliotSearch.Library.Separated

variable {α : Type} {separator : α → Bool}

/-! ## Words -/

/-- The run between two parts of a list is one of its words. -/
structure IsWord (separator : α → Bool) (before word after : List α) : Prop where
  inside : ∀ element ∈ word, separator element = false
  opened : before.getLast?.all separator = true
  closed : after.head?.all separator = true

/-- A list without separators is its only word, or it has a first separator. -/
theorem first_separator (separator : α → Bool) (list : List α) :
    (∀ element ∈ list, separator element = false) ∨
      ∃ front first back, list = front ++ first :: back ∧ separator first = true ∧
        ∀ element ∈ front, separator element = false := by
  cases hfound : list.find? separator with
  | none =>
      left
      intro element hmem
      exact Bool.eq_false_iff.mpr (List.find?_eq_none.mp hfound element hmem)
  | some first =>
      obtain ⟨hfirst, front, back, rfl, hfront⟩ := List.find?_eq_some_iff_append.mp hfound
      exact Or.inr ⟨front, first, back, rfl, hfirst,
        fun element hmem => Bool.not_eq_true' _ ▸ hfront element hmem⟩

/-- Splitting gives words. -/
theorem exists_word (count : Nat) {list word : List α} (hcount : list.length ≤ count)
    (hmem : word ∈ list.splitOnP separator) :
    ∃ before after, list = before ++ word ++ after ∧ IsWord separator before word after := by
  induction count generalizing list with
  | zero =>
      obtain rfl := List.eq_nil_of_length_eq_zero (Nat.le_zero.mp hcount)
      obtain rfl := List.mem_singleton.mp hmem
      exact ⟨[], [], rfl, fun _ hnone => (nomatch hnone), rfl, rfl⟩
  | succ count ih =>
      rcases first_separator separator list with hinside | ⟨front, first, back, rfl, hfirst, hfront⟩
      · rw [List.splitOnP_eq_singleton hinside] at hmem
        obtain rfl := List.mem_singleton.mp hmem
        exact ⟨[], [], by rw [List.append_nil, List.nil_append], hinside, rfl, rfl⟩
      · rw [List.splitOnP_append_cons_of_forall_mem hfront first hfirst] at hmem
        rcases List.mem_cons.mp hmem with rfl | hmem
        · exact ⟨[], first :: back, rfl, hfront, rfl, hfirst⟩
        · rw [List.length_append, List.length_cons] at hcount
          obtain ⟨before, after, rfl, hword⟩ := ih (by omega) hmem
          refine ⟨front ++ first :: before, after, by simp, hword.inside, ?_, hword.closed⟩
          cases before with
          | nil => simpa using hfirst
          | cons head before =>
              rw [List.getLast?_append_of_ne_nil _ (List.cons_ne_nil _ _),
                List.getLast?_cons_cons]
              exact hword.opened

theorem IsWord.mem_splitOnP {before word after : List α}
    (hword : IsWord separator before word after) :
    word ∈ (before ++ word ++ after).splitOnP separator := by
  have hbehind : word ∈ (word ++ after).splitOnP separator := by
    cases after with
    | nil =>
        rw [List.append_nil, List.splitOnP_eq_singleton hword.inside]
        exact List.mem_singleton_self word
    | cons first after =>
        rw [List.splitOnP_append_cons_of_forall_mem hword.inside first hword.closed]
        exact List.mem_cons_self
  rcases List.eq_nil_or_concat before with rfl | ⟨front, last, rfl⟩
  · exact hbehind
  · rw [List.concat_eq_append] at hword ⊢
    have hlast : separator last = true := by
      have hopened := hword.opened
      rwa [List.getLast?_concat] at hopened
    rw [List.append_assoc, List.append_assoc, List.singleton_append,
      List.splitOnP_append_cons _ _ hlast]
    exact List.mem_append_right _ hbehind

/-- A list is split into its words. -/
theorem mem_splitOnP {list word : List α} :
    word ∈ list.splitOnP separator ↔
      ∃ before after, list = before ++ word ++ after ∧ IsWord separator before word after := by
  constructor
  · exact exists_word list.length le_rfl
  · rintro ⟨before, after, rfl, hword⟩
    exact hword.mem_splitOnP

/-! ## Occurrences -/

/-- An occurrence that starts before a word ends before the separator in front of it. -/
theorem occurrence_ends_before {pattern before gap after : List α}
    (hpattern : ∀ element ∈ pattern, separator element = false) (hgap : gap ≠ [])
    (hopened : (before ++ gap).getLast?.all separator = true) (hoccurs : pattern <+: gap ++ after) :
    pattern.length < gap.length := by
  by_contra hlong
  obtain ⟨front, last, rfl⟩ : ∃ front last, gap = front ++ [last] :=
    ⟨gap.dropLast, gap.getLast hgap, (List.dropLast_concat_getLast hgap).symm⟩
  have hlast : separator last = true := by
    rwa [← List.append_assoc, List.getLast?_concat] at hopened
  have hcovers : front ++ [last] <+: pattern :=
    List.prefix_of_prefix_length_le (List.prefix_append _ _) hoccurs (Nat.not_lt.mp hlong)
  have hinside := hpattern last (hcovers.subset (List.mem_append_right _ List.mem_cons_self))
  rw [hlast] at hinside
  cases hinside

variable [DecidableEq α]

/-- What stands before and behind the occurrences of a pattern, each of which is searched
behind the one before. -/
def matchIndices (pattern : List α) :
    (skip : Nat) → (before rest : List α) → List (List α × List α)
  | _, _, [] => []
  | skip + 1, before, element :: rest => matchIndices pattern skip (before ++ [element]) rest
  | 0, before, element :: rest =>
      if pattern <+: element :: rest then
        (before, (element :: rest).drop pattern.length) ::
          matchIndices pattern (pattern.length - 1) (before ++ [element]) rest
      else matchIndices pattern 0 (before ++ [element]) rest

/-- The search for a word comes to an occurrence between separators. -/
theorem matchIndices_word {pattern before gap after : List α} {skip : Nat}
    (hpattern : pattern ≠ []) (hskip : skip ≤ gap.length)
    (hword : IsWord separator (before ++ gap) pattern after) :
    ∃ found ∈ matchIndices pattern skip before (gap ++ (pattern ++ after)),
      found.1.getLast?.all separator = true ∧ found.2.head?.all separator = true := by
  induction gap generalizing before skip with
  | nil =>
      obtain rfl := Nat.le_zero.mp hskip
      rw [List.append_nil] at hword
      cases pattern with
      | nil => exact absurd rfl hpattern
      | cons first pattern =>
          have hoccurs : first :: pattern <+: first :: (pattern ++ after) :=
            List.prefix_append (first :: pattern) after
          have hbehind : (first :: (pattern ++ after)).drop (first :: pattern).length = after :=
            List.drop_left
          rw [List.nil_append, List.cons_append, matchIndices, if_pos hoccurs, hbehind]
          exact ⟨_, List.mem_cons_self, hword.opened, hword.closed⟩
  | cons element gap ih =>
      have hnext {skip : Nat} (hskip : skip ≤ gap.length) :=
        @ih (before ++ [element]) skip hskip (by
          rwa [List.append_assoc, List.singleton_append])
      cases skip with
      | succ skip => exact hnext (Nat.le_of_succ_le_succ hskip)
      | zero =>
          rw [List.cons_append, matchIndices]
          split
          · rename_i hoccurs
            have hends := occurrence_ends_before hword.inside (List.cons_ne_nil element gap)
              hword.opened hoccurs
            rw [List.length_cons] at hends
            obtain ⟨found, hmem, hfound⟩ := @hnext (pattern.length - 1) (by omega)
            exact ⟨found, List.mem_cons_of_mem _ hmem, hfound⟩
          · exact hnext (Nat.zero_le _)

end EliotSearch.Library.Separated
