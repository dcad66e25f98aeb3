import Mathlib.Data.List.GetD
import Mathlib.Data.List.Infix
import Mathlib.Data.List.Sort
import Mathlib.Tactic.Common

/-!
# Occurrences of a pattern

A pattern is found in a text by keeping the length of its longest front that
ends the text read so far.  When the next symbol does not extend that front, the
table of borders gives the next shorter one.  The theorems below say that one
symbol moves the longest front to the longest front, so a whole occurrence ends
exactly where the front is the pattern.
-/

namespace EliotSearch.Library.Patterns

variable {α : Type}

/-! ## Fronts that end a text -/

/-- The front of the pattern of the given length ends the text. -/
structure Fits (pattern text : List α) (length : Nat) : Prop where
  within : length ≤ pattern.length
  ends : pattern.take length <:+ text

/-- The length of the longest front below a bound that ends the text. -/
structure LongestBelow (pattern text : List α) (bound matched : Nat) : Prop where
  below : matched < bound
  fits : Fits pattern text matched
  longest : ∀ other, other < bound → Fits pattern text other → other ≤ matched

theorem fits_zero (pattern text : List α) : Fits pattern text 0 :=
  ⟨Nat.zero_le _, List.nil_suffix⟩

/-- A shorter front ends the text exactly when it ends a longer front that does. -/
theorem Fits.fits_take {pattern text : List α} {matched other : Nat}
    (hfits : Fits pattern text matched) (hle : other ≤ matched) :
    Fits pattern (pattern.take matched) other ↔ Fits pattern text other := by
  constructor
  · rintro ⟨hwithin, hends⟩
    exact ⟨hwithin, hends.trans hfits.ends⟩
  · rintro ⟨hwithin, hends⟩
    refine ⟨hwithin, List.suffix_of_suffix_length_le hends hfits.ends ?_⟩
    rw [List.length_take_of_le hwithin, List.length_take_of_le hfits.within]
    exact hle

/-- A front ends a text with one more symbol exactly when the front without its
last symbol ends the text and is followed by that symbol. -/
theorem fits_concat {pattern text : List α} {symbol : α} {length : Nat} :
    Fits pattern (text ++ [symbol]) (length + 1) ↔
      Fits pattern text length ∧ pattern[length]? = some symbol := by
  have hsuffix (front : List α) (last : α) :
      front ++ [last] <:+ text ++ [symbol] ↔ last = symbol ∧ front <:+ text := by
    rw [List.suffix_concat_iff]
    constructor
    · rintro (hnil | ⟨before, hbefore, hends⟩)
      · exact absurd hnil (by simp)
      · obtain ⟨rfl, hlast⟩ := List.append_inj' hbefore rfl
        exact ⟨List.singleton_inj.mp hlast, hends⟩
    · rintro ⟨rfl, hends⟩
      exact Or.inr ⟨front, rfl, hends⟩
  constructor
  · rintro ⟨hwithin, hends⟩
    have hlength : length < pattern.length := hwithin
    rw [List.take_succ_eq_append_getElem hlength, hsuffix] at hends
    exact ⟨⟨hlength.le, hends.2⟩, by rw [List.getElem?_eq_getElem hlength, hends.1]⟩
  · rintro ⟨⟨-, hends⟩, hsymbol⟩
    obtain ⟨hlength, hsymbol⟩ := List.getElem?_eq_some_iff.mp hsymbol
    refine ⟨hlength, ?_⟩
    rw [List.take_succ_eq_append_getElem hlength, hsuffix]
    exact ⟨hsymbol, hends⟩

/-! ## The table of borders -/

/-- Entry `length - 1` is the longest proper front of the front of that length
that also ends it. -/
def Borders (pattern : List α) (table : List Nat) : Prop :=
  ∀ length, 0 < length → length ≤ table.length →
    LongestBelow pattern (pattern.take length) length (table.getD (length - 1) 0)

/-- The match a scan starts with. -/
theorem longestBelow_nil {pattern : List α} (hpattern : pattern ≠ []) :
    LongestBelow pattern [] pattern.length 0 := by
  refine ⟨List.length_pos_iff.mpr hpattern, fits_zero _ _, fun other hother hends => ?_⟩
  have hempty := List.suffix_nil.mp hends.ends
  rw [List.take_eq_nil_iff] at hempty
  rcases hempty with rfl | rfl
  · exact le_rfl
  · exact absurd rfl hpattern

variable [DecidableEq α]

/-- Shorten a match until the symbol extends it or nothing is left of it. -/
def shorten (pattern : List α) (table : List Nat) (symbol : α) : (fuel : Nat) → Nat → Nat
  | 0, matched => matched
  | fuel + 1, matched =>
      if matched ≠ 0 ∧ pattern[matched]? ≠ some symbol then
        shorten pattern table symbol fuel (table.getD (matched - 1) 0)
      else matched

/-- The match after one more symbol.  Every entry of the table is below the
match it replaces, so the match itself is enough fuel. -/
def advance (pattern : List α) (table : List Nat) (symbol : α) (matched : Nat) : Nat :=
  let shortened := shorten pattern table symbol matched matched
  if pattern[shortened]? = some symbol then shortened + 1 else shortened

/-- Append the borders of the longer fronts. -/
def extendTable (pattern : List α) : (rest : List α) → List Nat → Nat → List Nat
  | [], table, _ => table
  | symbol :: rest, table, matched =>
      let matched := advance pattern table symbol matched
      extendTable pattern rest (table ++ [matched]) matched

/-- The borders of every front of a pattern. -/
def borderTable (pattern : List α) : List Nat := extendTable pattern pattern.tail [0] 0

/-- One symbol of a scan: the match it leaves, and whether the pattern ends here. -/
def feed (pattern : List α) (table : List Nat) (symbol : α) (matched : Nat) : Nat × Bool :=
  let matched := advance pattern table symbol matched
  if matched = pattern.length then (table.getD (matched - 1) 0, true) else (matched, false)

section Advance

variable {pattern text : List α} {table : List Nat} (symbol : α)

/-- The loop stops where the symbol extends the match or nothing is left, and
passes no front that the symbol extends. -/
theorem shorten_spec {bound fuel matched : Nat} (htable : Borders pattern table)
    (hbound : bound ≤ table.length + 1) (hfuel : matched ≤ fuel) (hbelow : matched < bound)
    (hfits : Fits pattern text matched)
    (hpassed : ∀ other, other < bound → Fits pattern text other →
      pattern[other]? = some symbol → other ≤ matched) :
    let stop := shorten pattern table symbol fuel matched
    stop < bound ∧ Fits pattern text stop ∧ (stop = 0 ∨ pattern[stop]? = some symbol) ∧
      ∀ other, other < bound → Fits pattern text other →
        pattern[other]? = some symbol → other ≤ stop := by
  induction fuel generalizing matched with
  | zero =>
      obtain rfl := Nat.le_zero.mp hfuel
      exact ⟨hbelow, hfits, Or.inl rfl, hpassed⟩
  | succ fuel ih =>
      unfold shorten
      split
      · rename_i hgoes
        have hborder := htable matched (Nat.pos_of_ne_zero hgoes.1) (by omega)
        refine ih ?_ ?_ ?_ ?_
        · have hlower := hborder.below
          omega
        · exact hborder.below.trans hbelow
        · exact (hfits.fits_take hborder.below.le).mp hborder.fits
        · intro other hother hends hsymbol
          have hle := hpassed other hother hends hsymbol
          have hne : other ≠ matched := by
            rintro rfl
            exact hgoes.2 hsymbol
          have hlt : other < matched := lt_of_le_of_ne hle hne
          exact hborder.longest other hlt ((hfits.fits_take hle).mpr hends)
      · rename_i hstops
        rw [not_and_or, not_not, not_not] at hstops
        exact ⟨hbelow, hfits, hstops, hpassed⟩

/-- One symbol moves the longest front to the longest front. -/
theorem advance_spec {bound matched : Nat} (htable : Borders pattern table)
    (hbound : bound ≤ table.length + 1) (hmatched : LongestBelow pattern text bound matched) :
    LongestBelow pattern (text ++ [symbol]) (bound + 1) (advance pattern table symbol matched) := by
  obtain ⟨hbelow, hfits, hstop, hpassed⟩ := shorten_spec symbol htable hbound le_rfl
    hmatched.below hmatched.fits fun other hother hends _ => hmatched.longest other hother hends
  unfold advance
  set stop := shorten pattern table symbol matched matched
  have hlongest (other : Nat) (hother : other < bound + 1)
      (hends : Fits pattern (text ++ [symbol]) other) :
      other = 0 ∨ (other ≤ stop + 1 ∧ pattern[other - 1]? = some symbol ∧
        Fits pattern text (other - 1)) := by
    cases other with
    | zero => exact Or.inl rfl
    | succ other =>
        obtain ⟨hbefore, hsymbol⟩ := fits_concat.mp hends
        have hle := hpassed other (Nat.lt_of_succ_lt_succ hother) hbefore hsymbol
        exact Or.inr ⟨Nat.succ_le_succ hle, hsymbol, hbefore⟩
  dsimp only
  split
  · rename_i hextends
    refine ⟨Nat.succ_lt_succ hbelow, fits_concat.mpr ⟨hfits, hextends⟩, fun other hother hends => ?_⟩
    rcases hlongest other hother hends with rfl | ⟨hle, -, -⟩
    · exact Nat.zero_le _
    · exact hle
  · rename_i hends
    have hzero : stop = 0 := hstop.resolve_right hends
    rw [hzero] at hends hlongest ⊢
    refine ⟨Nat.succ_pos _, fits_zero _ _, fun other hother hfound => ?_⟩
    rcases hlongest other hother hfound with rfl | ⟨hle, hsymbol, -⟩
    · exact le_rfl
    · have hone : other - 1 = 0 := by omega
      rw [hone] at hsymbol
      exact absurd hsymbol hends

/-- The match after the next symbol of the pattern is the border of the next longer
front. -/
theorem Borders.extend {rest : List α} {matched : Nat} (htable : Borders pattern table)
    (hrest : pattern.drop table.length = symbol :: rest)
    (hmatched : LongestBelow pattern (pattern.take table.length) table.length matched) :
    Borders pattern (table ++ [advance pattern table symbol matched]) ∧
      LongestBelow pattern (pattern.take (table.length + 1)) (table.length + 1)
        (advance pattern table symbol matched) := by
  have hlt : table.length < pattern.length := by
    by_contra hge
    rw [List.drop_eq_nil_of_le (not_lt.mp hge)] at hrest
    cases hrest
  have hsymbol : pattern.take table.length ++ [symbol] = pattern.take (table.length + 1) := by
    rw [List.drop_eq_getElem_cons hlt] at hrest
    rw [List.take_succ_eq_append_getElem hlt, (List.cons.inj hrest).1]
  have hnext := advance_spec symbol htable (Nat.le_succ _) hmatched
  rw [hsymbol] at hnext
  refine ⟨?_, hnext⟩
  intro length hpositive hle
  rw [List.length_append, List.length_singleton] at hle
  rcases hle.lt_or_eq with hshort | rfl
  · have hindex : length - 1 < table.length := by omega
    rw [List.getD_append _ _ _ _ hindex]
    exact htable length hpositive (Nat.le_of_lt_succ hshort)
  · rw [Nat.add_sub_cancel, List.getD_append_right _ _ _ _ le_rfl, Nat.sub_self]
    exact hnext

/-- Each entry appended is the border of the next longer front. -/
theorem extendTable_spec {rest : List α} {matched : Nat} (htable : Borders pattern table)
    (hrest : pattern.drop table.length = rest) (hwithin : table.length ≤ pattern.length)
    (hmatched : LongestBelow pattern (pattern.take table.length) table.length matched) :
    Borders pattern (extendTable pattern rest table matched) ∧
      (extendTable pattern rest table matched).length = pattern.length := by
  induction rest generalizing table matched with
  | nil =>
      have hlength : pattern.length ≤ table.length := List.drop_eq_nil_iff.mp hrest
      exact ⟨htable, le_antisymm hwithin hlength⟩
  | cons symbol rest ih =>
      obtain ⟨hextended, hnext⟩ := htable.extend symbol hrest hmatched
      have hlength : (table ++ [advance pattern table symbol matched]).length =
          table.length + 1 := List.length_append
      have hrest' : pattern.drop (table.length + 1) = rest := by
        rw [← List.tail_drop, hrest, List.tail_cons]
      have hlt : table.length < pattern.length := by
        by_contra hge
        rw [List.drop_eq_nil_of_le (not_lt.mp hge)] at hrest
        cases hrest
      apply ih hextended
      · rw [hlength, hrest']
      · rw [hlength]
        exact hlt
      · rw [hlength]
        exact hnext

/-- The table of a pattern holds the borders of all of its fronts. -/
theorem borderTable_spec (hpattern : pattern ≠ []) :
    Borders pattern (borderTable pattern) ∧ (borderTable pattern).length = pattern.length := by
  have hpositive : 0 < pattern.length := List.length_pos_iff.mpr hpattern
  have hfirst : LongestBelow pattern (pattern.take 1) 1 0 :=
    ⟨Nat.one_pos, fits_zero _ _, fun other hother _ => Nat.le_of_lt_succ hother⟩
  refine extendTable_spec ?_ List.drop_one hpositive hfirst
  intro length hlength hle
  obtain rfl : length = 1 := le_antisymm hle hlength
  exact hfirst

/-! ## Scanning -/

/-- One symbol keeps the longest proper front, and reports exactly the
occurrences that end there. -/
theorem feed_spec {matched : Nat} (hpattern : pattern ≠ []) (htable : Borders pattern table)
    (hlength : table.length = pattern.length)
    (hmatched : LongestBelow pattern text pattern.length matched) :
    LongestBelow pattern (text ++ [symbol]) pattern.length
        (feed pattern table symbol matched).1 ∧
      ((feed pattern table symbol matched).2 = true ↔ pattern <:+ text ++ [symbol]) := by
  have hnext := advance_spec symbol htable (by omega) hmatched
  unfold feed
  dsimp only
  split
  · rename_i hwhole
    rw [hwhole] at hnext ⊢
    have hends := hnext.fits.ends
    rw [List.take_length] at hends
    have hborder := htable pattern.length (List.length_pos_iff.mpr hpattern) hlength.ge
    refine ⟨⟨hborder.below, ?_, fun other hother hfits => ?_⟩, by simp [hends]⟩
    · exact (hnext.fits.fits_take hborder.below.le).mp hborder.fits
    · exact hborder.longest other hother ((hnext.fits.fits_take hother.le).mpr hfits)
  · rename_i hpart
    have hbelow : advance pattern table symbol matched < pattern.length :=
      lt_of_le_of_ne (Nat.le_of_lt_succ hnext.below) hpart
    refine ⟨⟨hbelow, hnext.fits, fun other hother hfits =>
      hnext.longest other (hother.trans (Nat.lt_succ_self _)) hfits⟩, ?_⟩
    constructor
    · rintro hreported
      cases hreported
    · intro hends
      have hwhole : Fits pattern (text ++ [symbol]) pattern.length :=
        ⟨le_rfl, by rwa [List.take_length]⟩
      have hle := hnext.longest pattern.length (Nat.lt_succ_self _) hwhole
      exact absurd hle (not_le.mpr hbelow)

end Advance

/-! ## All occurrences -/

/-- The positions where a pattern occurs in a text, overlaps included. -/
def occurrences (pattern text : List α) : List Nat :=
  (List.range text.length).filter fun start => pattern.isPrefixOf (text.drop start)

variable {pattern text : List α}

theorem mem_occurrences {start : Nat} (hpattern : pattern ≠ []) :
    start ∈ occurrences pattern text ↔ pattern <+: text.drop start := by
  rw [occurrences, List.mem_filter, List.mem_range, List.isPrefixOf_iff_prefix]
  constructor
  · exact fun hfound => hfound.2
  · intro hfront
    refine ⟨?_, hfront⟩
    by_contra hge
    rw [List.drop_eq_nil_of_le (not_lt.mp hge), List.prefix_nil] at hfront
    exact hpattern hfront

theorem occurrences_sorted (pattern text : List α) : (occurrences pattern text).Pairwise (· < ·) :=
  List.pairwise_lt_range.filter _

theorem occurrences_length_le (pattern text : List α) :
    (occurrences pattern text).length ≤ text.length := by
  have hfilter := List.length_filter_le (fun start => pattern.isPrefixOf (text.drop start))
    (List.range text.length)
  rwa [List.length_range] at hfilter

/-- An occurrence lies within the text. -/
theorem occurrence_within {start : Nat} (hpattern : pattern ≠ [])
    (hstart : start ∈ occurrences pattern text) : start + pattern.length ≤ text.length := by
  have hlength := ((mem_occurrences hpattern).mp hstart).length_le
  have hpositive := List.length_pos_iff.mpr hpattern
  rw [List.length_drop] at hlength
  omega

/-- The text at an occurrence is the pattern. -/
theorem occurrence_slice {start : Nat} (hpattern : pattern ≠ [])
    (hstart : start ∈ occurrences pattern text) :
    (text.drop start).take pattern.length = pattern :=
  (List.prefix_iff_eq_take.mp ((mem_occurrences hpattern).mp hstart)).symm

/-- One more symbol adds the occurrence that ends with it, if there is one. -/
theorem occurrences_concat (hpattern : pattern ≠ []) (text : List α) (symbol : α) :
    occurrences pattern (text ++ [symbol]) = occurrences pattern text ++
      if pattern <:+ text ++ [symbol] then [text.length + 1 - pattern.length] else [] := by
  have hpositive := List.length_pos_iff.mpr hpattern
  have hlast (start : Nat) : start + pattern.length = text.length + 1 →
      (pattern <:+ text ++ [symbol] ↔ pattern <+: (text ++ [symbol]).drop start) := by
    intro hwhole
    have hlength : ((text ++ [symbol]).drop start).length = pattern.length := by
      rw [List.length_drop, List.length_append, List.length_singleton]
      omega
    constructor
    · intro hends
      have hsuffix := List.suffix_of_suffix_length_le hends
        (List.drop_suffix start (text ++ [symbol])) hlength.ge
      rw [hsuffix.eq_of_length hlength.symm]
    · intro hfront
      rw [hfront.eq_of_length hlength.symm]
      exact List.drop_suffix _ _
  refine (occurrences_sorted _ _).eq_of_mem_iff ?_ fun start => ?_
  · rw [List.pairwise_append]
    refine ⟨occurrences_sorted _ _, ?_, fun first hfirst last hfound => ?_⟩
    · split <;> simp
    · split at hfound
      · obtain rfl := List.mem_singleton.mp hfound
        have hwithin := occurrence_within hpattern hfirst
        omega
      · cases hfound
  · rw [List.mem_append, mem_occurrences hpattern, mem_occurrences hpattern]
    constructor
    · intro hfront
      have hlength := hfront.length_le
      rw [List.length_drop, List.length_append, List.length_singleton] at hlength
      rcases Nat.lt_or_ge (text.length) (start + pattern.length) with hover | hwithin
      · have hwhole : start + pattern.length = text.length + 1 := by omega
        rw [if_pos ((hlast start hwhole).mpr hfront)]
        refine Or.inr (List.mem_singleton.mpr ?_)
        omega
      · refine Or.inl (List.prefix_of_prefix_length_le hfront ?_ ?_)
        · rw [List.drop_append_of_le_length (by omega)]
          exact List.prefix_append _ _
        · rw [List.length_drop]
          omega
    · rintro (hfront | hfound)
      · have hlength := hfront.length_le
        rw [List.length_drop] at hlength
        rw [List.drop_append_of_le_length (by omega)]
        exact hfront.trans (List.prefix_append _ _)
      · split at hfound
        · rename_i hends
          obtain rfl := List.mem_singleton.mp hfound
          have hlength := hends.length_le
          rw [List.length_append, List.length_singleton] at hlength
          exact (hlast _ (by omega)).mp hends
        · cases hfound

end EliotSearch.Library.Patterns
