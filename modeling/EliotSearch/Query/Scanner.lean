import EliotSearch.Library.Indexing
import EliotSearch.Query.Literal

/-!
# Scans with their indexes

The compilation and the scan of a literal as the loops index the literal and its
table, where an index that is out of range is an outcome of its own.  No loop ever
meets it, so the scan is the one that visits the occurrences.
-/

namespace EliotSearch.Query

open EliotSearch.Control
open EliotSearch.Library
open EliotSearch.Library.Indexing
open EliotSearch.Library.Json
open EliotSearch.Library.Patterns
open EliotSearch.Library.Results
open EliotSearch.Session

namespace Literal

/-- Shorten the match while the byte does not extend it. -/
def fallBack (bytes : Bytes) (table : List Nat) (byte : UInt8) :
    (fuel : Nat) → Nat → Except (Abort QueryFailure) Nat
  | 0, _ => .error .unending
  | fuel + 1, matched =>
      if matched = 0 then .ok matched
      else do
        let expected ← readAt bytes matched
        if byte = expected then .ok matched
        else do
          let last ← minus matched 1
          let shorter ← readAt table last
          fallBack bytes table byte fuel shorter

/-- The match after one more byte. -/
def advanceIndexed (bytes : Bytes) (table : List Nat) (byte : UInt8) (matched : Nat) :
    Except (Abort QueryFailure) Nat := do
  let matched ← fallBack bytes table byte (matched + 1) matched
  let expected ← readAt bytes matched
  return if byte = expected then matched + 1 else matched

def compileFrom (bytes : Bytes) : (indexes : List Nat) → (table : List Nat) → (matched : Nat) →
    Except (Abort QueryFailure) (List Nat)
  | [], table, _ => return table
  | index :: indexes, table, matched => do
      let byte ← readAt bytes index
      let matched ← advanceIndexed bytes table byte matched
      let table ← writeAt table index matched
      compileFrom bytes indexes table matched

def compile (bytes : Bytes) : Except (Abort QueryFailure) (List Nat) :=
  compileFrom bytes (List.range' 1 (bytes.length - 1)) (List.replicate bytes.length 0) 0

def newIndexed (env : Env) (bytes : Bytes) : Except (Abort QueryFailure) (Bytes × List Nat) := do
  inRange (check env 0)
  refuse (bytes = []) (.failed (.code (ascii "EXACT_LITERAL_INVALID")))
  let table ← compile bytes
  inRange (check env 1)
  return (bytes, table)

variable {σ : Type}

def scanBlockIndexed (bytes : Bytes) (table : List Nat)
    (found : Nat → Nat → σ → Except QueryFailure σ) (consumed : Nat) :
    (index matched : Nat) → (block : Bytes) → σ → Except (Abort QueryFailure) (Nat × σ)
  | _, matched, [], state => return (matched, state)
  | index, matched, byte :: block, state => do
      let matched ← advanceIndexed bytes table byte matched
      if matched = bytes.length then do
        let stop := consumed + index + 1
        let start ← minus stop bytes.length
        let state ← inRange (found start stop state)
        let last ← minus matched 1
        let matched ← readAt table last
        scanBlockIndexed bytes table found consumed (index + 1) matched block state
      else scanBlockIndexed bytes table found consumed (index + 1) matched block state

def scanBlocksIndexed (env : Env) (bytes : Bytes) (table : List Nat)
    (found : Nat → Nat → σ → Except QueryFailure σ) :
    (site consumed matched : Nat) → (blocks : List Bytes) → σ → Except (Abort QueryFailure) σ
  | site, _, _, [], state => do
      inRange (check env site)
      return state
  | site, consumed, matched, block :: blocks, state => do
      inRange (check env site)
      let (matched, state) ← scanBlockIndexed bytes table found consumed 0 matched block state
      scanBlocksIndexed env bytes table found (site + 1) (consumed + block.length) matched blocks
        state

def scanIndexed (env : Env) (bytes : Bytes) (table : List Nat) (input : Bytes)
    (found : Nat → Nat → σ → Except QueryFailure σ) (state : σ) : Except (Abort QueryFailure) σ :=
  scanBlocksIndexed env bytes table found 0 0 0 (chunks input.length input) state

/-! ## No index is out of range -/

section Bounds

variable {bytes : Bytes} {table held : List Nat} {byte : UInt8}

/-- A table of zeros whose front is filled holds the entries of that front. -/
def Holding (table held : List Nat) : Prop :=
  ∀ index, index < table.length → held[index]? = some (table.getD index 0)

theorem holding_append (table rest : List Nat) : Holding table (table ++ rest) := by
  intro index hindex
  rw [List.getElem?_append_left hindex, List.getD_eq_getElem?_getD,
    List.getElem?_eq_getElem hindex, Option.getD_some]

theorem shorten_le {matched : Nat} (htable : Borders bytes table) (fuel : Nat)
    (hwithin : matched ≤ table.length) : shorten bytes table byte fuel matched ≤ matched := by
  induction fuel generalizing matched with
  | zero => exact le_rfl
  | succ fuel ih =>
      unfold shorten
      split
      · rename_i hgoes
        have hborder := (htable matched (Nat.pos_of_ne_zero hgoes.1) hwithin).below
        exact (ih (hborder.le.trans hwithin)).trans hborder.le
      · exact le_rfl

/-- The loop ends, and reads only what is there. -/
theorem fallBack_eq {matched fuel : Nat} (htable : Borders bytes table)
    (hheld : Holding table held) (hwithin : matched ≤ table.length)
    (hmatched : matched < bytes.length) (hfuel : matched ≤ fuel) :
    fallBack bytes held byte (fuel + 1) matched = .ok (shorten bytes table byte fuel matched) := by
  induction fuel generalizing matched with
  | zero =>
      obtain rfl := Nat.le_zero.mp hfuel
      rw [fallBack, if_pos rfl]
      rfl
  | succ fuel ih =>
      rw [fallBack]
      by_cases hzero : matched = 0
      · rw [if_pos hzero]
        unfold shorten
        rw [if_neg fun hgoes => hgoes.1 hzero]
      · have hsymbol : bytes[matched]? = some bytes[matched] := List.getElem?_eq_getElem hmatched
        rw [if_neg hzero, readAt_ok hsymbol, ok_bind]
        unfold shorten
        rw [hsymbol]
        by_cases hextends : byte = bytes[matched]
        · rw [if_pos hextends, if_neg fun hgoes => hgoes.2 (by rw [hextends])]
        · have hgoes : matched ≠ 0 ∧ some bytes[matched] ≠ some byte :=
            ⟨hzero, fun heq => hextends (Option.some.inj heq).symm⟩
          have hpositive : 1 ≤ matched := Nat.pos_of_ne_zero hzero
          have hborder := (htable matched hpositive hwithin).below
          rw [if_neg hextends, minus_ok hpositive, ok_bind, readAt_ok (hheld _ (by omega)), ok_bind,
            if_pos hgoes]
          apply ih
          · omega
          · omega
          · omega

/-- One byte moves the match as the automaton does. -/
theorem advanceIndexed_eq {matched : Nat} (htable : Borders bytes table)
    (hheld : Holding table held) (hwithin : matched ≤ table.length)
    (hmatched : matched < bytes.length) :
    advanceIndexed bytes held byte matched = .ok (advance bytes table byte matched) := by
  have hstop : shorten bytes table byte matched matched < bytes.length :=
    (shorten_le htable matched hwithin).trans_lt hmatched
  rw [advanceIndexed, fallBack_eq htable hheld hwithin hmatched le_rfl, ok_bind,
    readAt_ok (List.getElem?_eq_getElem hstop), ok_bind, advance, pure_eq_ok]
  simp only [List.getElem?_eq_getElem hstop, Option.some.injEq, eq_comm]

theorem advance_le {matched : Nat} (htable : Borders bytes table)
    (hwithin : matched ≤ table.length) : advance bytes table byte matched ≤ matched + 1 := by
  have hstop := @shorten_le bytes table byte matched htable matched hwithin
  unfold advance
  dsimp only
  split
  · exact Nat.succ_le_succ hstop
  · exact hstop.trans (Nat.le_succ _)

/-- The match that a byte leaves is below the literal and within the bytes read. -/
theorem feed_bounds {matched position : Nat} (htable : Borders bytes table)
    (hlength : table.length = bytes.length) (hmatched : matched < bytes.length)
    (hposition : matched ≤ position) :
    (feed bytes table byte matched).1 < bytes.length ∧
      (feed bytes table byte matched).1 ≤ position + 1 := by
  have hwithin : matched ≤ table.length := hlength ▸ hmatched.le
  have hnext := @advance_le bytes table byte matched htable hwithin
  unfold feed
  dsimp only
  split
  · rename_i hwhole
    have hpositive : 0 < bytes.length := Nat.zero_lt_of_lt hmatched
    have hborder := (htable bytes.length hpositive hlength.ge).below
    rw [hwhole] at hnext ⊢
    exact ⟨hborder, hborder.le.trans (by omega)⟩
  · rename_i hpart
    exact ⟨by omega, by omega⟩

/-- The zeros behind the filled front are filled one by one. -/
theorem compileFrom_eq {rest : Bytes} {matched : Nat} (htable : Borders bytes table)
    (hrest : bytes.drop table.length = rest)
    (hmatched : LongestBelow bytes (bytes.take table.length) table.length matched) :
    compileFrom bytes (List.range' table.length rest.length)
      (table ++ List.replicate rest.length 0) matched =
        .ok (extendTable bytes rest table matched) := by
  induction rest generalizing table matched with
  | nil => exact congrArg Except.ok (List.append_nil table)
  | cons byte rest ih =>
      have hlt : table.length < bytes.length := by
        by_contra hge
        rw [List.drop_eq_nil_of_le (not_lt.mp hge)] at hrest
        cases hrest
      have hsymbol : bytes[table.length]? = some byte := by
        rw [← List.head?_drop, hrest, List.head?_cons]
      have hnext : advanceIndexed bytes (table ++ List.replicate (rest.length + 1) 0) byte matched =
          .ok (advance bytes table byte matched) :=
        advanceIndexed_eq htable (holding_append table _) hmatched.below.le
          (hmatched.below.trans hlt)
      have hwrite : (writeAt (table ++ List.replicate (rest.length + 1) 0) table.length
          (advance bytes table byte matched) : Except (Abort QueryFailure) (List Nat)) =
          .ok (table ++ [advance bytes table byte matched] ++ List.replicate rest.length 0) := by
        rw [writeAt, if_pos (by simp), List.set_append_right _ _ le_rfl, Nat.sub_self,
          List.replicate_succ, List.set_cons_zero, List.append_assoc, List.singleton_append]
      obtain ⟨hextended, hborder⟩ := htable.extend byte hrest hmatched
      have hlength : (table ++ [advance bytes table byte matched]).length = table.length + 1 :=
        List.length_append
      rw [List.length_cons, List.range'_succ, compileFrom, readAt_ok hsymbol, ok_bind, hnext,
        ok_bind, hwrite, ok_bind, extendTable, ← hlength]
      apply ih hextended
      · rw [hlength, ← List.tail_drop, hrest, List.tail_cons]
      · rw [hlength]
        exact hborder

theorem compile_eq (hbytes : bytes ≠ []) : compile bytes = .ok (borderTable bytes) := by
  obtain ⟨first, rest, rfl⟩ := List.exists_cons_of_ne_nil hbytes
  have hfirst : Borders (first :: rest) [0] := by
    intro length hpositive hle
    obtain rfl : length = 1 := le_antisymm hle hpositive
    exact ⟨Nat.one_pos, fits_zero _ _, fun other hother _ => Nat.le_of_lt_succ hother⟩
  have hmatched : LongestBelow (first :: rest) ((first :: rest).take 1) 1 0 :=
    ⟨Nat.one_pos, fits_zero _ _, fun other hother _ => Nat.le_of_lt_succ hother⟩
  exact compileFrom_eq hfirst rfl hmatched

end Bounds

/-- A block is scanned as the automaton scans it. -/
theorem scanBlockIndexed_eq (literal : Literal) (found : Nat → Nat → σ → Except QueryFailure σ)
    (consumed index matched : Nat) (block : Bytes) (state : σ)
    (hmatched : matched < literal.bytes.length) (hposition : matched ≤ consumed + index) :
    scanBlockIndexed literal.bytes literal.borders found consumed index matched block state =
        inRange (literal.scanBlock found (consumed + index) matched block state) ∧
      ∀ next last,
        literal.scanBlock found (consumed + index) matched block state = .ok (next, last) →
        next < literal.bytes.length ∧ next ≤ consumed + index + block.length := by
  obtain ⟨htable, hlength⟩ := borderTable_spec literal.nonempty
  rw [← literal.compiled] at htable hlength
  induction block generalizing index matched state with
  | nil =>
      refine ⟨rfl, ?_⟩
      rintro _ _ heq
      obtain ⟨rfl, rfl⟩ := Prod.mk.inj (Except.ok.inj heq)
      exact ⟨hmatched, hposition⟩
  | cons byte block ih =>
      have hwithin : matched ≤ literal.borders.length := hlength ▸ hmatched.le
      have hheld : Holding literal.borders literal.borders := by
        have hself := holding_append literal.borders []
        rwa [List.append_nil] at hself
      have hnext := @advanceIndexed_eq literal.bytes literal.borders _ byte matched htable hheld
        hwithin hmatched
      have hadvance := @advance_le literal.bytes literal.borders byte matched htable hwithin
      obtain ⟨hbelow, hread⟩ := @feed_bounds literal.bytes literal.borders byte matched
        (consumed + index) htable hlength hmatched hposition
      rw [scanBlockIndexed, scanBlock, hnext, ok_bind]
      rw [List.length_cons]
      unfold feed at hbelow hread ⊢
      dsimp only at hbelow hread ⊢
      by_cases hwhole : advance literal.bytes literal.borders byte matched = literal.bytes.length
      · rw [if_pos hwhole] at hbelow hread
        rw [hwhole] at hbelow hread hadvance
        have hpositive := Nat.zero_lt_of_lt hmatched
        have hstart : literal.bytes.length ≤ consumed + index + 1 := by omega
        have hentry := hheld (literal.bytes.length - 1) (by omega)
        rw [if_pos hwhole, if_pos hwhole, minus_ok hstart, ok_bind, hwhole, minus_ok hpositive]
        dsimp only
        rw [if_pos rfl]
        cases hfound : found (consumed + index + 1 - literal.bytes.length) (consumed + index + 1)
            state with
        | error reason => exact ⟨rfl, fun _ _ heq => by cases heq⟩
        | ok visited =>
            obtain ⟨hscan, hbounds⟩ := ih (index + 1) _ visited hbelow hread
            refine ⟨?_, fun next last heq => ?_⟩
            · change (readAt literal.borders (literal.bytes.length - 1) >>= _) = _
              rw [readAt_ok hentry, ok_bind]
              exact hscan
            · have hbound := hbounds next last heq
              omega
      · rw [if_neg hwhole] at hbelow hread
        rw [if_neg hwhole, if_neg hwhole]
        obtain ⟨hscan, hbounds⟩ := ih (index + 1) _ state hbelow hread
        refine ⟨hscan, fun next last heq => ?_⟩
        have hbound := hbounds next last heq
        omega

theorem scanBlocksIndexed_eq (env : Env) (literal : Literal)
    (found : Nat → Nat → σ → Except QueryFailure σ) (site consumed matched : Nat)
    (blocks : List Bytes) (state : σ) (hmatched : matched < literal.bytes.length)
    (hposition : matched ≤ consumed) :
    scanBlocksIndexed env literal.bytes literal.borders found site consumed matched blocks state =
      inRange (literal.scanBlocks env found site consumed matched blocks state) := by
  induction blocks generalizing site consumed matched state with
  | nil =>
      rw [scanBlocksIndexed, scanBlocks]
      cases check env site with
      | error reason => rfl
      | ok _ => rfl
  | cons block blocks ih =>
      obtain ⟨hblock, hbounds⟩ := scanBlockIndexed_eq literal found consumed 0 matched block state
        hmatched hposition
      rw [scanBlocksIndexed, scanBlocks, hblock, Nat.add_zero]
      cases check env site with
      | error reason => rfl
      | ok _ =>
          cases hscan : literal.scanBlock found consumed matched block state with
          | error reason => rfl
          | ok visited =>
              obtain ⟨next, last⟩ := visited
              obtain ⟨hnext, hread⟩ := hbounds next last hscan
              exact ih (site + 1) (consumed + block.length) next last hnext hread

/-- The indexed scan is the scan: it reads nothing that is not there. -/
theorem scanIndexed_eq (env : Env) (literal : Literal) (input : Bytes)
    (found : Nat → Nat → σ → Except QueryFailure σ) (state : σ) :
    scanIndexed env literal.bytes literal.borders input found state =
      inRange (literal.scan env input found state) :=
  scanBlocksIndexed_eq env literal found 0 0 0 _ state
    (List.length_pos_iff.mpr literal.nonempty) le_rfl

/-- The indexed compilation is the compilation. -/
theorem newIndexed_eq (env : Env) (bytes : Bytes) :
    newIndexed env bytes =
      (inRange (new env bytes)).map fun literal => (literal.bytes, literal.borders) := by
  rw [newIndexed, new]
  cases check env 0 with
  | error reason => rfl
  | ok _ =>
      by_cases hempty : bytes = []
      · subst hempty
        rfl
      · change (refuse (bytes = []) _ >>= _) = _
        rw [refuse_of_not hempty, ok_bind, compile_eq hempty, ok_bind, ok_bind, dif_neg hempty]
        cases check env 1 with
        | error reason => rfl
        | ok _ => rfl

/-- However an input is cut into blocks, the scan is the same. -/
theorem scanBlocks_flatten {env : Env} (literal : Literal) (hquiet : Undisturbed env)
    (blocks : List Bytes) (found : Nat → Nat → σ → Except QueryFailure σ) (state : σ) :
    literal.scanBlocks env found 0 0 0 blocks state =
      literal.scan env blocks.flatten found state := by
  obtain ⟨more, hmore, hscan⟩ := scanBlocks_spec hquiet 0 [] blocks state
    (longestBelow_nil literal.nonempty)
  rw [List.nil_append] at hmore
  rw [scan_eq literal hquiet, hmore]
  exact hscan

/-- The positions at which a literal occurs in an input. -/
def Occurs (bytes input : Bytes) (start : Nat) : Prop :=
  start + bytes.length ≤ input.length ∧ (input.drop start).take bytes.length = bytes

theorem occurs_iff {bytes input : Bytes} {start : Nat} (hbytes : bytes ≠ []) :
    Occurs bytes input start ↔ start ∈ occurrences bytes input := by
  constructor
  · rintro ⟨-, hslice⟩
    rw [mem_occurrences hbytes, List.prefix_iff_eq_take]
    exact hslice.symm
  · intro hmem
    exact ⟨occurrence_within hbytes hmem, occurrence_slice hbytes hmem⟩

/-- The entry of a front is its longest proper front that also ends it. -/
def FailureFunction (bytes : Bytes) (table : List Nat) : Prop :=
  table.length = bytes.length ∧ ∀ length, 0 < length → length ≤ bytes.length →
    ∃ entry, table[length - 1]? = some entry ∧
      IsGreatest {border | border < length ∧ bytes.take border <:+ bytes.take length} entry

theorem borderTable_failureFunction {bytes : Bytes} (hbytes : bytes ≠ []) :
    FailureFunction bytes (borderTable bytes) := by
  obtain ⟨hborders, hlength⟩ := borderTable_spec hbytes
  refine ⟨hlength, fun length hpositive hle => ?_⟩
  have hindex : length - 1 < (borderTable bytes).length := by omega
  have hborder := hborders length hpositive (hlength ▸ hle)
  rw [List.getD_eq_getElem?_getD, List.getElem?_eq_getElem hindex, Option.getD_some] at hborder
  refine ⟨_, List.getElem?_eq_getElem hindex, ⟨hborder.below, hborder.fits.ends⟩, ?_⟩
  rintro other ⟨hother, hends⟩
  exact hborder.longest other hother ⟨by omega, hends⟩

/-- A scan of an input calls at the given starts only, once at each and in order. -/
structure ScansAt (literal : Literal) (input : Bytes) (starts : List Nat) : Prop where
  ascending : starts.Pairwise (· < ·)
  occurs : ∀ start, start ∈ starts ↔ Occurs literal.bytes input start
  inRange : ∀ (σ : Type) (env : Env) (found : Nat → Nat → σ → Except QueryFailure σ) (state : σ),
    scanIndexed env literal.bytes literal.borders input found state =
      inRange (literal.scan env input found state)
  whole : ∀ (σ : Type) (env : Env) (found : Nat → Nat → σ → Except QueryFailure σ) (state : σ),
    Undisturbed env → literal.scan env input found state = literal.visitAll found starts state
  completed : ∀ (σ : Type) (env : Env) (found : Nat → Nat → σ → Except QueryFailure σ)
    (state last : σ), literal.scan env input found state = .ok last →
      literal.visitAll found starts state = .ok last
  blocks : ∀ (σ : Type) (env : Env) (blocks : List Bytes)
    (found : Nat → Nat → σ → Except QueryFailure σ) (state : σ), Undisturbed env →
      blocks.flatten = input →
      literal.scanBlocks env found 0 0 0 blocks state = literal.visitAll found starts state

theorem scansAt_occurrences (literal : Literal) (input : Bytes) :
    ScansAt literal input (occurrences literal.bytes input) where
  ascending := occurrences_sorted _ _
  occurs _ := (occurs_iff literal.nonempty).symm
  inRange _ env found state := scanIndexed_eq env literal input found state
  whole _ _ found state hquiet := literal.scan_eq hquiet input found state
  completed _ _ _ _ _ hscan := scan_eq_ok hscan
  blocks _ _ blocks found state hquiet hblocks := by
    subst hblocks
    rw [scanBlocks_flatten literal hquiet]
    exact literal.scan_eq hquiet _ found state

/-- The compiled table is the failure function of the literal, no index is ever out of
range, and a scan reports each occurrence once, in order and overlaps included,
wherever the blocks end. -/
theorem scanner_exact {bytes : Bytes} (hbytes : bytes ≠ []) :
    (∃ table, compile bytes = .ok table ∧ FailureFunction bytes table) ∧
    (∀ env, newIndexed env bytes = (inRange (new env bytes)).map fun literal =>
      (literal.bytes, literal.borders)) ∧
    (∀ env, Undisturbed env → ∃ literal, new env bytes = .ok literal) ∧
    ∀ env literal, new env bytes = .ok literal →
      literal.bytes = bytes ∧ FailureFunction bytes literal.borders ∧
      ∀ input, ∃ starts, ScansAt literal input starts := by
  constructor
  · exact ⟨_, compile_eq hbytes, borderTable_failureFunction hbytes⟩
  refine ⟨fun env => newIndexed_eq env bytes, fun env hquiet => ?_, fun env literal hnew => ?_⟩
  · obtain ⟨literal, hnew, -⟩ := new_ok hquiet hbytes
    exact ⟨literal, hnew⟩
  · obtain rfl := new_eq_ok hnew
    refine ⟨rfl, ?_, fun input => ⟨_, scansAt_occurrences literal input⟩⟩
    rw [literal.compiled]
    exact borderTable_failureFunction hbytes

theorem scanner_exact_sample : compile (ascii "aba") = .ok [0, 0, 1] ∧
    ∃ literal, new Env.quiet (ascii "aba") = .ok literal ∧
      literal.scan Env.quiet (ascii "ababa")
        (fun start stop calls => .ok (calls ++ [(start, stop)])) [] = .ok [(0, 3), (2, 5)] := by
  obtain ⟨-, -, hnew, hscans⟩ := @scanner_exact (ascii "aba") (by decide)
  obtain ⟨literal, hliteral⟩ := hnew Env.quiet undisturbed_quiet
  obtain ⟨hbytes, -, hinput⟩ := hscans Env.quiet literal hliteral
  obtain ⟨starts, hstarts⟩ := hinput (ascii "ababa")
  have hoccurrences : starts = [0, 2] := by
    have hsame := hstarts.ascending.eq_of_mem_iff
      (occurrences_sorted literal.bytes (ascii "ababa")) fun start =>
        (hstarts.occurs start).trans (occurs_iff literal.nonempty)
    rw [hsame, hbytes]
    decide
  refine ⟨by decide, literal, hliteral, ?_⟩
  rw [hstarts.whole _ _ _ _ undisturbed_quiet, hoccurrences, visitAll, hbytes]
  rfl

end Literal

end EliotSearch.Query
