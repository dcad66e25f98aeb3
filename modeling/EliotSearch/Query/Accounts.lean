import EliotSearch.Control.Settlement
import EliotSearch.Query.Literal
import Mathlib.Algebra.Group.Action.Defs
import Mathlib.Algebra.Order.BigOperators.Group.List

/-!
# Accounts of an exhaustive search

The raw and the decoded search differ in how they scan one source.  Both count
what they find, keep the first items and check the result against the request.
A `Report` is the contribution of one source; the accounts of a result are the
totals of the reports of every selected source.
-/

namespace EliotSearch.Query

open EliotSearch.Control
open EliotSearch.Library
open EliotSearch.Library.Json
open EliotSearch.Library.Results
open EliotSearch.Library.Utf8
open EliotSearch.Library.Words
open EliotSearch.Session

variable {Item : Type}

def publicationFailure : PublicationError → QueryFailure
  | .cancelled => .cancelled
  | .deadline => .deadline
  | other => .code (ascii other.code)

def inputLimit : QueryFailure := .code (ascii "EXACT_INPUT_LIMIT")

/-! ## Counting -/

namespace ExactResult

def start (generation : UInt64) (selected : Nat) : ExactResult Item where
  generation
  selectedSources := UInt64.ofNat selected
  scannedSources := 0
  gapSources := 0
  scannedBytes := 0
  foundMatches := 0
  items := []
  scanComplete := false
  completeNegative := false
  stop := .complete

/-- Keep an item unless the limit is reached; it is built only when it is kept. -/
def keep (limit : Nat) (build : Except QueryFailure Item) (result : ExactResult Item) :
    Except QueryFailure (ExactResult Item) :=
  if result.items.length < limit then do
    let item ← build
    return { result with items := result.items ++ [item] }
  else return result

/-- Count an occurrence and keep it. -/
def visit (limit : Nat) (build : Nat → Nat → Except QueryFailure Item) (first stop : Nat)
    (result : ExactResult Item) : Except QueryFailure (ExactResult Item) := do
  let foundMatches ← okOr (checkedAdd result.foundMatches 1) inputLimit
  keep limit (build first stop) { result with foundMatches }

/-- Count a source that has been scanned to its end. -/
def finishSource (byteLength : UInt64) (result : ExactResult Item) :
    Except QueryFailure (ExactResult Item) := do
  let result := { result with scannedSources := result.scannedSources + 1 }
  let scannedBytes ← okOr (checkedAdd result.scannedBytes byteLength) inputLimit
  return { result with scannedBytes }

/-- Count a gap and keep it. -/
def addGap (limit : Nat) (build : Except QueryFailure Item) (result : ExactResult Item) :
    Except QueryFailure (ExactResult Item) :=
  keep limit build { result with gapSources := result.gapSources + 1 }

/-- Close the accounts and check the result against its own request. -/
def finish (kind : Kind Item) (request : LiteralRequest) (result : ExactResult Item) :
    Except QueryFailure (ExactResult Item) := do
  let scanComplete := decide (result.gapSources = 0)
  let result := { result with
    scanComplete
    completeNegative := scanComplete && decide (result.foundMatches = 0) }
  let total ← okOr (checkedAdd result.foundMatches result.gapSources) inputLimit
  let result := if result.items.length ≠ total.toNat then { result with stop := .outputLimit }
    else result
  (kind.validateRequest request result).mapError fun error => .code error.code
  return result

end ExactResult

/-! ## The search -/

/-- Scan the selected sources in order. -/
def scanSources (scanSource : Env → CapturedSource → ExactResult Item →
      Except QueryFailure (ExactResult Item)) (env : Env) :
    (site : Nat) → List CapturedSource → ExactResult Item →
      Except QueryFailure (ExactResult Item)
  | _, [], result => return result
  | site, captured :: sources, result => do
      let result ← scanSource (within env site) captured result
      scanSources scanSource env (site + 1) sources result

/-- A literal search of the selected sources of a pinned view. -/
def executeWith (kind : Kind Item)
    (scanSource : Literal → Nat → Env → CapturedSource → ExactResult Item →
      Except QueryFailure (ExactResult Item))
    (env : Env) (view : PublishedView) (request : LiteralRequest) :
    Except QueryFailure (ExactResult Item) := do
  check env 0
  request.validate.mapError fun error => .code error.code
  let literal ← Literal.new (within env 1) request.literal.bytes
  let inventory ← (view.sourceInventory (within env 2)).mapError publicationFailure
  let inventory ← selectSources (within env 3) inventory request.sourceIds
  let result := ExactResult.start view.generation.sequence inventory.length
  let result ← scanSources (scanSource literal request.limit.toNat) (within env 4) 0 inventory result
  check env 5
  result.finish kind request

/-! ## Reports -/

/-- What one source contributes: its bytes and its occurrences, or a gap. -/
inductive Report (Item : Type) where
  | scanned (bytes : UInt64) (found : List Item)
  | gap (item : Item)

namespace Report

def items : Report Item → List Item
  | scanned _ found => found
  | gap item => [item]

def isGap : Report Item → Bool
  | scanned _ _ => false
  | gap _ => true

def bytes : Report Item → Nat
  | scanned bytes _ => bytes.toNat
  | gap _ => 0

def found : Report Item → Nat
  | scanned _ found => found.length
  | gap _ => 0

end Report

/-- The result after one more report. -/
def ExactResult.add (limit : Nat) (result : ExactResult Item) :
    Report Item → ExactResult Item
  | .scanned bytes found => { result with
      scannedSources := result.scannedSources + 1
      scannedBytes := result.scannedBytes + bytes
      foundMatches := result.foundMatches + UInt64.ofNat found.length
      items := (result.items ++ found).take limit }
  | .gap item => { result with
      gapSources := result.gapSources + 1
      items := (result.items ++ [item]).take limit }

/-- The totals of a result are those of the reports, and its items are the first
of theirs. -/
structure Accounts (limit : Nat) (reports : List (Report Item)) (result : ExactResult Item) :
    Prop where
  scanned : result.scannedSources.toNat = reports.countP fun report => !report.isGap
  gaps : result.gapSources.toNat = reports.countP Report.isGap
  bytes : result.scannedBytes.toNat = (reports.map Report.bytes).sum
  found : result.foundMatches.toNat = (reports.map Report.found).sum
  items : result.items = (reports.flatMap Report.items).take limit

/-- No total of the reports exceeds a word. -/
structure Countable (reports : List (Report Item)) : Prop where
  count : reports.length < 2 ^ 32
  bytes : (reports.map Report.bytes).sum < 2 ^ 63
  found : ∀ report ∈ reports, report.found ≤ report.bytes

theorem Countable.found_le {reports : List (Report Item)} (hcountable : Countable reports) :
    (reports.map Report.found).sum ≤ (reports.map Report.bytes).sum :=
  List.sum_le_sum hcountable.found

theorem accounts_start (limit : Nat) (generation : UInt64) (selected : Nat) :
    Accounts limit [] (ExactResult.start generation selected : ExactResult Item) :=
  ⟨rfl, rfl, rfl, rfl, by rw [List.flatMap_nil, List.take_nil]; rfl⟩

/-- Items kept one report at a time are the first items of all reports. -/
theorem take_append_take (limit : Nat) (first second : List Item) :
    (first.take limit ++ second).take limit = (first ++ second).take limit := by
  rw [List.take_append, List.take_append, List.take_take, min_self]
  rcases Nat.le_total first.length limit with hshort | hlong
  · rw [List.take_of_length_le hshort]
  · have hfull : (first.take limit).length = limit := List.length_take_of_le hlong
    rw [hfull, Nat.sub_self, Nat.sub_eq_zero_of_le hlong]

theorem toNat_add_of_lt (left right : UInt64) (hfits : left.toNat + right.toNat < 2 ^ 64) :
    (left + right).toNat = left.toNat + right.toNat := by
  rw [UInt64.toNat_add, Nat.mod_eq_of_lt hfits]

/-- One more report is added to the accounts. -/
theorem Accounts.add {limit : Nat} {reports : List (Report Item)} {result : ExactResult Item}
    (haccounts : Accounts limit reports result) (report : Report Item)
    (hcountable : Countable (reports ++ [report])) :
    Accounts limit (reports ++ [report]) (result.add limit report) := by
  obtain ⟨hscanned, hgaps, hbytes, hfound, hitems⟩ := haccounts
  have hreports := hcountable.count
  have hbytesBound := hcountable.bytes
  have hfoundBound := hcountable.found_le
  have hscannedLe : (reports.countP fun report => !report.isGap) ≤ reports.length :=
    List.countP_le_length
  have hgapsLe : reports.countP Report.isGap ≤ reports.length := List.countP_le_length
  rw [List.length_append, List.length_singleton] at hreports
  rw [List.map_append, List.sum_append, List.map_append, List.sum_append] at hfoundBound
  rw [List.map_append, List.sum_append] at hbytesBound
  cases report with
  | scanned bytes found =>
      simp only [List.map_cons, List.map_nil, List.sum_singleton, Report.bytes, Report.found]
        at hbytesBound hfoundBound
      have hcount : (UInt64.ofNat found.length).toNat = found.length :=
        UInt64.toNat_ofNat_of_lt' (by simp only [UInt64.size]; omega)
      have hone : (1 : UInt64).toNat = 1 := rfl
      refine ⟨?_, ?_, ?_, ?_, ?_⟩
      · have hsum : (result.scannedSources + 1).toNat = result.scannedSources.toNat + 1 :=
          toNat_add_of_lt _ _ (by omega)
        rw [List.countP_append]
        exact hsum.trans (congrArg (· + 1) hscanned)
      · simpa [ExactResult.add, Report.isGap] using hgaps
      · have hsum := toNat_add_of_lt result.scannedBytes bytes (by omega)
        rw [List.map_append, List.sum_append]
        exact hsum.trans (congrArg (· + bytes.toNat) hbytes)
      · have hsum := toNat_add_of_lt result.foundMatches (UInt64.ofNat found.length) (by omega)
        rw [hcount] at hsum
        rw [List.map_append, List.sum_append]
        exact hsum.trans (congrArg (· + found.length) hfound)
      · simp only [ExactResult.add, hitems, take_append_take, List.flatMap_append,
          List.flatMap_singleton, Report.items]
  | gap item =>
      refine ⟨?_, ?_, ?_, ?_, ?_⟩
      · simpa [ExactResult.add, Report.isGap] using hscanned
      · have hone : (1 : UInt64).toNat = 1 := rfl
        have hsum : (result.gapSources + 1).toNat = result.gapSources.toNat + 1 :=
          toNat_add_of_lt _ _ (by omega)
        rw [List.countP_append]
        exact hsum.trans (congrArg (· + 1) hgaps)
      · simpa [ExactResult.add, Report.bytes] using hbytes
      · simpa [ExactResult.add, Report.found] using hfound
      · simp only [ExactResult.add, hitems, take_append_take, List.flatMap_append,
          List.flatMap_singleton, Report.items]

/-! ## One source -/

theorem keep_ok {limit : Nat} {build : Except QueryFailure Item} {result : ExactResult Item}
    {item : Item} (hbuild : build = .ok item) (hroom : result.items.length ≤ limit) :
    ExactResult.keep limit build result =
      .ok { result with items := (result.items ++ [item]).take limit } := by
  unfold ExactResult.keep
  split
  · rename_i hfree
    have hall : (result.items ++ [item]).take limit = result.items ++ [item] :=
      List.take_of_length_le (by rw [List.length_append, List.length_singleton]; omega)
    rw [hbuild, ok_bind, hall, pure_eq_ok]
  · rename_i hfull
    have hlength : result.items.length = limit := le_antisymm hroom (not_lt.mp hfull)
    rw [← hlength, List.take_left, pure_eq_ok]

/-- Visiting occurrences counts all of them and keeps the first items. -/
theorem visitAll_visit {literal : Literal} {limit : Nat}
    {build : Nat → Nat → Except QueryFailure Item} {item : Nat → Item} (starts : List Nat)
    (result : ExactResult Item)
    (hbuild : ∀ start ∈ starts, build start (start + literal.bytes.length) = .ok (item start))
    (hroom : result.items.length ≤ limit)
    (hfits : result.foundMatches.toNat + starts.length < 2 ^ 64) :
    literal.visitAll (ExactResult.visit limit build) starts result =
      .ok { result with
        foundMatches := result.foundMatches + UInt64.ofNat starts.length
        items := (result.items ++ starts.map item).take limit } := by
  induction starts generalizing result with
  | nil =>
      have hall : (result.items ++ []).take limit = result.items := by
        rw [List.append_nil, List.take_of_length_le hroom]
      have hnone : result.foundMatches + UInt64.ofNat 0 = result.foundMatches := UInt64.add_zero _
      simp only [Literal.visitAll, List.foldlM_nil, List.map_nil, hall, List.length_nil, hnone,
        pure_eq_ok]
  | cons start starts ih =>
      rw [List.length_cons] at hfits
      have hone : (1 : UInt64).toNat = 1 := rfl
      have hcount : (result.foundMatches + 1).toNat = result.foundMatches.toNat + 1 :=
        toNat_add_of_lt _ _ (by omega)
      have hchecked : checkedAdd result.foundMatches 1 = some (result.foundMatches + 1) :=
        checkedAdd_eq_some.mpr hcount
      have hkept : ExactResult.visit limit build start (start + literal.bytes.length) result =
          .ok { result with
            foundMatches := result.foundMatches + 1
            items := (result.items ++ [item start]).take limit } := by
        rw [ExactResult.visit, hchecked, okOr_some, ok_bind]
        exact keep_ok (hbuild start List.mem_cons_self) hroom
      have hrest := ih { result with
        foundMatches := result.foundMatches + 1
        items := (result.items ++ [item start]).take limit }
        (fun other hother => hbuild other (List.mem_cons_of_mem _ hother))
        (List.length_take_le _ _) (by rw [hcount]; omega)
      rw [Literal.visitAll, List.foldlM_cons, hkept, ok_bind]
      refine hrest.trans (congrArg Except.ok ?_)
      have hitems : ((result.items ++ [item start]).take limit ++ starts.map item).take limit =
          (result.items ++ (start :: starts).map item).take limit := by
        rw [take_append_take, List.append_assoc, List.map_cons, List.singleton_append]
      have htotal : result.foundMatches + 1 + UInt64.ofNat starts.length =
          result.foundMatches + UInt64.ofNat (start :: starts).length := by
        rw [List.length_cons, UInt64.ofNat_add, UInt64.add_assoc,
          UInt64.add_comm 1 (UInt64.ofNat starts.length)]
        rfl
      simp only [hitems, htotal]

/-- The items of accounts are within the limit. -/
theorem Accounts.room {limit : Nat} {reports : List (Report Item)} {result : ExactResult Item}
    (haccounts : Accounts limit reports result) : result.items.length ≤ limit := by
  rw [haccounts.items]
  exact List.length_take_le _ _

theorem Countable.front {first second : List (Report Item)}
    (hcountable : Countable (first ++ second)) : Countable first := by
  have hcount := hcountable.count
  have hbytes := hcountable.bytes
  rw [List.length_append] at hcount
  rw [List.map_append, List.sum_append] at hbytes
  exact ⟨by omega, by omega, fun report hmem =>
    hcountable.found report (List.mem_append_left _ hmem)⟩

/-- A scanned source adds its report. -/
theorem scanned_ok {literal : Literal} {limit : Nat} {env : Env}
    {build : Nat → Nat → Except QueryFailure Item} {item : Nat → Item} {byteLength : UInt64}
    {input : Bytes} {reports : List (Report Item)} {result : ExactResult Item}
    (hquiet : Undisturbed env)
    (hbuild : ∀ start ∈ Patterns.occurrences literal.bytes input,
      build start (start + literal.bytes.length) = .ok (item start))
    (haccounts : Accounts limit reports result)
    (hcountable : Countable (reports ++
      [.scanned byteLength ((Patterns.occurrences literal.bytes input).map item)])) :
    (literal.scan env input (ExactResult.visit limit build) result >>=
        ExactResult.finishSource byteLength) =
      .ok (result.add limit
        (.scanned byteLength ((Patterns.occurrences literal.bytes input).map item))) := by
  have hbytes := hcountable.bytes
  have hfound := hcountable.found_le
  rw [List.map_append, List.sum_append] at hbytes hfound
  rw [List.map_append, List.sum_append] at hfound
  simp only [List.map_cons, List.map_nil, List.sum_singleton, Report.bytes, Report.found,
    List.length_map] at hbytes hfound
  have hfits : result.foundMatches.toNat +
      (Patterns.occurrences literal.bytes input).length < 2 ^ 64 := by
    rw [haccounts.found]
    omega
  have hchecked : checkedAdd result.scannedBytes byteLength =
      some (result.scannedBytes + byteLength) := by
    refine checkedAdd_eq_some.mpr (toNat_add_of_lt _ _ ?_)
    rw [haccounts.bytes]
    omega
  rw [literal.scan_eq hquiet, visitAll_visit _ _ hbuild haccounts.room hfits, ok_bind,
    ExactResult.finishSource]
  dsimp only
  rw [hchecked, okOr_some, ok_bind, pure_eq_ok, ExactResult.add, List.length_map]

/-- Scanning sources adds the report of each. -/
theorem scanSources_ok {scanSource : Env → CapturedSource → ExactResult Item →
      Except QueryFailure (ExactResult Item)}
    {report : CapturedSource → Report Item} {limit : Nat} {env : Env} (hquiet : Undisturbed env)
    (sources : List CapturedSource) (before : List (Report Item)) (result : ExactResult Item)
    (site : Nat)
    (hscan : ∀ captured ∈ sources, ∀ env reports result, Undisturbed env →
      Accounts limit reports result → Countable (reports ++ [report captured]) →
      scanSource env captured result = .ok (result.add limit (report captured)))
    (haccounts : Accounts limit before result)
    (hcountable : Countable (before ++ sources.map report)) :
    ∃ next, scanSources scanSource env site sources result = .ok next ∧
      Accounts limit (before ++ sources.map report) next ∧
      next.generation = result.generation ∧ next.selectedSources = result.selectedSources ∧
      next.stop = result.stop := by
  induction sources generalizing before result site with
  | nil => exact ⟨result, rfl, by rwa [List.map_nil, List.append_nil], rfl, rfl, rfl⟩
  | cons captured sources ih =>
      have hsplit : before ++ (captured :: sources).map report =
          before ++ [report captured] ++ sources.map report := by
        rw [List.map_cons, List.append_assoc, List.singleton_append]
      rw [hsplit] at hcountable ⊢
      have hstep := hscan captured List.mem_cons_self (within env site) before result
        (hquiet.within site) haccounts hcountable.front
      obtain ⟨next, hnext, hall, hgeneration, hselected, hstop⟩ :=
        ih (before ++ [report captured]) (result.add limit (report captured)) (site + 1)
          (fun other hother => hscan other (List.mem_cons_of_mem _ hother))
          (haccounts.add _ hcountable.front) hcountable
      have hkept : (result.add limit (report captured)).generation = result.generation ∧
          (result.add limit (report captured)).selectedSources = result.selectedSources ∧
          (result.add limit (report captured)).stop = result.stop := by
        cases report captured <;> exact ⟨rfl, rfl, rfl⟩
      refine ⟨next, ?_, hall, hgeneration.trans hkept.1, hselected.trans hkept.2.1,
        hstop.trans hkept.2.2⟩
      rw [scanSources, hstep, ok_bind, hnext]

/-- What a scan of one source that succeeds adds. -/
theorem scanned_eq_ok {literal : Literal} {limit : Nat} {env : Env}
    {build : Nat → Nat → Except QueryFailure Item} {item : Nat → Item} {byteLength : UInt64}
    {input : Bytes} {reports : List (Report Item)} {result next : ExactResult Item}
    (hbuild : ∀ start ∈ Patterns.occurrences literal.bytes input,
      build start (start + literal.bytes.length) = .ok (item start))
    (haccounts : Accounts limit reports result)
    (hcountable : Countable (reports ++
      [.scanned byteLength ((Patterns.occurrences literal.bytes input).map item)]))
    (hscan : (literal.scan env input (ExactResult.visit limit build) result >>=
      ExactResult.finishSource byteLength) = .ok next) :
    next = result.add limit
      (.scanned byteLength ((Patterns.occurrences literal.bytes input).map item)) := by
  obtain ⟨middle, hmiddle, hfinish⟩ := bind_eq_ok.mp hscan
  have hquiet := scanned_ok undisturbed_quiet hbuild haccounts hcountable
  rw [literal.scan_eq undisturbed_quiet, Literal.scan_eq_ok hmiddle, ok_bind, hfinish] at hquiet
  exact Except.ok.inj hquiet

/-- A gap that is counted adds its report. -/
theorem addGap_ok {limit : Nat} {build : Except QueryFailure Item} {item : Item}
    {reports : List (Report Item)} {result : ExactResult Item} (hbuild : build = .ok item)
    (haccounts : Accounts limit reports result) :
    ExactResult.addGap limit build result = .ok (result.add limit (.gap item)) :=
  keep_ok hbuild haccounts.room

/-- What scans of sources that succeed add. -/
theorem scanSources_eq_ok {scanSource : Env → CapturedSource → ExactResult Item →
      Except QueryFailure (ExactResult Item)}
    {report : CapturedSource → Report Item} {limit : Nat} {env : Env}
    (sources : List CapturedSource) (before : List (Report Item)) (result : ExactResult Item)
    (site : Nat) {last : ExactResult Item}
    (hscan : ∀ captured ∈ sources, ∀ env reports result next,
      Accounts limit reports result → Countable (reports ++ [report captured]) →
      scanSource env captured result = .ok next → next = result.add limit (report captured))
    (haccounts : Accounts limit before result)
    (hcountable : Countable (before ++ sources.map report))
    (hlast : scanSources scanSource env site sources result = .ok last) :
    Accounts limit (before ++ sources.map report) last ∧ last.generation = result.generation ∧
      last.selectedSources = result.selectedSources ∧ last.stop = result.stop := by
  induction sources generalizing before result site with
  | nil =>
      obtain rfl := Except.ok.inj hlast
      exact ⟨by rwa [List.map_nil, List.append_nil], rfl, rfl, rfl⟩
  | cons captured sources ih =>
      have hsplit : before ++ (captured :: sources).map report =
          before ++ [report captured] ++ sources.map report := by
        rw [List.map_cons, List.append_assoc, List.singleton_append]
      rw [hsplit] at hcountable ⊢
      obtain ⟨next, hnext, hlater⟩ := bind_eq_ok.mp hlast
      obtain rfl := hscan captured List.mem_cons_self _ before result next haccounts
        hcountable.front hnext
      obtain ⟨hall, hgeneration, hselected, hstop⟩ :=
        ih (before ++ [report captured]) _ (site + 1)
          (fun other hother => hscan other (List.mem_cons_of_mem _ hother))
          (haccounts.add _ hcountable.front) hcountable hlater
      have hkept : (result.add limit (report captured)).generation = result.generation ∧
          (result.add limit (report captured)).selectedSources = result.selectedSources ∧
          (result.add limit (report captured)).stop = result.stop := by
        cases report captured <;> exact ⟨rfl, rfl, rfl⟩
      exact ⟨hall, hgeneration.trans hkept.1, hselected.trans hkept.2.1, hstop.trans hkept.2.2⟩

/-- When all sources are scanned each of them is. -/
theorem scanSources_each {scanSource : Env → CapturedSource → ExactResult Item →
      Except QueryFailure (ExactResult Item)} {env : Env} {site : Nat}
    {sources : List CapturedSource} {result last : ExactResult Item}
    (hlast : scanSources scanSource env site sources result = .ok last) :
    ∀ captured ∈ sources, ∃ env before after, scanSource env captured before = .ok after := by
  induction sources generalizing result site with
  | nil => exact fun captured hmem => absurd hmem List.not_mem_nil
  | cons captured sources ih =>
      obtain ⟨next, hnext, hlater⟩ := bind_eq_ok.mp hlast
      exact List.forall_mem_cons.mpr ⟨⟨_, _, _, hnext⟩, ih hlater⟩

/-- Scanning sources fails at one of them. -/
theorem scanSources_eq_error {scanSource : Env → CapturedSource → ExactResult Item →
      Except QueryFailure (ExactResult Item)} {env : Env} {site : Nat}
    {sources : List CapturedSource} {result : ExactResult Item} {reason : QueryFailure}
    (hfailed : scanSources scanSource env site sources result = .error reason) :
    ∃ env captured before, scanSource env captured before = .error reason := by
  induction sources generalizing result site with
  | nil => cases hfailed
  | cons captured sources ih =>
      rcases bind_eq_error.mp hfailed with hhere | ⟨next, -, hlater⟩
      · exact ⟨_, _, _, hhere⟩
      · exact ih hlater

/-! ## The closing check -/

/-- A report about one source: its items carry that source, are valid, spell the
literal and follow each other. -/
structure Report.Honest (kind : Kind Item) (literal : Text) (source : RawSourceRef)
    (report : Report Item) : Prop where
  source : ∀ item ∈ report.items, kind.source item = source
  valid : ∀ item ∈ report.items, kind.validate item = .ok ()
  spelled : ∀ item ∈ report.items, kind.spells literal item = true
  matched : ∀ item ∈ report.items, kind.isMatch item = !report.isGap
  ordered : report.items.Pairwise fun first second => kind.follows first second = true

theorem validateItems_ok {kind : Kind Item} {previous : Option Item} {items : List Item}
    (hvalid : ∀ item ∈ items, kind.validate item = .ok ())
    (hprevious : ∀ left ∈ previous, ∀ item ∈ items, kind.InOrder left item)
    (hordered : items.Pairwise kind.InOrder) : kind.validateItems previous items = .ok () := by
  induction items generalizing previous with
  | nil => rfl
  | cons item items ih =>
      obtain ⟨hfirst, hrest⟩ := List.pairwise_cons.mp hordered
      have hfollows : ¬ ∃ left ∈ previous, ¬ kind.InOrder left item := by
        rintro ⟨left, hleft, hbreak⟩
        exact hbreak (hprevious left hleft item List.mem_cons_self)
      have hnext := ih (fun other hother => hvalid other (List.mem_cons_of_mem _ hother))
        (fun left hleft => Option.some.inj hleft ▸ hfirst) hrest
      rw [Kind.validateItems, hvalid item List.mem_cons_self, ok_bind, refuse_of_not hfollows,
        ok_bind, hnext]

section Totals

variable {reports : List (Report Item)}

theorem scanned_add_gaps (reports : List (Report Item)) :
    (reports.countP fun report => !report.isGap) + reports.countP Report.isGap =
      reports.length := by
  induction reports with
  | nil => rfl
  | cons report reports ih =>
      rw [List.countP_cons, List.countP_cons, List.length_cons]
      cases report.isGap
      · simp only [Bool.not_false, if_true, Bool.false_eq_true, if_false]
        omega
      · simp only [Bool.not_true, if_true, Bool.false_eq_true, if_false]
        omega

theorem items_length (reports : List (Report Item)) :
    (reports.flatMap Report.items).length =
      (reports.map Report.found).sum + reports.countP Report.isGap := by
  induction reports with
  | nil => rfl
  | cons report reports ih =>
      rw [List.flatMap_cons, List.length_append, ih, List.map_cons, List.sum_cons, List.countP_cons]
      cases report with
      | scanned bytes found =>
          simp only [Report.items, Report.found, Report.isGap, Bool.false_eq_true, if_false]
          omega
      | gap item =>
          simp only [Report.items, Report.found, Report.isGap, if_true, List.length_singleton]
          omega

/-- When nothing is scanned no bytes are. -/
theorem bytes_of_no_scan (hnone : (reports.countP fun report => !report.isGap) = 0) :
    (reports.map Report.bytes).sum = 0 := by
  refine List.sum_eq_zero fun value hmem => ?_
  obtain ⟨report, hreport, rfl⟩ := List.mem_map.mp hmem
  have hgap := List.countP_eq_zero.mp hnone report hreport
  cases report with
  | scanned bytes found => exact absurd rfl hgap
  | gap item => rfl

variable {kind : Kind Item} {literal : Text}

/-- The occurrences and the gaps among the items are those counted. -/
theorem countP_items (hhonest : ∀ report ∈ reports, ∃ source, report.Honest kind literal source) :
    (reports.flatMap Report.items).countP kind.isMatch = (reports.map Report.found).sum ∧
      ((reports.flatMap Report.items).countP fun item => !kind.isMatch item) =
        reports.countP Report.isGap := by
  induction reports with
  | nil => exact ⟨rfl, rfl⟩
  | cons report reports ih =>
      obtain ⟨source, hreport⟩ := hhonest report List.mem_cons_self
      obtain ⟨hfound, hgaps⟩ := ih fun other hother => hhonest other (List.mem_cons_of_mem _ hother)
      rw [List.flatMap_cons, List.countP_append, List.countP_append, hfound, hgaps, List.map_cons,
        List.sum_cons, List.countP_cons]
      cases report with
      | scanned bytes found =>
          have hall : found.countP kind.isMatch = found.length :=
            List.countP_eq_length.mpr fun item hmem => hreport.matched item hmem
          have hnone : (found.countP fun item => !kind.isMatch item) = 0 := by
            refine List.countP_eq_zero.mpr fun item hmem => ?_
            rw [hreport.matched item hmem]
            simp [Report.isGap]
          have hnoGap : (Report.scanned bytes found : Report Item).isGap = false := rfl
          rw [hnoGap, if_neg Bool.false_ne_true]
          constructor
          · exact congrArg (· + (reports.map Report.found).sum) hall
          · exact (congrArg (· + reports.countP Report.isGap) hnone).trans (Nat.zero_add _)
      | gap item =>
          have hother : kind.isMatch item = false := hreport.matched item List.mem_cons_self
          simp [Report.items, Report.found, Report.isGap, hother, Nat.add_comm]

end Totals

/-- Items about sources in order are in order when those of each source follow each
other. -/
theorem items_inOrder (kind : Kind Item) {sources : List CapturedSource}
    {report : CapturedSource → Report Item} (hinventory : Inventory sources)
    (hsource : ∀ captured ∈ sources, ∀ item ∈ (report captured).items,
      kind.source item = sourceRef captured.source)
    (hfollows : ∀ captured ∈ sources, (report captured).items.Pairwise fun first second =>
      kind.follows first second = true) :
    ((sources.map report).flatMap Report.items).Pairwise kind.InOrder := by
  rw [List.flatMap_map, List.pairwise_flatMap]
  constructor
  · intro captured hmem
    refine (List.Pairwise.imp_of_mem ?_ (hfollows captured hmem))
    intro first second hfirst hsecond hfollows
    have hleft := hsource captured hmem first hfirst
    have hright := hsource captured hmem second hsecond
    refine ⟨by rw [hleft, hright], ?_, fun _ => ⟨by rw [hleft, hright], hfollows⟩⟩
    rw [hleft, hright, Std.ReflOrd.compare_self]
    decide
  · refine List.Pairwise.imp_of_mem ?_ hinventory.ordered
    intro earlier later hearlier hlater hless first hfirst second hsecond
    have hleft := hsource earlier hearlier first hfirst
    have hright := hsource later hlater second hsecond
    have hcompare : compare (sourceRef earlier.source).sourceId
        (sourceRef later.source).sourceId = .lt :=
      (Hex.compare_uuidText _ _).trans hless
    have hshared : (sourceRef earlier.source).sourceNamespaceId =
        (sourceRef later.source).sourceNamespaceId :=
      congrArg Hex.uuidText (hinventory.shared earlier hearlier later hlater)
    refine ⟨by rw [hleft, hright, hshared], ?_, ?_⟩
    · rw [hleft, hright, hcompare]
      decide
    · intro heq
      rw [hleft, hright] at heq
      rw [heq, Std.ReflOrd.compare_self] at hcompare
      cases hcompare

theorem Inventory.sublist {inventory part : List CapturedSource} (hinventory : Inventory inventory)
    (hpart : part.Sublist inventory) : Inventory part where
  coherent captured hmem := hinventory.coherent captured (hpart.subset hmem)
  shared first hfirst second hsecond :=
    hinventory.shared first (hpart.subset hfirst) second (hpart.subset hsecond)
  ordered := hinventory.ordered.sublist hpart
  bounded := hpart.length_le.trans hinventory.bounded

/-- Reports about few enough small sources are countable. -/
theorem countable_map {sources : List CapturedSource} {report : CapturedSource → Report Item}
    (hcount : sources.length ≤ maxSources)
    (hbounded : ∀ captured ∈ sources, (report captured).found ≤ (report captured).bytes ∧
      (report captured).bytes ≤ maxSourceObjectBytes.toNat) :
    Countable (sources.map report) := by
  refine ⟨?_, ?_, List.forall_mem_map.mpr fun captured hmem => (hbounded captured hmem).1⟩
  · rw [List.length_map]
    exact hcount.trans_lt (by decide)
  · have hsum := List.sum_le_card_nsmul ((sources.map report).map Report.bytes)
      maxSourceObjectBytes.toNat
      (List.forall_mem_map.mpr (List.forall_mem_map.mpr fun captured hmem =>
        (hbounded captured hmem).2))
    rw [List.length_map, List.length_map, smul_eq_mul] at hsum
    refine (hsum.trans (Nat.mul_le_mul_right _ hcount)).trans_lt (by decide)

/-- The result of a search that accounts for every selected source. -/
structure Exhaustive (limit : Nat) (generation : UInt64) (reports : List (Report Item))
    (result : ExactResult Item) : Prop where
  generation : result.generation = generation
  selected : result.selectedSources.toNat = reports.length
  accounts : Accounts limit reports result
  scanComplete : result.scanComplete = true ↔ ∀ report ∈ reports, report.isGap = false
  completeNegative : result.completeNegative = true ↔
    ∀ report ∈ reports, report.isGap = false ∧ report.items = []
  stop : result.stop = .complete ↔ (reports.flatMap Report.items).length ≤ limit

/-- Reports that answer a request about the selected sources. -/
structure Answers (kind : Kind Item) (request : LiteralRequest) (sources : List CapturedSource)
    (report : CapturedSource → Report Item) : Prop where
  inventory : Inventory sources
  honest : ∀ captured ∈ sources,
    (report captured).Honest kind request.literal (sourceRef captured.source)
  countable : Countable (sources.map report)
  counted : ∀ ids ∈ request.sourceIds, ids.length = sources.length
  selected : ∀ ids ∈ request.sourceIds, ∀ captured ∈ sources,
    Hex.uuidText captured.source.sourceId ∈ ids

section Closing

variable {kind : Kind Item} {request : LiteralRequest} {sources : List CapturedSource}
  {report : CapturedSource → Report Item} {generation : UInt64} {result : ExactResult Item}

theorem Answers.honest_of_mem (hanswers : Answers kind request sources report) :
    ∀ found ∈ sources.map report, ∃ source, found.Honest kind request.literal source := by
  intro found hmem
  obtain ⟨captured, hcaptured, rfl⟩ := List.mem_map.mp hmem
  exact ⟨_, hanswers.honest captured hcaptured⟩

/-- Each item belongs to a selected source. -/
theorem Answers.item (hanswers : Answers kind request sources report) {item : Item}
    (hmem : item ∈ (sources.map report).flatMap Report.items) :
    ∃ captured ∈ sources, kind.source item = sourceRef captured.source ∧
      kind.validate item = .ok () ∧ kind.spells request.literal item = true := by
  obtain ⟨_, hreport, hitem⟩ := List.mem_flatMap.mp hmem
  obtain ⟨captured, hcaptured, rfl⟩ := List.mem_map.mp hreport
  have hhonest := hanswers.honest captured hcaptured
  exact ⟨captured, hcaptured, hhonest.source item hitem, hhonest.valid item hitem,
    hhonest.spelled item hitem⟩

/-- No source is a gap exactly when every one is scanned. -/
theorem Accounts.scanned_eq {limit : Nat} {reports : List (Report Item)}
    (haccounts : Accounts limit reports result) (selected : UInt64)
    (hselected : selected.toNat = reports.length) :
    (result.scannedSources = selected ↔ ∀ report ∈ reports, report.isGap = false) ∧
      (result.gapSources = 0 ↔ ∀ report ∈ reports, report.isGap = false) := by
  have htotal := scanned_add_gaps reports
  have hgaps := haccounts.gaps
  have hscanned := haccounts.scanned
  have hnone : reports.countP Report.isGap = 0 ↔ ∀ report ∈ reports, report.isGap = false := by
    simp only [List.countP_eq_zero, Bool.not_eq_true]
  rw [← hnone]
  constructor
  · rw [← UInt64.toNat_inj]
    omega
  · rw [← UInt64.toNat_inj, hgaps]
    rfl

/-- Nothing is found exactly when no scanned source has an item. -/
theorem Accounts.found_eq_zero {limit : Nat} {reports : List (Report Item)}
    (haccounts : Accounts limit reports result) :
    result.foundMatches = 0 ↔ ∀ report ∈ reports, report.found = 0 := by
  rw [← UInt64.toNat_inj, haccounts.found]
  simp only [UInt64.toNat_zero, List.sum_eq_zero_iff, List.forall_mem_map]

theorem Report.found_eq_zero {report : Report Item} (hscanned : report.isGap = false) :
    report.found = 0 ↔ report.items = [] := by
  cases report with
  | scanned bytes found => exact List.length_eq_zero_iff
  | gap item => cases hscanned

/-- An exhaustive result that answers its request passes the check made of it. -/
theorem Exhaustive.validateRequest
    (hresult : Exhaustive request.limit.toNat generation (sources.map report) result)
    (hanswers : Answers kind request sources report) (hgeneration : generation ≠ 0)
    (hrequest : request.validate = .ok ()) : kind.validateRequest request result = .ok () := by
  obtain ⟨-, -, hpositive, hlimited, -⟩ := LiteralRequest.valid_of_validate hrequest
  have haccounts := hresult.accounts
  have hselected := hresult.selected
  have hitems := haccounts.items
  have hcount := hanswers.countable.count
  have hfoundLe := hanswers.countable.found_le
  have hbytes := hanswers.countable.bytes
  have hgapsLe : (sources.map report).countP Report.isGap ≤ (sources.map report).length :=
    List.countP_le_length
  have htotal := scanned_add_gaps (sources.map report)
  have hlength := items_length (sources.map report)
  have hshown : result.items.length =
      min request.limit.toNat ((sources.map report).flatMap Report.items).length := by
    rw [hitems, List.length_take]
  have hfront {item : Item} (hmem : item ∈ result.items) :
      item ∈ (sources.map report).flatMap Report.items := by
    rw [hitems] at hmem
    exact List.mem_of_mem_take hmem
  have hsum : (result.foundMatches + result.gapSources).toNat =
      result.foundMatches.toNat + result.gapSources.toNat := by
    refine toNat_add_of_lt _ _ ?_
    rw [haccounts.found, haccounts.gaps]
    omega
  have hsumItems : (result.foundMatches + result.gapSources).toNat =
      ((sources.map report).flatMap Report.items).length := by
    rw [hsum, haccounts.found, haccounts.gaps, hlength]
  have hchecked : checkedAdd result.foundMatches result.gapSources =
      some (result.foundMatches + result.gapSources) := checkedAdd_eq_some.mpr hsum
  have hsources : checkedAdd result.scannedSources result.gapSources =
      some result.selectedSources := by
    refine checkedAdd_eq_some.mpr ?_
    rw [haccounts.scanned, haccounts.gaps, hselected, htotal]
  obtain ⟨hall, -⟩ := haccounts.scanned_eq result.selectedSources hselected
  have hcomplete : result.scanComplete = decide (result.scannedSources = result.selectedSources) := by
    rw [Bool.eq_iff_iff, hresult.scanComplete, decide_eq_true_iff, hall]
  have hnegative : result.completeNegative =
      (result.scanComplete && decide (result.foundMatches = 0)) := by
    rw [Bool.eq_iff_iff, hresult.completeNegative, Bool.and_eq_true, hresult.scanComplete,
      decide_eq_true_iff, haccounts.found_eq_zero, ← forall₂_and]
    refine forall₂_congr fun found _ => and_congr_right fun hscanned => ?_
    exact (Report.found_eq_zero hscanned).symm
  have hmatches : result.foundMatches ≤ result.scannedBytes := by
    rw [UInt64.le_iff_toNat_le, haccounts.found, haccounts.bytes]
    exact hfoundLe
  have hempty : result.scannedSources = 0 → result.scannedBytes = 0 := by
    rw [← UInt64.toNat_inj, ← UInt64.toNat_inj, haccounts.scanned, haccounts.bytes]
    exact bytes_of_no_scan
  have hstop : result.stop = .complete ↔
      result.items.length = (result.foundMatches + result.gapSources).toNat := by
    rw [hresult.stop, hshown, hsumItems]
    omega
  have hbounds : ¬ (result.generation = 0 ∨ request.limit = 0 ∨ request.limit.toNat > maxItems ∨
      result.items.length > request.limit.toNat ∨
      checkedAdd result.scannedSources result.gapSources ≠ some result.selectedSources ∨
      result.scanComplete ≠ decide (result.scannedSources = result.selectedSources) ∨
      result.completeNegative ≠ (result.scanComplete && decide (result.foundMatches = 0)) ∨
      result.foundMatches > result.scannedBytes ∨
      (result.scannedSources = 0 ∧ result.scannedBytes ≠ 0) ∨
      result.items.length > (result.foundMatches + result.gapSources).toNat ∨
      ¬ (result.stop = .complete ↔
        result.items.length = (result.foundMatches + result.gapSources).toNat)) := by
    rintro (hbad | hbad | hbad | hbad | hbad | hbad | hbad | hbad | ⟨hbad, hother⟩ | hbad | hbad)
    · exact hgeneration (hresult.generation.symm.trans hbad)
    · exact hpositive hbad
    · exact absurd hlimited (not_le.mpr hbad)
    · omega
    · exact hbad hsources
    · exact hbad hcomplete
    · exact hbad hnegative
    · exact absurd hmatches (UInt64.not_le.mpr hbad)
    · exact hother (hempty hbad)
    · omega
    · exact hbad hstop
  have hinOrder : ((sources.map report).flatMap Report.items).Pairwise kind.InOrder :=
    items_inOrder kind hanswers.inventory (fun captured hmem => (hanswers.honest captured hmem).source)
      (fun captured hmem => (hanswers.honest captured hmem).ordered)
  have hvalidItems : kind.validateItems none result.items = .ok () := by
    refine validateItems_ok (fun item hmem => ?_) (fun left hleft => by cases hleft) ?_
    · obtain ⟨_, -, -, hvalid, -⟩ := hanswers.item (hfront hmem)
      exact hvalid
    · rw [hitems]
      exact hinOrder.sublist (List.take_sublist _ _)
  obtain ⟨hfound, hgapItems⟩ := countP_items hanswers.honest_of_mem
  have hkinds : ¬ (result.items.countP kind.isMatch > result.foundMatches.toNat ∨
      (result.items.countP fun item => !kind.isMatch item) > result.gapSources.toNat) := by
    rw [haccounts.found, haccounts.gaps, ← hfound, ← hgapItems, hitems, not_or, not_lt, not_lt]
    exact ⟨(List.take_sublist _ _).countP_le, (List.take_sublist _ _).countP_le⟩
  have hchosen : ¬ ∃ ids ∈ request.sourceIds, ids.length ≠ result.selectedSources.toNat ∨
      ∃ item ∈ result.items, (kind.source item).sourceId ∉ ids := by
    rintro ⟨ids, hids, hbad | ⟨item, hmem, hbad⟩⟩
    · rw [hselected, List.length_map] at hbad
      exact hbad (hanswers.counted ids hids)
    · obtain ⟨captured, hcaptured, hsource, -, -⟩ := hanswers.item (hfront hmem)
      rw [hsource] at hbad
      exact hbad (hanswers.selected ids hids captured hcaptured)
  have hspelled : ¬ ∃ item ∈ result.items, kind.spells request.literal item = false := by
    rintro ⟨item, hmem, hbad⟩
    obtain ⟨_, -, -, -, hgood⟩ := hanswers.item (hfront hmem)
    rw [hgood] at hbad
    cases hbad
  rw [Kind.validateRequest, hrequest, ok_bind, Kind.validateResult, hchecked, okOr_some, ok_bind,
    refuse_of_not hbounds, ok_bind, hvalidItems, ok_bind, refuse_of_not hkinds, ok_bind,
    refuse_of_not hchosen, ok_bind, refuse_of_not hspelled]

/-- Closing complete accounts gives an exhaustive result; what remains is the check
made of it. -/
theorem finish_exhaustive {reports : List (Report Item)} (kind : Kind Item)
    (haccounts : Accounts request.limit.toNat reports result) (hcountable : Countable reports)
    (hselected : result.selectedSources.toNat = reports.length) (hstop : result.stop = .complete) :
    ∃ final, Exhaustive request.limit.toNat result.generation reports final ∧
      result.finish kind request =
        ((kind.validateRequest request final).mapError (fun error => .code error.code) >>=
          fun _ => pure final) := by
  have hcount := hcountable.count
  have hfoundLe := hcountable.found_le
  have hbytes := hcountable.bytes
  have hgapsLe : reports.countP Report.isGap ≤ reports.length := List.countP_le_length
  have hlength := items_length reports
  have hshown : result.items.length =
      min request.limit.toNat (reports.flatMap Report.items).length := by
    rw [haccounts.items, List.length_take]
  have hsum : (result.foundMatches + result.gapSources).toNat =
      result.foundMatches.toNat + result.gapSources.toNat := by
    refine toNat_add_of_lt _ _ ?_
    rw [haccounts.found, haccounts.gaps]
    omega
  have hsumItems : (result.foundMatches + result.gapSources).toNat =
      (reports.flatMap Report.items).length := by
    rw [hsum, haccounts.found, haccounts.gaps, hlength]
  have hchecked : checkedAdd result.foundMatches result.gapSources =
      some (result.foundMatches + result.gapSources) := checkedAdd_eq_some.mpr hsum
  obtain ⟨-, hgaps⟩ := haccounts.scanned_eq result.selectedSources hselected
  set closed : ExactResult Item := { result with
    scanComplete := decide (result.gapSources = 0)
    completeNegative := decide (result.gapSources = 0) && decide (result.foundMatches = 0) }
    with hclosed
  set final : ExactResult Item :=
    if closed.items.length ≠ (result.foundMatches + result.gapSources).toNat then
      { closed with stop := .outputLimit } else closed with hfinal
  have hkept : final.generation = result.generation ∧
      final.selectedSources = result.selectedSources ∧
      final.scanComplete = decide (result.gapSources = 0) ∧
      final.completeNegative =
        (decide (result.gapSources = 0) && decide (result.foundMatches = 0)) ∧
      Accounts request.limit.toNat reports final := by
    rw [hfinal]
    split
    · exact ⟨rfl, rfl, rfl, rfl, ⟨haccounts.scanned, haccounts.gaps, haccounts.bytes,
        haccounts.found, haccounts.items⟩⟩
    · exact ⟨rfl, rfl, rfl, rfl, ⟨haccounts.scanned, haccounts.gaps, haccounts.bytes,
        haccounts.found, haccounts.items⟩⟩
  obtain ⟨hgenerationKept, hselectedKept, hscanKept, hnegativeKept, haccountsKept⟩ := hkept
  refine ⟨final, ⟨hgenerationKept, hselectedKept ▸ hselected, haccountsKept, ?_, ?_, ?_⟩, ?_⟩
  · rw [hscanKept, decide_eq_true_iff, hgaps]
  · rw [hnegativeKept, Bool.and_eq_true, decide_eq_true_iff, decide_eq_true_iff, hgaps,
      haccounts.found_eq_zero, ← forall₂_and]
    refine forall₂_congr fun found _ => and_congr_right fun hscanned => ?_
    exact Report.found_eq_zero hscanned
  · rw [hfinal, hsumItems]
    change (if result.items.length ≠ _ then _ else closed).stop = _ ↔ _
    rw [hshown]
    split
    · constructor
      · rintro ⟨⟩
      · omega
    · exact iff_of_true hstop (by omega)
  · rw [ExactResult.finish]
    dsimp only
    rw [hchecked, okOr_some, ok_bind]

/-- Closing the accounts of reports that answer the request gives a result that
passes the check made of it. -/
theorem finish_ok (haccounts : Accounts request.limit.toNat (sources.map report) result)
    (hanswers : Answers kind request sources report) (hgeneration : result.generation ≠ 0)
    (hselected : result.selectedSources.toNat = sources.length) (hstop : result.stop = .complete)
    (hrequest : request.validate = .ok ()) :
    ∃ final, result.finish kind request = .ok final ∧
      Exhaustive request.limit.toNat result.generation (sources.map report) final ∧
      kind.validateRequest request final = .ok () := by
  have hcount : result.selectedSources.toNat = (sources.map report).length := by
    rw [hselected, List.length_map]
  obtain ⟨final, hexhaustive, hfinish⟩ :=
    finish_exhaustive kind haccounts hanswers.countable hcount hstop
  have hvalid := hexhaustive.validateRequest hanswers hgeneration hrequest
  refine ⟨final, ?_, hexhaustive, hvalid⟩
  rw [hfinish, hvalid]
  rfl

end Closing

/-! ## The whole search -/

/-- A pinned generation has a sequence number that is not zero. -/
theorem pinned_sequence {env : Env} {db : Db} {view : PublishedView}
    (hpinned : pinPublished env db = .ok view) : view.generation.sequence ≠ 0 := by
  simp only [pinPublished, bind_eq_ok, okOr_eq_ok, pure_eq_ok, Except.ok.injEq] at hpinned
  obtain ⟨_, -, state, hstate, generation, hcurrent, _, -, _, -, _, -, _, -, rfl⟩ := hpinned
  unfold readState at hstate
  split at hstate
  · obtain rfl := Except.ok.inj hstate
    cases hcurrent
  · simp only [bind_eq_ok] at hstate
    obtain ⟨bytes, -, hdecode⟩ := hstate
    exact ((decodeState_readable hdecode).current_accepted generation hcurrent).2.1

section Searching

variable {kind : Kind Item} {request : LiteralRequest} {inventory : List CapturedSource}
  {report : CapturedSource → Report Item}

/-- Reports about the selected sources of an inventory answer the request. -/
theorem answers_of_selection (hinventory : Inventory inventory)
    (hrequest : request.validate = .ok ()) (hpublished : Published request.sourceIds inventory)
    (hhonest : ∀ captured ∈ selection request.sourceIds inventory,
      (report captured).Honest kind request.literal (sourceRef captured.source))
    (hcountable : Countable ((selection request.sourceIds inventory).map report)) :
    Answers kind request (selection request.sourceIds inventory) report where
  inventory := hinventory.sublist (selection_sublist _ _)
  honest := hhonest
  countable := hcountable
  counted ids hids := by
    have hdistinct := (LiteralRequest.valid_of_validate hrequest).distinct ids hids
    rw [Option.mem_def.mp hids] at hpublished ⊢
    exact (selection_length hinventory hdistinct hpublished).symm
  selected ids hids captured hmem := of_decide_eq_true (List.mem_filter.mp hmem).2 ids hids

/-- A search whose scan of each selected source adds its report succeeds, accounts
for every selected source and passes the check made of it. -/
theorem executeWith_ok {scanSource : Literal → Nat → Env → CapturedSource → ExactResult Item →
      Except QueryFailure (ExactResult Item)} {env other : Env} {view : PublishedView}
    (hquiet : Undisturbed env) (hgeneration : view.generation.sequence ≠ 0)
    (hinventory : view.sourceInventory other = .ok inventory)
    (hrequest : request.validate = .ok ()) (hpublished : Published request.sourceIds inventory)
    (hhonest : ∀ captured ∈ selection request.sourceIds inventory,
      (report captured).Honest kind request.literal (sourceRef captured.source))
    (hcountable : Countable ((selection request.sourceIds inventory).map report))
    (hscan : ∀ literal : Literal, literal.bytes = request.literal.bytes →
      ∀ captured ∈ selection request.sourceIds inventory, ∀ env reports result, Undisturbed env →
      Accounts request.limit.toNat reports result → Countable (reports ++ [report captured]) →
      scanSource literal request.limit.toNat env captured result =
        .ok (result.add request.limit.toNat (report captured))) :
    ∃ result, executeWith kind scanSource env view request = .ok result ∧
      Exhaustive request.limit.toNat view.generation.sequence
        ((selection request.sourceIds inventory).map report) result ∧
      kind.validateRequest request result = .ok () := by
  have hwhole := inventory_of_view hinventory
  have hanswers := answers_of_selection hwhole hrequest hpublished hhonest hcountable
  have hnonempty := (LiteralRequest.valid_of_validate hrequest).nonempty
  obtain ⟨literal, hliteral, hbytes⟩ := Literal.new_ok (hquiet.within 1) hnonempty
  have hread := sourceInventory_undisturbed hinventory (hquiet.within 2)
  have hselect := selectSources_ok (hquiet.within 3) hwhole hpublished
  obtain ⟨last, hlast, haccounts, hsequence, hselected, hstop⟩ :=
    scanSources_ok (hquiet.within 4) (selection request.sourceIds inventory) []
      (ExactResult.start view.generation.sequence
        (selection request.sourceIds inventory).length) 0
      (hscan literal hbytes) (accounts_start _ _ _) hcountable
  have hsmall : (selection request.sourceIds inventory).length < 2 ^ 32 := by
    have hcount := hcountable.count
    rwa [List.length_map] at hcount
  have hlength : last.selectedSources.toNat = (selection request.sourceIds inventory).length := by
    rw [hselected]
    exact UInt64.toNat_ofNat_of_lt' (hsmall.trans (by decide))
  obtain ⟨final, hfinal, hexhaustive, hvalid⟩ := finish_ok haccounts hanswers
    (by rwa [hsequence]) hlength hstop hrequest
  rw [hsequence] at hexhaustive
  refine ⟨final, ?_, hexhaustive, hvalid⟩
  rw [executeWith, check_ok hquiet, ok_bind, hrequest]
  change (Literal.new (within env 1) request.literal.bytes >>= _) = _
  rw [hliteral, ok_bind, hread]
  change (selectSources (within env 3) inventory request.sourceIds >>= _) = _
  rw [hselect, ok_bind]
  dsimp only
  rw [hlast, ok_bind, check_ok hquiet, ok_bind, hfinal]

/-- The parts of a search that succeeds. -/
theorem executeWith_eq_ok {scanSource : Literal → Nat → Env → CapturedSource → ExactResult Item →
      Except QueryFailure (ExactResult Item)} {env : Env} {view : PublishedView}
    {result : ExactResult Item} (hresult : executeWith kind scanSource env view request = .ok result) :
    ∃ literal inventory last, literal.bytes = request.literal.bytes ∧
      request.validate = .ok () ∧ view.sourceInventory (within env 2) = .ok inventory ∧
      Published request.sourceIds inventory ∧
      scanSources (scanSource literal request.limit.toNat) (within env 4) 0
          (selection request.sourceIds inventory)
          (.start view.generation.sequence (selection request.sourceIds inventory).length) =
        .ok last ∧
      last.finish kind request = .ok result := by
  simp only [executeWith, bind_eq_ok, mapError_eq_ok] at hresult
  obtain ⟨_, -, _, hrequest, literal, hliteral, inventory, hinventory, sources, hsources, last,
    hlast, _, -, hfinish⟩ := hresult
  obtain ⟨rfl, hpublished⟩ := selectSources_eq_ok hsources
  exact ⟨literal, inventory, last, Literal.new_eq_ok hliteral, hrequest, hinventory, hpublished,
    hlast, hfinish⟩

/-- A search that succeeds accounts for every selected source when its scans add
their reports. -/
theorem executeWith_exhaustive {scanSource : Literal → Nat → Env → CapturedSource →
      ExactResult Item → Except QueryFailure (ExactResult Item)} {env : Env} {view : PublishedView}
    {result : ExactResult Item} (hresult : executeWith kind scanSource env view request = .ok result)
    (hinventory : view.sourceInventory (within env 2) = .ok inventory)
    (hcountable : Countable ((selection request.sourceIds inventory).map report))
    (hscan : ∀ literal : Literal, literal.bytes = request.literal.bytes →
      ∀ captured ∈ selection request.sourceIds inventory, ∀ env reports result next,
      Accounts request.limit.toNat reports result → Countable (reports ++ [report captured]) →
      scanSource literal request.limit.toNat env captured result = .ok next →
      next = result.add request.limit.toNat (report captured)) :
    Exhaustive request.limit.toNat view.generation.sequence
        ((selection request.sourceIds inventory).map report) result ∧
      kind.validateRequest request result = .ok () := by
  obtain ⟨literal, found, last, hliteral, -, hfound, -, hlast, hfinish⟩ := executeWith_eq_ok hresult
  obtain rfl := Except.ok.inj (hfound.symm.trans hinventory)
  obtain ⟨haccounts, hgeneration, hselected, hstop⟩ :=
    scanSources_eq_ok (selection request.sourceIds found) [] _ 0 (hscan literal hliteral)
      (accounts_start _ _ _) hcountable hlast
  have hsmall := hcountable.count
  have hlength : last.selectedSources.toNat =
      ((selection request.sourceIds found).map report).length := by
    rw [hselected, ExactResult.start, List.length_map]
    rw [List.length_map] at hsmall
    exact UInt64.toNat_ofNat_of_lt' (hsmall.trans (by decide))
  obtain ⟨final, hexhaustive, hclosed⟩ :=
    finish_exhaustive kind haccounts hcountable hlength hstop
  rw [hclosed] at hfinish
  simp only [bind_eq_ok, mapError_eq_ok, pure_eq_ok, Except.ok.injEq] at hfinish
  obtain ⟨_, hvalid, rfl⟩ := hfinish
  rw [hgeneration] at hexhaustive
  exact ⟨hexhaustive, hvalid⟩

end Searching

end EliotSearch.Query
