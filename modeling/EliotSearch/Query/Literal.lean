import EliotSearch.Control.PublishedView
import EliotSearch.Library.Patterns
import EliotSearch.Query.Objects
import EliotSearch.Query.Values

/-!
# Literals and selections

Bounded literal matching, shared by the raw and the decoded search, and the
selection of sources of the pinned inventory.  A scan reads its input in blocks;
the match it keeps survives from one block to the next, so it visits exactly
the occurrences of the literal in the whole input.
-/

namespace EliotSearch.Query

open EliotSearch.Control
open EliotSearch.Library
open EliotSearch.Library.Hex
open EliotSearch.Library.Json
open EliotSearch.Library.Patterns
open EliotSearch.Library.Results
open EliotSearch.Session

def blockBytes : Nat := 8192

/-- A literal and the borders of its fronts, compiled once for a request. -/
structure Literal where
  bytes : Bytes
  borders : List Nat
  nonempty : bytes ≠ []
  compiled : borders = borderTable bytes

namespace Literal

def new (env : Env) (bytes : Bytes) : Except QueryFailure Literal := do
  check env 0
  if hempty : bytes = [] then .error (.code (ascii "EXACT_LITERAL_INVALID"))
  else do
    check env 1
    return ⟨bytes, borderTable bytes, hempty, rfl⟩

variable {σ : Type}

/-- Scan one block from a position with the match that the bytes before it left. -/
def scanBlock (literal : Literal) (found : Nat → Nat → σ → Except QueryFailure σ) :
    (position matched : Nat) → (block : Bytes) → σ → Except QueryFailure (Nat × σ)
  | _, matched, [], state => return (matched, state)
  | position, matched, byte :: block, state => do
      let (matched, ends) := feed literal.bytes literal.borders byte matched
      let stop := position + 1
      let state ← if ends then found (stop - literal.bytes.length) stop state else pure state
      scanBlock literal found stop matched block state

/-- Scan blocks in order, with a check before each and after the last. -/
def scanBlocks (env : Env) (literal : Literal) (found : Nat → Nat → σ → Except QueryFailure σ) :
    (site consumed matched : Nat) → (blocks : List Bytes) → σ → Except QueryFailure σ
  | site, _, _, [], state => do
      check env site
      return state
  | site, consumed, matched, block :: blocks, state => do
      check env site
      let (matched, state) ← literal.scanBlock found consumed matched block state
      scanBlocks env literal found (site + 1) (consumed + block.length) matched blocks state

/-- Consecutive blocks of the input; the last one may be shorter. -/
def chunks : (fuel : Nat) → Bytes → List Bytes
  | 0, _ => []
  | _ + 1, [] => []
  | fuel + 1, byte :: input =>
      (byte :: input).take blockBytes :: chunks fuel ((byte :: input).drop blockBytes)

/-- Visit every occurrence of the literal in the input. -/
def scan (env : Env) (literal : Literal) (input : Bytes)
    (found : Nat → Nat → σ → Except QueryFailure σ) (state : σ) : Except QueryFailure σ :=
  scanBlocks env literal found 0 0 0 (chunks input.length input) state

/-! ## What a scan visits -/

theorem new_ok {env : Env} {bytes : Bytes} (hquiet : Undisturbed env) (hbytes : bytes ≠ []) :
    ∃ literal, new env bytes = .ok literal ∧ literal.bytes = bytes := by
  rw [new, check_ok hquiet, ok_bind, dif_neg hbytes, check_ok hquiet, ok_bind]
  exact ⟨_, rfl, rfl⟩

theorem new_eq_ok {env : Env} {bytes : Bytes} {literal : Literal}
    (hnew : new env bytes = .ok literal) : literal.bytes = bytes := by
  unfold new at hnew
  simp only [bind_eq_ok] at hnew
  obtain ⟨_, -, hnew⟩ := hnew
  split at hnew
  · cases hnew
  · simp only [bind_eq_ok, pure_eq_ok, Except.ok.injEq] at hnew
    obtain ⟨_, -, rfl⟩ := hnew
    rfl

theorem chunks_flatten (fuel : Nat) (input : Bytes) (hfuel : input.length ≤ fuel) :
    (chunks fuel input).flatten = input := by
  induction fuel generalizing input with
  | zero => exact (List.eq_nil_of_length_eq_zero (Nat.le_zero.mp hfuel)).symm
  | succ fuel ih =>
      cases input with
      | nil => rfl
      | cons byte input =>
          have hshorter : ((byte :: input).drop blockBytes).length ≤ fuel := by
            have hblock : 0 < blockBytes := by decide
            rw [List.length_drop]
            omega
          rw [chunks, List.flatten_cons, ih _ hshorter, List.take_append_drop]

/-- Visit the given starts of the literal. -/
def visitAll (literal : Literal) (found : Nat → Nat → σ → Except QueryFailure σ)
    (starts : List Nat) (state : σ) : Except QueryFailure σ :=
  starts.foldlM (fun state start => found start (start + literal.bytes.length) state) state

/-- A block visits the occurrences that end in it and leaves the longest match. -/
theorem scanBlock_spec {literal : Literal} {found : Nat → Nat → σ → Except QueryFailure σ}
    {matched : Nat} (text block : Bytes) (state : σ)
    (hmatched : LongestBelow literal.bytes text literal.bytes.length matched) :
    ∃ next more, LongestBelow literal.bytes (text ++ block) literal.bytes.length next ∧
      occurrences literal.bytes (text ++ block) = occurrences literal.bytes text ++ more ∧
      literal.scanBlock found text.length matched block state =
        (literal.visitAll found more state).map fun state => (next, state) := by
  induction block generalizing text matched state with
  | nil =>
      refine ⟨matched, [], ?_, ?_, rfl⟩
      · rwa [List.append_nil]
      · rw [List.append_nil, List.append_nil]
  | cons byte block ih =>
      have hborders := borderTable_spec literal.nonempty
      rw [← literal.compiled] at hborders
      obtain ⟨hfed, hends⟩ := feed_spec byte literal.nonempty hborders.1 hborders.2 hmatched
      have hstep := occurrences_concat literal.nonempty text byte
      have hlength : (text ++ [byte]).length = text.length + 1 := by simp
      have hwhole : text ++ byte :: block = text ++ [byte] ++ block := by simp
      rw [scanBlock, hwhole]
      dsimp only
      by_cases hhit : literal.bytes <:+ text ++ [byte]
      · rw [if_pos hhit] at hstep
        rw [if_pos (hends.mpr hhit)]
        set start := text.length + 1 - literal.bytes.length with hstart
        have hwithin := hhit.length_le
        have hstop : start + literal.bytes.length = text.length + 1 := by omega
        cases hfound : found start (text.length + 1) state with
        | error failure =>
            obtain ⟨next, more, hnext, hmore, -⟩ := ih (text ++ [byte]) state hfed
            refine ⟨next, start :: more, hnext, ?_, ?_⟩
            · rw [hmore, hstep, List.append_assoc, List.singleton_append]
            · rw [visitAll, List.foldlM_cons, hstop, hfound]
              rfl
        | ok visited =>
            obtain ⟨next, more, hnext, hmore, hscan⟩ := ih (text ++ [byte]) visited hfed
            rw [hlength] at hscan
            refine ⟨next, start :: more, hnext, ?_, ?_⟩
            · rw [hmore, hstep, List.append_assoc, List.singleton_append]
            · rw [ok_bind, hscan, visitAll, visitAll, List.foldlM_cons, hstop, hfound, ok_bind]
      · rw [if_neg hhit, List.append_nil] at hstep
        rw [if_neg fun hended => hhit (hends.mp hended), pure_eq_ok, ok_bind]
        obtain ⟨next, more, hnext, hmore, hscan⟩ := ih (text ++ [byte]) state hfed
        rw [hlength] at hscan
        exact ⟨next, more, hnext, by rw [hmore, hstep], hscan⟩

theorem visitAll_append {literal : Literal} {found : Nat → Nat → σ → Except QueryFailure σ}
    (first second : List Nat) (state : σ) :
    literal.visitAll found (first ++ second) state =
      (literal.visitAll found first state).bind (literal.visitAll found second) :=
  List.foldlM_append

/-- Blocks visit the occurrences that end in them, across their boundaries. -/
theorem scanBlocks_spec {env : Env} {literal : Literal}
    {found : Nat → Nat → σ → Except QueryFailure σ} {matched : Nat} (hquiet : Undisturbed env)
    (site : Nat) (text : Bytes) (blocks : List Bytes) (state : σ)
    (hmatched : LongestBelow literal.bytes text literal.bytes.length matched) :
    ∃ more, occurrences literal.bytes (text ++ blocks.flatten) =
        occurrences literal.bytes text ++ more ∧
      literal.scanBlocks env found site text.length matched blocks state =
        literal.visitAll found more state := by
  induction blocks generalizing site text matched state with
  | nil =>
      refine ⟨[], by rw [List.flatten_nil, List.append_nil, List.append_nil], ?_⟩
      rw [scanBlocks, check_ok hquiet, ok_bind]
      rfl
  | cons block blocks ih =>
      obtain ⟨next, more, hnext, hmore, hblock⟩ := scanBlock_spec text block state hmatched
      have hlength : text.length + block.length = (text ++ block).length := by simp
      rw [scanBlocks, check_ok hquiet, ok_bind, hblock, List.flatten_cons, ← List.append_assoc]
      cases hvisited : literal.visitAll found more state with
      | error failure =>
          obtain ⟨rest, hrest, -⟩ := ih (site + 1) (text ++ block) state hnext
          refine ⟨more ++ rest, by rw [hrest, hmore, List.append_assoc], ?_⟩
          rw [visitAll_append, hvisited]
          rfl
      | ok visited =>
          obtain ⟨rest, hrest, hscan⟩ := ih (site + 1) (text ++ block) visited hnext
          refine ⟨more ++ rest, by rw [hrest, hmore, List.append_assoc], ?_⟩
          rw [visitAll_append, hvisited]
          change literal.scanBlocks env found (site + 1) (text.length + block.length) next blocks
            visited = literal.visitAll found rest visited
          rw [hlength, hscan]

/-- A scan visits every occurrence of its literal, in order and overlaps
included, however the input falls into blocks. -/
theorem scan_eq {env : Env} (literal : Literal) (hquiet : Undisturbed env) (input : Bytes)
    (found : Nat → Nat → σ → Except QueryFailure σ) (state : σ) :
    literal.scan env input found state =
      literal.visitAll found (occurrences literal.bytes input) state := by
  obtain ⟨more, hmore, hscan⟩ := scanBlocks_spec hquiet 0 [] (chunks input.length input) state
    (longestBelow_nil literal.nonempty)
  rw [chunks_flatten _ _ le_rfl, List.nil_append] at hmore
  rw [hmore]
  exact hscan

/-- A scan that succeeds has visited every occurrence, whatever its checks met. -/
theorem scan_eq_ok {env : Env} {literal : Literal} {input : Bytes}
    {found : Nat → Nat → σ → Except QueryFailure σ} {state last : σ}
    (hscan : literal.scan env input found state = .ok last) :
    literal.visitAll found (occurrences literal.bytes input) state = .ok last := by
  have hblocks (site consumed matched : Nat) (blocks : List Bytes) (state : σ)
      (hscan : literal.scanBlocks env found site consumed matched blocks state = .ok last) :
      literal.scanBlocks Env.quiet found site consumed matched blocks state = .ok last := by
    induction blocks generalizing site consumed matched state with
    | nil =>
        simp only [scanBlocks, bind_eq_ok, pure_eq_ok, Except.ok.injEq] at hscan
        obtain ⟨_, -, rfl⟩ := hscan
        rw [scanBlocks, check_ok undisturbed_quiet, ok_bind, pure_eq_ok]
    | cons block blocks ih =>
        simp only [scanBlocks, bind_eq_ok] at hscan
        obtain ⟨_, -, ⟨next, visited⟩, hblock, hscan⟩ := hscan
        rw [scanBlocks, check_ok undisturbed_quiet, ok_bind, hblock, ok_bind]
        exact ih _ _ _ _ hscan
  rw [← literal.scan_eq undisturbed_quiet]
  exact hblocks _ _ _ _ _ hscan

theorem visitAll_eq_error {literal : Literal} {found : Nat → Nat → σ → Except QueryFailure σ}
    {starts : List Nat} {state : σ} {reason : QueryFailure}
    (hvisit : literal.visitAll found starts state = .error reason) :
    ∃ start ∈ starts, ∃ state, found start (start + literal.bytes.length) state =
      .error reason := by
  induction starts generalizing state with
  | nil => cases hvisit
  | cons start starts ih =>
      rw [visitAll, List.foldlM_cons, bind_eq_error] at hvisit
      rcases hvisit with hhere | ⟨next, -, hlater⟩
      · exact ⟨start, List.mem_cons_self, state, hhere⟩
      · obtain ⟨other, hmem, found⟩ := ih hlater
        exact ⟨other, List.mem_cons_of_mem _ hmem, found⟩

/-- Blocks fail at a check or at an occurrence. -/
theorem scanBlocks_eq_error {env : Env} {literal : Literal}
    {found : Nat → Nat → σ → Except QueryFailure σ} {matched : Nat} {reason : QueryFailure}
    (site : Nat) (text : Bytes) (blocks : List Bytes) (state : σ)
    (hmatched : LongestBelow literal.bytes text literal.bytes.length matched)
    (hscan : literal.scanBlocks env found site text.length matched blocks state = .error reason) :
    (∃ site, check env site = .error reason) ∨
      ∃ start ∈ occurrences literal.bytes (text ++ blocks.flatten), ∃ state,
        found start (start + literal.bytes.length) state = .error reason := by
  induction blocks generalizing site text matched state with
  | nil =>
      rw [scanBlocks, bind_eq_error] at hscan
      rcases hscan with hcheck | ⟨_, -, hdone⟩
      · exact Or.inl ⟨site, hcheck⟩
      · cases hdone
  | cons block blocks ih =>
      obtain ⟨next, more, hnext, hmore, hblock⟩ := scanBlock_spec text block state hmatched
      have hlength : text.length + block.length = (text ++ block).length := by simp
      rw [scanBlocks, hblock] at hscan
      rw [List.flatten_cons, ← List.append_assoc]
      rcases bind_eq_error.mp hscan with hcheck | ⟨_, -, hscan⟩
      · exact Or.inl ⟨site, hcheck⟩
      · cases hvisited : literal.visitAll found more state with
        | error failure =>
            rw [hvisited] at hscan
            obtain rfl := Except.error.inj hscan
            obtain ⟨start, hmem, hfound⟩ := visitAll_eq_error hvisited
            refine Or.inr ⟨start, ?_, hfound⟩
            obtain ⟨rest, hrest, -⟩ := @scanBlocks_spec σ Env.quiet literal found next
              undisturbed_quiet 0 (text ++ block) blocks state hnext
            rw [hrest, hmore]
            exact List.mem_append_left _ (List.mem_append_right _ hmem)
        | ok visited =>
            rw [hvisited] at hscan
            change literal.scanBlocks env found (site + 1) (text.length + block.length) next blocks
              visited = .error reason at hscan
            rw [hlength] at hscan
            exact ih (site + 1) (text ++ block) visited hnext hscan

/-- A scan fails at a check or at an occurrence. -/
theorem scan_eq_error {env : Env} {literal : Literal} {input : Bytes}
    {found : Nat → Nat → σ → Except QueryFailure σ} {state : σ} {reason : QueryFailure}
    (hscan : literal.scan env input found state = .error reason) :
    (∃ site, check env site = .error reason) ∨
      ∃ start ∈ occurrences literal.bytes input, ∃ state,
        found start (start + literal.bytes.length) state = .error reason := by
  have hwhole := scanBlocks_eq_error 0 [] (chunks input.length input) state
    (longestBelow_nil literal.nonempty) hscan
  rwa [chunks_flatten _ _ le_rfl, List.nil_append] at hwhole

end Literal

/-! ## References -/

def objectKindDto : ObjectKind → ObjectKindDto
  | .source => .source
  | .prepared => .prepared

def objectRef (reference : ObjectRef) : ObjectRefDto where
  version := reference.formatVersion
  kind := objectKindDto reference.kind
  digest := hex reference.digest.bytes
  bytes := reference.byteLength

def sourceRef (source : CurrentSourceRecord) : RawSourceRef where
  sourceNamespaceId := uuidText source.sourceNamespaceId
  sourceId := uuidText source.sourceId
  rowRevision := source.rowRevision
  registrationRevision := source.registrationRevision
  input := objectRef source.objectRef

/-- The identifier that no source may have. -/
def nilId : Octets 16 := Octets.replicate 16 0

/-- The source and its namespace have identifiers that are not nil. -/
def Named (source : CurrentSourceRecord) : Prop :=
  source.sourceNamespaceId ≠ nilId ∧ source.sourceId ≠ nilId

instance (source : CurrentSourceRecord) : Decidable (Named source) :=
  inferInstanceAs (Decidable (_ ∧ _))

/-- A reference within the bound of its kind is valid; that of a prepared object
is not empty. -/
theorem objectRef_valid {reference : ObjectRef} {expected : ObjectKindDto}
    (hversion : reference.formatVersion = sourceObjectFormatVersion)
    (hkind : objectKindDto reference.kind = expected)
    (hbound : reference.byteLength ≤ expected.maximum)
    (hsome : expected = .prepared → reference.byteLength ≠ 0) :
    (objectRef reference).validate expected = .ok () := by
  have hdigest : LowerHex (hex reference.digest.bytes) 64 :=
    lowerHex_hex (by rw [reference.digest.length_eq])
  refine refuse_of_not ?_
  rintro (hother | hother | hother | hother | ⟨hprepared, hempty⟩)
  · exact hother hversion
  · exact hother hkind
  · exact hother hdigest
  · exact absurd hbound (UInt64.not_le.mpr hother)
  · exact hsome hprepared hempty

/-- The reference to a readable source with named identifiers is valid. -/
theorem sourceRef_valid {source : CurrentSourceRecord} (hreadable : ReadableRecord source)
    (hnamed : Named source) : (sourceRef source).validate = .ok () := by
  obtain ⟨hrow, hregistration, hversion, hkind, hbound⟩ := hreadable
  have hinput : (sourceRef source).input.validate .source = .ok () :=
    objectRef_valid hversion (by rw [hkind]; rfl) hbound (by rintro ⟨⟩)
  have hguard : ¬ (¬ CanonicalUuid (sourceRef source).sourceNamespaceId ∨
      ¬ CanonicalUuid (sourceRef source).sourceId ∨ (sourceRef source).rowRevision = 0 ∨
      (sourceRef source).registrationRevision = 0) := by
    rintro (hother | hother | hother | hother)
    · exact hother (canonicalUuid_uuidText hnamed.1)
    · exact hother (canonicalUuid_uuidText hnamed.2)
    · exact hrow hother
    · exact hregistration hother
  rw [RawSourceRef.validate, refuse_of_not hguard, ok_bind, hinput]

/-! ## Selections -/

/-- Find each identifier in the inventory. -/
def selectIds (env : Env) (inventory : List CapturedSource) :
    (site : Nat) → List Bytes → Except QueryFailure (List SourceId)
  | _, [] => return []
  | site, id :: ids => do
      check env site
      let id ← okOr (parseUuid id) (.code (ascii "EXACT_SELECTION_INVALID"))
      refuse (binarySearchByKey (fun entry : CapturedSource => entry.source.sourceId.bytes) id.bytes
        inventory = none) (.code (ascii "EXACT_SOURCE_NOT_PUBLISHED"))
      let rest ← selectIds env inventory (site + 1) ids
      return id :: rest

/-- Restrict an inventory to a selection; none selects all of it. -/
def selectSources (env : Env) (inventory : List CapturedSource) :
    (ids : Option (List Bytes)) → Except QueryFailure (List CapturedSource)
  | none => do
      check env 0
      return inventory
  | some ids => do
      let selected ← selectIds env inventory 0 ids
      check env ids.length
      return inventory.filter fun entry => decide (entry.source.sourceId ∈ selected)

/-- What a validated inventory satisfies. -/
structure Inventory (inventory : List CapturedSource) : Prop where
  coherent : ∀ captured ∈ inventory, captured.Coherent
  shared : ∀ first ∈ inventory, ∀ second ∈ inventory,
    first.source.sourceNamespaceId = second.source.sourceNamespaceId
  ordered : inventory.Pairwise fun first second =>
    compare first.source.sourceId.bytes second.source.sourceId.bytes = .lt
  bounded : inventory.length ≤ maxSources

/-- The inventory of a published view is validated. -/
theorem inventory_of_view {env : Env} {view : PublishedView} {inventory : List CapturedSource}
    (hinventory : view.sourceInventory env = .ok inventory) : Inventory inventory := by
  simp only [PublishedView.sourceInventory, bind_eq_ok, pure_eq_ok, Except.ok.injEq] at hinventory
  obtain ⟨_, -, found, hwalk, _, -, rfl⟩ := hinventory
  obtain ⟨table, entries, -, hsources, rfl⟩ :=
    Verify.walkSources_verified inventoryEntry_selects hwalk
  refine ⟨?_, ?_, ?_, by rw [List.length_map]; exact hsources.bounded⟩
  · intro captured hmem
    obtain ⟨entry, hentry, rfl⟩ := List.mem_map.mp hmem
    obtain ⟨value, -, hdecode⟩ := Verify.SourcesVerified_get hsources hentry
    exact decodeSource_coherent hdecode
  · intro first hfirst second hsecond
    obtain ⟨left, hleft, rfl⟩ := List.mem_map.mp hfirst
    obtain ⟨right, hright, rfl⟩ := List.mem_map.mp hsecond
    exact hsources.shared left hleft right hright
  · exact List.pairwise_map.mpr hsources.inOrder

/-- An inventory that is read once is read whenever nothing disturbs the walk. -/
theorem sourceInventory_undisturbed {env other : Env} {view : PublishedView}
    {inventory : List CapturedSource} (hinventory : view.sourceInventory env = .ok inventory)
    (hquiet : Undisturbed other) : view.sourceInventory other = .ok inventory := by
  simp only [PublishedView.sourceInventory, bind_eq_ok, pure_eq_ok, Except.ok.injEq] at hinventory
  obtain ⟨_, -, found, hwalk, _, -, rfl⟩ := hinventory
  obtain ⟨table, entries, htable, hsources, rfl⟩ :=
    Verify.walkSources_verified inventoryEntry_selects hwalk
  have hcheck : ∀ site, other.check publicationFault site = .ok () :=
    fun site => Env.check_eq_ok.mpr (hquiet site)
  rw [PublishedView.sourceInventory, hcheck, ok_bind,
    Verify.walkSources_ok 1 inventoryEntry_selects hquiet htable hsources, ok_bind, hcheck, ok_bind,
    pure_eq_ok]

/-- The request asks for the source. -/
def Selects (ids : Option (List Bytes)) (captured : CapturedSource) : Prop :=
  ∀ selected ∈ ids, uuidText captured.source.sourceId ∈ selected

instance (ids : Option (List Bytes)) (captured : CapturedSource) :
    Decidable (Selects ids captured) :=
  inferInstanceAs (Decidable (∀ selected ∈ ids, _ ∈ selected))

/-- The selected sources of an inventory, in its order. -/
def selection (ids : Option (List Bytes)) (inventory : List CapturedSource) :
    List CapturedSource :=
  inventory.filter fun captured => decide (Selects ids captured)

/-- Every identifier asked for is one of the inventory. -/
def Published (ids : Option (List Bytes)) (inventory : List CapturedSource) : Prop :=
  ∀ selected ∈ ids, ∀ id ∈ selected, ∃ captured ∈ inventory, uuidText captured.source.sourceId = id

/-- Identifiers that pass validation are canonical and distinct. -/
theorem validateIds_eq_ok {earlier ids : List Bytes} (hvalid : validateIds earlier ids = .ok ()) :
    (∀ id ∈ ids, CanonicalUuid id) ∧ ids.Nodup ∧ ∀ id ∈ ids, id ∉ earlier := by
  induction ids generalizing earlier with
  | nil => exact ⟨by simp, List.nodup_nil, by simp⟩
  | cons id ids ih =>
      simp only [validateIds, bind_eq_ok, refuse_eq_ok, not_or, not_not] at hvalid
      obtain ⟨_, ⟨hcanonical, hfresh⟩, hrest⟩ := hvalid
      obtain ⟨hall, hdistinct, hlater⟩ := ih hrest
      have hnew : id ∉ ids := fun hmem => hlater id hmem (by simp)
      refine ⟨List.forall_mem_cons.mpr ⟨hcanonical, hall⟩, List.nodup_cons.mpr ⟨hnew, hdistinct⟩,
        List.forall_mem_cons.mpr ⟨hfresh, fun other hother hearlier => ?_⟩⟩
      exact hlater other hother (List.mem_append_left _ hearlier)

/-- What a valid request satisfies. -/
structure LiteralRequest.Valid (request : LiteralRequest) : Prop where
  nonempty : request.literal.bytes ≠ []
  bounded : request.literal.bytes.length ≤ maxQueryBytes
  positive : request.limit ≠ 0
  limited : request.limit.toNat ≤ maxItems
  distinct : ∀ ids ∈ request.sourceIds, ids.Nodup

theorem LiteralRequest.valid_of_validate {request : LiteralRequest}
    (hvalid : request.validate = .ok ()) : request.Valid := by
  simp only [LiteralRequest.validate, bind_eq_ok, refuse_eq_ok, not_or, not_lt] at hvalid
  obtain ⟨_, ⟨hnonempty, hbounded, hpositive, hlimited⟩, hids⟩ := hvalid
  refine ⟨hnonempty, hbounded, hpositive, hlimited, fun ids hmem => ?_⟩
  rw [Option.mem_def.mp hmem] at hids
  exact (validateIds_eq_ok hids).2.1

theorem selection_sublist (ids : Option (List Bytes)) (inventory : List CapturedSource) :
    (selection ids inventory).Sublist inventory :=
  List.filter_sublist

/-- A selection of distinct published identifiers has as many sources. -/
theorem selection_length {inventory : List CapturedSource} {ids : List Bytes}
    (hinventory : Inventory inventory) (hdistinct : ids.Nodup)
    (hpublished : Published (some ids) inventory) :
    (selection (some ids) inventory).length = ids.length := by
  have hids : ((selection (some ids) inventory).map fun captured =>
      uuidText captured.source.sourceId).Nodup := by
    refine List.pairwise_map.mpr ((hinventory.ordered.sublist (selection_sublist _ _)).imp ?_)
    intro first second hless heq
    rw [uuidText_injective heq, Std.ReflOrd.compare_self] at hless
    cases hless
  have hmem (id : Bytes) : id ∈ (selection (some ids) inventory).map (fun captured =>
      uuidText captured.source.sourceId) ↔ id ∈ ids := by
    rw [List.mem_map]
    constructor
    · rintro ⟨captured, hcaptured, rfl⟩
      exact of_decide_eq_true (List.mem_filter.mp hcaptured).2 ids rfl
    · intro hid
      obtain ⟨captured, hcaptured, rfl⟩ := hpublished ids rfl id hid
      refine ⟨captured, List.mem_filter.mpr ⟨hcaptured, decide_eq_true ?_⟩, rfl⟩
      rintro selected hselected
      obtain rfl := Option.some.inj hselected
      exact hid
  have hlength := ((List.perm_ext_iff_of_nodup hids hdistinct).mpr hmem).length_eq
  rwa [List.length_map] at hlength

theorem selectIds_ok {env : Env} {inventory : List CapturedSource} (hquiet : Undisturbed env)
    (hinventory : Inventory inventory) (site : Nat) (ids : List Bytes)
    (hpublished : ∀ id ∈ ids, ∃ captured ∈ inventory, uuidText captured.source.sourceId = id) :
    ∃ selected, selectIds env inventory site ids = .ok selected ∧
      selected.map uuidText = ids := by
  induction ids generalizing site with
  | nil => exact ⟨[], rfl, rfl⟩
  | cons id ids ih =>
      obtain ⟨captured, hmem, hid⟩ := hpublished id List.mem_cons_self
      obtain ⟨index, hindex, hvalue⟩ := List.mem_iff_getElem.mp hmem
      have hfound := binarySearchByKey_complete hinventory.ordered
        (List.getElem?_eq_some_iff.mpr ⟨hindex, hvalue⟩) rfl
      obtain ⟨selected, hselected, hrest⟩ := ih (site + 1) fun other hother =>
        hpublished other (List.mem_cons_of_mem _ hother)
      refine ⟨captured.source.sourceId :: selected, ?_, by rw [List.map_cons, hid, hrest]⟩
      have hpresent : ¬ binarySearchByKey
          (fun entry : CapturedSource => entry.source.sourceId.bytes)
          captured.source.sourceId.bytes inventory = none := by
        rw [hfound]
        exact Option.some_ne_none _
      rw [selectIds, check_ok hquiet, ok_bind, parseUuid_eq_some.mpr hid, okOr_some, ok_bind,
        refuse_of_not hpresent, ok_bind, hselected, ok_bind, pure_eq_ok]

/-- Parsed identifiers select the sources that have them. -/
theorem selection_map (inventory : List CapturedSource) (selected : List SourceId) :
    selection (some (selected.map uuidText)) inventory =
      inventory.filter fun entry => decide (entry.source.sourceId ∈ selected) := by
  refine List.filter_congr fun captured _ => ?_
  have hmem : uuidText captured.source.sourceId ∈ selected.map uuidText ↔
      captured.source.sourceId ∈ selected :=
    List.mem_map_of_injective fun _ _ heq => uuidText_injective heq
  simp [Selects, hmem]

theorem selectIds_eq_ok {env : Env} {inventory : List CapturedSource} {site : Nat}
    {ids : List Bytes} {selected : List SourceId}
    (hselect : selectIds env inventory site ids = .ok selected) :
    selected.map uuidText = ids ∧
      ∀ id ∈ ids, ∃ captured ∈ inventory, uuidText captured.source.sourceId = id := by
  induction ids generalizing site selected with
  | nil =>
      obtain rfl := Except.ok.inj hselect
      exact ⟨rfl, fun id hmem => absurd hmem List.not_mem_nil⟩
  | cons id ids ih =>
      simp only [selectIds, bind_eq_ok, okOr_eq_ok, refuse_eq_ok, pure_eq_ok, Except.ok.injEq]
        at hselect
      obtain ⟨_, -, parsed, hparsed, _, hpresent, rest, hrest, rfl⟩ := hselect
      obtain ⟨hids, hpublished⟩ := ih hrest
      have hid := parseUuid_eq_some.mp hparsed
      refine ⟨by rw [List.map_cons, hid, hids], List.forall_mem_cons.mpr ⟨?_, hpublished⟩⟩
      obtain ⟨index, hindex⟩ := Option.ne_none_iff_exists'.mp hpresent
      obtain ⟨captured, hcaptured, hsame⟩ := binarySearchByKey_sound hindex
      refine ⟨captured, List.mem_of_getElem? hcaptured, ?_⟩
      rw [← hid, Octets.ext hsame]

/-- A selection that succeeds is that of the published identifiers. -/
theorem selectSources_eq_ok {env : Env} {inventory sources : List CapturedSource}
    {ids : Option (List Bytes)} (hselect : selectSources env inventory ids = .ok sources) :
    sources = selection ids inventory ∧ Published ids inventory := by
  cases ids with
  | none =>
      simp only [selectSources, bind_eq_ok, pure_eq_ok, Except.ok.injEq] at hselect
      obtain ⟨_, -, rfl⟩ := hselect
      refine ⟨(List.filter_eq_self.mpr fun captured _ => by simp [Selects]).symm, ?_⟩
      rintro _ ⟨⟩
  | some ids =>
      simp only [selectSources, bind_eq_ok, pure_eq_ok, Except.ok.injEq] at hselect
      obtain ⟨selected, hselected, _, -, rfl⟩ := hselect
      obtain ⟨rfl, hpublished⟩ := selectIds_eq_ok hselected
      refine ⟨(selection_map inventory selected).symm, ?_⟩
      rintro other hother
      obtain rfl := Option.some.inj hother
      exact hpublished

/-- A selection of published identifiers succeeds with the selected sources. -/
theorem selectSources_ok {env : Env} {inventory : List CapturedSource} {ids : Option (List Bytes)}
    (hquiet : Undisturbed env) (hinventory : Inventory inventory)
    (hpublished : Published ids inventory) :
    selectSources env inventory ids = .ok (selection ids inventory) := by
  cases ids with
  | none =>
      have hall : selection none inventory = inventory :=
        List.filter_eq_self.mpr fun captured _ => by simp [Selects]
      rw [selectSources, check_ok hquiet, ok_bind, hall, pure_eq_ok]
  | some ids =>
      obtain ⟨selected, hselected, rfl⟩ :=
        selectIds_ok hquiet hinventory 0 ids (hpublished ids rfl)
      rw [selectSources, hselected, ok_bind, check_ok hquiet, ok_bind, selection_map, pure_eq_ok]

end EliotSearch.Query
