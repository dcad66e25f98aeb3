import EliotSearch.Control.Updates

/-!
# Ceilings of the registry

The inventory, the selections and the corpus are read under a count and a byte
ceiling.  Admissions check theirs when they write.  Source commits do not: a
root stays readable exactly as long as no commit adds a source to an inventory
without room for it.
-/

namespace EliotSearch.Control

open EliotSearch.Library
open EliotSearch.Library.Results
open EliotSearch.Library.Words

/-! ## Charges -/

theorem rowCharge_recordBytes {record : CurrentSourceRecord} (hrecordable : Recordable record)
    (hbounded : record.objectRef.byteLength ≤ maxSourceObjectBytes) :
    rowCharge (recordBytes record) = 113 + 2 * record.locator.length := by
  rw [rowCharge, decodeRecord_recordBytes hrecordable hbounded, recordBytes_length]
  simp only [Except.toOption, Option.elim_some]
  omega

theorem inventoryCharge_perm {first second : List (Bytes × Bytes)} (hperm : first.Perm second) :
    inventoryCharge first = inventoryCharge second :=
  (hperm.map _).sum_eq

theorem inventoryCharge_cons (row : Bytes × Bytes) (rows : List (Bytes × Bytes)) :
    inventoryCharge (row :: rows) = rowCharge row.2 + inventoryCharge rows := by
  rw [inventoryCharge, List.map_cons, List.sum_cons, inventoryCharge]

/-- A corpus within the inventory ceilings is within its own: a row is charged
its locator once instead of twice, and a preparation is short. -/
theorem Db.Registered.corpusFits {db : Db} {namespaceId : SourceNamespaceId}
    (hregistered : db.Registered namespaceId) (hfits : db.InventoryFits) : db.CorpusFits := by
  have hgeneral : ∀ rows : List (Bytes × Bytes),
      (∀ row ∈ rows, (openTable db.sourceRows)[row.1]? = some row.2) →
      2 * corpusCharge (openTable db.preparations) rows ≤
        inventoryCharge rows + 465 * rows.length := by
    intro rows hrows
    induction rows with
    | nil => exact Nat.le_refl _
    | cons row rows ih =>
        have hrest := ih fun other hmem => hrows other (List.mem_cons_of_mem _ hmem)
        obtain ⟨record, hstored⟩ := hregistered.record (hrows row List.mem_cons_self)
        have hpreparation : (openTable db.preparations)[row.1]?.elim 0 List.length ≤ 176 := by
          cases hvalue : (openTable db.preparations)[row.1]? with
          | none => exact Nat.zero_le _
          | some value =>
              obtain ⟨-, preparation, hbound⟩ := hregistered.preparation hvalue
              rw [Option.elim_some, hbound.bytes_eq]
              exact preparationBytes_length_le preparation
        have hcorpus : corpusCharge (openTable db.preparations) (row :: rows) =
            row.2.length + (openTable db.preparations)[row.1]?.elim 0 List.length +
              corpusCharge (openTable db.preparations) rows := by
          rw [corpusCharge, List.map_cons, List.sum_cons, corpusCharge]
        have hlength := recordBytes_length record
        rw [← hstored.bytes_eq] at hlength
        rw [hcorpus, inventoryCharge_cons, hstored.rowCharge, List.length_cons]
        omega
  have hcharge := hgeneral (openTable db.sourceRows).toList
    fun row hmem => Table.mem_rows.mp (by simpa using hmem)
  have hcount := hfits.count
  have hbytes := hfits.charge
  constructor
  · exact hcount
  · simp only [maxCurrentSources, maxCurrentSourceBytes, maxCaptureBytes] at *
    omega

/-! ## Selections -/

theorem selectionRows_perm {first second : List (Bytes × Bytes)} (hperm : first.Perm second) :
    (selectionRows first).Perm (selectionRows second) :=
  hperm.filter _

theorem selectionCharge_cons (key value : Bytes) (rows : List (Bytes × Bytes)) :
    selectionCharge ((key, value) :: rows) =
      key.length + value.length + selectionCharge rows := by
  rw [selectionCharge, List.map_cons, List.sum_cons, selectionCharge]

theorem selectionCharge_perm {first second : List (Bytes × Bytes)} (hperm : first.Perm second) :
    selectionCharge first = selectionCharge second :=
  (hperm.map _).sum_eq

/-- A record under another key leaves the selections alone. -/
theorem selectionRows_insert {state : Table} {key : Bytes} (value : Bytes)
    (hkey : selectionPrefix.isPrefixOf key = false) :
    (selectionRows (state.insert key value).toList).Perm (selectionRows state.toList) := by
  have hinsert := selectionRows_perm (Table.rows_insert state key value)
  have hcons : selectionRows ((key, value) :: Table.others state key) =
      selectionRows (Table.others state key) :=
    List.filter_cons_of_neg (by simp [hkey])
  have hothers : selectionRows (Table.others state key) = selectionRows state.toList := by
    rw [selectionRows, Table.others, List.filter_filter, selectionRows]
    apply List.filter_congr
    rintro ⟨other, found⟩ -
    by_cases hsame : other = key
    · simp [hsame, hkey]
    · simp [hsame]
  rwa [hcons, hothers] at hinsert

/-- The selection records are the same. -/
def Db.KeepsSelections (db next : Db) : Prop :=
  (selectionRows (openTable next.sourceState).toList).Perm
    (selectionRows (openTable db.sourceState).toList)

theorem Db.KeepsSelections.of_state {db next : Db}
    (hstate : openTable next.sourceState = openTable db.sourceState) : db.KeepsSelections next := by
  rw [KeepsSelections, hstate]

theorem Db.KeepsSelections.trans {first second third : Db} (hfirst : first.KeepsSelections second)
    (hsecond : second.KeepsSelections third) : first.KeepsSelections third :=
  List.Perm.trans hsecond hfirst

/-- The wanted revision is not a selection. -/
theorem Db.KeepsSelections.advanced {db next : Db} (hkeeps : db.KeepsSelections next)
    (revision : UInt64) : db.KeepsSelections (next.advanced revision) := by
  refine hkeeps.trans ?_
  rw [KeepsSelections, Db.advanced, openTable_some]
  exact selectionRows_insert _ (by decide)

theorem Db.SelectionsFit.of_keeps {db next : Db} (hfits : db.SelectionsFit)
    (hkeeps : db.KeepsSelections next) : next.SelectionsFit where
  count := hkeeps.length_eq ▸ hfits.count
  charge := selectionCharge_perm hkeeps ▸ hfits.charge

/-- The selections stored under other keys than the admitted one. -/
def otherSelections (key : Bytes) (rows : List (Bytes × Bytes)) : List (Bytes × Bytes) :=
  rows.filter fun row => selectionPrefix.isPrefixOf row.1 && decide (row.1 ≠ key)

/-- One row of the charge of an admission: what it adds is within the ceilings. -/
theorem chargeSelections_cons {env : Env} {key : Bytes} {row : Bytes × Bytes}
    {rows : List (Bytes × Bytes)} {site count charged : Nat} {result : Unit}
    (hcharge : chargeSelections env key site (count, charged) (row :: rows) = .ok result) :
    ∃ nextCount nextCharged, nextCount ≤ maxCurrentSources ∧
      nextCharged ≤ maxCurrentSourceBytes ∧
      nextCount + (otherSelections key rows).length =
        count + (otherSelections key (row :: rows)).length ∧
      nextCharged + selectionCharge (otherSelections key rows) =
        charged + selectionCharge (otherSelections key (row :: rows)) ∧
      chargeSelections env key (site + 1) (nextCount, nextCharged) rows = .ok result := by
  obtain ⟨stored, value⟩ := row
  by_cases hother : selectionPrefix.isPrefixOf stored = true ∧ stored ≠ key
  · simp only [chargeSelections, if_pos hother, bind_eq_ok, refuse_eq_ok, not_or,
      Nat.not_lt] at hcharge
    obtain ⟨_, _, _, ⟨hcount, hbytes⟩, hrest⟩ := hcharge
    have hfilter : otherSelections key ((stored, value) :: rows) =
        (stored, value) :: otherSelections key rows :=
      List.filter_cons_of_pos (by simp [hother.1, hother.2])
    refine ⟨_, _, hcount, hbytes, ?_, ?_, hrest⟩
    · rw [hfilter, List.length_cons]
      omega
    · rw [hfilter, selectionCharge_cons]
      omega
  · simp only [chargeSelections, if_neg hother, bind_eq_ok, refuse_eq_ok, not_or,
      Nat.not_lt] at hcharge
    obtain ⟨_, _, _, ⟨hcount, hbytes⟩, hrest⟩ := hcharge
    have hfilter : otherSelections key ((stored, value) :: rows) = otherSelections key rows :=
      List.filter_cons_of_neg (by simpa using hother)
    exact ⟨_, _, hcount, hbytes, by rw [hfilter], by rw [hfilter], hrest⟩

/-- An admission that passed its charge left room for itself. -/
theorem chargeSelections_eq_ok {env : Env} {key : Bytes} {rows : List (Bytes × Bytes)}
    {site count charged : Nat} {result : Unit}
    (hcharge : chargeSelections env key site (count, charged) rows = .ok result)
    (hcount : count ≤ maxCurrentSources) (hcharged : charged ≤ maxCurrentSourceBytes) :
    count + (otherSelections key rows).length ≤ maxCurrentSources ∧
      charged + selectionCharge (otherSelections key rows) ≤ maxCurrentSourceBytes := by
  induction rows generalizing site count charged with
  | nil => exact ⟨hcount, hcharged⟩
  | cons row rows ih =>
      obtain ⟨nextCount, nextCharged, hnextCount, hnextCharged, hlength, hsum, hrest⟩ :=
        chargeSelections_cons hcharge
      obtain ⟨hrows, hbytes⟩ := ih hrest hnextCount hnextCharged
      omega

/-- The first row checks the admission itself. -/
theorem chargeSelections_room {env : Env} {key : Bytes} {rows : List (Bytes × Bytes)}
    {site count charged : Nat} {result : Unit}
    (hcharge : chargeSelections env key site (count, charged) rows = .ok result)
    (hrows : rows ≠ []) :
    count + (otherSelections key rows).length ≤ maxCurrentSources ∧
      charged + selectionCharge (otherSelections key rows) ≤ maxCurrentSourceBytes := by
  obtain ⟨row, rest, rfl⟩ := List.exists_cons_of_ne_nil hrows
  obtain ⟨nextCount, nextCharged, hcount, hcharged, hlength, hsum, hrest⟩ :=
    chargeSelections_cons hcharge
  obtain ⟨hbound, hbytes⟩ := chargeSelections_eq_ok hrest hcount hcharged
  omega

/-- The selections after an admission: its own and those under other keys. -/
theorem selectionRows_admitted {state : Table} {key : Bytes} (value : Bytes)
    (hkey : selectionPrefix.isPrefixOf key = true) :
    (selectionRows (state.insert key value).toList).Perm
      ((key, value) :: otherSelections key state.toList) := by
  have hinsert := selectionRows_perm (Table.rows_insert state key value)
  have hcons : selectionRows ((key, value) :: Table.others state key) =
      (key, value) :: selectionRows (Table.others state key) :=
    List.filter_cons_of_pos hkey
  have hothers : selectionRows (Table.others state key) = otherSelections key state.toList := by
    rw [selectionRows, Table.others, List.filter_filter, otherSelections]
  rwa [hcons, hothers] at hinsert

theorem selectionPrefix_selectionKey (locator : Bytes) :
    selectionPrefix.isPrefixOf (selectionKey locator) = true := by
  rw [selectionKey, List.isPrefixOf_iff_prefix]
  exact List.prefix_append _ _

/-! ## Writes within the ceilings -/

theorem inventoryCharge_sublist {first second : List (Bytes × Bytes)}
    (hsub : first.Sublist second) : inventoryCharge first ≤ inventoryCharge second := by
  induction hsub with
  | slnil => exact Nat.le_refl _
  | cons row _ ih =>
      rw [inventoryCharge_cons]
      omega
  | cons_cons row _ ih =>
      rw [inventoryCharge_cons, inventoryCharge_cons]
      omega

namespace Db

variable {db next : Db}

theorem InventoryFits.of_rows (hfits : db.InventoryFits)
    (hrows : openTable next.sourceRows = openTable db.sourceRows) : next.InventoryFits where
  count := hrows ▸ hfits.count
  charge := hrows ▸ hfits.charge

theorem InventoryFits.withPreparation (hfits : db.InventoryFits) (id : SourceId)
    (row : CurrentPreparation) (revision : UInt64) :
    ((db.withPreparation id row).advanced revision).InventoryFits :=
  hfits.of_rows rfl

theorem KeepsSelections.withPreparation (db : Db) (id : SourceId) (row : CurrentPreparation)
    (revision : UInt64) :
    db.KeepsSelections ((db.withPreparation id row).advanced revision) := by
  have hkept : db.KeepsSelections (db.withPreparation id row) := .of_state rfl
  exact hkept.advanced revision

theorem KeepsSelections.wroteSettings {id : SourceId} {settings : PreparationSettings}
    {source : CurrentSourceRecord} {previous : Option CurrentPreparation}
    {row : CurrentPreparation} (hwrite : SettingsWrite db next id settings source previous row) :
    db.KeepsSelections next := by
  cases hwrite with
  | first _ _ _ _ hnext => exact hnext ▸ .withPreparation _ _ _ _
  | change _ _ _ _ hnext => exact hnext ▸ .withPreparation _ _ _ _

theorem KeepsSelections.wroteOutcome {capture : PreparationCapture} {result : PreparationOutcome}
    {old row : CurrentPreparation} (hwrite : OutcomeWrite db next capture result old row) :
    db.KeepsSelections next := by
  obtain ⟨revision, hnext⟩ := hwrite.tables
  exact hnext ▸ .withPreparation _ _ _ _

/-- Room in the inventory for one more source under the locator. -/
structure RoomFor (db : Db) (locator : Bytes) : Prop where
  count : (openTable db.sourceRows).toList.length < maxCurrentSources
  charge : inventoryCharge (openTable db.sourceRows).toList + (113 + 2 * locator.length) ≤
    maxCurrentSourceBytes

instance (db : Db) (locator : Bytes) : Decidable (db.RoomFor locator) :=
  decidable_of_iff (_ ∧ _) ⟨fun ⟨hcount, hcharge⟩ => ⟨hcount, hcharge⟩,
    fun hroom => ⟨hroom.count, hroom.charge⟩⟩

/-- A commit that replaces a row keeps its charge; one that adds a row needs
the room. -/
theorem InventoryFits.wroteSource (hfits : db.InventoryFits) (hsound : db.Sound)
    {capture : SourceCapture} {fileKey : NativeFileKey} {object : RetainedObject}
    {record : CurrentSourceRecord}
    (hwrite : SourceWrite db next capture fileKey object.reference record)
    (hroom : capture.expectedRowRevision = none → sourceAt db capture.locator = none →
      db.RoomFor capture.locator) : next.InventoryFits := by
  obtain ⟨revision, htables⟩ := hwrite.tables
  have hlocator : record.locator = capture.locator := by
    rw [hwrite.record_eq]
    rfl
  have hid : record.sourceId = capture.sourceId := by
    rw [hwrite.record_eq]
    rfl
  have hcharge := rowCharge_recordBytes hwrite.recordable hwrite.bounded
  have hperm : (openTable next.sourceRows).toList.Perm
      ((capture.sourceId.bytes, recordBytes record) ::
        Table.others (openTable db.sourceRows) capture.sourceId.bytes) := by
    rw [htables, Db.advanced, Db.withSource, openTable_some, hid]
    exact Table.rows_insert _ _ _
  have hsub : (Table.others (openTable db.sourceRows) capture.sourceId.bytes).Sublist
      (openTable db.sourceRows).toList := List.filter_sublist
  have hcount := hsub.length_le
  have hbytes := inventoryCharge_sublist hsub
  rcases hwrite.held.split with ⟨-, -, hrow, -, hfree, -⟩ |
    ⟨current, -, -, -, -, -, hcurrent, -, hname⟩
  · have habsent : sourceAt db capture.locator = none := by
      rw [sourceAt, hfree, Option.bind_none]
    have hspace := hroom hrow habsent
    have hlength := hspace.count
    have hlimit := hspace.charge
    constructor
    · rw [hperm.length_eq, List.length_cons]
      omega
    · rw [inventoryCharge_perm hperm, inventoryCharge_cons, hcharge, hlocator]
      omega
  · obtain ⟨bytes, hstored, hdecode⟩ := recordAt_eq_some.mp hcurrent
    have holdPerm := Table.rows_of_get hstored
    have hlength := hfits.count
    have hlimit := hfits.charge
    have hsame : rowCharge bytes = 113 + 2 * current.locator.length := by
      rcases hsound.sources with hnone | ⟨namespaceId, hregistered⟩
      · rw [hnone.recordAt] at hcurrent
        cases hcurrent
      · obtain ⟨found, hfound, hrecord⟩ := hregistered.recordAt_stored hcurrent
        rw [hstored] at hfound
        obtain rfl := Option.some.inj hfound
        rw [hrecord.bytes_eq]
        exact rowCharge_recordBytes hrecord.recordable hrecord.bounded
    rw [holdPerm.length_eq, List.length_cons] at hlength
    rw [inventoryCharge_perm holdPerm, inventoryCharge_cons, hsame, hname] at hlimit
    constructor
    · rw [hperm.length_eq, List.length_cons]
      omega
    · rw [inventoryCharge_perm hperm, inventoryCharge_cons, hcharge, hlocator]
      omega

theorem selectionRows_installed (state : Table) (capture : SourceCapture) :
    (selectionRows (installNamespace state capture).toList).Perm
      (selectionRows state.toList) := by
  unfold installNamespace
  split
  · have hschema := @selectionRows_insert state schemaVersionKey sourceSchemaVersion (by decide)
    have hnamespace := @selectionRows_insert (state.insert schemaVersionKey sourceSchemaVersion)
      namespaceKey capture.sourceNamespaceId.bytes (by decide)
    exact hnamespace.trans hschema
  · exact .refl _

theorem KeepsSelections.wroteSource {capture : SourceCapture} {fileKey : NativeFileKey}
    {object : RetainedObject} {record : CurrentSourceRecord}
    (hwrite : SourceWrite db next capture fileKey object.reference record) :
    db.KeepsSelections next := by
  obtain ⟨revision, rfl⟩ := hwrite.tables
  refine KeepsSelections.advanced ?_ revision
  rw [KeepsSelections, Db.withSource, openTable_some]
  exact selectionRows_installed _ capture

/-- Removals only erase rows. -/
theorem withoutSources_rows (db : Db) (expected : List CurrentSourceRecord) :
    (∃ rest, rest.Sublist (openTable db.sourceRows).toList ∧
      (openTable (expected.foldl Db.withoutSource db).sourceRows).toList.Perm rest) ∧
      openTable (expected.foldl Db.withoutSource db).sourceState = openTable db.sourceState := by
  induction expected generalizing db with
  | nil => exact ⟨⟨_, .refl _, .refl _⟩, rfl⟩
  | cons source expected ih =>
      obtain ⟨⟨rest, hsub, hperm⟩, hstate⟩ := ih (db.withoutSource source)
      refine ⟨?_, hstate⟩
      have herased : (openTable (db.withoutSource source).sourceRows).toList.Perm
          (Table.others (openTable db.sourceRows) source.sourceId.bytes) := by
        rw [Db.withoutSource, openTable_some]
        exact Table.rows_erase _ _
      obtain ⟨kept, hkept, hsublist⟩ := hsub.subperm.trans herased.subperm
      exact ⟨kept, hsublist.trans List.filter_sublist, hperm.trans hkept.symm⟩

theorem InventoryFits.erasedSources (hfits : db.InventoryFits)
    {expected : List CurrentSourceRecord} (herased : SourcesErased db next expected) :
    next.InventoryFits := by
  obtain ⟨revision, rfl⟩ := herased.tables
  obtain ⟨⟨rest, hsub, hperm⟩, -⟩ := withoutSources_rows db expected
  have hcount := hsub.length_le
  have hbytes := inventoryCharge_sublist hsub
  have hlength := hfits.count
  have hlimit := hfits.charge
  constructor
  · rw [Db.advanced, hperm.length_eq]
    omega
  · rw [Db.advanced, inventoryCharge_perm hperm]
    omega

theorem KeepsSelections.erasedSources {expected : List CurrentSourceRecord}
    (herased : SourcesErased db next expected) : db.KeepsSelections next := by
  obtain ⟨revision, rfl⟩ := herased.tables
  have hkept : db.KeepsSelections (expected.foldl Db.withoutSource db) :=
    .of_state (withoutSources_rows db expected).2
  exact hkept.advanced revision

/-- An admission leaves the inventory alone and was charged with every other
selection. -/
theorem Sound.admitted_fits (hsound : db.Sound) {env : Env} {selection : AdmittedSelection}
    {randomId : Octets 16} (hadmitted : SelectionAdmitted env db next selection randomId) :
    openTable next.sourceRows = openTable db.sourceRows ∧ next.SelectionsFit := by
  obtain ⟨middle, hensured, hcharge, rfl⟩ := hadmitted.tables
  obtain ⟨⟨namespaceId, hregistered⟩, -, -⟩ := hsound.ensured hensured
  have hrows : openTable middle.sourceRows = openTable db.sourceRows := by
    cases hensured with
    | existing _ => rfl
    | created _ => rfl
  have hnonempty : (openTable middle.sourceState).toList ≠ [] := by
    have hversion := Table.mem_rows.mpr hregistered.version
    exact List.ne_nil_of_mem hversion
  obtain ⟨hcount, hbytes⟩ := chargeSelections_room hcharge hnonempty
  have hperm := @selectionRows_admitted (openTable middle.sourceState) _
    (selectionText ⟨1, selection.path, selection.kind⟩) (selectionPrefix_selectionKey selection.path)
  refine ⟨hrows, ?_, ?_⟩
  · rw [Db.withSelection, openTable_some, hperm.length_eq, List.length_cons]
    omega
  · rw [Db.withSelection, openTable_some, selectionCharge_perm hperm, selectionCharge_cons]
    omega

end Db

/-! ## Runs -/

namespace Registry

/-- A root within the ceilings of its readers. -/
structure Readable (registry : Registry) : Prop where
  consistent : registry.Consistent
  inventory : registry.db.InventoryFits
  selections : registry.db.SelectionsFit

theorem init_readable : (init Db.empty).Readable where
  consistent := init_consistent
  inventory := by
    constructor
    · simp [init, Db.empty]
    · simp [init, Db.empty, inventoryCharge]
  selections := by
    constructor
    · simp [init, Db.empty, selectionRows]
    · simp [init, Db.empty, selectionRows, selectionCharge]

/-- The capture whose commit would add a source. -/
def adding (registry : Registry) (action : Action) : Option SourceCapture :=
  match action.command with
  | .commitCurrentSource slot _ _ _ =>
      registry.sources[slot]?.join.filter fun capture =>
        decide (capture.expectedRowRevision = none ∧ sourceAt registry.db capture.locator = none)
  | _ => none

/-- A commit that would add a source finds room for it. -/
def Roomy (registry : Registry) (action : Action) : Prop :=
  ∀ capture ∈ registry.adding action, registry.db.RoomFor capture.locator

instance (registry : Registry) (action : Action) : Decidable (registry.Roomy action) :=
  inferInstanceAs (Decidable (∀ capture ∈ registry.adding action, _))

theorem Readable.step {registry : Registry} (hreadable : registry.Readable) (action : Action)
    (hroomy : registry.Roomy action) : (registry.step action).Readable := by
  have hconsistent := hreadable.consistent.step action
  obtain ⟨⟨hsound, -⟩, hinventory, hselections⟩ := hreadable
  cases step_change registry action with
  | idle hdb _ _ _ => exact ⟨hconsistent, hdb ▸ hinventory, hdb ▸ hselections⟩
  | captured _ _ hdb _ _ _ => exact ⟨hconsistent, hdb ▸ hinventory, hdb ▸ hselections⟩
  | spent _ hdb _ _ _ => exact ⟨hconsistent, hdb ▸ hinventory, hdb ▸ hselections⟩
  | wroteSource hcommand hslot hwrite _ _ _ =>
      refine ⟨hconsistent, hinventory.wroteSource hsound hwrite ?_,
        hselections.of_keeps (.wroteSource hwrite)⟩
      intro hrow habsent
      apply hroomy
      rw [adding, hcommand]
      exact Option.mem_filter_iff.mpr ⟨by rw [hslot, Option.join_some]; rfl, by simp [hrow, habsent]⟩
  | erasedSources herased _ _ _ =>
      exact ⟨hconsistent, hinventory.erasedSources herased,
        hselections.of_keeps (.erasedSources herased)⟩
  | admitted hadmitted _ _ _ =>
      obtain ⟨hrows, hfits⟩ := hsound.admitted_fits hadmitted
      exact ⟨hconsistent, hinventory.of_rows hrows, hfits⟩
  | wroteSettings _ _ hwrite _ _ _ =>
      refine ⟨hconsistent, ?_, hselections.of_keeps (.wroteSettings hwrite)⟩
      cases hwrite with
      | first _ _ _ _ hnext => exact hnext ▸ hinventory.withPreparation _ _ _
      | change _ _ _ _ hnext => exact hnext ▸ hinventory.withPreparation _ _ _
  | wroteOutcome _ _ hwrite _ _ _ =>
      refine ⟨hconsistent, ?_, hselections.of_keeps (.wroteOutcome hwrite)⟩
      obtain ⟨revision, hnext⟩ := hwrite.tables
      exact hnext ▸ hinventory.withPreparation _ _ _

theorem readable_run {actions : List Action}
    (hroomy : Runs.Throughout step Roomy (init Db.empty) actions) : (run actions).Readable :=
  Runs.run_invariant_throughout Readable init_readable
    (fun _ action hreadable hroom => hreadable.step action hroom) hroomy

/-- A root to which every commit added its source with room to spare stays
readable: no reader ever reports a limit. -/
theorem readers_within_limits (actions : List Action)
    (hroomy : Runs.Throughout step Roomy (init Db.empty) actions) (env : Env) :
    Control.captureCurrentSources env (run actions).db ≠ .error .inventoryLimit ∧
      Control.captureSelections env (run actions).db ≠ .error .inventoryLimit ∧
      Control.captureCorpus env (run actions).db ≠ .error .limit := by
  obtain ⟨⟨hsound, -⟩, hinventory, hselections⟩ := readable_run hroomy
  refine ⟨?_, captureSelections_ne_limit hsound hselections, ?_⟩
  · intro herror
    rcases captureCurrentSources_cases env hsound with
      ⟨found, hfound, hreason⟩ | ⟨sources, hsources, -⟩
    · obtain rfl := Except.error.inj (herror.symm.trans hfound)
      rcases hreason with ⟨_, interruption, _, hfault⟩ | ⟨-, hexceeds⟩
      · cases interruption <;> cases hfault
      · exact hexceeds hinventory
    · rw [hsources] at herror
      cases herror
  · intro herror
    cases captureCorpus_cases hsound herror with
    | interrupted hinterrupted =>
        obtain ⟨_, interruption, _, hfault⟩ := hinterrupted
        cases interruption <;> cases hfault
    | limit hexceeds =>
        rcases hsound.sources with hnone | ⟨namespaceId, hregistered⟩
        · apply hexceeds
          constructor
          · simp [hnone.rows]
          · simp [hnone.rows, corpusCharge]
        · exact hexceeds (hregistered.corpusFits hinventory)

/-- A first registration finds room. -/
theorem readers_within_limits_sample :
    Control.captureCurrentSources Env.quiet
      (run [capturing Env.quiet Sample.file Sample.draws, Sample.commit]).db ≠
        .error .inventoryLimit :=
  (readers_within_limits [capturing Env.quiet Sample.file Sample.draws, Sample.commit]
    (by decide +kernel) Env.quiet).1

/-! ## A root beyond its ceilings -/

/-- A first registration whose guards hold commits. -/
theorem commitSourceTransaction_first {db : Db} {capture : SourceCapture}
    {fileKey : NativeFileKey} {objectRef : ObjectRef} {revision : UInt64}
    (hnames : NamespaceHeld db capture) (hrow : capture.expectedRowRevision = none)
    (hregistration : capture.expectedRegistrationRevision = none)
    (hlocator : (openTable db.sourceLocators)[capture.locator]? = none)
    (hid : (openTable db.sourceRows)[capture.sourceId.bytes]? = none)
    (hrecordable : Recordable (capture.record fileKey objectRef 1 1))
    (hrevision : writeWantedRevision db = .ok revision) (hlast : revision.toNat + 1 < 2 ^ 64) :
    ∃ next, commitSourceTransaction Env.quiet db capture fileKey objectRef =
      .ok (some next, capture.record fileKey objectRef 1 1) := by
  have hrevisions : sourceRevisions db capture = .ok (1, 1) := by
    have hid' : ¬ (openTable db.sourceRows)[capture.sourceId.bytes]?.isSome = true := by simp [hid]
    unfold NamespaceHeld at hnames
    cases hexpected : capture.expectedNamespace with
    | none =>
        simp only [hexpected] at hnames
        simp only [sourceRevisions, hexpected, hnames.1, hnames.2, hrow, hregistration, hlocator,
          pure_eq_ok, ok_bind, refuse_of_not hid']
    | some expected =>
        simp only [hexpected] at hnames
        simp only [sourceRevisions, hexpected, hnames.1, hnames.2, hrow, hregistration, hlocator,
          pure_eq_ok, ok_bind, and_self, not_true_eq_false, refuse, if_false, if_neg hid']
  have hunchanged : unchangedSource db capture fileKey objectRef = .ok none := by
    rw [unchangedSource, hrow]
    rfl
  have hencode := encodeRecord_eq_ok.mpr ⟨hrecordable, rfl⟩
  have hsum : checkedAdd revision 1 = some (revision + 1) := by
    apply checkedAdd_eq_some.mpr
    rw [UInt64.toNat_add]
    exact Nat.mod_eq_of_lt hlast
  have hadvance : ∃ next, advanceWantedRevision ((db.withSource capture
      (capture.record fileKey objectRef 1 1))) = .ok next := by
    have hstored : writeWantedRevision (db.withSource capture
        (capture.record fileKey objectRef 1 1)) = .ok revision := by
      rw [writeWantedRevision, Db.withSource, openTable_some, installNamespace_revision]
      exact hrevision
    rw [advanceWantedRevision, hstored, ok_bind, hsum, okOr_some, ok_bind]
    exact ⟨_, rfl⟩
  obtain ⟨next, hnext⟩ := hadvance
  refine ⟨next, ?_⟩
  simp only [commitSourceTransaction, hrevisions, hunchanged, ok_bind]
  rw [SourceCapture.record] at hencode hnext
  rw [hencode]
  simp only [Db.withSource] at hnext
  rw [ok_bind, hnext]
  rfl

namespace Filling

def letter (digit : Nat) : UInt8 := UInt8.ofNat (97 + digit % 16)

/-- A file of its own for every index below 65536. -/
def path (index : Nat) : Bytes :=
  [47, letter (index / 4096), letter (index / 256), letter (index / 16), letter index]

def identity (index : Nat) : SourceId := ⟨path index ++ List.replicate 11 0, by simp [path]⟩

def draws (index : Nat) : Draws := ⟨some (Octets.replicate 16 1), some (identity index)⟩

def commit (index : Nat) : Action :=
  ⟨Env.quiet, .commitCurrentSource index (.unix 1 (UInt64.ofNat index)) Sample.object true⟩

/-- Retain and commit one file after another. -/
def filling : Nat → List Action
  | 0 => []
  | index + 1 => filling index ++ [capturing Env.quiet (path index) (draws index), commit index]

theorem letter_inj {left right : Nat} (heq : letter left = letter right) :
    left % 16 = right % 16 := by
  have hvalue := congrArg UInt8.toNat heq
  simp only [letter, UInt8.toNat_ofNat'] at hvalue
  omega

theorem path_inj {left right : Nat} (hleft : left < 65536) (hright : right < 65536)
    (heq : path left = path right) : left = right := by
  simp only [path, List.cons.injEq, and_true, true_and] at heq
  obtain ⟨hfirst, hsecond, hthird, hfourth⟩ := heq
  have hfirst := letter_inj hfirst
  have hsecond := letter_inj hsecond
  have hthird := letter_inj hthird
  have hfourth := letter_inj hfourth
  omega

theorem identity_inj {left right : Nat} (hleft : left < 65536) (hright : right < 65536)
    (heq : (identity left).bytes = (identity right).bytes) : left = right :=
  path_inj hleft hright (List.append_cancel_right heq)

/-- What a root holds after the first files were committed. -/
structure Filled (registry : Registry) (count : Nat) : Prop where
  consistent : registry.Consistent
  slots : registry.sources.length = count
  rows : (openTable registry.db.sourceRows).toList.length = count
  ids : ∀ key, (openTable registry.db.sourceRows)[key]?.isSome = true →
    ∃ index < count, key = (identity index).bytes
  locators : ∀ name, (openTable registry.db.sourceLocators)[name]?.isSome = true →
    ∃ index < count, name = path index
  revision : ∃ revision, writeWantedRevision registry.db = .ok revision ∧ revision.toNat = count

theorem filled_init : Filled (init Db.empty) 0 where
  consistent := init_consistent
  slots := rfl
  rows := by simp [init, Db.empty]
  ids := by simp [init, Db.empty]
  locators := by simp [init, Db.empty]
  revision := ⟨0, by simp [init, Db.empty, writeWantedRevision, storedRevision], rfl⟩

theorem sourceLocatorBytes_path (index : Nat) :
    sourceLocatorBytes (path index) = .ok (path index) := by
  have habsolute : ¬ ¬ IsAbsolute (path index) := by
    rw [not_not]
    rfl
  have hlength : ¬ (path index = [] ∨ (path index).length > maxLocatorBytes) := by
    simp [path, maxLocatorBytes]
  rw [sourceLocatorBytes, refuse_of_not habsolute, ok_bind, refuse_of_not hlength]
  rfl

/-- The next file is captured as absent. -/
theorem Filled.captured {registry : Registry} {count : Nat} (hfilled : Filled registry count)
    (hcount : count < 65536) :
    ∃ capture, Control.captureCurrentSource Env.quiet registry.db (path count) (draws count) =
        .ok capture ∧ Observed registry.db (path count) (draws count) capture ∧
      capture.sourceId = identity count ∧ capture.expectedRowRevision = none ∧
      capture.expectedRegistrationRevision = none ∧
      (openTable registry.db.sourceLocators)[capture.locator]? = none ∧
      (openTable registry.db.sourceRows)[capture.sourceId.bytes]? = none := by
  rcases captureCurrentSource_cases Env.quiet (path count) (draws count)
    hfilled.consistent.sound with ⟨capture, hcapture, hobserved⟩ | ⟨error, -, hrefused⟩
  · have hfree : (openTable registry.db.sourceLocators)[path count]? = none := by
      rw [← Option.not_isSome_iff_eq_none]
      intro hsome
      obtain ⟨index, hindex, heq⟩ := hfilled.locators _ hsome
      have hsame := path_inj hcount (by omega) heq
      omega
    have habsent : sourceAt registry.db (path count) = none := by
      rw [sourceAt, hfree, Option.bind_none]
    have hid : capture.sourceId = identity count :=
      (Option.some.inj (hobserved.absent habsent)).symm
    have hrow := hobserved.row
    have hregistration := hobserved.registration
    rw [habsent, Option.map_none] at hrow hregistration
    refine ⟨capture, hcapture, hobserved, hid, hrow, hregistration,
      by rw [hobserved.locator_eq, hfree], ?_⟩
    rw [← Option.not_isSome_iff_eq_none]
    intro hsome
    obtain ⟨index, hindex, heq⟩ := hfilled.ids _ hsome
    rw [hid] at heq
    have hsame := identity_inj hcount (by omega) heq
    omega
  · cases hrefused with
    | interrupted hinterrupted => exact absurd hinterrupted not_interrupted_quiet
    | random hdraws => rcases hdraws with hnone | hnone <;> cases hnone
    | locator hlocator =>
        rw [sourceLocatorBytes_path] at hlocator
        cases hlocator

/-- An acknowledged commit that computed new tables. -/
theorem commitSource_acknowledged {registry : Registry} {slot : Nat} {capture : SourceCapture}
    {fileKey : NativeFileKey} {object : RetainedObject} {next : Db} {record : CurrentSourceRecord}
    (hslot : registry.sources[slot]? = some (some capture))
    (hattempt : commitSourceTransaction Env.quiet registry.db capture fileKey object.reference =
      .ok (some next, record)) (owned : Bool) :
    (registry.step ⟨Env.quiet, .commitCurrentSource slot fileKey object owned⟩).db = next ∧
      (registry.step ⟨Env.quiet, .commitCurrentSource slot fileKey object owned⟩).sources =
        registry.sources.set slot none ∧
      registry.reply ⟨Env.quiet, .commitCurrentSource slot fileKey object owned⟩ =
        .source (.ok record) := by
  have hfound : registry.sources[slot]?.join = some capture := by rw [hslot, Option.join_some]
  simp only [step, reply, execute, commitSource, hfound, hattempt]
  exact ⟨rfl, rfl, rfl⟩

/-- The next commit succeeds, whatever the number of rows. -/
theorem Filled.next {registry : Registry} {count : Nat} (hfilled : Filled registry count)
    (hcount : count < 65536) :
    Filled (Runs.run step registry [capturing Env.quiet (path count) (draws count), commit count])
        (count + 1) ∧
      ∃ record, reply (registry.step (capturing Env.quiet (path count) (draws count)))
        (commit count) = .source (.ok record) := by
  obtain ⟨capture, hcapture, hobserved, hid, hrow, hregistration, hlocator, hfresh⟩ :=
    hfilled.captured hcount
  obtain ⟨hdb, hsources⟩ := step_capturing hcapture
  obtain ⟨revision, hrevision, hvalue⟩ := hfilled.revision
  have hconsistent := (hfilled.consistent.step
    (capturing Env.quiet (path count) (draws count))).step (commit count)
  have hname : capture.locator = path count := hobserved.locator_eq
  have hrecordable : Recordable
      (capture.record (.unix 1 (UInt64.ofNat count)) Sample.object.reference 1 1) := by
    have hone : (1 : UInt64) ≠ 0 := by decide
    refine ⟨hone, hone, rfl, rfl, ?_, ?_⟩
    · rw [SourceCapture.record, hname]
      simp [path]
    · rw [SourceCapture.record, hname]
      simp [path, maxLocatorBytes]
  obtain ⟨next, hattempt⟩ := commitSourceTransaction_first hobserved.held hrow hregistration
    hlocator hfresh hrecordable hrevision (by omega)
  have hslot : (registry.step (capturing Env.quiet (path count) (draws count))).sources[count]? =
      some (some capture) := by
    rw [hsources, ← hfilled.slots]
    simp
  obtain ⟨hafter, hslots, hreply⟩ :=
    commitSource_acknowledged hslot (hdb.symm ▸ hattempt) true
  have hwrite := commitSourceTransaction_wrote hattempt
  obtain ⟨middle, -, hmiddle, hadvance⟩ := commitSourceTransaction_write hattempt
  obtain ⟨old, new, hold, hnew, hstored, -⟩ := advanceWantedRevision_eq_ok hadvance
  rw [hmiddle, hrevision] at hold
  obtain rfl := Except.ok.inj hold
  obtain ⟨tableRevision, htables⟩ := hwrite.tables
  have hrows : openTable next.sourceRows = (openTable registry.db.sourceRows).insert
      (identity count).bytes (recordBytes
        (capture.record (.unix 1 (UInt64.ofNat count)) Sample.object.reference 1 1)) := by
    rw [htables, Db.advanced, Db.withSource, openTable_some, SourceCapture.record, hid]
  have hnames : openTable next.sourceLocators = (openTable registry.db.sourceLocators).insert
      (path count) (identity count).bytes := by
    rw [htables, Db.advanced, Db.withSource, openTable_some, SourceCapture.record, hid, hname]
  rw [hid] at hfresh
  refine ⟨⟨hconsistent, ?_, ?_, ?_, ?_, ⟨new, ?_, by omega⟩⟩, ⟨_, hreply⟩⟩
  · rw [Runs.run_cons, Runs.run_cons, Runs.run_nil, commit, hslots, hsources, List.length_set,
      List.length_append, hfilled.slots, List.length_singleton]
  · rw [Runs.run_cons, Runs.run_cons, Runs.run_nil, commit, hafter, hrows,
      (Table.rows_insert _ _ _).length_eq, Table.others_of_get_none hfresh, List.length_cons,
      hfilled.rows]
  · intro key hkey
    rw [Runs.run_cons, Runs.run_cons, Runs.run_nil, commit, hafter, hrows,
      Table.get_insert] at hkey
    split at hkey
    · rename_i heq
      exact ⟨count, Nat.lt_succ_self _, heq.symm⟩
    · obtain ⟨index, hindex, heq⟩ := hfilled.ids key hkey
      exact ⟨index, Nat.lt_succ_of_lt hindex, heq⟩
  · intro name hkey
    rw [Runs.run_cons, Runs.run_cons, Runs.run_nil, commit, hafter, hnames,
      Table.get_insert] at hkey
    split at hkey
    · rename_i heq
      exact ⟨count, Nat.lt_succ_self _, heq.symm⟩
    · obtain ⟨index, hindex, heq⟩ := hfilled.locators name hkey
      exact ⟨index, Nat.lt_succ_of_lt hindex, heq⟩
  · rw [Runs.run_cons, Runs.run_cons, Runs.run_nil, commit, hafter]
    exact hstored

theorem filled_run {count : Nat} (hcount : count ≤ 65536) : Filled (run (filling count)) count := by
  induction count with
  | zero => exact filled_init
  | succ count ih =>
      have hnext := ((ih (by omega)).next (by omega)).1
      rw [run, filling, Runs.run_append]
      exact hnext

end Filling

/-- 4097 files are captured and committed one after another, every commit
reports success, and then the inventory is refused for its limit. -/
theorem commits_exceed_inventory :
    (∀ index < 4097, ∃ record,
      reply ((run (Filling.filling index)).step
        (capturing Env.quiet (Filling.path index) (Filling.draws index))) (Filling.commit index) =
          .source (.ok record)) ∧
      Control.captureCurrentSources Env.quiet (run (Filling.filling 4097)).db =
        .error .inventoryLimit := by
  constructor
  · intro index hindex
    exact ((Filling.filled_run (by omega)).next (by omega)).2
  · have hfilled := @Filling.filled_run 4097 (by omega)
    rcases captureCurrentSources_cases Env.quiet hfilled.consistent.sound with
      ⟨error, herror, hreason⟩ | ⟨sources, -, hcount⟩
    · rcases hreason with hinterrupted | ⟨rfl, -⟩
      · exact absurd hinterrupted not_interrupted_quiet
      · exact herror
    · rw [hfilled.rows, maxCurrentSources] at hcount
      omega

end Registry

end EliotSearch.Control
