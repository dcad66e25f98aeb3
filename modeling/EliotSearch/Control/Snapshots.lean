import EliotSearch.Control.Readers

/-!
# Whole snapshots of a sound root

The inventory, the corpus and the admitted selections are each read in one
snapshot under a count and a byte ceiling.  A root within the ceilings of a
snapshot is read in full; outside them the reader reports its limit.
-/

namespace EliotSearch.Control

open EliotSearch.Library
open EliotSearch.Library.Results
open EliotSearch.Library.Words

/-! ## The inventory -/

/-- The rows and their locators fit the ceilings of the inventory. -/
structure Db.InventoryFits (db : Db) : Prop where
  count : (openTable db.sourceRows).toList.length ≤ maxCurrentSources
  charge : inventoryCharge (openTable db.sourceRows).toList ≤ maxCurrentSourceBytes

theorem StoredRecord.ids_nodup {namespaceId : SourceNamespaceId} {rows : List (Bytes × Bytes)}
    {sources : List CurrentSourceRecord}
    (hread : List.Forall₂ (fun row source => StoredRecord namespaceId row.1 row.2 source) rows
      sources) (hkeys : (rows.map Prod.fst).Nodup) :
    (sources.map fun source => source.sourceId).Nodup := by
  have hsame : rows.map Prod.fst = (sources.map fun source => source.sourceId).map Octets.bytes := by
    induction hread with
    | nil => rfl
    | cons hstored _ ih =>
        have htail := ih (List.nodup_cons.mp hkeys).2
        simp only [List.map_cons, hstored.key_eq, htail]
  rw [hsame] at hkeys
  exact List.Nodup.of_map _ hkeys

theorem StoredRecord.of_mem {namespaceId : SourceNamespaceId} {rows : List (Bytes × Bytes)}
    {sources : List CurrentSourceRecord}
    (hread : List.Forall₂ (fun row source => StoredRecord namespaceId row.1 row.2 source) rows
      sources) :
    (∀ source ∈ sources, ∃ row ∈ rows, StoredRecord namespaceId row.1 row.2 source) ∧
      ∀ row ∈ rows, ∃ source ∈ sources, StoredRecord namespaceId row.1 row.2 source := by
  induction hread with
  | nil => exact ⟨by simp, by simp⟩
  | cons hstored _ ih =>
      obtain ⟨hsources, hrows⟩ := ih
      constructor
      · intro source hmem
        rcases List.mem_cons.mp hmem with rfl | hmem
        · exact ⟨_, List.mem_cons_self, hstored⟩
        · obtain ⟨row, hrow, hfound⟩ := hsources source hmem
          exact ⟨row, List.mem_cons_of_mem _ hrow, hfound⟩
      · intro row hmem
        rcases List.mem_cons.mp hmem with rfl | hmem
        · exact ⟨_, List.mem_cons_self, hstored⟩
        · obtain ⟨source, hsource, hfound⟩ := hrows row hmem
          exact ⟨source, List.mem_cons_of_mem _ hsource, hfound⟩

namespace Db.Registered

variable {db : Db} {namespaceId : SourceNamespaceId} {sources : List CurrentSourceRecord}

theorem inventoried (hregistered : db.Registered namespaceId) :
    Inventoried namespaceId (openTable db.sourceLocators) (openTable db.sourceRows).toList := by
  rintro ⟨key, bytes⟩ hmem
  obtain ⟨record, hrecord, hstored⟩ := hregistered.exists_record (Table.mem_rows.mp hmem)
  exact ⟨record, hstored, hregistered.inverse.indexed hrecord⟩

/-- The locators are exactly those of the rows read. -/
theorem mem_locators (hregistered : db.Registered namespaceId)
    (hread : List.Forall₂ (fun row source => StoredRecord namespaceId row.1 row.2 source)
      (openTable db.sourceRows).toList sources) (name id : Bytes) :
    (name, id) ∈ (openTable db.sourceLocators).toList ↔
      ∃ source ∈ sources, source.sourceId.bytes = id ∧ source.locator = name := by
  obtain ⟨hsources, hrows⟩ := StoredRecord.of_mem hread
  rw [Table.mem_rows]
  constructor
  · intro hname
    obtain ⟨record, hrecord, hlocator⟩ := hregistered.inverse.stored hname
    obtain ⟨bytes, hbytes, hstored⟩ := hregistered.recordAt_stored hrecord
    obtain ⟨source, hmem, hsource⟩ := hrows (id, bytes) (Table.mem_rows.mpr hbytes)
    have hsame : source = record := Except.ok.inj (hsource.decode.symm.trans hstored.decode)
    exact ⟨source, hmem, hsource.key_eq.symm, by rw [hsame]; exact hlocator⟩
  · rintro ⟨source, hmem, rfl, rfl⟩
    obtain ⟨⟨key, bytes⟩, hrow, hstored⟩ := hsources source hmem
    have hkey := hstored.key_eq
    simp only at hkey
    subst hkey
    exact hregistered.inverse.indexed
      (recordAt_eq_some.mpr ⟨bytes, Table.mem_rows.mp hrow, hstored.decode⟩)

theorem locator_ids_nodup (hregistered : db.Registered namespaceId) :
    ((openTable db.sourceLocators).toList.map Prod.snd).Nodup := by
  have hpairs := List.Nodup.of_map _ (Table.keys_nodup (openTable db.sourceLocators))
  apply List.Nodup.map_on ?_ hpairs
  rintro ⟨first, id⟩ hfirst ⟨second, other⟩ hsecond heq
  simp only at heq
  subst heq
  obtain ⟨left, hleft, hleftName⟩ := hregistered.inverse.stored (Table.mem_rows.mp hfirst)
  obtain ⟨right, hright, hrightName⟩ := hregistered.inverse.stored (Table.mem_rows.mp hsecond)
  rw [hleft] at hright
  obtain rfl := Option.some.inj hright
  rw [← hleftName, ← hrightName]

/-- There are as many locators as rows. -/
theorem locators_length (hregistered : db.Registered namespaceId)
    (hread : List.Forall₂ (fun row source => StoredRecord namespaceId row.1 row.2 source)
      (openTable db.sourceRows).toList sources) :
    (openTable db.sourceLocators).toList.length = sources.length := by
  have hids := StoredRecord.ids_nodup hread (Table.keys_nodup _)
  have hdistinct : (sources.map fun source => (source.locator, source.sourceId.bytes)).Nodup := by
    apply List.Nodup.map_on ?_ (List.Nodup.of_map _ hids)
    intro first hfirst second hsecond heq
    exact List.inj_on_of_nodup_map hids hfirst hsecond (Octets.ext (Prod.mk.inj heq).2)
  have hperm : (openTable db.sourceLocators).toList.Perm
      (sources.map fun source => (source.locator, source.sourceId.bytes)) := by
    rw [List.perm_ext_iff_of_nodup (List.Nodup.of_map _ (Table.keys_nodup _)) hdistinct]
    rintro ⟨name, id⟩
    rw [hregistered.mem_locators hread, List.mem_map]
    constructor
    · rintro ⟨source, hmem, rfl, rfl⟩
      exact ⟨source, hmem, rfl⟩
    · rintro ⟨source, hmem, heq⟩
      obtain ⟨rfl, rfl⟩ := Prod.mk.inj heq
      exact ⟨source, hmem, rfl, rfl⟩
  rw [hperm.length_eq, List.length_map]

theorem reverseIndex_locators (hregistered : db.Registered namespaceId)
    (hread : List.Forall₂ (fun row source => StoredRecord namespaceId row.1 row.2 source)
      (openTable db.sourceRows).toList sources) (id name : Bytes) :
    (reverseIndex sources)[id]? = some name ↔
      (name, id) ∈ (openTable db.sourceLocators).toList := by
  have hids := StoredRecord.ids_nodup hread (Table.keys_nodup _)
  rw [hregistered.mem_locators hread, reverseIndex,
    foldl_reverse ∅ hids (fun _ _ => Table.get_empty _)]
  simp

end Db.Registered

/-- The inventory of a sound root is read in full unless the reader is
interrupted or the root exceeds the ceilings. -/
theorem captureCurrentSources_cases (env : Env) {db : Db} (hsound : db.Sound) :
    (∃ error, captureCurrentSources env db = .error error ∧
      (Interrupted env sourceFault error ∨ error = .inventoryLimit ∧ ¬ db.InventoryFits)) ∨
      ∃ sources, captureCurrentSources env db = .ok sources ∧
        (openTable db.sourceRows).toList.length ≤ maxCurrentSources := by
  rcases hsound.sources with hnone | ⟨namespaceId, hregistered⟩
  · have hnames := hnone.catalogue hsound.single hsound.publication
    simp only [captureCurrentSources, hnames, ok_bind, Bool.false_eq_true, if_false, pure_eq_ok]
    cases hcheck : env.check sourceFault 0 with
    | error error => exact Or.inl ⟨error, rfl, Or.inl (Env.check_eq_error hcheck)⟩
    | ok passed => exact Or.inr ⟨[], rfl, by simp [hnone.rows]⟩
  · have hnames := hregistered.catalogue hsound.single hsound.publication
    have hnamespace := hregistered.readNamespace
    obtain ⟨rows, hrows, hrowsTable⟩ := hregistered.exists_rows
    obtain ⟨locators, hlocators, hlocatorsTable⟩ := hregistered.exists_locators
    have hinventoried := hregistered.inventoried
    have hnodup := hregistered.locator_ids_nodup
    rw [hrowsTable, hlocatorsTable] at hinventoried
    simp only [captureCurrentSources, hnames, hnamespace, ok_bind, if_true, okOr_some, hrows,
      hlocators]
    cases hcheck : env.check sourceFault 0 with
    | error error => exact Or.inl ⟨error, rfl, Or.inl (Env.check_eq_error hcheck)⟩
    | ok passed =>
        rw [ok_bind]
        rcases inventoryRows_cases 2 0 0 hinventoried with
          ⟨error, herror, hreason⟩ | ⟨sources, hsources, hcount, hread⟩
        · refine Or.inl ⟨error, by rw [herror, error_bind], ?_⟩
          rcases hreason with hinterrupted | ⟨rfl, hlimit⟩
          · exact Or.inl hinterrupted
          · refine Or.inr ⟨rfl, fun hfits => ?_⟩
            have hlength := hfits.count
            have hcharge := hfits.charge
            rw [hrowsTable] at hlength hcharge
            omega
        · rw [← hrowsTable] at hread
          have hlength := hregistered.locators_length hread
          have hrowsLength := hread.length_eq
          have hreverse := hregistered.reverseIndex_locators hread
          rw [hlocatorsTable] at hlength hreverse hnodup
          have hbound : rows.toList.length ≤ maxCurrentSources := by
            rcases hcount with hempty | hcount
            · simp [hempty]
            · omega
          rw [hrowsTable] at hrowsLength
          rcases inventoryLocators_cases env (2 + sources.length) 0 hnodup hreverse with
            ⟨error, herror, hreason⟩ | hdone
          · refine Or.inl ⟨error, by rw [hsources, ok_bind, herror, error_bind], ?_⟩
            rcases hreason with hinterrupted | ⟨rfl, hlimit⟩
            · exact Or.inl hinterrupted
            · omega
          · have hmatched :
                ¬ (0 + locators.toList.length ≠ sources.length ∨ ¬ (∅ : Table).isEmpty = true) := by
              simp [hlength]
            simp only [hsources, hdone, ok_bind, refuse_of_not hmatched, pure_eq_ok]
            cases hlast : env.check sourceFault 1 with
            | error error => exact Or.inl ⟨error, rfl, Or.inl (Env.check_eq_error hlast)⟩
            | ok passed =>
                exact Or.inr ⟨sources, rfl, hbound⟩

/-! ## The corpus -/

/-- The bytes charged for the source rows and their preparations. -/
def corpusCharge (preparations : Table) (rows : List (Bytes × Bytes)) : Nat :=
  (rows.map fun row => row.2.length + preparations[row.1]?.elim 0 List.length).sum

/-- The rows and their preparations fit the ceilings of a corpus capture. -/
structure Db.CorpusFits (db : Db) : Prop where
  count : (openTable db.sourceRows).toList.length ≤ maxSources
  charge : corpusCharge (openTable db.preparations) (openTable db.sourceRows).toList ≤
    maxCaptureBytes

/-- The errors of a corpus walk over bound rows. -/
inductive CorpusRefused (env : Env) (Exceeds : Prop) : PublicationError → Prop where
  | interrupted {error : PublicationError}
      (hinterrupted : Interrupted env publicationFault error) : CorpusRefused env Exceeds error
  | unprepared : CorpusRefused env Exceeds .unprepared
  | limit (hexceeds : Exceeds) : CorpusRefused env Exceeds .limit

theorem CorpusRefused.imp {env : Env} {Exceeds Exceeds' : Prop} {error : PublicationError}
    (hrefused : CorpusRefused env Exceeds error) (hexceeds : Exceeds → Exceeds') :
    CorpusRefused env Exceeds' error := by
  cases hrefused with
  | interrupted hinterrupted => exact .interrupted hinterrupted
  | unprepared => exact .unprepared
  | limit hlimit => exact .limit (hexceeds hlimit)

/-- The rows are stored records whose preparations are bound to them. -/
def Prepared (namespaceId : SourceNamespaceId) (preparations : Table)
    (rows : List (Bytes × Bytes)) : Prop :=
  ∀ row ∈ rows, (∃ record, StoredRecord namespaceId row.1 row.2 record) ∧
    ∀ bytes, preparations[row.1]? = some bytes →
      ∃ preparation, BoundPreparation namespaceId row.1 bytes preparation

/-- The corpus walk finds no corrupt row among bound ones, and stops at a
ceiling only if the rows exceed it. -/
theorem captureRows_cases {env : Env} {namespaceId : SourceNamespaceId}
    {preparations : Option Table} {rows : List (Bytes × Bytes)} (site count charged : Nat)
    (hrows : Prepared namespaceId (openTable preparations) rows) {error : PublicationError}
    (herror : captureRows env namespaceId preparations site count charged rows = .error error) :
    CorpusRefused env (maxSources < count + rows.length ∨
      maxCaptureBytes < charged + corpusCharge (openTable preparations) rows) error := by
  induction rows generalizing site count charged with
  | nil => cases herror
  | cons row rows ih =>
      obtain ⟨key, bytes⟩ := row
      obtain ⟨⟨record, hstored⟩, hprepared⟩ := hrows (key, bytes) List.mem_cons_self
      have hkey := hstored.key_eq
      simp only at hkey hprepared
      have hidentity :
          ¬ (key ≠ record.sourceId.bytes ∨ record.sourceNamespaceId ≠ namespaceId) := by
        simp [hkey, hstored.namespace_eq]
      have hcharge : corpusCharge (openTable preparations) ((key, bytes) :: rows) =
          bytes.length + (openTable preparations)[key]?.elim 0 List.length +
            corpusCharge (openTable preparations) rows := by
        rw [corpusCharge, List.map_cons, List.sum_cons, corpusCharge]
      simp only [captureRows, hstored.decode, Except.mapError, ok_bind,
        refuse_of_not hidentity] at herror
      rw [bind_eq_error] at herror
      rcases herror with hcheck | ⟨_, _, herror⟩
      · exact .interrupted (Env.check_eq_error hcheck)
      rw [bind_eq_error, refuse_eq_error] at herror
      rcases herror with ⟨hfull, rfl⟩ | ⟨_, _, herror⟩
      · apply CorpusRefused.limit
        rw [hcharge, List.length_cons]
        omega
      rw [bind_eq_error, okOr_eq_error] at herror
      rcases herror with ⟨-, rfl⟩ | ⟨table, htable, herror⟩
      · exact .unprepared
      rw [bind_eq_error, okOr_eq_error] at herror
      rcases herror with ⟨-, rfl⟩ | ⟨value, hvalue, herror⟩
      · exact .unprepared
      rw [okOr_eq_ok] at htable hvalue
      have hvalueTable : (openTable preparations)[key]? = some value := by
        rw [htable, openTable_some]
        exact hvalue
      obtain ⟨preparation, hbound⟩ := hprepared value hvalueTable
      have hpreparationKey := hbound.key_eq
      have hsameId : preparation.sourceId = record.sourceId :=
        Octets.ext (hpreparationKey.symm.trans hkey)
      have hpreparationIdentity : ¬ (preparation.sourceNamespaceId ≠ namespaceId ∨
          preparation.sourceId ≠ record.sourceId) := by
        simp [hbound.namespace_eq, hsameId]
      rw [hvalueTable, Option.elim_some] at hcharge
      rw [bind_eq_error, refuse_eq_error] at herror
      rcases herror with ⟨hover, rfl⟩ | ⟨_, _, herror⟩
      · apply CorpusRefused.limit
        rw [hcharge]
        omega
      simp only [hbound.decode, ok_bind, refuse_of_not hpreparationIdentity] at herror
      rw [bind_eq_error, refuse_eq_error] at herror
      rcases herror with ⟨-, rfl⟩ | ⟨_, _, herror⟩
      · exact .unprepared
      rw [bind_eq_error] at herror
      rcases herror with hrest | ⟨_, _, herror⟩
      · have hrefused := ih (site + 1) (count + 1) (charged + bytes.length + value.length)
          (fun other hmem => hrows other (List.mem_cons_of_mem _ hmem)) hrest
        apply hrefused.imp
        rw [hcharge, List.length_cons]
        omega
      · cases herror

theorem Db.Registered.prepared {db : Db} {namespaceId : SourceNamespaceId}
    (hregistered : db.Registered namespaceId) :
    Prepared namespaceId (openTable db.preparations) (openTable db.sourceRows).toList := by
  rintro ⟨key, bytes⟩ hmem
  constructor
  · exact hregistered.record (Table.mem_rows.mp hmem)
  · intro value hvalue
    exact (hregistered.preparation hvalue).2

theorem observeDatabase_eq_error {α : Type} {env : Env} {db : Db}
    {read : Db → Except PublicationError α} {error : PublicationError}
    (herror : observeDatabase env db read = .error error) :
    Interrupted env publicationFault error ∨ read db = .error error := by
  simp only [observeDatabase, bind_eq_error, pure_eq_ok, reduceCtorEq, and_false, exists_false,
    or_false] at herror
  rcases herror with hcheck | ⟨_, _, hread | ⟨_, _, hcheck⟩⟩
  · exact Or.inl (Env.check_eq_error hcheck)
  · exact Or.inr hread
  · exact Or.inl (Env.check_eq_error hcheck)

/-- A corpus capture of a sound root fails only because it is interrupted, a
source is unprepared, or the root exceeds the ceilings. -/
theorem captureCorpus_cases {env : Env} {db : Db} (hsound : db.Sound) {error : PublicationError}
    (herror : captureCorpus env db = .error error) :
    CorpusRefused env (¬ db.CorpusFits) error := by
  rcases observeDatabase_eq_error herror with hinterrupted | hread
  · exact .interrupted hinterrupted
  obtain ⟨state, hstate⟩ := hsound.publication.header
  rcases hsound.sources with hnone | ⟨namespaceId, hregistered⟩
  · have hnames := hnone.catalogue hsound.single hsound.publication
    simp only [readCorpus, hnames, Except.mapError, hstate, ok_bind, Bool.false_eq_true, if_false,
      pure_eq_ok, reduceCtorEq] at hread
  · have hnames := hregistered.catalogue hsound.single hsound.publication
    have hnamespace := hregistered.readNamespace
    obtain ⟨revision, hrevision⟩ := hregistered.wantedRevision
    obtain ⟨rows, hrows, hrowsTable⟩ := hregistered.exists_rows
    have hprepared := hregistered.prepared
    rw [hrowsTable] at hprepared
    simp only [readCorpus, hnames, Except.mapError, hstate, hnamespace, hrevision, hrows, ok_bind,
      if_true, okOr_some, bind_eq_error, pure_eq_ok, reduceCtorEq, and_false, exists_false,
      or_false] at hread
    apply (captureRows_cases 2 0 0 hprepared hread).imp
    intro hlimit hfits
    have hcount := hfits.count
    have hcharge := hfits.charge
    rw [hrowsTable] at hcount hcharge
    omega

/-! ## The admitted selections -/

/-- The selection records of a source state. -/
def selectionRows (rows : List (Bytes × Bytes)) : List (Bytes × Bytes) :=
  rows.filter fun row => selectionPrefix.isPrefixOf row.1

def selectionCharge (rows : List (Bytes × Bytes)) : Nat :=
  (rows.map fun row => row.1.length + row.2.length).sum

/-- The selections fit the ceilings of an admission. -/
structure Db.SelectionsFit (db : Db) : Prop where
  count : (selectionRows (openTable db.sourceState).toList).length ≤ maxCurrentSources
  charge : selectionCharge (selectionRows (openTable db.sourceState).toList) ≤
    maxCurrentSourceBytes

theorem decodeSelection_ne_limit {key bytes : Bytes} :
    decodeSelection key bytes ≠ .error .inventoryLimit := by
  intro herror
  simp only [decodeSelection, sourcePathFromLocator, bind_eq_error, okOr_eq_error,
    refuse_eq_error, pure_eq_ok, reduceCtorEq, and_false, exists_false, or_false] at herror

theorem readSelections_limit {env : Env} {rows : List (Bytes × Bytes)} (site count charged : Nat)
    (herror : readSelections env site count charged rows = .error .inventoryLimit) :
    maxCurrentSources < count + (selectionRows rows).length ∨
      maxCurrentSourceBytes < charged + selectionCharge (selectionRows rows) := by
  induction rows generalizing site count charged with
  | nil => cases herror
  | cons row rows ih =>
      obtain ⟨key, value⟩ := row
      rw [readSelections, bind_eq_error] at herror
      rcases herror with hcheck | ⟨_, _, herror⟩
      · obtain ⟨_, interruption, _, hfault⟩ := Env.check_eq_error hcheck
        cases interruption <;> cases hfault
      split at herror
      · rename_i hselection
        have hrows : selectionRows ((key, value) :: rows) = (key, value) :: selectionRows rows :=
          List.filter_cons_of_pos hselection
        have hcharge : selectionCharge ((key, value) :: selectionRows rows) =
            key.length + value.length + selectionCharge (selectionRows rows) := by
          rw [selectionCharge, List.map_cons, List.sum_cons, selectionCharge]
        rw [hrows, hcharge, List.length_cons]
        simp only [bind_eq_error, refuse_eq_error, decodeSelection_ne_limit, pure_eq_ok,
          reduceCtorEq, and_false, exists_false, or_false, false_or, and_true] at herror
        rcases herror with hlimit | ⟨_, _, _, _, hrest⟩
        · omega
        · have hmore := ih (site + 1) (count + 1) (charged + (key.length + value.length)) hrest
          omega
      · rename_i hother
        have hrows : selectionRows ((key, value) :: rows) = selectionRows rows :=
          List.filter_cons_of_neg hother
        rw [hrows]
        exact ih (site + 1) count charged herror

/-- Selections within the ceilings are never refused for them. -/
theorem captureSelections_ne_limit {env : Env} {db : Db} (hsound : db.Sound)
    (hfits : db.SelectionsFit) : captureSelections env db ≠ .error .inventoryLimit := by
  intro herror
  have hcheck : ∀ site, env.check sourceFault site ≠ .error .inventoryLimit := by
    intro site hfailed
    obtain ⟨_, interruption, _, hfault⟩ := Env.check_eq_error hfailed
    cases interruption <;> cases hfault
  rcases hsound.sources with hnone | ⟨namespaceId, hregistered⟩
  · have hnames := hnone.catalogue hsound.single hsound.publication
    simp only [captureSelections, hnames, ok_bind, Bool.false_eq_true, if_false, bind_eq_error,
      hcheck, pure_eq_ok, reduceCtorEq, and_false, exists_false, or_false] at herror
  · have hnames := hregistered.catalogue hsound.single hsound.publication
    have hnamespace := hregistered.readNamespace
    obtain ⟨state, hstate, hstateTable⟩ := hregistered.exists_state
    simp only [captureSelections, hnames, hnamespace, hstate, ok_bind, if_true, okOr_some,
      bind_eq_error, hcheck, pure_eq_ok, reduceCtorEq, and_false, exists_false, or_false,
      false_or] at herror
    obtain ⟨_, _, hread⟩ := herror
    have hlimit := readSelections_limit 2 0 0 hread
    have hcount := hfits.count
    have hcharge := hfits.charge
    rw [hstateTable] at hcount hcharge
    omega

end EliotSearch.Control
