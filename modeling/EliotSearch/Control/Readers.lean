import EliotSearch.Control.Bindings

/-!
# Readers of a sound root

On a sound root every reader fails for one of three reasons only: it was
interrupted, what it reads exceeds its ceiling, or its own arguments are
refused.  No reader finds a corrupt row or a foreign catalogue.
-/

namespace EliotSearch.Control

open EliotSearch.Library
open EliotSearch.Library.Results
open EliotSearch.Library.Words

/-- The error reports an interruption of one of the checks. -/
def Interrupted {ε : Type} (env : Env) (fault : Interruption → ε) (error : ε) : Prop :=
  ∃ site interruption, env.probe site = some interruption ∧ error = fault interruption

theorem Env.check_eq_error {ε : Type} {env : Env} {fault : Interruption → ε} {site : Nat}
    {error : ε} (hcheck : env.check fault site = .error error) : Interrupted env fault error := by
  unfold Env.check at hcheck
  split at hcheck
  · cases hcheck
  · rename_i interruption hprobe
    exact ⟨site, interruption, hprobe, (Except.error.inj hcheck).symm⟩

theorem not_interrupted_quiet {ε : Type} {fault : Interruption → ε} {error : ε} :
    ¬ Interrupted Env.quiet fault error := by
  rintro ⟨site, interruption, hprobe, -⟩
  cases hprobe

/-! ## One registration -/

/-- The row a locator names. -/
def sourceAt (db : Db) (locator : Bytes) : Option CurrentSourceRecord :=
  (openTable db.sourceLocators)[locator]?.bind (recordAt (openTable db.sourceRows))

namespace Db

variable {db : Db} {namespaceId : SourceNamespaceId}

theorem Registered.exists_rows (hregistered : db.Registered namespaceId) :
    ∃ rows, db.sourceRows = some rows ∧ openTable db.sourceRows = rows := by
  obtain ⟨rows, hrows⟩ := Option.isSome_iff_exists.mp hregistered.rows
  exact ⟨rows, hrows, by rw [hrows, openTable_some]⟩

theorem Registered.exists_locators (hregistered : db.Registered namespaceId) :
    ∃ locators, db.sourceLocators = some locators ∧ openTable db.sourceLocators = locators := by
  obtain ⟨locators, hlocators⟩ := Option.isSome_iff_exists.mp hregistered.locators
  exact ⟨locators, hlocators, by rw [hlocators, openTable_some]⟩

theorem Registered.exists_state (hregistered : db.Registered namespaceId) :
    ∃ state, db.sourceState = some state ∧ openTable db.sourceState = state := by
  obtain ⟨state, hstate⟩ := Option.isSome_iff_exists.mp hregistered.state
  exact ⟨state, hstate, by rw [hstate, openTable_some]⟩

theorem Registered.readNamespace (hregistered : db.Registered namespaceId) :
    readNamespace db = .ok (some namespaceId) := by
  obtain ⟨state, hstate, htable⟩ := hregistered.exists_state
  have hversion := hregistered.version
  have hstored := hregistered.stored
  rw [htable] at hversion hstored
  simp [Control.readNamespace, hstate, hversion, hstored, refuse_of_not]

theorem Registered.wantedRevision (hregistered : db.Registered namespaceId) :
    ∃ revision, wantedRevision db = .ok revision := by
  obtain ⟨state, hstate, htable⟩ := hregistered.exists_state
  obtain ⟨revision, hrevision⟩ := hregistered.revision
  rw [writeWantedRevision, htable] at hrevision
  exact ⟨revision, by rw [Control.wantedRevision, hstate, okOr_some, ok_bind, hrevision]⟩

/-- A named row is stored under its identity, its locator is the name. -/
theorem Registered.sourceAt_stored (hregistered : db.Registered namespaceId) {locator : Bytes}
    {record : CurrentSourceRecord} (hrecord : sourceAt db locator = some record) :
    (openTable db.sourceLocators)[locator]? = some record.sourceId.bytes ∧
      recordAt (openTable db.sourceRows) record.sourceId.bytes = some record ∧
      record.locator = locator ∧ record.sourceNamespaceId = namespaceId := by
  obtain ⟨key, hkey, hrow⟩ := Option.bind_eq_some_iff.mp hrecord
  obtain ⟨bytes, hbytes, hstored⟩ := hregistered.recordAt_stored hrow
  obtain ⟨found, hfound, hlocator⟩ := hregistered.inverse.stored hkey
  rw [hrow] at hfound
  obtain rfl := Option.some.inj hfound
  obtain rfl := hstored.key_eq
  exact ⟨hkey, hrow, hlocator, hstored.namespace_eq⟩

theorem Registered.sourceAt_record (hregistered : db.Registered namespaceId) {key : Bytes}
    {record : CurrentSourceRecord} (hrow : recordAt (openTable db.sourceRows) key = some record) :
    sourceAt db record.locator = some record := by
  rw [sourceAt, hregistered.inverse.indexed hrow, Option.bind_some, hrow]

theorem Registered.sourceAt_none (hregistered : db.Registered namespaceId) {locator : Bytes}
    (hnone : sourceAt db locator = none) : (openTable db.sourceLocators)[locator]? = none := by
  cases hkey : (openTable db.sourceLocators)[locator]? with
  | none => rfl
  | some key =>
      obtain ⟨record, hrow, -⟩ := hregistered.inverse.stored hkey
      rw [sourceAt, hkey, Option.bind_some, hrow] at hnone
      cases hnone

theorem Unregistered.sourceAt (hnone : db.Unregistered) (locator : Bytes) :
    sourceAt db locator = none := by
  simp [Control.sourceAt, hnone.locators]

theorem Registered.loadLocatorRow (hregistered : db.Registered namespaceId) (locator : Bytes) :
    loadLocatorRow db locator = .ok (Control.sourceAt db locator) := by
  obtain ⟨rows, hrows, hrowsTable⟩ := hregistered.exists_rows
  obtain ⟨locators, hlocators, hlocatorsTable⟩ := hregistered.exists_locators
  rw [Control.loadLocatorRow, hlocators, okOr_some, ok_bind]
  cases hsource : Control.sourceAt db locator with
  | none =>
      have hkey := hregistered.sourceAt_none hsource
      rw [hlocatorsTable] at hkey
      rw [hkey]
      rfl
  | some record =>
      obtain ⟨hkey, hrow, hlocator, -⟩ := hregistered.sourceAt_stored hsource
      obtain ⟨bytes, hbytes, hdecode⟩ := recordAt_eq_some.mp hrow
      rw [hlocatorsTable] at hkey
      rw [hrowsTable] at hbytes
      have hguard : ¬ (record.sourceId ≠ record.sourceId ∨ record.locator ≠ locator) := by
        simp [hlocator]
      simp only [hkey, hrows, Octets.ofBytes?_bytes, okOr_some, ok_bind, hbytes, hdecode,
        refuse_of_not hguard, pure_eq_ok]

end Db

/-- A capture that expects a namespace expects its own. -/
def SourceCapture.Named (capture : SourceCapture) : Prop :=
  ∀ expected ∈ capture.expectedNamespace, expected = capture.sourceNamespaceId

/-- What a capture observed of the row its locator names. -/
structure Observed (db : Db) (locator : Bytes) (draws : Draws) (capture : SourceCapture) :
    Prop where
  locator_eq : capture.locator = locator
  named : capture.Named
  held : NamespaceHeld db capture
  row : capture.expectedRowRevision = (sourceAt db locator).map CurrentSourceRecord.rowRevision
  registration : capture.expectedRegistrationRevision =
    (sourceAt db locator).map CurrentSourceRecord.registrationRevision
  present : ∀ record ∈ sourceAt db locator, capture.sourceId = record.sourceId
  absent : sourceAt db locator = none → draws.sourceId = some capture.sourceId

/-- The errors of a source capture on a sound root. -/
inductive CaptureRefused (env : Env) (locator : Bytes) (draws : Draws) :
    SourceControlError → Prop where
  | interrupted {error : SourceControlError} (hinterrupted : Interrupted env sourceFault error) :
      CaptureRefused env locator draws error
  | random (hdraws : draws.namespaceId = none ∨ draws.sourceId = none) :
      CaptureRefused env locator draws .randomUnavailable
  | locator (hlocator : sourceLocatorBytes locator = .error .invalidLocator) :
      CaptureRefused env locator draws .invalidLocator

theorem captureSourceDatabase_unregistered {env : Env} {db : Db} {locator : Bytes} {draws : Draws}
    (hsound : db.Sound) (hnone : db.Unregistered) :
    (∃ capture, captureSourceDatabase env db locator draws = .ok capture ∧
      Observed db locator draws capture) ∨
      ∃ error, captureSourceDatabase env db locator draws = .error error ∧
        CaptureRefused env locator draws error := by
  have hnames := hnone.catalogue hsound.single hsound.publication
  have hsource := hnone.sourceAt locator
  cases hresult : captureSourceDatabase env db locator draws with
  | error error =>
      refine Or.inr ⟨error, rfl, ?_⟩
      simp only [captureSourceDatabase, hnames, ok_bind, Bool.false_eq_true, if_false,
        bind_eq_error, okOr_eq_error, pure_eq_ok, reduceCtorEq, and_false, exists_false,
        or_false] at hresult
      rcases hresult with hcheck | ⟨_, _, hcheck | ⟨_, _, ⟨hnamespace, rfl⟩ | ⟨_, _, hsource, rfl⟩⟩⟩
      · exact .interrupted (Env.check_eq_error hcheck)
      · exact .interrupted (Env.check_eq_error hcheck)
      · exact .random (Or.inl hnamespace)
      · exact .random (Or.inr hsource)
  | ok capture =>
      refine Or.inl ⟨capture, rfl, ?_⟩
      simp only [captureSourceDatabase, hnames, ok_bind, Bool.false_eq_true, if_false,
        bind_eq_ok, okOr_eq_ok, pure_eq_ok, Except.ok.injEq] at hresult
      obtain ⟨_, _, _, _, namespaceId, _, sourceId, hdraw, rfl⟩ := hresult
      refine {
        locator_eq := rfl
        named := by rintro _ ⟨⟩
        held := ?_
        row := by rw [hsource]; rfl
        registration := by rw [hsource]; rfl
        present := by simp [hsource]
        absent := fun _ => hdraw }
      simp [NamespaceHeld, hnone.state]

theorem captureSourceDatabase_registered {env : Env} {db : Db} {locator : Bytes} {draws : Draws}
    (hsound : db.Sound) {namespaceId : SourceNamespaceId}
    (hregistered : db.Registered namespaceId) :
    (∃ capture, captureSourceDatabase env db locator draws = .ok capture ∧
      Observed db locator draws capture) ∨
      ∃ error, captureSourceDatabase env db locator draws = .error error ∧
        CaptureRefused env locator draws error := by
  have hnames := hregistered.catalogue hsound.single hsound.publication
  have hnamespace := hregistered.readNamespace
  have hload := hregistered.loadLocatorRow locator
  cases hsource : sourceAt db locator with
  | none =>
      cases hresult : captureSourceDatabase env db locator draws with
      | error error =>
          refine Or.inr ⟨error, rfl, ?_⟩
          simp only [captureSourceDatabase, hnames, hnamespace, hload, hsource, ok_bind, if_true,
            okOr_some, bind_eq_error, okOr_eq_error, pure_eq_ok, reduceCtorEq, and_false,
            exists_false, or_false] at hresult
          rcases hresult with hcheck | ⟨_, _, hcheck | ⟨_, _, hcheck | ⟨_, _, hdraw, rfl⟩⟩⟩
          · exact .interrupted (Env.check_eq_error hcheck)
          · exact .interrupted (Env.check_eq_error hcheck)
          · exact .interrupted (Env.check_eq_error hcheck)
          · exact .random (Or.inr hdraw)
      | ok capture =>
          refine Or.inl ⟨capture, rfl, ?_⟩
          simp only [captureSourceDatabase, hnames, hnamespace, hload, hsource, ok_bind, if_true,
            okOr_some, bind_eq_ok, okOr_eq_ok, pure_eq_ok, Except.ok.injEq] at hresult
          obtain ⟨_, _, _, _, _, _, sourceId, hdraw, rfl⟩ := hresult
          exact {
            locator_eq := rfl
            named := by simp [SourceCapture.Named]
            held := ⟨hregistered.version, hregistered.stored⟩
            row := by rw [hsource]; rfl
            registration := by rw [hsource]; rfl
            present := by simp [hsource]
            absent := fun _ => hdraw }
  | some record =>
      obtain ⟨-, -, -, hnamespaceEq⟩ := hregistered.sourceAt_stored hsource
      have hguard : ¬ record.sourceNamespaceId ≠ namespaceId := by simp [hnamespaceEq]
      cases hresult : captureSourceDatabase env db locator draws with
      | error error =>
          refine Or.inr ⟨error, rfl, ?_⟩
          simp only [captureSourceDatabase, hnames, hnamespace, hload, hsource, ok_bind, if_true,
            okOr_some, refuse_of_not hguard, bind_eq_error, pure_eq_ok, reduceCtorEq, and_false,
            exists_false, or_false] at hresult
          rcases hresult with hcheck | ⟨_, _, hcheck | ⟨_, _, hcheck⟩⟩
          · exact .interrupted (Env.check_eq_error hcheck)
          · exact .interrupted (Env.check_eq_error hcheck)
          · exact .interrupted (Env.check_eq_error hcheck)
      | ok capture =>
          refine Or.inl ⟨capture, rfl, ?_⟩
          simp only [captureSourceDatabase, hnames, hnamespace, hload, hsource, ok_bind, if_true,
            okOr_some, refuse_of_not hguard, bind_eq_ok, pure_eq_ok, Except.ok.injEq] at hresult
          obtain ⟨_, _, _, _, _, _, rfl⟩ := hresult
          exact {
            locator_eq := rfl
            named := by simp [SourceCapture.Named]
            held := ⟨hregistered.version, hregistered.stored⟩
            row := by rw [hsource]; rfl
            registration := by rw [hsource]; rfl
            present := by simp [hsource]
            absent := by simp [hsource] }

/-- A capture on a sound root observes the row its locator names, or is
interrupted, refused or without a random identity. -/
theorem captureCurrentSource_cases (env : Env) {db : Db} (selectedFile : Bytes) (draws : Draws)
    (hsound : db.Sound) :
    (∃ capture, captureCurrentSource env db selectedFile draws = .ok capture ∧
      Observed db selectedFile draws capture) ∨
      ∃ error, captureCurrentSource env db selectedFile draws = .error error ∧
        CaptureRefused env selectedFile draws error := by
  cases hlocator : sourceLocatorBytes selectedFile with
  | error error =>
      refine Or.inr ⟨error, by rw [captureCurrentSource, hlocator, error_bind], ?_⟩
      have hinvalid : error = .invalidLocator := by
        have hrefused := hlocator
        simp only [sourceLocatorBytes, bind_eq_error, refuse_eq_error, pure_eq_ok, reduceCtorEq,
          and_false, exists_false, or_false] at hrefused
        rcases hrefused with ⟨-, rfl⟩ | ⟨_, _, -, rfl⟩
        · rfl
        · rfl
      subst hinvalid
      exact .locator hlocator
  | ok locator =>
      have hsame : locator = selectedFile := by
        simp only [sourceLocatorBytes, bind_eq_ok, pure_eq_ok, Except.ok.injEq] at hlocator
        obtain ⟨_, _, _, _, rfl⟩ := hlocator
        rfl
      rw [captureCurrentSource, hlocator, ok_bind, hsame]
      rcases hsound.sources with hnone | ⟨namespaceId, hregistered⟩
      · exact captureSourceDatabase_unregistered hsound hnone
      · exact captureSourceDatabase_registered hsound hregistered

/-! ## The inventory -/

/-- The bytes charged for one source row: its encoding and its locator. -/
def rowCharge (bytes : Bytes) : Nat :=
  bytes.length + ((decodeRecord bytes).toOption.elim 0 fun record => record.locator.length)

def inventoryCharge (rows : List (Bytes × Bytes)) : Nat :=
  (rows.map fun row => rowCharge row.2).sum

theorem StoredRecord.rowCharge {namespaceId : SourceNamespaceId} {key bytes : Bytes}
    {record : CurrentSourceRecord} (hstored : StoredRecord namespaceId key bytes record) :
    rowCharge bytes = bytes.length + record.locator.length := by
  rw [Control.rowCharge, hstored.decode]
  rfl

/-- The rows are stored records whose locators name them. -/
def Inventoried (namespaceId : SourceNamespaceId) (locators : Table)
    (rows : List (Bytes × Bytes)) : Prop :=
  ∀ row ∈ rows, ∃ record, StoredRecord namespaceId row.1 row.2 record ∧
    locators[record.locator]? = some row.1

/-- The row walk stops at a ceiling only if the rows exceed it, and otherwise
reads every row. -/
theorem inventoryRows_cases {env : Env} {namespaceId : SourceNamespaceId} {locators : Table}
    {rows : List (Bytes × Bytes)} (site count charged : Nat)
    (hrows : Inventoried namespaceId locators rows) :
    (∃ error, inventoryRows env namespaceId locators site count charged rows = .error error ∧
      (Interrupted env sourceFault error ∨ error = .inventoryLimit ∧
        (maxCurrentSources < count + rows.length ∨
          maxCurrentSourceBytes < charged + inventoryCharge rows))) ∨
      ∃ sources, inventoryRows env namespaceId locators site count charged rows = .ok sources ∧
        (rows = [] ∨ count + rows.length ≤ maxCurrentSources) ∧
        List.Forall₂ (fun row source => StoredRecord namespaceId row.1 row.2 source) rows
          sources := by
  induction rows generalizing site count charged with
  | nil => exact Or.inr ⟨[], rfl, Or.inl rfl, .nil⟩
  | cons row rows ih =>
      obtain ⟨key, bytes⟩ := row
      obtain ⟨record, hstored, hlocator⟩ := hrows (key, bytes) List.mem_cons_self
      have hkey := hstored.key_eq
      simp only at hkey hlocator
      have hcharge : inventoryCharge ((key, bytes) :: rows) =
          bytes.length + record.locator.length + inventoryCharge rows := by
        rw [inventoryCharge, List.map_cons, List.sum_cons, hstored.rowCharge, inventoryCharge]
      have hidentity :
          ¬ (key ≠ record.sourceId.bytes ∨ record.sourceNamespaceId ≠ namespaceId) := by
        simp [hkey, hstored.namespace_eq]
      have hindexed : ¬ key ≠ record.sourceId.bytes := by simp [hkey]
      simp only [inventoryRows, hstored.decode, ok_bind, refuse_of_not hidentity, hlocator,
        okOr_some, refuse_of_not hindexed]
      cases hcheck : env.check sourceFault site with
      | error error =>
          exact Or.inl ⟨error, rfl, Or.inl (Env.check_eq_error hcheck)⟩
      | ok passed =>
          by_cases hfull : count ≥ maxCurrentSources ∨ charged + bytes.length > maxCurrentSourceBytes
          · refine Or.inl ⟨.inventoryLimit, ?_, Or.inr ⟨rfl, ?_⟩⟩
            · rw [ok_bind, refuse, if_pos hfull, error_bind]
            · rw [hcharge, List.length_cons]
              omega
          · by_cases hover : charged + bytes.length + record.locator.length > maxCurrentSourceBytes
            · refine Or.inl ⟨.inventoryLimit, ?_, Or.inr ⟨rfl, ?_⟩⟩
              · rw [ok_bind, refuse_of_not hfull, ok_bind, refuse, if_pos hover, error_bind]
              · rw [hcharge]
                omega
            · rw [ok_bind, refuse_of_not hfull, ok_bind, refuse_of_not hover, ok_bind]
              rcases ih (site + 1) (count + 1) (charged + bytes.length + record.locator.length)
                (fun other hmem => hrows other (List.mem_cons_of_mem _ hmem)) with
                ⟨error, herror, hreason⟩ | ⟨sources, hsources, hcount, hread⟩
              · refine Or.inl ⟨error, by rw [herror, error_bind], ?_⟩
                rcases hreason with hinterrupted | ⟨rfl, hlimit⟩
                · exact Or.inl hinterrupted
                · refine Or.inr ⟨rfl, ?_⟩
                  rw [hcharge, List.length_cons]
                  omega
              · refine Or.inr ⟨record :: sources, by rw [hsources, ok_bind]; rfl, ?_,
                  .cons hstored hread⟩
                right
                rcases hcount with rfl | hcount
                · simp only [List.length_cons, List.length_nil]
                  omega
                · rw [List.length_cons]
                  omega

/-- The locator walk matches every locator once and leaves nothing behind. -/
theorem inventoryLocators_cases (env : Env) {reverse : Table} {locators : List (Bytes × Bytes)}
    (site count : Nat) (hids : (locators.map Prod.snd).Nodup)
    (hreverse : ∀ id name, reverse[id]? = some name ↔ (name, id) ∈ locators) :
    (∃ error, inventoryLocators env site count reverse locators = .error error ∧
      (Interrupted env sourceFault error ∨ error = .inventoryLimit ∧
        maxCurrentSources < count + locators.length)) ∨
      inventoryLocators env site count reverse locators = .ok (count + locators.length, ∅) := by
  induction locators generalizing site count reverse with
  | nil =>
      right
      have hempty : reverse = ∅ := by
        apply Std.ExtTreeMap.ext_getElem?
        intro id
        rw [Table.get_empty, Option.eq_none_iff_forall_ne_some]
        intro name hname
        exact absurd ((hreverse id name).mp hname) List.not_mem_nil
      rw [inventoryLocators, hempty]
      rfl
  | cons locator locators ih =>
      obtain ⟨name, id⟩ := locator
      obtain ⟨hfresh, hrest⟩ := List.nodup_cons.mp hids
      have hfound : ¬ reverse[id]? ≠ some name := by
        rw [not_not]
        exact (hreverse id name).mpr List.mem_cons_self
      simp only [inventoryLocators, refuse_of_not hfound, ok_bind]
      cases hcheck : env.check sourceFault site with
      | error error =>
          exact Or.inl ⟨error, rfl, Or.inl (Env.check_eq_error hcheck)⟩
      | ok passed =>
          by_cases hfull : count + 1 > maxCurrentSources
          · refine Or.inl ⟨.inventoryLimit, ?_, Or.inr ⟨rfl, ?_⟩⟩
            · rw [ok_bind, refuse, if_pos hfull, error_bind]
            · rw [List.length_cons]
              omega
          · rw [ok_bind, refuse_of_not hfull, ok_bind]
            have herased : ∀ other found, (reverse.erase id)[other]? = some found ↔
                (found, other) ∈ locators := by
              intro other found
              rw [Table.get_erase]
              split
              · rename_i hsame
                subst hsame
                simp only [reduceCtorEq, false_iff]
                intro hmem
                exact hfresh (List.mem_map.mpr ⟨_, hmem, rfl⟩)
              · rename_i hother
                rw [hreverse, List.mem_cons]
                constructor
                · rintro (heq | hmem)
                  · exact absurd (Prod.mk.inj heq).2.symm hother
                  · exact hmem
                · exact Or.inr
            rcases ih (site + 1) (count + 1) hrest herased with
              ⟨error, herror, hreason⟩ | hdone
            · refine Or.inl ⟨error, herror, ?_⟩
              rcases hreason with hinterrupted | ⟨rfl, hlimit⟩
              · exact Or.inl hinterrupted
              · refine Or.inr ⟨rfl, ?_⟩
                rw [List.length_cons]
                omega
            · right
              rw [hdone, List.length_cons, Nat.add_right_comm, Nat.add_assoc]

theorem foldl_reverse {sources : List CurrentSourceRecord} (reverse : Table)
    (hids : (sources.map fun source => source.sourceId).Nodup)
    (hfresh : ∀ source ∈ sources, reverse[source.sourceId.bytes]? = none) (id name : Bytes) :
    (sources.foldl (fun reverse source =>
      reverse.insert source.sourceId.bytes source.locator) reverse)[id]? = some name ↔
      reverse[id]? = some name ∨
        ∃ source ∈ sources, source.sourceId.bytes = id ∧ source.locator = name := by
  induction sources generalizing reverse with
  | nil => simp
  | cons source sources ih =>
      obtain ⟨hhead, htail⟩ := List.nodup_cons.mp hids
      have hnext : ∀ other ∈ sources,
          (reverse.insert source.sourceId.bytes source.locator)[other.sourceId.bytes]? = none := by
        intro other hmem
        rw [Table.get_insert, if_neg]
        · exact hfresh other (List.mem_cons_of_mem _ hmem)
        · intro heq
          exact hhead (List.mem_map.mpr ⟨other, hmem, (Octets.ext heq).symm⟩)
      have hnone := hfresh source List.mem_cons_self
      rw [List.foldl_cons, ih _ htail hnext, Table.get_insert]
      constructor
      · rintro (hfound | ⟨other, hmem, hother⟩)
        · split at hfound
          · rename_i hid
            exact Or.inr ⟨source, List.mem_cons_self, hid, Option.some.inj hfound⟩
          · exact Or.inl hfound
        · exact Or.inr ⟨other, List.mem_cons_of_mem _ hmem, hother⟩
      · rintro (hfound | ⟨other, hmem, hid, hname⟩)
        · left
          rw [if_neg]
          · exact hfound
          · rintro rfl
            rw [hnone] at hfound
            cases hfound
        · rcases List.mem_cons.mp hmem with rfl | hmem
          · exact Or.inl (by rw [if_pos hid, hname])
          · exact Or.inr ⟨other, hmem, hid, hname⟩

end EliotSearch.Control
