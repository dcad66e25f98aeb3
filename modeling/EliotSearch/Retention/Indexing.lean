import EliotSearch.Retention.Retaining

/-!
# Index runs

An index run scans its selections, registers the files that they list, scans again, and
removes the sources that are gone.  It is cut off anywhere, and every look at the file
system is an observation of its own.
-/

namespace EliotSearch.Retention

open EliotSearch.Control
open EliotSearch.Library
open EliotSearch.Library.Crash
open EliotSearch.Library.Json (ascii)
open EliotSearch.Library.Results
open EliotSearch.Query

/-! ## The run -/

/-- What an index run meets: the surroundings of its numbered stages, the requested path, its
looks at the file system in their order, and how its writer opens and closes. -/
structure Visit where
  env : Nat → Env
  dataRoot : Bytes
  requested : Option Bytes
  sight : Sight
  first : Nat → Look
  opened : Except Bytes Unit
  randomId : Octets 16
  registering : Nat → Retaining
  second : Nat → Look
  probes : Nat → Sight
  closed : Except Bytes Unit

namespace Visit

variable (visit : Visit)

/-- A requested path becomes an admitted selection. -/
def admitRequested (selections : List AdmittedSelection) : DiskOp Unit :=
  if visit.requested.isSome then do
    let selection ← Op.read fun _ => okOr selections.head? selectionRequired
    transact sourceCode fun db => admitSelection (visit.env 5) db selection visit.randomId
  else return ()

def registerFiles : Nat → List (Bytes × Bytes) → DiskOp Unit
  | _, [] => return ()
  | position, (_, path) :: files => do
      Op.read fun _ => checkIndex (visit.env 4) position
      registerFile (visit.registering position) path
      registerFiles (position + 1) files

/-- The selections are scanned again, and both scans agree. -/
def verifyScans (selections : List AdmittedSelection) (scans : List IndexScan) (files : Table) :
    Except Bytes Unit := do
  let (again, verified) ← scanSelections (visit.env 6) visit.dataRoot visit.second 0 selections ∅
  refuse (scans ≠ again ∨ files.toList.map Prod.fst ≠ verified.toList.map Prod.fst) scanChanged

def reconcile (inventory : List CurrentSourceRecord) (selections : List AdmittedSelection)
    (scans : List IndexScan) (files : Table) : DiskOp Unit := do
  visit.admitRequested selections
  visit.registerFiles 0 files.toList
  Op.read fun _ => visit.verifyScans selections scans files
  let removals ← Op.read fun _ =>
    confirmedRemovals (visit.env 7) scans files visit.probes 0 inventory
  transact sourceCode fun db => removeCurrentSources (visit.env 8) db removals

/-- The writer is closed before a failure is reported. -/
def failure (error : Bytes) : Bytes :=
  match visit.closed with
  | .ok _ => error
  | .error closing => closing

/-- An index run up to the publication that follows it. -/
def indexSources : DiskOp Unit := do
  let inventory ← consult sourceCode fun db => captureCurrentSources (visit.env 0) db
  let admitted ← consult sourceCode fun db => captureSelections (visit.env 1) db
  let selections ← Op.read fun _ =>
    indexSelections (visit.env 2) visit.requested visit.sight admitted
  let (scans, files) ← Op.read fun _ =>
    scanSelections (visit.env 3) visit.dataRoot visit.first 0 selections ∅
  Op.read fun _ => visit.opened
  (visit.reconcile inventory selections scans files).mapError visit.failure

end Visit

/-! ## What a run observes -/

/-- A path inside a scanned selection that no scan listed. -/
def Visit.Unaccounted (visit : Visit) (selections : List AdmittedSelection) (path : Bytes) :
    Prop :=
  (∃ selection ∈ selections, Covers selection path) ∧
    ∀ (position : Nat) (selection : AdmittedSelection), selections[position]? = some selection →
      path ∉ listing visit.dataRoot selection (visit.first position)

/-- The inventory and the selections that a run starts from. -/
structure Visit.Starts (visit : Visit) (db : Db) (inventory : List CurrentSourceRecord)
    (selections : List AdmittedSelection) : Prop where
  inventory : captureCurrentSources (visit.env 0) db = .ok inventory
  selections : ∃ admitted, captureSelections (visit.env 1) db = .ok admitted ∧
    indexSelections (visit.env 2) visit.requested visit.sight admitted = .ok selections

/-- A scan that fails, a second one that does not agree, or an unaccounted source that is
neither missing nor a file. -/
inductive Visit.Disturbed (visit : Visit) (inventory : List CurrentSourceRecord)
    (selections : List AdmittedSelection) : Prop where
  | scan {code : Bytes}
      (hfirst : scanSelections (visit.env 3) visit.dataRoot visit.first 0 selections ∅ =
        .error code)
  | rescan {code : Bytes}
      (hsecond : scanSelections (visit.env 6) visit.dataRoot visit.second 0 selections ∅ =
        .error code)
  | changed {scans again : List IndexScan} {files verified : Table}
      (hfirst : scanSelections (visit.env 3) visit.dataRoot visit.first 0 selections ∅ =
        .ok (scans, files))
      (hsecond : scanSelections (visit.env 6) visit.dataRoot visit.second 0 selections ∅ =
        .ok (again, verified))
      (hchanged : scans ≠ again ∨ files.toList.map Prod.fst ≠ verified.toList.map Prod.fst)
  | probe {source : CurrentSourceRecord} {position : Nat}
      (hsource : inventory[position]? = some source)
      (hopen : visit.Unaccounted selections source.locator)
      (hmissing : visit.probes position ≠ .missing)
      (hfile : visit.probes position ≠ .found .file)

/-- The removals of a run: the unaccounted sources of the inventory whose own path is missing,
once nothing disturbs the scans and the other paths. -/
def Visit.Confirms (visit : Visit) (db : Db) (removals : List CurrentSourceRecord) : Prop :=
  ∃ inventory selections, visit.Starts db inventory selections ∧
    ¬ visit.Disturbed inventory selections ∧
    ∀ source, source ∈ removals ↔ ∃ position : Nat, inventory[position]? = some source ∧
      visit.Unaccounted selections source.locator ∧ visit.probes position = .missing

/-- One transaction removed exactly the given rows, each of them as it was captured. -/
structure Removed (before after : Db) (removals : List CurrentSourceRecord) : Prop where
  transaction : ∃ middle, KeepsSources before middle ∧
    (removals = [] ∧ after = middle ∨ SourcesErased middle after removals)
  rows : ∀ id : Bytes, (openTable before.sourceRows)[id]? ≠ none →
    ((openTable after.sourceRows)[id]? = none ↔
      ∃ source ∈ removals, source.sourceId.bytes = id)

section Database

variable {before middle after db : Db} {removals expected : List CurrentSourceRecord}

theorem rows_withoutSources (db : Db) (expected : List CurrentSourceRecord) (id : Bytes) :
    (openTable (expected.foldl Db.withoutSource db).sourceRows)[id]? =
      if ∃ source ∈ expected, source.sourceId.bytes = id then none
      else (openTable db.sourceRows)[id]? := by
  induction expected generalizing db with
  | nil => rw [if_neg (by simp), List.foldl_nil]
  | cons source expected ih =>
      rw [List.foldl_cons, ih]
      have hrow : (openTable (db.withoutSource source).sourceRows)[id]? =
          if source.sourceId.bytes = id then none else (openTable db.sourceRows)[id]? :=
        Table.get_erase _ _ _
      rw [hrow]
      by_cases hid : source.sourceId.bytes = id
      · simp [hid]
      · simp [hid]

theorem Removed.erased (hkeeps : KeepsSources before middle)
    (herased : SourcesErased middle after removals) : Removed before after removals := by
  refine ⟨⟨middle, hkeeps, Or.inr herased⟩, fun id hthere => ?_⟩
  obtain ⟨revision, rfl⟩ := herased.tables
  have hrows :
      (openTable ((removals.foldl Db.withoutSource middle).advanced revision).sourceRows)[id]? =
        if ∃ source ∈ removals, source.sourceId.bytes = id then none
        else (openTable middle.sourceRows)[id]? :=
    rows_withoutSources middle removals id
  rw [hrows]
  constructor
  · intro hnone
    by_contra hother
    rw [if_neg hother] at hnone
    exact hkeeps id hthere hnone
  · intro hremoved
    exact if_pos hremoved

theorem Removed.nothing (hkeeps : KeepsSources before after) : Removed before after [] := by
  refine ⟨⟨after, hkeeps, Or.inl ⟨rfl, rfl⟩⟩, fun id hthere => ?_⟩
  constructor
  · intro hnone
    exact absurd hnone (hkeeps id hthere)
  · rintro ⟨_, hmem, -⟩
    exact absurd hmem List.not_mem_nil

/-- A removal is applied to all rows, or to none; it fails without a change where a row is not
stored as it was captured. -/
theorem removeCurrentSources_cases (env : Env) (db : Db) (expected : List CurrentSourceRecord) :
    ((removeCurrentSources env db expected).db = db ∧
      ((removeCurrentSources env db expected).reply = .ok () → expected = [])) ∨
    SourcesErased db (removeCurrentSources env db expected).db expected := by
  unfold removeCurrentSources
  rcases settle_cases env db .database (removeSourcesTransaction env db expected) with
    ⟨-, hdb, hreply⟩ | ⟨next, value, hattempt, hdb, -⟩
  · refine Or.inl ⟨hdb, fun hok => ?_⟩
    have hattempt := hreply () hok
    unfold removeSourcesTransaction at hattempt
    split at hattempt
    · assumption
    · simp only [bind_eq_ok] at hattempt
      obtain ⟨_, _, _, _, _, _, _, _, _, _, _, _, _, _, _, _, hattempt⟩ := hattempt
      cases hattempt
  · rw [hdb]
    exact Or.inr (removeSourcesTransaction_erased hattempt)

end Database

/-! ## What a run does -/

section Running

variable {visit : Visit} {first : Db} {disk : Disk} {inventory : List CurrentSourceRecord}
  {selections : List AdmittedSelection} {scans : List IndexScan} {files : Table}

theorem selectionAdmitted_keepsSources {env : Env} {db next : Db} {selection : AdmittedSelection}
    {randomId : Octets 16} (hadmitted : SelectionAdmitted env db next selection randomId) :
    KeepsSources db next := by
  obtain ⟨-, -, middle, hensured, -, rfl⟩ := hadmitted
  cases hensured with
  | existing _ => exact KeepsSources.of_eq rfl
  | created _ => exact KeepsSources.of_eq rfl

theorem admitRequested_steady (visit : Visit) (selections : List AdmittedSelection) :
    Steady (Keeping first) (visit.admitRequested selections) := by
  unfold Visit.admitRequested
  split
  · refine (steady_read _).bind fun selection => ?_
    exact transact_steady fun db => settle_keepsSources fun _ _ hattempt =>
      selectionAdmitted_keepsSources (admitSelectionTransaction_admitted hattempt)
  · exact steady_pure ()

theorem registerFiles_steady (visit : Visit) (position : Nat) (files : List (Bytes × Bytes)) :
    Steady (Keeping first) (visit.registerFiles position files) := by
  induction files generalizing position with
  | nil => exact steady_pure ()
  | cons file files ih =>
      refine (steady_read _).bind fun _ => ?_
      refine (registerFile_steady _ _).bind fun _ => ?_
      exact ih (position + 1)

/-- What the scans report about a source is what the selections and the looks say. -/
theorem unlisted_iff
    (hscan : scanSelections (visit.env 3) visit.dataRoot visit.first 0 selections ∅ =
      .ok (scans, files)) {source : CurrentSourceRecord} :
    Unlisted scans files source ↔ visit.Unaccounted selections source.locator := by
  obtain ⟨rfl, hfiles⟩ := scanSelections_eq_ok hscan
  unfold Unlisted Visit.Unaccounted
  rw [hfiles]
  refine and_congr ?_ ?_
  · constructor
    · rintro ⟨scan, hmem, hscope⟩
      obtain ⟨found, hfound, rfl⟩ := List.mem_map.mp hmem
      exact ⟨found.1, List.mem_of_getElem? (List.mem_zipIdx_iff_getElem?.mp hfound),
        sourceIsInScope_scanOf.mp hscope⟩
    · rintro ⟨selection, hmem, hcovers⟩
      obtain ⟨position, hposition⟩ := List.mem_iff_getElem?.mp hmem
      refine ⟨_, List.mem_map.mpr ⟨(selection, position),
        List.mem_zipIdx_iff_getElem?.mpr hposition, rfl⟩, sourceIsInScope_scanOf.mpr hcovers⟩
  · constructor
    · rintro ⟨-, hlisted⟩ position selection hposition
      exact hlisted (selection, position) (List.mem_zipIdx_iff_getElem?.mpr hposition)
    · intro hlisted
      refine ⟨Table.get_empty _, ?_⟩
      rintro ⟨selection, position⟩ hmem
      exact hlisted position selection (List.mem_zipIdx_iff_getElem?.mp hmem)

/-- Removals that are confirmed behind agreeing scans are those of the run. -/
theorem confirms_of_ok (hstarts : visit.Starts first inventory selections)
    (hscan : scanSelections (visit.env 3) visit.dataRoot visit.first 0 selections ∅ =
      .ok (scans, files))
    (hverified : visit.verifyScans selections scans files = .ok ())
    {removals : List CurrentSourceRecord}
    (hconfirmed : confirmedRemovals (visit.env 7) scans files visit.probes 0 inventory =
      .ok removals) : visit.Confirms first removals := by
  obtain ⟨hremoved, hsettled⟩ := confirmedRemovals_eq_ok hconfirmed
  simp only [Visit.verifyScans, bind_eq_ok, Prod.exists, refuse_eq_ok, not_or, not_not] at hverified
  obtain ⟨again, verified, hsecond, hagree, hkeys⟩ := hverified
  refine ⟨inventory, selections, hstarts, ?_, fun source => ?_⟩
  · intro hdisturbed
    cases hdisturbed with
    | scan hfailed => cases hscan.symm.trans hfailed
    | rescan hfailed => cases hsecond.symm.trans hfailed
    | changed hfirst hother hchanged =>
        cases hscan.symm.trans hfirst
        cases hsecond.symm.trans hother
        exact hchanged.elim (absurd hagree) (absurd hkeys)
    | @probe source position hsource hopen hmissing hfile =>
        have hunlisted := (unlisted_iff hscan).mpr hopen
        rcases hsettled (source, position) (List.mem_zipIdx_iff_getElem?.mpr hsource) hunlisted with
          hprobe | hprobe
        · exact hmissing hprobe
        · exact hfile hprobe
  · rw [hremoved]
    constructor
    · rintro ⟨⟨found, position⟩, hmem, rfl, hopen, hmissing⟩
      exact ⟨position, List.mem_zipIdx_iff_getElem?.mp hmem, (unlisted_iff hscan).mp hopen,
        hmissing⟩
    · rintro ⟨position, hposition, hopen, hmissing⟩
      exact ⟨(source, position), List.mem_zipIdx_iff_getElem?.mpr hposition, rfl,
        (unlisted_iff hscan).mpr hopen, hmissing⟩

/-- Either every source is there still, or the confirmed ones were removed. -/
def Indexed (visit : Visit) (first : Db) (disk : Disk) : Prop :=
  Keeping first disk ∨
    ∃ removals, visit.Confirms first removals ∧ Removed first disk.control removals

theorem Keeping.indexed (hdisk : Keeping first disk) : Indexed visit first disk :=
  Or.inl hdisk

theorem reconcile_preserves (hstarts : visit.Starts first inventory selections)
    (hscan : scanSelections (visit.env 3) visit.dataRoot visit.first 0 selections ∅ =
      .ok (scans, files)) (hdisk : Keeping first disk) :
    Preserves (Indexed visit first) (visit.reconcile inventory selections scans files) disk
      fun _ after => ∃ removals, visit.Confirms first removals ∧
        Removed first after.control removals := by
  refine ((admitRequested_steady visit selections hdisk).within fun _ => Keeping.indexed).bind ?_
  rintro _ _ - ⟨hdisk, -⟩
  refine ((registerFiles_steady visit 0 files.toList hdisk).within fun _ => Keeping.indexed).bind ?_
  rintro _ disk hindexed ⟨hdisk, -⟩
  refine (preserves_read hindexed).bind ?_
  rintro ⟨⟩ _ hindexed ⟨hverified, rfl⟩
  refine (preserves_read hindexed).bind ?_
  rintro removals disk hindexed ⟨hconfirmed, rfl⟩
  have hconfirms := confirms_of_ok hstarts hscan hverified hconfirmed
  rcases removeCurrentSources_cases (visit.env 8) disk.control removals with
    ⟨hsame, hnothing⟩ | herased
  · refine (transact_preserves (Or.inl ?_)).mono ?_
    · rw [Keeping, hsame]
      exact hdisk
    · rintro ⟨⟩ _ - ⟨hreply, rfl⟩
      obtain rfl := hnothing hreply
      refine ⟨[], hconfirms, ?_⟩
      rw [hsame]
      exact Removed.nothing hdisk
  · have hremoved := Removed.erased hdisk herased
    refine (transact_preserves (Or.inr ⟨removals, hconfirms, hremoved⟩)).mono ?_
    rintro _ _ - ⟨-, rfl⟩
    exact ⟨removals, hconfirms, hremoved⟩

theorem indexSources_preserves (visit : Visit) (disk : Disk) :
    Preserves (Indexed visit disk.control) visit.indexSources disk fun _ after =>
      ∃ removals, visit.Confirms disk.control removals ∧
        Removed disk.control after.control removals := by
  have hdisk : Keeping disk.control disk := KeepsSources.refl disk.control
  refine Preserves.bind (consult_preserves hdisk.indexed) ?_
  rintro inventory _ hindexed ⟨hinventory, rfl⟩
  refine (consult_preserves hindexed).bind ?_
  rintro admitted _ hindexed ⟨hadmitted, rfl⟩
  refine (preserves_read hindexed).bind ?_
  rintro selections _ hindexed ⟨hselections, rfl⟩
  refine (preserves_read hindexed).bind ?_
  rintro ⟨scans, files⟩ _ hindexed ⟨hscan, rfl⟩
  refine (preserves_read hindexed).bind ?_
  rintro _ _ hindexed ⟨-, rfl⟩
  exact (reconcile_preserves ⟨hinventory, admitted, hadmitted, hselections⟩ hscan hdisk).mapError

end Running

/-- Wherever an index run is cut off, it removed nothing or, in one transaction and each as it
was captured, exactly the sources of a scanned scope that no scan listed and whose own path
was missing; and a run that succeeds did remove these.  A scan that fails or changes, or an
unlisted source whose path is anything but missing or a file, lets the run fail without a
removal, and a removal does nothing where a row is not stored as it was captured. -/
theorem index_removals :
    (∀ (visit : Visit) (disk : Disk) (point : Nat),
      KeepsSources disk.control (visit.indexSources.stopped point disk).control ∨
        ∃ removals, visit.Confirms disk.control removals ∧
          Removed disk.control (visit.indexSources.stopped point disk).control removals) ∧
    (∀ (visit : Visit) (disk : Disk), (visit.indexSources disk).result = .ok () →
      ∃ removals, visit.Confirms disk.control removals ∧
        Removed disk.control (visit.indexSources disk).left.control removals) ∧
    (∀ (visit : Visit) (disk : Disk) (inventory : List CurrentSourceRecord)
        (selections : List AdmittedSelection),
      visit.Starts disk.control inventory selections → visit.Disturbed inventory selections →
      (visit.indexSources disk).result ≠ .ok () ∧
        ∀ point, KeepsSources disk.control (visit.indexSources.stopped point disk).control) ∧
    ∀ (env : Env) (db : Db) (expected : List CurrentSourceRecord), ¬ SourcesHeld db expected →
      (removeCurrentSources env db expected).db = db := by
  have hunconfirmed : ∀ {visit : Visit} {db : Db} {inventory selections removals},
      visit.Starts db inventory selections → visit.Disturbed inventory selections →
      ¬ visit.Confirms db removals := by
    rintro visit db inventory selections removals hstarts hdisturbed
      ⟨inventory', selections', hstarts', hcalm, -⟩
    cases hstarts.inventory.symm.trans hstarts'.inventory
    obtain ⟨admitted, hadmitted, hselections⟩ := hstarts.selections
    obtain ⟨admitted', hadmitted', hselections'⟩ := hstarts'.selections
    cases hadmitted.symm.trans hadmitted'
    cases hselections.symm.trans hselections'
    exact hcalm hdisturbed
  refine ⟨?_, ?_, ?_, ?_⟩
  · intro visit disk point
    exact (indexSources_preserves visit disk).stopped (Or.inl (KeepsSources.refl _)) point
  · intro visit disk hresult
    exact (indexSources_preserves visit disk).post () hresult
  · intro visit disk inventory selections hstarts hdisturbed
    constructor
    · intro hresult
      obtain ⟨removals, hconfirms, -⟩ := (indexSources_preserves visit disk).post () hresult
      exact hunconfirmed hstarts hdisturbed hconfirms
    · intro point
      rcases (indexSources_preserves visit disk).stopped (Or.inl (KeepsSources.refl _)) point with
        hkeeps | ⟨removals, hconfirms, -⟩
      · exact hkeeps
      · exact absurd hconfirms (hunconfirmed hstarts hdisturbed)
  · intro env db expected hchanged
    rcases removeCurrentSources_cases env db expected with ⟨hsame, -⟩ | herased
    · exact hsame
    · exact absurd herased.held hchanged

namespace Sample

def removedFile : Bytes := ascii "/d/a"

/-- A root with one source. -/
def indexed : Disk where
  control := (commitCurrentSource Env.quiet Db.empty
    ⟨Octets.replicate 16 1, Octets.replicate 16 2, removedFile, none, none, none⟩ (.unix 1 1)
    ⟨1, .source, Octets.replicate 32 0, 5⟩).db
  objects := Store.fresh digest

/-- The directory of the source is there and empty. -/
def visit : Visit where
  env := fun _ => Env.quiet
  dataRoot := ascii "/r"
  requested := some (ascii "/d")
  sight := .found .directory
  first := fun _ => ⟨.found .directory, true, []⟩
  opened := .ok ()
  randomId := Octets.replicate 16 3
  registering := fun _ => ⟨fun _ => Env.quiet, ⟨.links, true⟩, ⟨none, none⟩, .error []⟩
  second := fun _ => ⟨.found .directory, true, []⟩
  probes := fun _ => .missing
  closed := .ok ()

end Sample

/-- A source that is gone from a selected directory is removed. -/
theorem index_removals_sample :
    ∃ removals, Sample.visit.Confirms Sample.indexed.control removals ∧
      ∃ source ∈ removals, source.sourceId.bytes = (Octets.replicate 16 2).bytes := by
  obtain ⟨-, hruns, -⟩ := index_removals
  obtain ⟨removals, hconfirms, hremoved⟩ :=
    hruns Sample.visit Sample.indexed (by decide +kernel)
  exact ⟨removals, hconfirms, (hremoved.rows _ (by decide +kernel)).mp (by decide +kernel)⟩

end EliotSearch.Retention
