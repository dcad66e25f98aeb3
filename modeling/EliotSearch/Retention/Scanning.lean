import EliotSearch.Control.Inventory
import EliotSearch.Query.Objects

/-!
# Scanning the selections

What an index run looks at in the file system: the walk of a selected tree, the one path
of a selected file, and the own path of a source that no scan listed.  Every look is an
observation of its own; two of them need not agree.
-/

namespace EliotSearch.Retention

open EliotSearch.Control
open EliotSearch.Library
open EliotSearch.Library.Json
open EliotSearch.Library.Results
open EliotSearch.Query

/-! ## Codes -/

/-- Content-free machine-readable error code. -/
def sourceCode : SourceControlError → Bytes
  | .invalidLocator => ascii "SOURCE_LOCATOR_INVALID"
  | .unsupportedPlatform => ascii "SOURCE_PLATFORM_UNSUPPORTED"
  | .unsupportedSchema => ascii "SOURCE_SCHEMA_UNSUPPORTED"
  | .corrupt => ascii "SOURCE_CONTROL_CORRUPT"
  | .stale => ascii "SOURCE_STALE"
  | .database => ascii "SOURCE_CONTROL_IO"
  | .randomUnavailable => ascii "SOURCE_ID_GENERATION_FAILED"
  | .revisionExhausted => ascii "SOURCE_REVISION_EXHAUSTED"
  | .inventoryLimit => ascii "SOURCE_INVENTORY_LIMIT"
  | .deadline => ascii "SOURCE_CONTROL_DEADLINE"
  | .cancelled => ascii "SOURCE_CONTROL_CANCELLED"

def scopeInvalid : Bytes := ascii "INDEX_SCOPE_INVALID"

def scanIncomplete : Bytes := ascii "INDEX_SCAN_INCOMPLETE"

def reparseRefused : Bytes := ascii "INDEX_REPARSE_REFUSED"

def scopeKindChanged : Bytes := ascii "INDEX_SCOPE_KIND_CHANGED"

def sourceLimit : Bytes := ascii "INDEX_SOURCE_LIMIT"

def selectionRequired : Bytes := ascii "INDEX_SELECTION_REQUIRED"

def scanChanged : Bytes := ascii "INDEX_SCAN_CHANGED"

def checkIndex (env : Env) (site : Nat) : Except Bytes Unit :=
  checkWith (ascii "INDEX_CANCELLED") (ascii "INDEX_DEADLINE") env site

/-! ## Paths -/

/-- The components of an absolute path. -/
def components (path : Bytes) : List Bytes :=
  (path.splitOn 47).filter fun part => part ≠ [] ∧ part ≠ ascii "."

def StartsWith (path base : Bytes) : Prop := components base <+: components path

instance (path base : Bytes) : Decidable (StartsWith path base) :=
  inferInstanceAs (Decidable (_ <+: _))

def SamePath (path other : Bytes) : Prop := components path = components other

instance (path other : Bytes) : Decidable (SamePath path other) :=
  inferInstanceAs (Decidable (_ = _))

def IsGitMetadata (path : Bytes) : Prop := ascii ".git" ∈ components path

instance (path : Bytes) : Decidable (IsGitMetadata path) :=
  inferInstanceAs (Decidable (_ ∈ _))

def ProtectedIndexPath (path dataRoot : Bytes) : Prop :=
  IsGitMetadata path ∨ StartsWith path dataRoot

instance (path dataRoot : Bytes) : Decidable (ProtectedIndexPath path dataRoot) :=
  inferInstanceAs (Decidable (_ ∨ _))

/-! ## Observations -/

inductive FileType where
  | symlink
  | file
  | directory
  | other
  deriving DecidableEq, Repr

/-- What a look at a path finds, without following a link. -/
inductive Sight where
  | missing
  | unreadable
  | found (type : FileType)
  deriving DecidableEq, Repr

/-- What a walk of a tree reports next. -/
inductive Walked where
  | failed
  | entry (path : Bytes) (partialError : Bool) (type : Option FileType)
  deriving DecidableEq, Repr

/-- What one scan of a selection meets: the selected path, whether the current directory is
known, and the entries below the path. -/
structure Look where
  sight : Sight
  located : Bool
  entries : List Walked

structure IndexScan where
  root : Bytes
  isDirectory : Bool
  rootMissing : Bool
  deriving DecidableEq

/-! ## One scan -/

def recordIndexFile (files : Table) (path : Bytes) : Except Bytes Table := do
  let locator ← (sourceLocatorBytes path).mapError sourceCode
  let files := if files[locator]?.isSome then files else files.insert locator path
  refuse (files.size > maxCurrentSources) sourceLimit
  return files

/-- The walk does not enter the metadata of a repository or the data root. -/
def Walked.Entered (dataRoot : Bytes) : Walked → Prop
  | .failed => True
  | .entry path _ _ => ¬ ProtectedIndexPath path dataRoot

instance (dataRoot : Bytes) (walked : Walked) : Decidable (walked.Entered dataRoot) :=
  match walked with
  | .failed => inferInstanceAs (Decidable True)
  | .entry _ _ _ => inferInstanceAs (Decidable (¬ _))

def recordEntries (env : Env) : Nat → Table → List Walked → Except Bytes Table
  | _, files, [] => .ok files
  | site, _, .failed :: _ => do
      checkIndex env site
      .error scanIncomplete
  | site, files, .entry path partialError type :: entries => do
      checkIndex env site
      refuse (partialError = true) scanIncomplete
      let type ← okOr type scanIncomplete
      match type with
      | .symlink => .error reparseRefused
      | .other => .error scanIncomplete
      | .directory => recordEntries env (site + 1) files entries
      | .file => do
          let files ← recordIndexFile files path
          recordEntries env (site + 1) files entries

def scanIndexPath (env : Env) (selection : AdmittedSelection) (dataRoot : Bytes) (look : Look)
    (files : Table) : Except Bytes (IndexScan × Table) := do
  checkIndex env 0
  let isDirectory := decide (selection.kind = .tree)
  refuse (¬ IsAbsolute selection.path ∨ ProtectedIndexPath selection.path dataRoot) scopeInvalid
  match look.sight with
  | .missing => return (⟨selection.path, isDirectory, true⟩, files)
  | .unreadable => .error scanIncomplete
  | .found type => do
      refuse (type = .symlink) reparseRefused
      refuse (type = .other) scopeInvalid
      refuse (decide (type = .directory) ≠ isDirectory) scopeKindChanged
      if isDirectory then do
        refuse (look.located = false) scanIncomplete
        let files ← recordEntries env 1 files
          (look.entries.filter fun walked => walked.Entered dataRoot)
        return (⟨selection.path, isDirectory, false⟩, files)
      else do
        let files ← recordIndexFile files selection.path
        return (⟨selection.path, isDirectory, false⟩, files)

def scanSelections (env : Env) (dataRoot : Bytes) (looks : Nat → Look) :
    Nat → List AdmittedSelection → Table → Except Bytes (List IndexScan × Table)
  | _, [], files => .ok ([], files)
  | position, selection :: selections, files => do
      let (scan, files) ←
        scanIndexPath (within env position) selection dataRoot (looks position) files
      let (scans, files) ← scanSelections env dataRoot looks (position + 1) selections files
      return (scan :: scans, files)

/-! ## Selections -/

/-- The selections of a run: the admitted ones, or the requested path. -/
def indexSelections (env : Env) (requested : Option Bytes) (sight : Sight)
    (admitted : List AdmittedSelection) : Except Bytes (List AdmittedSelection) :=
  match requested with
  | none => do
      refuse (admitted = []) selectionRequired
      return admitted
  | some path => do
      checkIndex env 0
      match sight with
      | .missing => do
          let selection ← okOr (admitted.find? fun selection => SamePath selection.path path)
            selectionRequired
          return [selection]
      | .unreadable => .error scanIncomplete
      | .found .symlink => .error reparseRefused
      | .found .file => return [⟨path, .file⟩]
      | .found .directory => return [⟨path, .tree⟩]
      | .found .other => .error scopeInvalid

/-! ## Removals -/

def SourceIsInScope (sourcePath : Bytes) (scan : IndexScan) : Prop :=
  if scan.isDirectory then StartsWith sourcePath scan.root else SamePath sourcePath scan.root

instance (sourcePath : Bytes) (scan : IndexScan) : Decidable (SourceIsInScope sourcePath scan) :=
  inferInstanceAs (Decidable (ite _ _ _))

/-- The sources of a scanned scope that no scan listed, whose own path is looked at. -/
def confirmedRemovals (env : Env) (scans : List IndexScan) (files : Table)
    (probes : Nat → Sight) :
    Nat → List CurrentSourceRecord → Except Bytes (List CurrentSourceRecord)
  | _, [] => .ok []
  | position, source :: inventory => do
      checkIndex env position
      let path ← (sourcePathFromLocator source.locator).mapError sourceCode
      if ¬ (∃ scan ∈ scans, SourceIsInScope path scan) ∨ files[source.locator]?.isSome then
        confirmedRemovals env scans files probes (position + 1) inventory
      else
        match probes position with
        | .missing => do
            let removals ← confirmedRemovals env scans files probes (position + 1) inventory
            return source :: removals
        | .found .symlink => .error reparseRefused
        | .found .file => confirmedRemovals env scans files probes (position + 1) inventory
        | .found .directory => .error scanIncomplete
        | .found .other => .error scanIncomplete
        | .unreadable => .error scanIncomplete

/-! ## What a scan lists -/

/-- The path of a file that the walk reports. -/
def Walked.file : Walked → Option Bytes
  | .entry path _ (some .file) => some path
  | _ => none

/-- The paths that one scan of a selection lists. -/
def listing (dataRoot : Bytes) (selection : AdmittedSelection) (look : Look) : List Bytes :=
  if look.sight = .missing then []
  else
    match selection.kind with
    | .file => [selection.path]
    | .tree => (look.entries.filter fun walked => walked.Entered dataRoot).filterMap Walked.file

/-- The selection that a path belongs to. -/
def Covers (selection : AdmittedSelection) (path : Bytes) : Prop :=
  match selection.kind with
  | .file => SamePath path selection.path
  | .tree => StartsWith path selection.path

/-- What a successful scan of a selection reports besides its files. -/
def scanOf (selection : AdmittedSelection) (look : Look) : IndexScan :=
  ⟨selection.path, decide (selection.kind = .tree), decide (look.sight = .missing)⟩

theorem sourceIsInScope_scanOf {selection : AdmittedSelection} {look : Look} {path : Bytes} :
    SourceIsInScope path (scanOf selection look) ↔ Covers selection path := by
  obtain ⟨root, kind⟩ := selection
  cases kind with
  | file => exact Iff.rfl
  | tree => exact Iff.rfl

section Listing

variable {env : Env} {files next : Table} {path : Bytes} {dataRoot : Bytes}

theorem recordIndexFile_eq_ok (hrecord : recordIndexFile files path = .ok next) (other : Bytes) :
    next[other]? = none ↔ files[other]? = none ∧ other ≠ path := by
  simp only [recordIndexFile, sourceLocatorBytes, bind_eq_ok, mapError_eq_ok, refuse_eq_ok,
    pure_eq_ok, Except.ok.injEq] at hrecord
  obtain ⟨locator, ⟨_, -, _, -, rfl⟩, _, -, rfl⟩ := hrecord
  split
  · rename_i hthere
    refine ⟨fun hnone => ⟨hnone, ?_⟩, And.left⟩
    rintro rfl
    rw [hnone] at hthere
    cases hthere
  · by_cases hother : path = other
    · subst hother
      simp
    · rw [Table.get_insert_of_ne _ _ hother]
      exact ⟨fun hnone => ⟨hnone, Ne.symm hother⟩, And.left⟩

theorem recordEntries_eq_ok {entries : List Walked} {site : Nat}
    (hrecord : recordEntries env site files entries = .ok next) (other : Bytes) :
    next[other]? = none ↔ files[other]? = none ∧ other ∉ entries.filterMap Walked.file := by
  induction entries generalizing site files with
  | nil =>
      obtain rfl := Except.ok.inj hrecord
      exact ⟨fun hnone => ⟨hnone, List.not_mem_nil⟩, And.left⟩
  | cons walked entries ih =>
      cases walked with
      | failed =>
          obtain ⟨_, -, hrecord⟩ := bind_eq_ok.mp hrecord
          cases hrecord
      | entry path partialError type =>
          simp only [recordEntries, bind_eq_ok, okOr_eq_ok] at hrecord
          obtain ⟨_, -, _, -, type, rfl, hrecord⟩ := hrecord
          cases type with
          | symlink => cases hrecord
          | other => cases hrecord
          | directory => exact ih hrecord
          | file =>
              obtain ⟨recorded, hfile, hrecord⟩ := bind_eq_ok.mp hrecord
              rw [ih hrecord, recordIndexFile_eq_ok hfile, and_assoc]
              refine and_congr_right' ?_
              rw [show (Walked.entry path partialError (some .file) :: entries).filterMap
                Walked.file = path :: entries.filterMap Walked.file from rfl, List.mem_cons,
                not_or]

theorem scanIndexPath_eq_ok {selection : AdmittedSelection} {look : Look} {scan : IndexScan}
    (hscan : scanIndexPath env selection dataRoot look files = .ok (scan, next)) :
    scan = scanOf selection look ∧ ∀ other, next[other]? = none ↔
      files[other]? = none ∧ other ∉ listing dataRoot selection look := by
  simp only [scanIndexPath, bind_eq_ok] at hscan
  obtain ⟨_, -, _, -, hscan⟩ := hscan
  cases hsight : look.sight with
  | missing =>
      rw [hsight] at hscan
      obtain ⟨rfl, rfl⟩ := Prod.mk.inj (Except.ok.inj hscan)
      rw [scanOf, listing, hsight, if_pos rfl]
      exact ⟨rfl, fun _ => ⟨fun hnone => ⟨hnone, List.not_mem_nil⟩, And.left⟩⟩
  | unreadable =>
      rw [hsight] at hscan
      cases hscan
  | found type =>
      rw [hsight] at hscan
      simp only [bind_eq_ok, refuse_eq_ok] at hscan
      obtain ⟨_, -, _, -, _, -, hscan⟩ := hscan
      rw [scanOf, listing, hsight, if_neg nofun]
      cases hkind : selection.kind with
      | tree =>
          rw [hkind, if_pos (decide_eq_true rfl)] at hscan
          obtain ⟨_, -, hscan⟩ := bind_eq_ok.mp hscan
          obtain ⟨recorded, hrecord, hscan⟩ := bind_eq_ok.mp hscan
          obtain ⟨rfl, rfl⟩ := Prod.mk.inj (Except.ok.inj hscan)
          exact ⟨rfl, recordEntries_eq_ok hrecord⟩
      | file =>
          rw [hkind, if_neg nofun] at hscan
          obtain ⟨recorded, hrecord, hscan⟩ := bind_eq_ok.mp hscan
          obtain ⟨rfl, rfl⟩ := Prod.mk.inj (Except.ok.inj hscan)
          refine ⟨rfl, fun other => ?_⟩
          rw [recordIndexFile_eq_ok hrecord, List.mem_singleton]

/-- Scans report their selections, and the files that one of them listed. -/
theorem scanSelections_eq_ok {looks : Nat → Look} {selections : List AdmittedSelection}
    {position : Nat} {scans : List IndexScan}
    (hscan : scanSelections env dataRoot looks position selections files = .ok (scans, next)) :
    scans = (selections.zipIdx position).map (fun found => scanOf found.1 (looks found.2)) ∧
      ∀ other, next[other]? = none ↔ files[other]? = none ∧
        ∀ found ∈ selections.zipIdx position, other ∉ listing dataRoot found.1 (looks found.2) := by
  induction selections generalizing position files scans with
  | nil =>
      obtain ⟨rfl, rfl⟩ := Prod.mk.inj (Except.ok.inj hscan)
      exact ⟨rfl, fun _ => ⟨fun hnone => ⟨hnone, fun _ hmem => absurd hmem List.not_mem_nil⟩,
        And.left⟩⟩
  | cons selection selections ih =>
      simp only [scanSelections, bind_eq_ok, Prod.exists] at hscan
      obtain ⟨scan, recorded, hfirst, rest, last, hrest, hscan⟩ := hscan
      obtain ⟨rfl, rfl⟩ := Prod.mk.inj (Except.ok.inj hscan)
      obtain ⟨rfl, hrecorded⟩ := scanIndexPath_eq_ok hfirst
      obtain ⟨rfl, hlast⟩ := ih hrest
      refine ⟨rfl, fun other => ?_⟩
      rw [hlast, hrecorded, and_assoc, List.zipIdx_cons, List.forall_mem_cons]

end Listing

/-! ## What is removed -/

section Removing

variable {env : Env} {scans : List IndexScan} {files : Table} {probes : Nat → Sight}

/-- A source of a scanned scope that no scan listed. -/
def Unlisted (scans : List IndexScan) (files : Table) (source : CurrentSourceRecord) : Prop :=
  (∃ scan ∈ scans, SourceIsInScope source.locator scan) ∧ files[source.locator]? = none

theorem unlisted_iff_checked {source : CurrentSourceRecord} :
    Unlisted scans files source ↔
      ¬ (¬ (∃ scan ∈ scans, SourceIsInScope source.locator scan) ∨
        files[source.locator]?.isSome = true) := by
  rw [not_or, not_not, Option.isSome_iff_ne_none, not_not]
  exact Iff.rfl

/-- The removals of an inventory are the unlisted sources whose own path is missing, and every
other unlisted source is a file still. -/
structure Confirmed (scans : List IndexScan) (files : Table) (probes : Nat → Sight)
    (position : Nat) (inventory removals : List CurrentSourceRecord) : Prop where
  removed : ∀ source, source ∈ removals ↔ ∃ found ∈ inventory.zipIdx position,
    found.1 = source ∧ Unlisted scans files source ∧ probes found.2 = .missing
  settled : ∀ found ∈ inventory.zipIdx position, Unlisted scans files found.1 →
    probes found.2 = .missing ∨ probes found.2 = .found .file

section Steps

variable {source : CurrentSourceRecord} {inventory rest : List CurrentSourceRecord}
  {position : Nat}

/-- A source that is listed, out of scope or a file still is passed over. -/
theorem Confirmed.passed (hrest : Confirmed scans files probes (position + 1) inventory rest)
    (hfile : Unlisted scans files source → probes position = .found .file) :
    Confirmed scans files probes position (source :: inventory) rest := by
  constructor
  · intro found
    rw [hrest.removed, List.zipIdx_cons, List.exists_mem_cons_iff]
    refine ⟨Or.inr, ?_⟩
    rintro (⟨rfl, hopen, hmissing⟩ | hfound)
    · rw [hfile hopen] at hmissing
      cases hmissing
    · exact hfound
  · rw [List.zipIdx_cons, List.forall_mem_cons]
    exact ⟨fun hopen => Or.inr (hfile hopen), hrest.settled⟩

theorem Confirmed.missing (hrest : Confirmed scans files probes (position + 1) inventory rest)
    (hopen : Unlisted scans files source) (hprobe : probes position = .missing) :
    Confirmed scans files probes position (source :: inventory) (source :: rest) := by
  constructor
  · intro found
    rw [List.mem_cons, hrest.removed, List.zipIdx_cons, List.exists_mem_cons_iff]
    refine or_congr_left ⟨?_, fun hfound => hfound.1.symm⟩
    rintro rfl
    exact ⟨rfl, hopen, hprobe⟩
  · rw [List.zipIdx_cons, List.forall_mem_cons]
    exact ⟨fun _ => Or.inl hprobe, hrest.settled⟩

end Steps

theorem sourcePathFromLocator_eq_ok {locator path : Bytes}
    (hpath : (sourcePathFromLocator locator).mapError sourceCode = .ok path) : path = locator := by
  simp only [mapError_eq_ok, sourcePathFromLocator, bind_eq_ok, pure_eq_ok,
    Except.ok.injEq] at hpath
  obtain ⟨_, -, _, -, rfl⟩ := hpath
  rfl

theorem confirmedRemovals_eq_ok {inventory removals : List CurrentSourceRecord} {position : Nat}
    (hconfirmed : confirmedRemovals env scans files probes position inventory = .ok removals) :
    Confirmed scans files probes position inventory removals := by
  induction inventory generalizing position removals with
  | nil =>
      obtain rfl := Except.ok.inj hconfirmed
      exact ⟨fun _ => by simp, fun _ hmem => absurd hmem List.not_mem_nil⟩
  | cons source inventory ih =>
      simp only [confirmedRemovals, bind_eq_ok] at hconfirmed
      obtain ⟨_, -, path, hlocator, hconfirmed⟩ := hconfirmed
      obtain rfl := sourcePathFromLocator_eq_ok hlocator
      split at hconfirmed
      · rename_i hskipped
        exact (ih hconfirmed).passed fun hopen => absurd hskipped (unlisted_iff_checked.mp hopen)
      · rename_i hopen
        cases hprobe : probes position with
        | missing =>
            rw [hprobe] at hconfirmed
            obtain ⟨rest, hrest, hconfirmed⟩ := bind_eq_ok.mp hconfirmed
            obtain rfl := Except.ok.inj hconfirmed
            exact (ih hrest).missing (unlisted_iff_checked.mpr hopen) hprobe
        | unreadable =>
            rw [hprobe] at hconfirmed
            cases hconfirmed
        | found type =>
            rw [hprobe] at hconfirmed
            cases type with
            | symlink => cases hconfirmed
            | directory => cases hconfirmed
            | other => cases hconfirmed
            | file => exact (ih hconfirmed).passed fun _ => hprobe

end Removing

end EliotSearch.Retention
