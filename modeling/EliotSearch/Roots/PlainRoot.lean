import EliotSearch.Library.Json
import EliotSearch.Roots.ControlFile

/-!
# Plain roots

The entries of a selected root, what they are taken for, and the two commands that
change an unfinished root.  The stable lock is free: one process works on a root at
a time.
-/

namespace EliotSearch.Roots

open EliotSearch.Library
open EliotSearch.Library.Crash
open EliotSearch.Library.Json
open EliotSearch.Library.Results

/-! ## Names and contents -/

def manifestBytes : Bytes := ascii "format = \"eliot-plain-root\"\nversion = 1\n"

def initMarkerBytes : Bytes := ascii "eliot-plain-root-initializing-v1\n"

def maxRootEntries : Nat := 32

def maxControlEntries : Nat := 16

def maxManifestBytes : Nat := 4096

def maxMarkerBytes : Nat := 256

/-- The names that mean something inside a root. -/
inductive Name where
  | lockFile
  | manifestFile
  | initMarker
  | incompleteImportMarker
  | archiveCompleteMarker
  | objectDir
  | controlDir
  | initMarkerStage
  | manifestStage
  deriving DecidableEq

def Name.text : Name → String
  | lockFile => "root.lock"
  | manifestFile => "root.toml"
  | initMarker => "root.initializing"
  | incompleteImportMarker => "root.importing"
  | archiveCompleteMarker => "archive.complete"
  | objectDir => "objects"
  | controlDir => "control"
  | initMarkerStage => "root.initializing.stage"
  | manifestStage => "root.toml.stage"

def Name.all : List Name :=
  [lockFile, manifestFile, initMarker, incompleteImportMarker, archiveCompleteMarker, objectDir,
    controlDir, initMarkerStage, manifestStage]

theorem Name.mem_all (name : Name) : name ∈ all := by
  cases name <;> decide

inductive EntryKind where
  | file
  | directory
  | other
  deriving DecidableEq

/-- An entry of one of the two directories of a root. -/
inductive Node where
  | file (content : ControlFile)
  | directory
  | other
  deriving DecidableEq

def Node.kind : Node → EntryKind
  | file _ => .file
  | directory => .directory
  | other => .other

/-- What a directory of a root holds: the database, and entries of other names. -/
structure Folder where
  database : Option Node
  others : List (String × Node)
  deriving DecidableEq

def Folder.empty : Folder := ⟨none, []⟩

def Folder.count (folder : Folder) : Nat := folder.database.toList.length + folder.others.length

/-- The length of the database, or none at all. -/
def Folder.fileLength (folder : Folder) : Nat :=
  match folder.database with
  | some (.file content) => content.length
  | _ => 0

/-- An entry of a root. -/
inductive Entry where
  | file (bytes : Bytes)
  | directory (folder : Folder)
  | other
  deriving DecidableEq

def Entry.kind : Entry → EntryKind
  | file _ => .file
  | directory _ => .directory
  | other => .other

/-- The entries of a root: those of the known names, and those of other names. -/
structure Directory where
  entry : Name → Option Entry
  others : List (String × Entry)

namespace Directory

def empty : Directory := ⟨fun _ => none, []⟩

/-- The known names that are there. -/
def present (directory : Directory) : List Name :=
  Name.all.filter fun name => (directory.entry name).isSome

def count (directory : Directory) : Nat := directory.present.length + directory.others.length

def containsName (directory : Directory) (name : Name) : Bool := (directory.entry name).isSome

/-- No name but the allowed ones is there. -/
def Only (directory : Directory) (allowed : List Name) : Prop :=
  directory.others = [] ∧ ∀ name ∈ directory.present, name ∈ allowed

instance (directory : Directory) (allowed : List Name) : Decidable (directory.Only allowed) :=
  inferInstanceAs (Decidable (_ ∧ _))

def put (directory : Directory) (name : Name) (entry : Option Entry) : Directory :=
  { directory with entry := fun other => if other = name then entry else directory.entry other }

end Directory

/-- What is at the selected path. -/
inductive Root where
  | absent
  | directory (entries : Directory)
  | other

namespace Root

/-- The entry under a name inside the selected path. -/
def entry (root : Root) (name : Name) : Option Entry :=
  match root with
  | directory entries => entries.entry name
  | absent => none
  | other => none

def put (root : Root) (name : Name) (entry : Option Entry) : Root :=
  match root with
  | directory entries => directory (entries.put name entry)
  | absent => absent
  | other => other

/-- The directory under a name, or one that holds nothing. -/
def folder (root : Root) (name : Name) : Folder :=
  match root.entry name with
  | some (.directory folder) => folder
  | _ => .empty

end Root

/-! ## Statuses and errors -/

/-- Read-only classification of a selected root. -/
inductive PlainRootStatus where
  | absent
  | empty
  | incompleteInitialization
  | current
  | corrupt
  | unsupported
  | busy
  | archive
  | incompleteImport
  deriving DecidableEq, Repr

/-- Bounded, content-free errors for root operations. -/
inductive PlainRootError where
  | busy
  | absent
  | unsupported
  | corrupt
  | needsRepair
  | archive
  | incompleteImport
  | wrongState
  | alreadyExists
  | io
  | tooLarge
  | cancelled
  | deadline
  | unavailable
  | probeLimit
  deriving DecidableEq, Repr

def controlError : PlainControlError → PlainRootError
  | .cancelled => .cancelled
  | .deadline => .deadline
  | .unavailable => .unavailable
  | .corrupt => .corrupt
  | .needsRepair => .needsRepair
  | .unsupported => .unsupported
  | .busy => .busy
  | .probeLimit => .probeLimit

def classifyControlFailure : PlainRootError → Option PlainRootStatus
  | .busy => some .busy
  | .corrupt => some .corrupt
  | .unsupported => some .unsupported
  | _ => none

def statusError : PlainRootStatus → PlainRootError
  | .absent => .absent
  | .empty => .wrongState
  | .incompleteInitialization => .wrongState
  | .current => .alreadyExists
  | .corrupt => .corrupt
  | .unsupported => .unsupported
  | .busy => .busy
  | .archive => .archive
  | .incompleteImport => .incompleteImport

/-! ## Reading -/

def pathKind (root : Root) (name : Name) : Option EntryKind := (root.entry name).map Entry.kind

def readOptionalBounded (root : Root) (name : Name) (maximum : Nat) :
    Except PlainRootError (Option Bytes) :=
  match root.entry name with
  | none => .ok none
  | some (.file bytes) => do
      refuse (bytes.length > maximum) .tooLarge
      return some bytes
  | some (.directory _) => .error .unsupported
  | some .other => .error .unsupported

/-- The stage is absent, or a file with the expected bytes or a front of them. -/
def metadataStageMatches (root : Root) (name : Name) (expected : Bytes) (allowPartial : Bool) :
    Except PlainRootError Bool :=
  if pathKind root name = some .directory ∨ pathKind root name = some .other then .ok false
  else do
    let contents ← readOptionalBounded root name expected.length
    return contents.all fun contents =>
      if allowPartial then contents.isPrefixOf expected else contents == expected

/-- The control file of a root. -/
def controlFile (root : Root) : Except PlainControlError ControlFile :=
  match (root.folder .controlDir).database with
  | some (.file content) => .ok content
  | _ => .error .unavailable

def inspectControlFormat (engine : Engine) (root : Root) : Except PlainRootError Unit :=
  (do
    let file ← controlFile root
    inspectPlainControl engine file).mapError controlError

def controlIsEmpty (engine : Engine) (root : Root) : Except PlainRootError Bool :=
  (do
    let file ← controlFile root
    plainControlIsEmpty engine file).mapError controlError

/-! ## Classification -/

/-- A classification that goes on, or ends with a status or an error. -/
abbrev Judged (α : Type) : Type := Except (Except PlainRootError PlainRootStatus) α

def judge (condition : Prop) [Decidable condition] (status : PlainRootStatus) : Judged Unit :=
  refuse condition (.ok status)

def attempt {α : Type} (value : Except PlainRootError α) : Judged α :=
  value.mapError Except.error

def conclude (judged : Judged PlainRootStatus) : Except PlainRootError PlainRootStatus :=
  match judged with
  | .ok status => .ok status
  | .error verdict => verdict

/-- The bytes of a metadata file; a missing one is judged by the given status. -/
def readMetadata (root : Root) (name : Name) (maximum : Nat) (missing : PlainRootStatus) :
    Judged Bytes :=
  match readOptionalBounded root name maximum with
  | .ok (some bytes) => .ok bytes
  | .ok none => .error (.ok missing)
  | .error .unsupported => .error (.ok .unsupported)
  | .error error => .error (.error error)

def judgeMarker (root : Root) (missing : PlainRootStatus) : Judged Unit := do
  let marker ← readMetadata root .initMarker maxMarkerBytes missing
  judge (marker ≠ initMarkerBytes) .unsupported

def judgeStage (root : Root) (name : Name) (expected : Bytes) (allowPartial : Bool) :
    Judged Unit := do
  let found ← attempt (metadataStageMatches root name expected allowPartial)
  judge (found = false) .unsupported

def committedNames : List Name :=
  [.lockFile, .manifestFile, .initMarker, .objectDir, .controlDir, .initMarkerStage,
    .manifestStage]

/-- The control directory of a committed root holds the database and nothing else. -/
def judgeCommittedControl (root : Root) : Judged PlainRootStatus := do
  let folder := root.folder .controlDir
  attempt (refuse (folder.count > maxControlEntries) .tooLarge)
  judge (folder.count ≠ 1 ∧ folder.others ≠ []) .unsupported
  judge (folder.count ≠ 1) .corrupt
  judge (folder.database = none) .unsupported
  judge (folder.database.map Node.kind = some .other) .unsupported
  judge (folder.database.map Node.kind ≠ some .file) .corrupt
  judge (folder.fileLength = 0) .corrupt
  return .current

def classifyCommittedRootLayout (root : Root) (entries : Directory) :
    Except PlainRootError PlainRootStatus :=
  conclude do
    judge (¬ entries.Only committedNames) .unsupported
    let manifest ← readMetadata root .manifestFile maxManifestBytes .corrupt
    judge (manifest ≠ manifestBytes) .unsupported
    if entries.containsName .initMarker then judgeMarker root .corrupt else pure ()
    judge ((entries.containsName .initMarkerStage ∨ entries.containsName .manifestStage) ∧
      ¬ entries.containsName .initMarker) .unsupported
    judgeStage root .initMarkerStage initMarkerBytes false
    judgeStage root .manifestStage manifestBytes false
    judge (pathKind root .lockFile ≠ some .file) .corrupt
    judge (pathKind root .objectDir ≠ some .directory) .corrupt
    judge (pathKind root .controlDir ≠ some .directory) .corrupt
    judgeCommittedControl root

def incompleteNames : List Name :=
  [.lockFile, .initMarker, .objectDir, .controlDir, .initMarkerStage, .manifestStage]

/-- A control file of some length must be empty for the probe. -/
def judgeProbe (engine : Engine) (root : Root) : Judged Unit :=
  match controlIsEmpty engine root with
  | .ok true => .ok ()
  | .ok false => .error (.ok .corrupt)
  | .error error => .error ((classifyControlFailure error).elim (.error error) Except.ok)

def judgeIncompleteControl (engine : Engine) (root : Root) (probeIncomplete : Bool) :
    Judged Unit := do
  let folder := root.folder .controlDir
  attempt (refuse (folder.count > maxControlEntries) .tooLarge)
  judge (folder.others ≠ []) .unsupported
  judge (∃ node, folder.database = some node ∧ node.kind ≠ .file) .unsupported
  if probeIncomplete = true ∧ folder.fileLength ≠ 0 then judgeProbe engine root
  else pure ()

def classifyMarkedRoot (engine : Engine) (root : Root) (entries : Directory)
    (probeIncomplete : Bool) : Except PlainRootError PlainRootStatus :=
  conclude do
    judge (¬ entries.Only incompleteNames) .unsupported
    judgeMarker root .unsupported
    judgeStage root .initMarkerStage initMarkerBytes false
    judgeStage root .manifestStage manifestBytes true
    judge (pathKind root .lockFile ≠ some .file) .corrupt
    judge (entries.containsName .objectDir = true ∧
      pathKind root .objectDir ≠ some .directory) .unsupported
    judge ((root.folder .objectDir).count ≠ 0) .corrupt
    judge (entries.containsName .controlDir = true ∧
      pathKind root .controlDir ≠ some .directory) .unsupported
    judgeIncompleteControl engine root probeIncomplete
    return .incompleteInitialization

def classifyIncompleteRoot (engine : Engine) (root : Root) (entries : Directory)
    (probeIncomplete : Bool) : Except PlainRootError PlainRootStatus :=
  if entries.count = 1 ∧ entries.containsName .lockFile then
    if pathKind root .lockFile = some .file then .ok .incompleteInitialization
    else .ok .unsupported
  else if ¬ entries.containsName .initMarker then
    -- before the marker there are the lock and the stage of the marker only
    conclude do
      judge (¬ (entries.count = 2 ∧ entries.containsName .lockFile ∧
        entries.containsName .initMarkerStage ∧ pathKind root .lockFile = some .file)) .unsupported
      judgeStage root .initMarkerStage initMarkerBytes true
      return .incompleteInitialization
  else classifyMarkedRoot engine root entries probeIncomplete

/-- The entries are files and directories. -/
def Directory.Supported (entries : Directory) : Prop :=
  (∀ name ∈ Name.all, entries.entry name ≠ some .other) ∧ ∀ found ∈ entries.others, found.2 ≠ .other

instance (entries : Directory) : Decidable entries.Supported :=
  inferInstanceAs (Decidable (_ ∧ _))

def classifyRootLayout (engine : Engine) (root : Root) (probeIncomplete : Bool) :
    Except PlainRootError PlainRootStatus :=
  match root with
  | .absent => .ok .absent
  | .other => .ok .unsupported
  | .directory entries => do
      refuse (entries.count > maxRootEntries) .tooLarge
      if entries.count = 0 then .ok .empty
      else if ¬ entries.Supported then .ok .unsupported
      else if entries.containsName .incompleteImportMarker then
        if pathKind root .incompleteImportMarker = some .file then .ok .incompleteImport
        else .ok .unsupported
      else if entries.containsName .archiveCompleteMarker then
        if pathKind root .archiveCompleteMarker = some .file then .ok .archive
        else .ok .unsupported
      else if entries.containsName .manifestFile then classifyCommittedRootLayout root entries
      else classifyIncompleteRoot engine root entries probeIncomplete

def classifyRoot (engine : Engine) (probeIncomplete : Bool) (root : Root) :
    Except PlainRootError PlainRootStatus := do
  let status ← classifyRootLayout engine root probeIncomplete
  if status ≠ .current then return status
  else
    match inspectControlFormat engine root with
    | .ok _ => return .current
    | .error error => (classifyControlFailure error).elim (.error error) Except.ok

/-- What an inspection reports: the root is classified again under its lock. -/
def observedStatus (engine : Engine) (root : Root) : Except PlainRootError PlainRootStatus := do
  let status ← classifyRoot engine false root
  if status ≠ .current ∧ status ≠ .incompleteInitialization then return status
  else
    match pathKind root .lockFile with
    | some .file => classifyRoot engine (status = .incompleteInitialization) root
    | some .directory => return .unsupported
    | some .other => return .unsupported
    | none => return .corrupt

/-! ## Writing -/

abbrev RootOp (α : Type) : Type := Op Root PlainRootError α

/-- How the file system gives a stage its final name: at once, by a second link and the
removal of the first one, or by a second link that stays. -/
inductive Persist where
  | renames
  | links
  | leavesLink
  deriving DecidableEq

/-- Give an entry to a name, or take it away. -/
def putEntry (name : Name) (entry : Option Entry) : RootOp Unit :=
  Op.change fun root => [root.put name entry]

/-- Take the lock; its file is made if that is allowed. -/
def acquireLock (createIfMissing : Bool) : RootOp Unit := do
  let kind ← Op.read fun root => .ok (pathKind root .lockFile)
  match kind with
  | some .file => return ()
  | some .directory => Op.fail .unsupported
  | some .other => Op.fail .unsupported
  | none => if createIfMissing then putEntry .lockFile (some (.file [])) else Op.fail .corrupt

def removeKnownFile (name : Name) : RootOp Unit := do
  let kind ← Op.read fun root => .ok (pathKind root name)
  match kind with
  | none => return ()
  | some .file => putEntry name none
  | some .directory => Op.fail .unsupported
  | some .other => Op.fail .unsupported

/-- Validate a stage before it is removed. -/
def removeMetadataStage (name : Name) (expected : Bytes) (allowPartial : Bool) : RootOp Unit := do
  let found ← Op.read fun root => metadataStageMatches root name expected allowPartial
  Op.refuse (found = false) .unsupported
  removeKnownFile name

/-- Make a stage that is not there and write it byte by byte. -/
def writeStage (stage : Name) (bytes : Bytes) : RootOp Unit := do
  let existing ← Op.read fun root => .ok (root.entry stage)
  Op.refuse (existing.isSome = true) .alreadyExists
  Op.change fun root => bytes.inits.map fun written => root.put stage (some (.file written))

/-- The destination holds exactly the bytes. -/
def readBack (destination : Name) (bytes : Bytes) (maximum : Nat) (different : PlainRootError) :
    RootOp Unit := do
  let existing ← Op.read fun root => readOptionalBounded root destination maximum
  let found ← Op.read fun _ => okOr existing PlainRootError.io
  Op.refuse (found ≠ bytes) different

/-- Give the stage its final name, unless that is taken. -/
def persistNoclobber (persist : Persist) (destination stage : Name) (bytes : Bytes)
    (maximum : Nat) : RootOp Unit := do
  let existing ← Op.read fun root => .ok (root.entry destination)
  if existing.isSome then do
    putEntry stage none
    readBack destination bytes maximum .alreadyExists
  else
    match persist with
    | .renames => Op.change fun root =>
        [(root.put stage none).put destination (some (.file bytes))]
    | .links => Op.change fun root =>
        [root.put destination (some (.file bytes)),
          (root.put destination (some (.file bytes))).put stage none]
    | .leavesLink => Op.change fun root => [root.put destination (some (.file bytes))]

def publishNoclobber (persist : Persist) (destination stage : Name) (bytes : Bytes)
    (maximum : Nat) : RootOp Unit := do
  Op.refuse (bytes.length > maximum) .tooLarge
  let existing ← Op.read fun root => readOptionalBounded root destination maximum
  match existing with
  | some found => do
      Op.refuse (found ≠ bytes) .alreadyExists
      removeMetadataStage stage bytes false
  | none => do
      removeMetadataStage stage bytes true
      writeStage stage bytes
      readBack stage bytes bytes.length .corrupt
      persistNoclobber persist destination stage bytes maximum
      readBack destination bytes maximum .corrupt
      removeMetadataStage stage bytes false

def ensureStoreDirectory (name : Name) : RootOp Unit := do
  let kind ← Op.read fun root => .ok (pathKind root name)
  match kind with
  | some .directory => return ()
  | some .file => Op.fail .unsupported
  | some .other => Op.fail .unsupported
  | none => putEntry name (some (.directory .empty))

/-- The place of the control file in the control directory. -/
def controlSlot (root : Root) : Slot :=
  match (root.folder .controlDir).database with
  | some (.file content) => some content
  | _ => none

def putControlSlot (root : Root) (slot : Slot) : Root :=
  root.put .controlDir (some (.directory
    { root.folder .controlDir with database := slot.map Node.file }))

def initializeControl (engine : Engine) : RootOp Unit := do
  let node ← Op.read fun root => .ok (root.folder .controlDir).database
  Op.refuse (∃ found ∈ node, found.kind ≠ .file) .unsupported
  ((initializePlainControl engine).zoom controlSlot putControlSlot).mapError controlError

/-! ## Commands -/

/-- Go on only from an unfinished initialization. -/
def requireIncomplete (engine : Engine) (probeIncomplete : Bool) : RootOp Unit := do
  let status ← Op.read (classifyRoot engine probeIncomplete)
  Op.refuse (status ≠ .incompleteInitialization) (statusError status)

def requireCurrent (engine : Engine) : RootOp Unit := do
  let status ← Op.read (classifyRoot engine false)
  Op.refuse (status ≠ .current) (statusError status)

def metadataStagesPresent (root : Root) : Bool :=
  (pathKind root .initMarkerStage).isSome || (pathKind root .manifestStage).isSome

/-- Both stages and both finished files are validated before a stage is removed. -/
def cleanupCompleteMetadataStages : RootOp Unit := do
  let present ← Op.read fun root => .ok (metadataStagesPresent root)
  if present = true then do
    let marker ← Op.read fun root => readOptionalBounded root .initMarker maxMarkerBytes
    let manifest ← Op.read fun root => readOptionalBounded root .manifestFile maxManifestBytes
    Op.refuse (marker ≠ some initMarkerBytes ∨ manifest ≠ some manifestBytes) .unsupported
    let markerStage ← Op.read fun root =>
      metadataStageMatches root .initMarkerStage initMarkerBytes false
    Op.refuse (markerStage = false) .unsupported
    let manifestStage ← Op.read fun root =>
      metadataStageMatches root .manifestStage manifestBytes false
    Op.refuse (manifestStage = false) .unsupported
    removeKnownFile .initMarkerStage
    removeKnownFile .manifestStage
  else return ()

/-- Tidy up behind a finished initialization and report that it was one. -/
def cleanupCurrent (engine : Engine) : RootOp Unit := do
  let present ← Op.read fun root => .ok (metadataStagesPresent root)
  if present = true then do
    acquireLock false
    requireCurrent engine
    cleanupCompleteMetadataStages
    Op.fail .alreadyExists
  else Op.fail .alreadyExists

/-- The stores of a root that is owned by its marker. -/
def initializeStores (engine : Engine) : RootOp Unit := do
  ensureStoreDirectory .objectDir
  ensureStoreDirectory .controlDir
  let objects ← Op.read fun root => .ok (root.folder .objectDir)
  Op.refuse (objects.count ≠ 0) .wrongState
  initializeControl engine

def initializeLocked (engine : Engine) (persist : Persist) : RootOp Unit := do
  acquireLock true
  requireIncomplete engine true
  publishNoclobber persist .initMarker .initMarkerStage initMarkerBytes maxMarkerBytes
  initializeStores engine
  requireIncomplete engine true
  publishNoclobber persist .manifestFile .manifestStage manifestBytes maxManifestBytes
  requireCurrent engine

/-- A root that is absent is made before it is classified again. -/
def observeOrCreate (engine : Engine) : RootOp PlainRootStatus := do
  let status ← Op.read (classifyRoot engine false)
  if status = .absent then do
    Op.change fun _ => [.directory .empty]
    Op.read (classifyRoot engine false)
  else return status

/-- Explicitly initialize an absent, empty, or recognized empty incomplete root. -/
def initializePlain (engine : Engine) (persist : Persist) : RootOp Unit := do
  let status ← observeOrCreate engine
  match status with
  | .empty => initializeLocked engine persist
  | .incompleteInitialization => initializeLocked engine persist
  | .current => cleanupCurrent engine
  | other => Op.fail (statusError other)

def removeKnownEmptyDirectory (name : Name) : RootOp Unit := do
  let kind ← Op.read fun root => .ok (pathKind root name)
  match kind with
  | none => return ()
  | some .directory => do
      let folder ← Op.read fun root => .ok (root.folder name)
      Op.refuse (folder.count ≠ 0) .wrongState
      putEntry name none
  | some .file => Op.fail .unsupported
  | some .other => Op.fail .unsupported

/-- Remove the control file from the control directory. -/
def removeControlFile : RootOp Unit := do
  let node ← Op.read fun root => .ok (root.folder .controlDir).database
  match node with
  | none => return ()
  | some (.file _) => Op.change fun root => [putControlSlot root none]
  | some .directory => Op.fail .unsupported
  | some .other => Op.fail .unsupported

def removeControl : RootOp Unit := do
  let kind ← Op.read fun root => .ok (pathKind root .controlDir)
  if kind = some .directory then do
    removeControlFile
    removeKnownEmptyDirectory .controlDir
  else return ()

/-- Go on only where the marker is the one of an initialization. -/
def requireMarker : RootOp Unit := do
  let marker ← Op.read fun root => readOptionalBounded root .initMarker maxMarkerBytes
  Op.refuse (marker ≠ some initMarkerBytes) .wrongState

/-- Discard only a marker-owned, empty unfinished initialization. -/
def discardIncompletePlain (engine : Engine) : RootOp Unit := do
  requireIncomplete engine false
  requireMarker
  acquireLock false
  requireIncomplete engine true
  requireMarker
  let manifest ← Op.read fun root => .ok (pathKind root .manifestFile)
  Op.refuse (manifest.isSome = true) .wrongState
  removeMetadataStage .initMarkerStage initMarkerBytes false
  removeMetadataStage .manifestStage manifestBytes true
  removeControl
  removeKnownEmptyDirectory .objectDir
  removeKnownFile .initMarker

end EliotSearch.Roots
