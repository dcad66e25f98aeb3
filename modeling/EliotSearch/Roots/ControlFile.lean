import EliotSearch.Library.Crash
import EliotSearch.Library.Results

/-!
# The control file of a root

How the format of the control database is created, accepted again and inspected.
The engine is a file of tables; only the sizes that it gives its files are not
known here.
-/

namespace EliotSearch.Roots

open EliotSearch.Library
open EliotSearch.Library.Crash
open EliotSearch.Library.Results

def metaTable : String := "plain_control_meta"

def formatVersionKey : String := "format_version"

def formatVersion : UInt64 := 1

def emptyProbeBytes : Nat := 64 * 1024 * 1024

/-- Bounded failures from plain-root control access. -/
inductive PlainControlError where
  | cancelled
  | deadline
  | unavailable
  | corrupt
  | needsRepair
  | unsupported
  | busy
  | probeLimit
  deriving DecidableEq, Repr

inductive EmptyControlState where
  | preformat
  | formatted
  | notEmpty
  deriving DecidableEq

/-! ## Files -/

/-- A regular table; one of another type than text to words shows no rows. -/
structure ControlTable where
  name : String
  rows : Option (List (String × UInt64))
  deriving DecidableEq

/-- What the engine finds in a file. -/
structure ControlStore where
  savepoints : Nat
  tables : List ControlTable
  multimaps : List String
  deriving DecidableEq

/-- A control file: of no length, of a length that the engine opens, or of one that it
does not. -/
inductive ControlFile where
  | zeroLength
  | database (length : Nat) (store : ControlStore)
  | refused (length : Nat) (error : PlainControlError)
  deriving DecidableEq

def ControlFile.length : ControlFile → Nat
  | zeroLength => 0
  | database length _ => length
  | refused length _ => length

/-- The sizes of the files that the engine makes, and what it says of an empty file. -/
structure Engine where
  createdLength : Nat
  committedLength : Nat
  zeroLengthError : PlainControlError
  created_pos : 0 < createdLength
  created_le : createdLength ≤ emptyProbeBytes
  committed_pos : 0 < committedLength
  committed_le : committedLength ≤ emptyProbeBytes

section Reading

variable (engine : Engine)

def openReadOnlyFile (byteLimit : Option Nat) (file : ControlFile) :
    Except PlainControlError ControlStore := do
  refuse (∃ limit ∈ byteLimit, file.length > limit) .probeLimit
  match file with
  | .zeroLength => .error engine.zeroLengthError
  | .database _ store => .ok store
  | .refused _ error => .error error

/-- The rows of the format table. -/
def openMetaTable (store : ControlStore) : Except PlainControlError (List (String × UInt64)) := do
  let table ← okOr (store.tables.find? fun table => table.name == metaTable)
    PlainControlError.corrupt
  okOr table.rows .unsupported

def readFormatMetadata (store : ControlStore) : Except PlainControlError Unit := do
  let table ← openMetaTable store
  let storedVersion ← okOr (table.lookup formatVersionKey) PlainControlError.corrupt
  refuse (storedVersion ≠ formatVersion) .unsupported

def readEmptyState (store : ControlStore) : Except PlainControlError EmptyControlState :=
  if store.savepoints ≠ 0 then .ok .notEmpty
  else if store.tables = [] ∧ store.multimaps = [] then .ok .preformat
  else if store.tables.length ≠ 1 ∨ (∃ table ∈ store.tables, table.name ≠ metaTable) ∨
      store.multimaps ≠ [] then .ok .notEmpty
  else do
    let table ← openMetaTable store
    let storedVersion ← okOr (table.lookup formatVersionKey) PlainControlError.corrupt
    refuse (storedVersion ≠ formatVersion) .unsupported
    return if table.length = 1 then .formatted else .notEmpty

def inspectPlainControl (file : ControlFile) : Except PlainControlError Unit := do
  let store ← openReadOnlyFile engine none file
  readFormatMetadata store

def emptyStateOpenFile (file : ControlFile) : Except PlainControlError EmptyControlState := do
  let store ← openReadOnlyFile engine (some emptyProbeBytes) file
  readEmptyState store

def plainControlIsEmpty (file : ControlFile) : Except PlainControlError Bool := do
  let state ← emptyStateOpenFile engine file
  return state ≠ .notEmpty

end Reading

/-! ## Initialization -/

/-- The place of the control file: nothing, or a file. -/
abbrev Slot : Type := Option ControlFile

abbrev SlotOp (α : Type) : Type := Op Slot PlainControlError α

section Writing

variable (engine : Engine)

/-- The file at the place. -/
def slotFile : SlotOp ControlFile := Op.read fun slot => okOr slot .busy

def createNewFile : SlotOp Unit := Op.change fun _ => [some .zeroLength]

/-- Opens the engine, which lays out an empty file. -/
def createWithBackend : SlotOp ControlStore := do
  let file ← slotFile
  match file with
  | .zeroLength => do
      Op.change fun _ => [some (.database engine.createdLength ⟨0, [], []⟩)]
      return ⟨0, [], []⟩
  | .database _ store => return store
  | .refused _ error => Op.fail error

def writeFormatMetadata (store : ControlStore) : SlotOp Unit := do
  Op.refuse (store.savepoints ≠ 0) .unsupported
  Op.refuse (store.tables ≠ [] ∨ store.multimaps ≠ []) .unsupported
  Op.change fun _ => [some (.database engine.committedLength
    { store with tables := [⟨metaTable, some [(formatVersionKey, formatVersion)]⟩] })]

def initializeEmptyFile : SlotOp Unit := do
  let store ← createWithBackend engine
  writeFormatMetadata engine store
  let file ← slotFile
  Op.read fun _ => inspectPlainControl engine file

def initializeFresh (file : ControlFile) : SlotOp Unit := do
  Op.refuse (file.length ≠ 0) .busy
  initializeEmptyFile engine

def completePreformatInitialization : SlotOp Unit := do
  let file ← slotFile
  if file.length = 0 then initializeFresh engine file
  else do
    let state ← Op.read fun _ => emptyStateOpenFile engine file
    match state with
    | .formatted => return ()
    | .notEmpty => Op.fail .unsupported
    | .preformat => initializeEmptyFile engine

def acceptExistingInitialization (file : ControlFile) : SlotOp Unit := do
  let state ← Op.read fun _ => emptyStateOpenFile engine file
  match state with
  | .formatted => return ()
  | .notEmpty => Op.fail .unsupported
  | .preformat => completePreformatInitialization engine

/-- Initialize a fresh plain control database or accept a validated empty retry. -/
def initializePlainControl : SlotOp Unit := do
  let existing ← Op.read fun slot => .ok slot
  match existing with
  | some file =>
      if file.length > 0 then acceptExistingInitialization engine file
      else initializeFresh engine file
  | none => do
      createNewFile
      let file ← slotFile
      if file.length > 0 then acceptExistingInitialization engine file
      else initializeFresh engine file

end Writing

/-! ## Preformat and formatted files -/

/-- A database without tables, within the probe. -/
def Preformat (file : ControlFile) : Prop :=
  ∃ length, 0 < length ∧ length ≤ emptyProbeBytes ∧ file = .database length ⟨0, [], []⟩

/-- A database with nothing but its format, within the probe. -/
def Formatted (file : ControlFile) : Prop :=
  ∃ length, 0 < length ∧ length ≤ emptyProbeBytes ∧ file = .database length
    ⟨0, [⟨metaTable, some [(formatVersionKey, formatVersion)]⟩], []⟩

/-- What an initialization leaves at the place of the control file, cut off anywhere. -/
def Unfinished (file : ControlFile) : Prop :=
  file = .zeroLength ∨ Preformat file ∨ Formatted file

section Files

variable {engine : Engine} {file : ControlFile}

theorem openReadOnlyFile_database {byteLimit : Option Nat} {length : Nat} {store : ControlStore}
    (hlimit : ∀ limit ∈ byteLimit, length ≤ limit) :
    openReadOnlyFile engine byteLimit (.database length store) = .ok store := by
  have hopen : ¬ ∃ limit ∈ byteLimit, (ControlFile.database length store).length > limit := by
    rintro ⟨limit, hmem, hlong⟩
    exact absurd (hlimit limit hmem) (Nat.not_le.mpr hlong)
  rw [openReadOnlyFile, refuse_of_not hopen, ok_bind]

theorem Preformat.state (hfile : Preformat file) :
    emptyStateOpenFile engine file = .ok .preformat := by
  obtain ⟨length, -, hle, rfl⟩ := hfile
  rw [emptyStateOpenFile, openReadOnlyFile_database (by simpa using hle), ok_bind]
  rfl

theorem Formatted.state (hfile : Formatted file) :
    emptyStateOpenFile engine file = .ok .formatted := by
  obtain ⟨length, -, hle, rfl⟩ := hfile
  rw [emptyStateOpenFile, openReadOnlyFile_database (by simpa using hle), ok_bind]
  decide

theorem Formatted.inspect (hfile : Formatted file) : inspectPlainControl engine file = .ok () := by
  obtain ⟨length, -, -, rfl⟩ := hfile
  rw [inspectPlainControl, openReadOnlyFile_database (by simp), ok_bind]
  decide

theorem Formatted.length_pos (hfile : Formatted file) : 0 < file.length := by
  obtain ⟨length, hpos, -, rfl⟩ := hfile
  exact hpos

/-- A file that an initialization left is empty for the probe, unless it has no length. -/
theorem Unfinished.isEmpty (hfile : Unfinished file) (hlength : file.length ≠ 0) :
    plainControlIsEmpty engine file = .ok true := by
  rcases hfile with rfl | hpreformat | hformatted
  · exact absurd rfl hlength
  · rw [plainControlIsEmpty, hpreformat.state, ok_bind]
    rfl
  · rw [plainControlIsEmpty, hformatted.state, ok_bind]
    rfl

end Files

/-! ## A finished initialization -/

/-- An initialization that is cut off leaves an unfinished file. -/
def SlotUnfinished (slot : Slot) : Prop := ∃ file, slot = some file ∧ Unfinished file

def SlotFormatted (slot : Slot) : Prop := ∃ file, slot = some file ∧ Formatted file

section Finishing

variable {engine : Engine} {file : ControlFile}

theorem slotFile_completes :
    Completes SlotUnfinished slotFile (some file) fun found left =>
      found = file ∧ left = some file :=
  completes_read rfl

/-- The engine opens what has no length or no tables as a database without tables. -/
theorem createWithBackend_completes (hfile : file = .zeroLength ∨ Preformat file) :
    Completes SlotUnfinished (createWithBackend engine) (some file) fun store _ =>
      store = ⟨0, [], []⟩ := by
  refine slotFile_completes.bind ?_
  rintro _ _ ⟨rfl, rfl⟩
  rcases hfile with rfl | ⟨length, -, -, rfl⟩
  · refine Completes.bind (completes_change fun passed hmem => ?_) fun _ _ _ => completes_pure rfl
    rw [List.mem_singleton.mp hmem]
    exact ⟨_, rfl, Or.inr (Or.inl ⟨_, engine.created_pos, engine.created_le, rfl⟩)⟩
  · exact completes_pure rfl

/-- Writing the format takes a database without tables to a formatted one. -/
theorem writeFormatMetadata_completes (slot : Slot) :
    Completes SlotUnfinished (writeFormatMetadata engine ⟨0, [], []⟩) slot fun _ left =>
      SlotFormatted left := by
  have hformatted : Formatted (.database engine.committedLength
      ⟨0, [⟨metaTable, some [(formatVersionKey, formatVersion)]⟩], []⟩) :=
    ⟨_, engine.committed_pos, engine.committed_le, rfl⟩
  refine Completes.bind (completes_refuse (not_not.mpr rfl)) ?_
  rintro _ _ rfl
  refine Completes.bind (completes_refuse ?_) ?_
  · rintro (htables | hmultimaps)
    · exact htables rfl
    · exact hmultimaps rfl
  · rintro _ _ rfl
    refine Completes.mono (completes_change fun passed hmem => ?_) ?_
    · rw [List.mem_singleton.mp hmem]
      exact ⟨_, rfl, Or.inr (Or.inr hformatted)⟩
    · rintro _ _ rfl
      exact ⟨_, rfl, hformatted⟩

theorem initializeEmptyFile_completes (hfile : file = .zeroLength ∨ Preformat file) :
    Completes SlotUnfinished (initializeEmptyFile engine) (some file) fun _ left =>
      SlotFormatted left := by
  refine (createWithBackend_completes hfile).bind ?_
  rintro _ left rfl
  refine (writeFormatMetadata_completes left).bind ?_
  rintro _ _ ⟨formatted, rfl, hformatted⟩
  refine slotFile_completes.bind ?_
  rintro _ _ ⟨rfl, rfl⟩
  refine Completes.mono (completes_read hformatted.inspect) ?_
  rintro _ _ ⟨-, rfl⟩
  exact ⟨_, rfl, hformatted⟩

theorem initializeFresh_completes :
    Completes SlotUnfinished (initializeFresh engine .zeroLength) (some .zeroLength) fun _ left =>
      SlotFormatted left := by
  refine Completes.bind (completes_refuse (not_not.mpr rfl)) ?_
  rintro _ _ rfl
  exact initializeEmptyFile_completes (Or.inl rfl)

/-- A preformat file is finished, a formatted one is accepted as it is. -/
theorem acceptExistingInitialization_completes (hfile : Preformat file ∨ Formatted file) :
    Completes SlotUnfinished (acceptExistingInitialization engine file) (some file)
      fun _ left => SlotFormatted left := by
  rcases hfile with hpreformat | hformatted
  · have hlength : file.length ≠ 0 := by
      obtain ⟨length, hpos, -, rfl⟩ := hpreformat
      exact Nat.ne_of_gt hpos
    refine Completes.bind (completes_read hpreformat.state) ?_
    rintro _ _ ⟨rfl, rfl⟩
    refine slotFile_completes.bind ?_
    rintro _ _ ⟨rfl, rfl⟩
    rw [if_neg hlength]
    refine Completes.bind (completes_read hpreformat.state) ?_
    rintro _ _ ⟨rfl, rfl⟩
    exact initializeEmptyFile_completes (Or.inr hpreformat)
  · refine Completes.bind (completes_read hformatted.state) ?_
    rintro _ _ ⟨rfl, rfl⟩
    exact completes_pure ⟨_, rfl, hformatted⟩

/-- Whatever an initialization that was cut off left, the next one finishes it. -/
theorem initializePlainControl_completes {slot : Slot} (hslot : ∀ file ∈ slot, Unfinished file) :
    Completes SlotUnfinished (initializePlainControl engine) slot fun _ left =>
      SlotFormatted left := by
  cases slot with
  | none =>
      refine Completes.bind (completes_read rfl) ?_
      rintro _ _ ⟨rfl, rfl⟩
      refine Completes.bind (completes_change fun passed hmem => ?_) ?_
      · rw [List.mem_singleton.mp hmem]
        exact ⟨_, rfl, Or.inl rfl⟩
      · rintro _ _ rfl
        refine slotFile_completes.bind ?_
        rintro _ _ ⟨rfl, rfl⟩
        exact initializeFresh_completes
  | some file =>
      refine Completes.bind (completes_read rfl) ?_
      rintro _ _ ⟨rfl, rfl⟩
      rcases hslot file rfl with rfl | hfile
      · exact initializeFresh_completes
      · have hlength : 0 < file.length := by
          rcases hfile with ⟨length, hpos, -, rfl⟩ | hformatted
          · exact hpos
          · exact hformatted.length_pos
        dsimp only
        rw [if_pos hlength]
        exact acceptExistingInitialization_completes hfile

end Finishing

end EliotSearch.Roots
