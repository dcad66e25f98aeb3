import EliotSearch.Control.Sources

/-!
# Admitted selections

An admitted selection is one more record of the source-state table, keyed by
the hexadecimal spelling of its locator.  The first admission creates the
source tables and a random source namespace without changing the corpus.
-/

namespace EliotSearch.Control

open EliotSearch.Library
open EliotSearch.Library.Json
open EliotSearch.Library.Results
open EliotSearch.Library.Words

/-- The explicitly admitted filesystem scope. -/
inductive SelectionKind where
  | file
  | tree
  deriving DecidableEq, Repr

def SelectionKind.name : SelectionKind → String
  | .file => "file"
  | .tree => "tree"

/-- One durable desired selection; the path is its native byte string. -/
structure AdmittedSelection where
  path : Bytes
  kind : SelectionKind
  deriving DecidableEq

structure StoredSelection where
  version : UInt8
  locator : Bytes
  kind : SelectionKind
  deriving DecidableEq

def selectionPrefix : Bytes := ascii "admitted_selection:"

def selectionKey (locator : Bytes) : Bytes :=
  selectionPrefix ++ locator.flatMap hexByte

/-! ## Locators -/

/-- A native path is absolute when it starts at the root directory. -/
def IsAbsolute (path : Bytes) : Prop := path.head? = some 47

instance (path : Bytes) : Decidable (IsAbsolute path) :=
  inferInstanceAs (Decidable (_ = _))

def sourceLocatorBytes (path : Bytes) : Except SourceControlError Bytes := do
  refuse (¬ IsAbsolute path) .invalidLocator
  refuse (path = [] ∨ path.length > maxLocatorBytes) .invalidLocator
  return path

def sourcePathFromLocator (locator : Bytes) : Except SourceControlError Bytes := do
  refuse (locator = [] ∨ locator.length > maxLocatorBytes) .invalidLocator
  refuse (¬ IsAbsolute locator) .corrupt
  return locator

/-! ## Stored text -/

def selectionText (stored : StoredSelection) : Bytes :=
  ascii "\x7b" ++ Format.label "version" ++ Format.u8.print stored.version ++
    comma.byte :: (Format.label "locator" ++ Format.listText stored.locator ++
      comma.byte :: (Format.label "kind" ++ Format.quoted stored.kind.name ++ [brace.byte]))

def readSelectionKind (bytes : Bytes) : Option (SelectionKind × Bytes) :=
  match strip (Format.quoted SelectionKind.file.name) bytes with
  | some rest => some (.file, rest)
  | none => (strip (Format.quoted SelectionKind.tree.name) bytes).map fun rest => (.tree, rest)

def readSelectionText (bytes : Bytes) : Option StoredSelection := do
  let rest ← strip (ascii "\x7b" ++ Format.label "version") bytes
  let (version, rest) ← Format.u8.read rest
  let rest ← strip (comma.byte :: Format.label "locator") rest
  let (locator, rest) ← Format.readList rest
  let rest ← strip (comma.byte :: Format.label "kind") rest
  let (kind, rest) ← readSelectionKind rest
  let rest ← strip [brace.byte] rest
  if rest = [] then some { version, locator, kind } else none

def decodeSelection (key bytes : Bytes) : Except SourceControlError AdmittedSelection := do
  let stored ← okOr (readSelectionText bytes) .corrupt
  refuse (stored.version ≠ 1 ∨ selectionKey stored.locator ≠ key) .corrupt
  let path ← sourcePathFromLocator stored.locator
  return { path, kind := stored.kind }

/-! ## Admission -/

/-- Check the source tables, or create them with a fresh namespace. -/
def ensureAdmissionSchema (db : Db) (randomId : Octets 16) : Except SourceControlError Db := do
  let state := openTable db.sourceState
  if ← catalogueNames db.listTables db.hasMultimap then
    refuse (state[schemaVersionKey]? ≠ some sourceSchemaVersion ∨
      state[namespaceKey]?.all (fun stored => stored.length ≠ 16)) .corrupt
    return { db with sourceState := some state }
  else
    return { db with
      sourceState := some
        ((state.insert schemaVersionKey sourceSchemaVersion).insert namespaceKey randomId.bytes)
      sourceRows := some (openTable db.sourceRows)
      sourceLocators := some (openTable db.sourceLocators) }

/-- The count and the bytes charged by the selections stored under other keys. -/
def chargeSelections (env : Env) (key : Bytes) :
    Nat → Nat × Nat → List (Bytes × Bytes) → Except SourceControlError Unit
  | _, _, [] => .ok ()
  | site, (count, charged), (storedKey, value) :: rows => do
      env.check sourceFault site
      let other := selectionPrefix.isPrefixOf storedKey ∧ storedKey ≠ key
      let count := if other then count + 1 else count
      let charged := if other then charged + (storedKey.length + value.length) else charged
      refuse (count > maxCurrentSources ∨ charged > maxCurrentSourceBytes) .inventoryLimit
      chargeSelections env key (site + 1) (count, charged) rows

/-- Whether the stored selection already equals the admitted one. -/
def alreadyAdmitted (state : Table) (key : Bytes) (selection : AdmittedSelection) :
    Except SourceControlError Bool :=
  match state[key]? with
  | none => return false
  | some existing => do
      let stored ← decodeSelection key existing
      return decide (stored = selection)

def admitSelectionTransaction (env : Env) (db : Db) (selection : AdmittedSelection)
    (randomId : Octets 16) : Except SourceControlError (Option Db × Unit) := do
  env.check sourceFault 0
  let locator ← sourceLocatorBytes selection.path
  let key := selectionKey locator
  let bytes := selectionText { version := 1, locator, kind := selection.kind }
  let db ← ensureAdmissionSchema db randomId
  let state := openTable db.sourceState
  if ← alreadyAdmitted state key selection then return (none, ())
  chargeSelections env key 2 (1, key.length + bytes.length) state.toList
  env.check sourceFault 1
  return (some { db with sourceState := some (state.insert key bytes) }, ())

/-- Persist a desired admission. -/
def admitSelection (env : Env) (db : Db) (selection : AdmittedSelection) (randomId : Octets 16) :
    Outcome SourceControlError Unit :=
  settle env db .database (admitSelectionTransaction env db selection randomId)

/-! ## Facts -/

theorem readSelectionText_selectionText (stored : StoredSelection) :
    readSelectionText (selectionText stored) = some stored := by
  obtain ⟨version, locator, kind⟩ := stored
  have hopen : ∀ rest, strip (ascii "\x7b" ++ Format.label "version")
      (ascii "\x7b" ++ (Format.label "version" ++ rest)) = some rest := by
    intro rest
    rw [← List.append_assoc, strip_append]
  have hversion := Format.u8.read_print version
    (comma.byte :: (Format.label "locator" ++ (Format.listText locator ++
      comma.byte :: (Format.label "kind" ++ (Format.quoted kind.name ++ [brace.byte])))))
    (comma.stops _)
  have hmember : ∀ name rest, strip (comma.byte :: Format.label name)
      (comma.byte :: (Format.label name ++ rest)) = some rest :=
    fun name rest => strip_append (comma.byte :: Format.label name) rest
  have hkind : readSelectionKind (Format.quoted kind.name ++ [brace.byte]) =
      some (kind, [brace.byte]) := by
    cases kind <;> decide
  simp only [selectionText, List.append_assoc, readSelectionText, hopen,
    hversion, hmember, Format.readList_listText, hkind, strip_mark, Option.bind_eq_bind,
    Option.bind_some, if_true]

theorem selectionKey_ne_wantedRevisionKey (locator : Bytes) :
    selectionKey locator ≠ wantedRevisionKey := by
  intro heq
  have hhead := congrArg List.head? heq
  exact absurd hhead (by simp [selectionKey, selectionPrefix, wantedRevisionKey, ascii])

/-- Creating the source tables keeps the revision, every corpus row and the
publication. -/
theorem ensureAdmissionSchema_frame {db next : Db} {randomId : Octets 16}
    (hensure : ensureAdmissionSchema db randomId = .ok next) :
    writeWantedRevision next = writeWantedRevision db ∧
      openTable next.sourceRows = openTable db.sourceRows ∧
      next.preparations = db.preparations ∧ KeepsPublication db next := by
  simp only [ensureAdmissionSchema, bind_eq_ok] at hensure
  obtain ⟨existing, _, hensure⟩ := hensure
  cases existing with
  | true =>
      simp only [if_true, bind_eq_ok] at hensure
      obtain ⟨_, _, hensure⟩ := hensure
      obtain rfl := Except.ok.inj hensure
      exact ⟨rfl, rfl, rfl, ⟨rfl, rfl, rfl, rfl, rfl⟩⟩
  | false =>
      simp only [Bool.false_eq_true, if_false] at hensure
      obtain rfl := Except.ok.inj hensure
      have hnamespace : namespaceKey ≠ wantedRevisionKey := by decide
      have hschema : schemaVersionKey ≠ wantedRevisionKey := by decide
      refine ⟨?_, rfl, rfl, ⟨rfl, rfl, rfl, rfl, rfl⟩⟩
      simp only [writeWantedRevision, openTable_some]
      rw [storedRevision_insert hnamespace, storedRevision_insert hschema]

theorem admitSelection_step (env : Env) (db : Db) (selection : AdmittedSelection)
    (randomId : Octets 16) : CorpusStep db (admitSelection env db selection randomId).db := by
  refine settle_corpusStep fun next value hattempt => ?_
  simp only [admitSelectionTransaction, bind_eq_ok] at hattempt
  obtain ⟨_, _, locator, _, middle, hensure, admitted, _, hattempt⟩ := hattempt
  obtain ⟨hrevision, hrows, hpreparations, hkeeps⟩ := ensureAdmissionSchema_frame hensure
  cases admitted with
  | true => cases hattempt
  | false =>
      simp only [Bool.false_eq_true, if_false, bind_eq_ok] at hattempt
      obtain ⟨_, _, _, _, hattempt⟩ := hattempt
      obtain ⟨hnext, -⟩ := Prod.mk.inj (Except.ok.inj hattempt)
      obtain rfl := Option.some.inj hnext
      refine ⟨corpusStore_unchanged ?_ hrows (by rw [hpreparations]),
        ⟨hkeeps.header, hkeeps.sources, hkeeps.pages, hkeeps.evidence, hkeeps.retired⟩⟩
      rw [← hrevision]
      exact storedRevision_insert (selectionKey_ne_wantedRevisionKey locator)

end EliotSearch.Control
