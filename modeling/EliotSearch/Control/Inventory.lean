import EliotSearch.Control.Selections

/-!
# Inventory reads

The read transactions over the current source tables: the guard captured before
a source is acquired, the whole inventory with its reverse locator index, and
the admitted selections.  Each of them checks the table catalogue and the
stored namespace before it reads a row.
-/

namespace EliotSearch.Control

open EliotSearch.Library
open EliotSearch.Library.Results
open EliotSearch.Library.Words

/-! ## One registration -/

/-- The row a locator names. -/
def loadLocatorRow (db : Db) (locator : Bytes) :
    Except SourceControlError (Option CurrentSourceRecord) := do
  let locators ← okOr db.sourceLocators .corrupt
  match locators[locator]? with
  | none => return none
  | some stored => do
      let sourceId : SourceId ← okOr (Octets.ofBytes? 16 stored) .corrupt
      let rows ← okOr db.sourceRows .corrupt
      let row ← okOr rows[sourceId.bytes]? .corrupt
      let record ← decodeRecord row
      refuse (record.sourceId ≠ sourceId ∨ record.locator ≠ locator) .corrupt
      return some record

/-- The identities a capture draws from the random source, which may fail. -/
structure Draws where
  namespaceId : Option SourceNamespaceId
  sourceId : Option SourceId
  deriving DecidableEq

def captureSourceDatabase (env : Env) (db : Db) (locator : Bytes) (draws : Draws) :
    Except SourceControlError SourceCapture := do
  env.check sourceFault 0
  env.check sourceFault 1
  if ← catalogueNames db.listTables db.hasMultimap then
    let stored ← readNamespace db
    let namespaceId ← okOr stored .corrupt
    let found ← loadLocatorRow db locator
    env.check sourceFault 2
    match found with
    | some record => do
        refuse (record.sourceNamespaceId ≠ namespaceId) .corrupt
        return {
          sourceNamespaceId := namespaceId
          sourceId := record.sourceId
          locator
          expectedNamespace := some namespaceId
          expectedRowRevision := some record.rowRevision
          expectedRegistrationRevision := some record.registrationRevision
        }
    | none => do
        let sourceId ← okOr draws.sourceId .randomUnavailable
        return {
          sourceNamespaceId := namespaceId
          sourceId, locator
          expectedNamespace := some namespaceId
          expectedRowRevision := none
          expectedRegistrationRevision := none
        }
  else
    let namespaceId ← okOr draws.namespaceId .randomUnavailable
    let sourceId ← okOr draws.sourceId .randomUnavailable
    return {
      sourceNamespaceId := namespaceId
      sourceId, locator
      expectedNamespace := none
      expectedRowRevision := none
      expectedRegistrationRevision := none
    }

/-- Capture the current registration guard before external file I/O. -/
def captureCurrentSource (env : Env) (db : Db) (selectedFile : Bytes) (draws : Draws) :
    Except SourceControlError SourceCapture := do
  let locator ← sourceLocatorBytes selectedFile
  captureSourceDatabase env db locator draws

/-! ## Resolving a commit -/

def loadCurrentSource (env : Env) (db : Db) (locator : Bytes) :
    Except SourceControlError (Option CurrentSourceRecord) := do
  env.check sourceFault 0
  if ← catalogueNames db.listTables db.hasMultimap then
    let record ← loadLocatorRow db locator
    env.check sourceFault 1
    return record
  else return none

/-- What a commit that reported failure turns out to be. -/
def resolveSourceCommit (record : CurrentSourceRecord) :
    Except SourceControlError (Option CurrentSourceRecord) →
      Except SourceControlError CurrentSourceRecord
  | .ok (some observed) => if observed = record then .ok record else .error .stale
  | .ok none => .error .database
  | .error _ => .error .database

/-! ## The whole inventory -/

/-- Read the rows in key order with their locators, charging both. -/
def inventoryRows (env : Env) (namespaceId : SourceNamespaceId) (locators : Table) :
    Nat → Nat → Nat → List (Bytes × Bytes) → Except SourceControlError (List CurrentSourceRecord)
  | _, _, _, [] => .ok []
  | site, count, charged, (id, bytes) :: rows => do
      env.check sourceFault site
      let charged := charged + bytes.length
      refuse (count ≥ maxCurrentSources ∨ charged > maxCurrentSourceBytes) .inventoryLimit
      let source ← decodeRecord bytes
      refuse (id ≠ source.sourceId.bytes ∨ source.sourceNamespaceId ≠ namespaceId) .corrupt
      let indexed ← okOr locators[source.locator]? .corrupt
      refuse (indexed ≠ source.sourceId.bytes) .corrupt
      let charged := charged + source.locator.length
      refuse (charged > maxCurrentSourceBytes) .inventoryLimit
      let rest ← inventoryRows env namespaceId locators (site + 1) (count + 1) charged rows
      return source :: rest

/-- Match every stored locator with the row it names, each row once. -/
def inventoryLocators (env : Env) :
    Nat → Nat → Table → List (Bytes × Bytes) → Except SourceControlError (Nat × Table)
  | _, count, reverse, [] => .ok (count, reverse)
  | site, count, reverse, (locator, id) :: locators => do
      env.check sourceFault site
      let count := count + 1
      refuse (count > maxCurrentSources) .inventoryLimit
      refuse (reverse[id]? ≠ some locator) .corrupt
      inventoryLocators env (site + 1) count (reverse.erase id) locators

/-- The locators of the rows read, by identity. -/
def reverseIndex (sources : List CurrentSourceRecord) : Table :=
  sources.foldl (fun reverse source => reverse.insert source.sourceId.bytes source.locator) ∅

/-- Capture every current source and validate its reverse locator binding in
one read snapshot. -/
def captureCurrentSources (env : Env) (db : Db) :
    Except SourceControlError (List CurrentSourceRecord) := do
  env.check sourceFault 0
  if ← catalogueNames db.listTables db.hasMultimap then
    let stored ← readNamespace db
    let namespaceId ← okOr stored .corrupt
    let rows ← okOr db.sourceRows .corrupt
    let locators ← okOr db.sourceLocators .corrupt
    let sources ← inventoryRows env namespaceId locators 2 0 0 rows.toList
    let (locatorCount, reverse) ←
      inventoryLocators env (2 + sources.length) 0 (reverseIndex sources) locators.toList
    refuse (locatorCount ≠ sources.length ∨ ¬ reverse.isEmpty) .corrupt
    env.check sourceFault 1
    return sources
  else return []

/-! ## Admitted selections -/

/-- Decode the selection records of the source state, charging each. -/
def readSelections (env : Env) :
    Nat → Nat → Nat → List (Bytes × Bytes) → Except SourceControlError (List AdmittedSelection)
  | _, _, _, [] => .ok []
  | site, count, charged, (key, value) :: rows => do
      env.check sourceFault site
      if selectionPrefix.isPrefixOf key then
        let charged := charged + (key.length + value.length)
        refuse (count ≥ maxCurrentSources ∨ charged > maxCurrentSourceBytes) .inventoryLimit
        let selection ← decodeSelection key value
        let rest ← readSelections env (site + 1) (count + 1) charged rows
        return selection :: rest
      else readSelections env (site + 1) count charged rows

/-- Reload the desired selections from the source state. -/
def captureSelections (env : Env) (db : Db) :
    Except SourceControlError (List AdmittedSelection) := do
  env.check sourceFault 0
  if ← catalogueNames db.listTables db.hasMultimap then
    let stored ← readNamespace db
    let _ ← okOr stored .corrupt
    let state ← okOr db.sourceState .corrupt
    let selections ← readSelections env 2 0 0 state.toList
    env.check sourceFault 1
    return selections
  else return []

end EliotSearch.Control
