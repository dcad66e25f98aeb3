import EliotSearch.Library.Hex
import EliotSearch.Library.Json
import EliotSearch.Library.Options
import EliotSearch.Library.Results
import EliotSearch.Library.Utf8

/-!
# Arguments of the root commands

How the command line parses the arguments of a root command and which arguments it
forwards to the daemon.  An argument is a native string of bytes; where the parser
remembers only that an option was seen, its value is kept here.
-/

namespace EliotSearch.Commands

open EliotSearch.Library
open EliotSearch.Library.Hex
open EliotSearch.Library.Json
open EliotSearch.Library.Options
open EliotSearch.Library.Results

def maxPathBytes : Nat := 32 * 1024

def maxItems : Nat := 64

/-- `str::parse` of a 64-bit number: digits, perhaps after a plus sign. -/
def parseU64 (value : Bytes) : Option UInt64 :=
  let digits := if value.head? = some 43 then value.tail else value
  if digits ≠ [] ∧ digits.all isDigit ∧ decimalValue digits < 2 ^ 64 then
    some (UInt64.ofNat (decimalValue digits))
  else none

/-! ## Commands -/

inductive RootCommand where
  | inspect
  | initializeRoot
  | checkExistingOwner
  | discardIncomplete
  | retainFile
  | prepareSource
  | publishPrepared
  | index
  | search
  deriving DecidableEq

namespace RootCommand

def name : RootCommand → Bytes
  | inspect => ascii "inspect-data-root"
  | initializeRoot => ascii "initialize-data-root"
  | checkExistingOwner => ascii "check-existing-root-owner"
  | discardIncomplete => ascii "discard-incomplete-data-root"
  | retainFile => ascii "retain-file"
  | prepareSource => ascii "prepare-source"
  | publishPrepared => ascii "publish-prepared"
  | index => ascii "index"
  | search => ascii "search"

def daemonFlag : RootCommand → Bytes
  | inspect => ascii "--inspect-data-root"
  | initializeRoot => ascii "--initialize-data-root"
  | checkExistingOwner => ascii "--check-existing-root-owner"
  | discardIncomplete => ascii "--discard-incomplete-data-root"
  | retainFile => ascii "--retain-file"
  | prepareSource => ascii "--prepare-source"
  | publishPrepared => ascii "--publish-prepared"
  | index => ascii "--index"
  | search => ascii "--search-stdio"

def all : List RootCommand :=
  [inspect, initializeRoot, checkExistingOwner, discardIncomplete, retainFile, prepareSource,
    publishPrepared, index, search]

end RootCommand

inductive UsageError where
  | usage
  | unknownCommand
  | unknownArgument
  deriving DecidableEq

def isHelpFlag (value : Bytes) : Bool := value = ascii "--help" ∨ value = ascii "-h"

def isVersionFlag (value : Bytes) : Bool := value = ascii "--version" ∨ value = ascii "-V"

def isHelpCommand (value : Bytes) : Bool := value = ascii "help"

def isVersionCommand (value : Bytes) : Bool := value = ascii "version"

def command (value : Bytes) : Option RootCommand :=
  RootCommand.all.find? fun command => command.name = value

def isDaemonRootFlag (value : Bytes) : Bool :=
  value ∈ [ascii "--inspect-data-root", ascii "--initialize-data-root",
    ascii "--check-existing-root-owner", ascii "--discard-incomplete-data-root",
    ascii "--retain-file", ascii "--prepare-source", ascii "--publish-prepared", ascii "--index",
    ascii "--search-stdio", ascii "--session-stdio"]

def validatePath (value : Bytes) : Except UsageError Unit :=
  refuse (value = [] ∨ value.length > maxPathBytes ∨ 0 ∈ value) .usage

/-! ## Options -/

/-- A native path behind its option. -/
def pathOption (next : Option Bytes) : Except UsageError Bytes := do
  let value ← okOr next .usage
  validatePath value
  refuse (isHelpFlag value ∨ isVersionFlag value ∨ isDaemonRootFlag value) .usage
  return value

/-- The text is spelled like an identifier. -/
def isUuidText (value : Bytes) : Bool :=
  value.length = 36 ∧ ∀ position ∈ List.range 36, ∀ byte ∈ value[position]?,
    if position ∈ [8, 13, 18, 23] then byte = dash else IsLowerHex byte

def canonicalDecimal (value : Bytes) (allowZero : Bool) : Option UInt64 :=
  (parseU64 value).filter fun parsed =>
    ¬ ((allowZero = false ∧ parsed = 0) ∨ decimal parsed.toNat ≠ value)

/-- An option value that is text. -/
def textOption (next : Option Bytes) : Except UsageError Bytes := do
  let value ← okOr next .usage
  refuse (¬ Utf8.Valid value) .usage
  return value

/-- What the parser has read, and the settings for the daemon. -/
structure Selection where
  settings : List Bytes
  daemon : Option Bytes
  dataRoot : Option Bytes
  positionalRoot : Option Bytes
  configFile : Option Bytes
  sourceFile : Option Bytes
  indexPath : Option Bytes
  sourceId : Option Bytes
  unit : Option UInt64
  endpoint : Option Bytes
  query : Option Bytes
  limit : Option UInt64

namespace Selection

def empty : Selection := ⟨[], none, none, none, none, none, none, none, none, none, none, none⟩

/-- Forward one argument. -/
def push (argument : Bytes) (selection : Selection) : Selection :=
  { selection with settings := selection.settings ++ [argument] }

/-- Forward an option with its value. -/
def forward (option value : Bytes) (selection : Selection) : Selection :=
  (selection.push option).push value

/-- The selectors of one source; an argument that is none of them is left. -/
def takePreparation (command : RootCommand) (argument : Bytes) (next : Option Bytes)
    (selection : Selection) : Except UsageError (Option Selection) :=
  if argument = ascii "--source-id" then do
    refuse (selection.sourceId.isSome ∨ command ≠ .prepareSource) .usage
    let value ← textOption next
    refuse (isUuidText value = false) .usage
    return some ({ selection with sourceId := some value }.forward argument value)
  else if argument = ascii "--unit" then do
    refuse (selection.unit.isSome ∨ command ≠ .prepareSource) .usage
    let value ← textOption next
    let unit ← okOr (canonicalDecimal value true) .usage
    return some ({ selection with unit := some unit }.forward argument value)
  else return none

/-- Keep the value of an endpoint, a query or a limit. -/
def putPublication (argument value : Bytes) (selection : Selection) :
    Except UsageError Selection :=
  if argument = ascii "--limit" then do
    refuse selection.limit.isSome .usage
    let limit ← okOr ((canonicalDecimal value false).filter fun limit =>
      limit.toNat ≤ maxItems) .usage
    return { selection with limit := some limit }
  else do
    refuse (value = [] ∨ value.length > 4096 ∨ 0 ∈ value) .usage
    refuse (if argument = ascii "--query" then selection.query.isSome
      else selection.endpoint.isSome) .usage
    return if argument = ascii "--query" then { selection with query := some value }
      else { selection with endpoint := some value }

/-- The endpoint, and the query of a search, which is not forwarded. -/
def takePublication (command : RootCommand) (argument : Bytes) (next : Option Bytes)
    (selection : Selection) : Except UsageError (Option Selection) :=
  if argument ≠ ascii "--qdrant-url" ∧ argument ≠ ascii "--query" ∧
      argument ≠ ascii "--limit" then return none
  else do
    refuse (command ≠ .publishPrepared ∧ command ≠ .index ∧ command ≠ .search) .usage
    refuse (command ≠ .search ∧ argument ≠ ascii "--qdrant-url") .usage
    let value ← textOption next
    let selection ← selection.putPublication argument value
    return some (if command ≠ .search ∨ argument = ascii "--qdrant-url" then
      selection.forward argument value else selection)

/-- A position: the path of an index, or else the data root. -/
def takePosition (command : RootCommand) (argument : Bytes) (selection : Selection) :
    Except UsageError Selection := do
  validatePath argument
  if command = .index then do
    refuse selection.indexPath.isSome .usage
    return { selection with indexPath := some argument }.forward (ascii "--index-path") argument
  else do
    refuse (selection.positionalRoot.isSome ∨ selection.dataRoot.isSome) .usage
    return { selection with positionalRoot := some argument }.push argument

/-- One argument of a root command, and whether the next one is its value. -/
def take (command : RootCommand) (argument : Bytes) (next : Option Bytes)
    (selection : Selection) : Except UsageError (Bool × Selection) :=
  if isHelpFlag argument ∨ isVersionFlag argument ∨ isDaemonRootFlag argument then .error .usage
  else if argument = ascii "--daemon" then do
    refuse selection.daemon.isSome .usage
    let value ← pathOption next
    return (true, { selection with daemon := some value })
  else if argument = ascii "--data-root" then do
    refuse (selection.dataRoot.isSome ∨ selection.positionalRoot.isSome) .usage
    let value ← pathOption next
    return (true, { selection with dataRoot := some value }.forward argument value)
  else if argument = ascii "--config-file" then do
    refuse selection.configFile.isSome .usage
    let value ← pathOption next
    return (true, { selection with configFile := some value }.forward argument value)
  else if argument = ascii "--file" then do
    refuse (selection.sourceFile.isSome ∨ command ≠ .retainFile) .usage
    let value ← okOr next .usage
    validatePath value
    return (true, { selection with sourceFile := some value }.forward (ascii "--source-file") value)
  else do
    match ← selection.takePreparation command argument next with
    | some selection => return (true, selection)
    | none =>
        match ← selection.takePublication command argument next with
        | some selection => return (true, selection)
        | none =>
            if (selection.indexPath.isSome ∨ command ≠ .index) ∧ Utf8.Valid argument ∧
                ascii "--" <+: argument then .error .unknownArgument
            else do
              let selection ← selection.takePosition command argument
              return (false, selection)

/-- Which selectors a command needs, and which it does not take. -/
def validateRequestSelection (command : RootCommand) (selection : Selection) :
    Except UsageError Unit := do
  let file := selection.sourceFile.isSome
  let id := selection.sourceId.isSome
  let validSource : Bool :=
    match command with
    | .retainFile => file && !id
    | .prepareSource => id && !file
    | _ => !file && !id
  refuse (validSource = false) .usage
  refuse (decide (command = .publishPrepared ∨ command = .index ∨ command = .search) ≠
      selection.endpoint.isSome ∨
    (selection.indexPath.isSome ∧ command ≠ .index) ∨
    (selection.limit.isSome ∧ selection.query.isNone) ∨
    (command = .search ∧ selection.query.isNone)) .usage

end Selection

/-! ## The parser -/

inductive Parsed where
  | help
  | version
  | standalone
  | root (command : RootCommand) (selection : Selection)

/-- Commands with a parser of their own (watch, exact, session), help and version. -/
def standaloneInvocation (arguments : List Bytes) : Option Parsed :=
  if arguments = [] then some .help
  else if arguments.head? = some (ascii "watch") ∨ arguments.head? = some (ascii "exact") ∨
      arguments.head? = some (ascii "session") then some .standalone
  else if arguments.length = 1 ∧ arguments.head?.any (fun first =>
      isHelpFlag first || isHelpCommand first) then some .help
  else if arguments.length = 1 ∧ arguments.head?.any (fun first =>
      isVersionFlag first || isVersionCommand first) then some .version
  else none

def parse (arguments : List Bytes) : Except UsageError Parsed :=
  match standaloneInvocation arguments with
  | some parsed => .ok parsed
  | none => do
      let command ← okOr (arguments.head?.bind command) .unknownCommand
      let selection ← scan (Selection.take command) arguments.tail .empty
      selection.validateRequestSelection command
      return .root command selection

/-- The arguments of the daemon: the flag of the command and its settings. -/
def daemonArguments (command : RootCommand) (selection : Selection) : List Bytes :=
  command.daemonFlag :: selection.settings

end EliotSearch.Commands
