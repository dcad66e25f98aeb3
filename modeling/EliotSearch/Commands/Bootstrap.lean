import EliotSearch.Commands.Arguments

/-!
# The arguments of the daemon

How the daemon parses its own arguments.
-/

namespace EliotSearch.Commands.Bootstrap

open EliotSearch.Library
open EliotSearch.Library.Hex
open EliotSearch.Library.Json
open EliotSearch.Library.Options
open EliotSearch.Library.Results

inductive RootCommand where
  | inspect
  | initializeRoot
  | checkExistingOwner
  | discardIncomplete
  | retainFile
  | prepareSource
  | publishPrepared
  | index
  | search
  | session
  deriving DecidableEq

namespace RootCommand

/-- The argument that selects the command. -/
def flag : RootCommand → Bytes
  | inspect => ascii "--inspect-data-root"
  | initializeRoot => ascii "--initialize-data-root"
  | checkExistingOwner => ascii "--check-existing-root-owner"
  | discardIncomplete => ascii "--discard-incomplete-data-root"
  | retainFile => ascii "--retain-file"
  | prepareSource => ascii "--prepare-source"
  | publishPrepared => ascii "--publish-prepared"
  | index => ascii "--index"
  | search => ascii "--search-stdio"
  | session => ascii "--session-stdio"

def all : List RootCommand :=
  [inspect, initializeRoot, checkExistingOwner, discardIncomplete, retainFile, prepareSource,
    publishPrepared, index, search, session]

end RootCommand

/-- Failures of the parser; an invalid setting is named. -/
inductive BootstrapError where
  | invalid (kind : String)
  | boundsExceeded
  | usage
  | unknownArgument
  deriving DecidableEq

def isCommand (value : Bytes) : Option RootCommand :=
  RootCommand.all.find? fun command => command.flag = value

def boundedPath (value : Bytes) (kind : String) : Except BootstrapError Bytes := do
  refuse (value = []) (.invalid kind)
  refuse (value.length > maxPathBytes) .boundsExceeded
  refuse (0 ∈ value) (.invalid kind)
  return value

/-- The value looks like a command or a help or version flag. -/
def isReserved (value : Bytes) : Bool :=
  isHelpFlag value || isVersionFlag value || (isCommand value).isSome

/-- An option value that cannot be taken for another command. -/
def optionValue (next : Option Bytes) (kind : String) : Except BootstrapError Bytes := do
  let value ← okOr next (.invalid kind)
  refuse (isReserved value) (.invalid "conflicting_command")
  return value

def selectPathOption (selected : Option Bytes) (next : Option Bytes) (kind : String) :
    Except BootstrapError Bytes := do
  refuse selected.isSome (.invalid (kind ++ "_duplicate"))
  let value ← optionValue next (kind ++ "_value")
  boundedPath value kind

def unitIndex (value : Bytes) : Except BootstrapError UInt64 := do
  refuse (¬ Utf8.Valid value) (.invalid "unit")
  let parsed ← okOr (parseU64 value) (.invalid "unit")
  refuse (decimal parsed.toNat ≠ value) (.invalid "unit")
  return parsed

/-! ## Options -/

/-- What the parser has read. -/
structure Options where
  command : Option RootCommand
  dataRoot : Option Bytes
  configFile : Option Bytes
  sourceFile : Option Bytes
  indexPath : Option Bytes
  ownerStdio : Bool
  sourceId : Option (Octets 16)
  unit : Option UInt64
  endpoint : Option Bytes
  positionalRoot : Option Bytes

namespace Options

def empty : Options := ⟨none, none, none, none, none, false, none, none, none, none⟩

/-- The options of an index; an argument that is none of them is left. -/
def takeIndex (argument : Bytes) (next : Option Bytes) (options : Options) :
    Except BootstrapError (Option (Bool × Options)) :=
  if argument = ascii "--index-path" then do
    refuse (options.indexPath.isSome ∨ options.command ≠ some .index) (.invalid "index_path")
    let value ← okOr next (.invalid "index_path_value")
    let path ← boundedPath value "index_path"
    return some (true, { options with indexPath := some path })
  else if argument = ascii "--index-owner-stdio" then do
    refuse (options.ownerStdio = true ∨ options.command ≠ some .index)
      (.invalid "index_owner_stdio")
    return some (false, { options with ownerStdio := true })
  else return none

def takePublication (argument : Bytes) (next : Option Bytes) (options : Options) :
    Except BootstrapError (Option Options) :=
  if argument = ascii "--qdrant-url" then do
    let value ← okOr (next.filter fun value =>
      Utf8.Valid value ∧ value ≠ [] ∧ value.length ≤ 4096 ∧ ¬ 0 ∈ value)
      (.invalid "publication_argument")
    refuse options.endpoint.isSome (.invalid "publication_duplicate")
    return some { options with endpoint := some value }
  else return none

/-- The selectors of one source. -/
def takeSource (argument : Bytes) (next : Option Bytes) (options : Options) :
    Except BootstrapError (Option Options) :=
  if argument = ascii "--source-id" then do
    refuse options.sourceId.isSome (.invalid "source_id_duplicate")
    let value ← optionValue next "source_id"
    refuse (¬ Utf8.Valid value) (.invalid "source_id")
    let sourceId ← okOr (parseUuid value) (.invalid "source_id")
    return some { options with sourceId := some sourceId }
  else if argument = ascii "--unit" then do
    refuse options.unit.isSome (.invalid "unit_duplicate")
    let value ← optionValue next "unit"
    let unit ← unitIndex value
    return some { options with unit := some unit }
  else return none

/-- Whatever is no option of its own is the data root. -/
def takePosition (argument : Bytes) (options : Options) : Except BootstrapError Options := do
  refuse (Utf8.Valid argument ∧ ascii "--" <+: argument) .unknownArgument
  refuse options.positionalRoot.isSome .usage
  let path ← boundedPath argument "data_root"
  return { options with positionalRoot := some path }

/-- One argument, and whether the next one is its value. -/
def take (argument : Bytes) (next : Option Bytes) (options : Options) :
    Except BootstrapError (Bool × Options) :=
  if isHelpFlag argument ∨ isVersionFlag argument then .error (.invalid "conflicting_command")
  else
    match isCommand argument with
    | some command => do
        refuse options.command.isSome .usage
        return (false, { options with command := some command })
    | none =>
        if argument = ascii "--data-root" then do
          let value ← selectPathOption options.dataRoot next "data_root"
          return (true, { options with dataRoot := some value })
        else if argument = ascii "--config-file" then do
          let value ← selectPathOption options.configFile next "config_file"
          return (true, { options with configFile := some value })
        else if argument = ascii "--source-file" then do
          let value ← selectPathOption options.sourceFile next "source_file"
          return (true, { options with sourceFile := some value })
        else do
          match ← options.takeIndex argument next with
          | some taken => return taken
          | none =>
              match ← options.takeSource argument next with
              | some options => return (true, options)
              | none =>
                  match ← options.takePublication argument next with
                  | some options => return (true, options)
                  | none => do
                      let options ← options.takePosition argument
                      return (false, options)

end Options

/-! ## The parser -/

/-- The typed selectors of a root command. -/
structure RootCli where
  command : RootCommand
  dataRoot : Option Bytes
  configFile : Option Bytes
  sourceFile : Option Bytes
  indexPath : Option Bytes
  indexOwnerStdio : Bool
  sourceId : Option (Octets 16)
  unit : Option UInt64
  publication : Option Bytes
  searchEndpoint : Option Bytes

inductive Parsed where
  | help
  | version
  | root (cli : RootCli)

/-- The endpoint of a publication and that of a search. -/
def finishPublication (command : RootCommand) (endpoint : Option Bytes) :
    Except BootstrapError (Option Bytes × Option Bytes) :=
  if command = .search ∨ command = .session then return (none, endpoint)
  else do
    refuse (decide (command = .publishPrepared ∨ command = .index) ≠ endpoint.isSome)
      (.invalid "publication_selection")
    return (endpoint, none)

def validateSourceSelection (command : RootCommand) (file id unit : Bool) :
    Except BootstrapError Unit := do
  refuse (decide (command = .retainFile) ≠ file) (.invalid "source_file_required")
  refuse (decide (command = .prepareSource) ≠ id ∨ (unit = true ∧ command ≠ .prepareSource))
    (.invalid "source_id_or_unit")

def localInvocation (arguments : List Bytes) : Option Parsed :=
  if arguments = [] then some .help
  else if arguments.length = 1 ∧ arguments.head?.any (fun first =>
      isHelpFlag first || isHelpCommand first) then some .help
  else if arguments.length = 1 ∧ arguments.head?.any (fun first =>
      isVersionFlag first || isVersionCommand first) then some .version
  else none

/-- The checks after the last argument. -/
def finish (options : Options) : Except BootstrapError RootCli := do
  let command ← okOr options.command .unknownArgument
  let (publication, searchEndpoint) ← finishPublication command options.endpoint
  validateSourceSelection command options.sourceFile.isSome options.sourceId.isSome
    options.unit.isSome
  refuse ((options.indexPath.isSome ∨ options.ownerStdio = true) ∧ command ≠ .index)
    (.invalid "index_path")
  refuse (options.dataRoot.isSome ∧ options.positionalRoot.isSome) (.invalid "data_root_duplicate")
  return {
    command
    dataRoot := options.dataRoot.or options.positionalRoot
    configFile := options.configFile
    sourceFile := options.sourceFile
    indexPath := options.indexPath
    indexOwnerStdio := options.ownerStdio
    sourceId := options.sourceId
    unit := options.unit
    publication
    searchEndpoint }

def parse (arguments : List Bytes) : Except BootstrapError Parsed :=
  match localInvocation arguments with
  | some parsed => .ok parsed
  | none => do
      let options ← scan Options.take arguments .empty
      let cli ← finish options
      return .root cli

end EliotSearch.Commands.Bootstrap
