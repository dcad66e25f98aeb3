import EliotSearch.Commands.Bootstrap

/-!
# Forwarded arguments

What the command line forwards is read by the daemon as the same selectors, unless the
path of a file looks like an option that the daemon sets apart.
-/

namespace EliotSearch.Commands

open EliotSearch.Library
open EliotSearch.Library.Hex
open EliotSearch.Library.Json
open EliotSearch.Library.Options
open EliotSearch.Library.Results

/-! ## What the command line reads -/

/-- The options that have a value. -/
def takesValue (argument : Bytes) : Bool :=
  argument ∈ [ascii "--daemon", ascii "--data-root", ascii "--config-file", ascii "--file",
    ascii "--source-id", ascii "--unit", ascii "--qdrant-url", ascii "--query", ascii "--limit"]

/-- The path can be one of the daemon. -/
def IsPath (value : Bytes) : Prop := value ≠ [] ∧ value.length ≤ maxPathBytes ∧ ¬ 0 ∈ value

/-- The text can be an endpoint. -/
def IsEndpoint (value : Bytes) : Prop :=
  Utf8.Valid value ∧ value ≠ [] ∧ value.length ≤ 4096 ∧ ¬ 0 ∈ value

instance (value : Bytes) : Decidable (IsEndpoint value) :=
  inferInstanceAs (Decidable (_ ∧ _))

/-- The value is none of the flags that stand alone. -/
def IsPlain (value : Bytes) : Prop :=
  isHelpFlag value = false ∧ isVersionFlag value = false ∧ isDaemonRootFlag value = false

/-- The effect of one accepted argument. -/
inductive Taken (command : RootCommand) (argument : Bytes) (selection : Selection) :
    Option Bytes → Bool → Selection → Prop where
  | daemon (value : Bytes) (hargument : argument = ascii "--daemon") :
      Taken command argument selection (some value) true { selection with daemon := some value }
  | dataRoot (value : Bytes) (hargument : argument = ascii "--data-root")
      (hfree : selection.dataRoot = none ∧ selection.positionalRoot = none)
      (hpath : IsPath value) (hplain : IsPlain value) :
      Taken command argument selection (some value) true
        ({ selection with dataRoot := some value }.forward argument value)
  | configFile (value : Bytes) (hargument : argument = ascii "--config-file")
      (hfree : selection.configFile = none) (hpath : IsPath value) (hplain : IsPlain value) :
      Taken command argument selection (some value) true
        ({ selection with configFile := some value }.forward argument value)
  | sourceFile (value : Bytes) (hargument : argument = ascii "--file")
      (hfree : selection.sourceFile = none) (hpath : IsPath value) :
      Taken command argument selection (some value) true
        ({ selection with sourceFile := some value }.forward (ascii "--source-file") value)
  | sourceId (value : Bytes) (hargument : argument = ascii "--source-id")
      (hfree : selection.sourceId = none) (hvalid : Utf8.Valid value)
      (huuid : isUuidText value = true) :
      Taken command argument selection (some value) true
        ({ selection with sourceId := some value }.forward argument value)
  | unit (value : Bytes) (unit : UInt64) (hargument : argument = ascii "--unit")
      (hfree : selection.unit = none) (hcommand : command = .prepareSource)
      (hvalid : Utf8.Valid value) (hdecimal : canonicalDecimal value true = some unit) :
      Taken command argument selection (some value) true
        ({ selection with unit := some unit }.forward argument value)
  | endpoint (value : Bytes) (hargument : argument = ascii "--qdrant-url")
      (hfree : selection.endpoint = none) (hendpoint : IsEndpoint value) :
      Taken command argument selection (some value) true
        ({ selection with endpoint := some value }.forward argument value)
  | query (value : Bytes) (hargument : argument = ascii "--query") :
      Taken command argument selection (some value) true { selection with query := some value }
  | limit (value : Bytes) (limit : UInt64) (hargument : argument = ascii "--limit") :
      Taken command argument selection (some value) true { selection with limit := some limit }
  | indexPath (next : Option Bytes) (hvalue : takesValue argument = false)
      (hcommand : command = .index) (hfree : selection.indexPath = none)
      (hpath : IsPath argument) :
      Taken command argument selection next false
        ({ selection with indexPath := some argument }.forward (ascii "--index-path") argument)
  | positionalRoot (next : Option Bytes) (hvalue : takesValue argument = false)
      (hfree : selection.positionalRoot = none ∧ selection.dataRoot = none)
      (hpath : IsPath argument) (hplain : IsPlain argument)
      (hbare : ¬ (Utf8.Valid argument ∧ ascii "--" <+: argument)) :
      Taken command argument selection next false
        ({ selection with positionalRoot := some argument }.push argument)

theorem validatePath_eq_ok {value : Bytes} {result : Unit} :
    validatePath value = .ok result ↔ IsPath value := by
  rw [validatePath, refuse_eq_ok, IsPath, not_or, not_or, not_lt]

theorem pathOption_eq_ok {next : Option Bytes} {value : Bytes} :
    pathOption next = .ok value ↔ next = some value ∧ IsPath value ∧ IsPlain value := by
  simp only [pathOption, bind_eq_ok, okOr_eq_ok, validatePath_eq_ok, refuse_eq_ok, pure_eq_ok,
    Except.ok.injEq, not_or, Bool.not_eq_true, IsPlain]
  constructor
  · rintro ⟨found, hnext, _, hpath, _, hplain, rfl⟩
    exact ⟨hnext, hpath, hplain⟩
  · rintro ⟨hnext, hpath, hplain⟩
    exact ⟨value, hnext, (), hpath, (), hplain, rfl⟩

theorem textOption_eq_ok {next : Option Bytes} {value : Bytes} :
    textOption next = .ok value ↔ next = some value ∧ Utf8.Valid value := by
  simp only [textOption, bind_eq_ok, okOr_eq_ok, refuse_eq_ok, pure_eq_ok, Except.ok.injEq,
    not_not]
  constructor
  · rintro ⟨found, hnext, _, hvalid, rfl⟩
    exact ⟨hnext, hvalid⟩
  · rintro ⟨hnext, hvalid⟩
    exact ⟨value, hnext, (), hvalid, rfl⟩

namespace Selection

variable {command : RootCommand} {argument : Bytes} {next : Option Bytes}
  {selection after : Selection}

theorem takePreparation_taken (haccepted :
    selection.takePreparation command argument next = .ok (some after)) :
    ∃ value, next = some value ∧ Taken command argument selection (some value) true after := by
  unfold takePreparation at haccepted
  split at haccepted
  · rename_i hargument
    simp only [bind_eq_ok, refuse_eq_ok, textOption_eq_ok, pure_eq_ok, Except.ok.injEq,
      Option.some.injEq, not_or, not_not, Bool.not_eq_false, Option.not_isSome_iff_eq_none]
      at haccepted
    obtain ⟨_, ⟨hfree, -⟩, value, ⟨hnext, hvalid⟩, _, huuid, rfl⟩ := haccepted
    exact ⟨value, hnext, .sourceId value hargument hfree hvalid huuid⟩
  · split at haccepted
    · rename_i hargument
      simp only [bind_eq_ok, refuse_eq_ok, textOption_eq_ok, okOr_eq_ok, pure_eq_ok,
        Except.ok.injEq, Option.some.injEq, not_or, not_not, Option.not_isSome_iff_eq_none]
        at haccepted
      obtain ⟨_, ⟨hfree, hcommand⟩, value, ⟨hnext, hvalid⟩, unit, hdecimal, rfl⟩ := haccepted
      exact ⟨value, hnext, .unit value unit hargument hfree hcommand hvalid hdecimal⟩
    · cases haccepted

theorem takePreparation_left (haccepted :
    selection.takePreparation command argument next = .ok none) :
    argument ≠ ascii "--source-id" ∧ argument ≠ ascii "--unit" := by
  unfold takePreparation at haccepted
  split at haccepted
  · simp only [bind_eq_ok, pure_eq_ok, Except.ok.injEq, reduceCtorEq, and_false, exists_false]
      at haccepted
  · split at haccepted
    · simp only [bind_eq_ok, pure_eq_ok, Except.ok.injEq, reduceCtorEq, and_false, exists_false]
        at haccepted
    · rename_i hid hunit
      exact ⟨hid, hunit⟩

theorem takePublication_left (haccepted :
    selection.takePublication command argument next = .ok none) :
    argument ≠ ascii "--qdrant-url" ∧ argument ≠ ascii "--query" ∧ argument ≠ ascii "--limit" := by
  unfold takePublication at haccepted
  split at haccepted
  · assumption
  · simp only [bind_eq_ok, pure_eq_ok, Except.ok.injEq, reduceCtorEq, and_false, exists_false]
      at haccepted

theorem takePublication_taken (haccepted :
    selection.takePublication command argument next = .ok (some after)) :
    ∃ value, next = some value ∧ Taken command argument selection (some value) true after := by
  unfold takePublication at haccepted
  split at haccepted
  · cases haccepted
  · rename_i hknown
    simp only [bind_eq_ok, refuse_eq_ok, textOption_eq_ok, pure_eq_ok, Except.ok.injEq,
      Option.some.injEq] at haccepted
    obtain ⟨_, -, _, hsearch, value, ⟨hnext, hvalid⟩, changed, hchanged, hresult⟩ := haccepted
    refine ⟨value, hnext, ?_⟩
    unfold putPublication at hchanged
    -- A query and its limit are those of a search, and stay with the command line.
    have hkept : argument ≠ ascii "--qdrant-url" → after = changed := by
      intro hurl
      have hcommand : command = .search := by
        by_contra hother
        exact hsearch ⟨hother, hurl⟩
      rw [if_neg (not_or.mpr ⟨not_not.mpr hcommand, hurl⟩)] at hresult
      exact hresult.symm
    by_cases hlimit : argument = ascii "--limit"
    · rw [if_pos hlimit] at hchanged
      simp only [bind_eq_ok, refuse_eq_ok, okOr_eq_ok, pure_eq_ok, Except.ok.injEq] at hchanged
      obtain ⟨_, -, limit, -, rfl⟩ := hchanged
      obtain rfl := hkept (by rw [hlimit]; decide)
      exact .limit value limit hlimit
    · rw [if_neg hlimit] at hchanged
      simp only [bind_eq_ok, refuse_eq_ok, pure_eq_ok, Except.ok.injEq, not_or, not_lt]
        at hchanged
      obtain ⟨_, ⟨hnonempty, hshort, hnul⟩, _, hfree, hvalue⟩ := hchanged
      by_cases hquery : argument = ascii "--query"
      · rw [if_pos hquery] at hvalue
        subst hvalue
        obtain rfl := hkept (by rw [hquery]; decide)
        exact .query value hquery
      · rw [if_neg hquery] at hvalue hfree
        subst hvalue
        have hurl : argument = ascii "--qdrant-url" := by
          by_contra hother
          exact hknown ⟨hother, hquery, hlimit⟩
        rw [if_pos (Or.inr hurl)] at hresult
        subst hresult
        exact .endpoint value hurl (Option.not_isSome_iff_eq_none.mp hfree)
          ⟨hvalid, hnonempty, hshort, hnul⟩

theorem takePosition_taken (hvalue : takesValue argument = false) (hplain : IsPlain argument)
    (hdashes : ¬ ((selection.indexPath.isSome = true ∨ command ≠ .index) ∧
      Utf8.Valid argument ∧ ascii "--" <+: argument))
    (haccepted : selection.takePosition command argument = .ok after) :
    Taken command argument selection next false after := by
  simp only [takePosition, bind_eq_ok, validatePath_eq_ok] at haccepted
  obtain ⟨_, hpath, haccepted⟩ := haccepted
  split at haccepted
  · rename_i hcommand
    simp only [bind_eq_ok, refuse_eq_ok, pure_eq_ok, Except.ok.injEq,
      Option.not_isSome_iff_eq_none] at haccepted
    obtain ⟨_, hfree, rfl⟩ := haccepted
    exact .indexPath next hvalue hcommand hfree hpath
  · rename_i hcommand
    simp only [bind_eq_ok, refuse_eq_ok, pure_eq_ok, Except.ok.injEq, not_or,
      Option.not_isSome_iff_eq_none] at haccepted
    obtain ⟨_, hfree, rfl⟩ := haccepted
    exact .positionalRoot next hvalue hfree hpath hplain fun hbare =>
      hdashes ⟨Or.inr hcommand, hbare⟩

/-- Every accepted argument has one of the effects. -/
theorem take_taken {used : Bool}
    (haccepted : selection.take command argument next = .ok (used, after)) :
    Taken command argument selection next used after := by
  unfold take at haccepted
  split at haccepted
  · cases haccepted
  · rename_i hflags
    rw [not_or, not_or, Bool.not_eq_true, Bool.not_eq_true, Bool.not_eq_true] at hflags
    split at haccepted
    · rename_i hargument
      simp only [bind_eq_ok, refuse_eq_ok, pathOption_eq_ok, pure_eq_ok, Except.ok.injEq,
        Prod.mk.injEq] at haccepted
      obtain ⟨_, -, value, ⟨rfl, -⟩, rfl, rfl⟩ := haccepted
      exact .daemon value hargument
    · rename_i hdaemon
      split at haccepted
      · rename_i hargument
        simp only [bind_eq_ok, refuse_eq_ok, pathOption_eq_ok, pure_eq_ok, Except.ok.injEq,
          Prod.mk.injEq, not_or, Option.not_isSome_iff_eq_none] at haccepted
        obtain ⟨_, hfree, value, ⟨rfl, hpath, hplain⟩, rfl, rfl⟩ := haccepted
        exact .dataRoot value hargument hfree hpath hplain
      · rename_i hroot
        split at haccepted
        · rename_i hargument
          simp only [bind_eq_ok, refuse_eq_ok, pathOption_eq_ok, pure_eq_ok, Except.ok.injEq,
            Prod.mk.injEq, Option.not_isSome_iff_eq_none] at haccepted
          obtain ⟨_, hfree, value, ⟨rfl, hpath, hplain⟩, rfl, rfl⟩ := haccepted
          exact .configFile value hargument hfree hpath hplain
        · rename_i hconfig
          split at haccepted
          · rename_i hargument
            simp only [bind_eq_ok, refuse_eq_ok, okOr_eq_ok, validatePath_eq_ok, pure_eq_ok,
              Except.ok.injEq, Prod.mk.injEq, not_or, Option.not_isSome_iff_eq_none] at haccepted
            obtain ⟨_, ⟨hfree, -⟩, value, rfl, _, hpath, rfl, rfl⟩ := haccepted
            exact .sourceFile value hargument hfree hpath
          · rename_i hfile
            rw [bind_eq_ok] at haccepted
            obtain ⟨preparation, hpreparation, haccepted⟩ := haccepted
            cases preparation with
            | some changed =>
                obtain ⟨rfl, rfl⟩ := Prod.mk.inj (Except.ok.inj haccepted)
                obtain ⟨value, rfl, htaken⟩ := takePreparation_taken hpreparation
                exact htaken
            | none =>
                obtain ⟨hid, hunit⟩ := takePreparation_left hpreparation
                dsimp only at haccepted
                rw [bind_eq_ok] at haccepted
                obtain ⟨publication, hpublication, haccepted⟩ := haccepted
                cases publication with
                | some changed =>
                    obtain ⟨rfl, rfl⟩ := Prod.mk.inj (Except.ok.inj haccepted)
                    obtain ⟨value, rfl, htaken⟩ := takePublication_taken hpublication
                    exact htaken
                | none =>
                    obtain ⟨hurl, hquery, hlimit⟩ := takePublication_left hpublication
                    have hvalue : takesValue argument = false := by
                      simp [takesValue, hdaemon, hroot, hconfig, hfile, hid, hunit, hurl, hquery,
                        hlimit]
                    dsimp only at haccepted
                    split at haccepted
                    · cases haccepted
                    · rename_i hdashes
                      simp only [bind_eq_ok, pure_eq_ok, Except.ok.injEq, Prod.mk.injEq]
                        at haccepted
                      obtain ⟨changed, hposition, rfl, rfl⟩ := haccepted
                      exact takePosition_taken hvalue hflags hdashes hposition

end Selection

/-! ## What the daemon reads -/

namespace Bootstrap

/-- The flags of the daemon's commands are those that the command line keeps out. -/
theorem isCommand_isSome (value : Bytes) : (isCommand value).isSome = isDaemonRootFlag value := by
  have hflags : isDaemonRootFlag value = decide (value ∈ RootCommand.all.map RootCommand.flag) :=
    rfl
  rw [hflags, Bool.eq_iff_iff, isCommand, List.find?_isSome, decide_eq_true_iff, List.mem_map]
  simp only [decide_eq_true_iff]

theorem isReserved_of_plain {value : Bytes} (hplain : IsPlain value) : isReserved value = false := by
  obtain ⟨hhelp, hversion, hflag⟩ := hplain
  rw [isReserved, hhelp, hversion, isCommand_isSome, hflag]
  rfl

theorem boundedPath_of {value : Bytes} (hpath : IsPath value) (kind : String) :
    boundedPath value kind = .ok value := by
  obtain ⟨hnonempty, hshort, hnul⟩ := hpath
  rw [boundedPath, refuse_of_not hnonempty, refuse_of_not (not_lt.mpr hshort), refuse_of_not hnul]
  rfl

theorem optionValue_of {value : Bytes} (hfree : isReserved value = false) (kind : String) :
    optionValue (some value) kind = .ok value := by
  rw [optionValue, okOr_some, ok_bind, refuse_of_not (by rw [hfree]; decide)]
  rfl

theorem selectPathOption_of {value : Bytes} (hpath : IsPath value)
    (hfree : isReserved value = false) (kind : String) :
    selectPathOption none (some value) kind = .ok value := by
  rw [selectPathOption, refuse_of_not (by decide), ok_bind, optionValue_of hfree, ok_bind,
    boundedPath_of hpath]

/-- A path of an option is never one that is set apart. -/
theorem selectPathOption_eq_ok {selected next : Option Bytes} {kind : String} {value : Bytes}
    (hselected : selectPathOption selected next kind = .ok value) :
    selected = none ∧ isReserved value = false := by
  simp only [selectPathOption, optionValue, boundedPath, bind_eq_ok, refuse_eq_ok, okOr_eq_ok,
    pure_eq_ok, Except.ok.injEq, Bool.not_eq_true] at hselected
  obtain ⟨_, hfree, found, ⟨_, -, _, hplain, rfl⟩, _, -, _, -, _, -, rfl⟩ := hselected
  exact ⟨Option.isSome_eq_false_iff.mp hfree |> Option.isNone_iff_eq_none.mp, hplain⟩

namespace Options

variable (value : Bytes) (options : Options)

theorem take_dataRoot (hfree : options.dataRoot = none) (hpath : IsPath value)
    (hplain : isReserved value = false) : options.take (ascii "--data-root") (some value) =
      .ok (true, { options with dataRoot := some value }) := by
  have hselected := selectPathOption_of hpath hplain "data_root"
  rw [← hfree] at hselected
  rw [take, if_neg (by decide)]
  have hcommand : isCommand (ascii "--data-root") = none := by decide
  rw [hcommand]
  dsimp only
  rw [if_pos rfl, hselected]
  rfl

theorem take_configFile (hfree : options.configFile = none) (hpath : IsPath value)
    (hplain : isReserved value = false) : options.take (ascii "--config-file") (some value) =
      .ok (true, { options with configFile := some value }) := by
  have hselected := selectPathOption_of hpath hplain "config_file"
  rw [← hfree] at hselected
  rw [take, if_neg (by decide)]
  have hcommand : isCommand (ascii "--config-file") = none := by decide
  rw [hcommand]
  dsimp only
  rw [if_neg (by decide), if_pos rfl, hselected]
  rfl

theorem take_sourceFile (hfree : options.sourceFile = none) (hpath : IsPath value)
    (hplain : isReserved value = false) : options.take (ascii "--source-file") (some value) =
      .ok (true, { options with sourceFile := some value }) := by
  have hselected := selectPathOption_of hpath hplain "source_file"
  rw [← hfree] at hselected
  rw [take, if_neg (by decide)]
  have hcommand : isCommand (ascii "--source-file") = none := by decide
  rw [hcommand]
  dsimp only
  rw [if_neg (by decide), if_neg (by decide), if_pos rfl, hselected]
  rfl

theorem take_indexPath (hfree : options.indexPath = none) (hcommand : options.command = some .index)
    (hpath : IsPath value) : options.take (ascii "--index-path") (some value) =
      .ok (true, { options with indexPath := some value }) := by
  have htaken : options.takeIndex (ascii "--index-path") (some value) =
      .ok (some (true, { options with indexPath := some value })) := by
    have hopen : ¬ (options.indexPath.isSome = true ∨ options.command ≠ some .index) := by
      simp [hfree, hcommand]
    rw [takeIndex, if_pos rfl, refuse_of_not hopen, ok_bind, okOr_some, ok_bind,
      boundedPath_of hpath]
    rfl
  rw [take, if_neg (by decide)]
  have hflag : isCommand (ascii "--index-path") = none := by decide
  rw [hflag]
  dsimp only
  rw [if_neg (by decide), if_neg (by decide), if_neg (by decide), htaken]
  rfl

theorem take_source {argument : Bytes} {after : Options}
    (hargument : argument = ascii "--source-id" ∨ argument = ascii "--unit")
    (htaken : options.takeSource argument (some value) = .ok (some after)) :
    options.take argument (some value) = .ok (true, after) := by
  have hflags : ¬ (isHelpFlag argument = true ∨ isVersionFlag argument = true) ∧
      isCommand argument = none ∧ argument ≠ ascii "--data-root" ∧
      argument ≠ ascii "--config-file" ∧ argument ≠ ascii "--source-file" ∧
      argument ≠ ascii "--index-path" ∧ argument ≠ ascii "--index-owner-stdio" := by
    rcases hargument with rfl | rfl
    · decide
    · decide
  obtain ⟨hflag, hcommand, hroot, hconfig, hfile, hpath, howner⟩ := hflags
  have hindex : options.takeIndex argument (some value) = .ok none := by
    rw [takeIndex, if_neg hpath, if_neg howner]
    rfl
  rw [take, if_neg hflag, hcommand]
  dsimp only
  rw [if_neg hroot, if_neg hconfig, if_neg hfile, hindex, ok_bind]
  dsimp only
  rw [htaken]
  rfl

theorem take_sourceId (sourceId : Octets 16) (hfree : options.sourceId = none)
    (hplain : isReserved value = false) (hvalid : Utf8.Valid value)
    (hparsed : parseUuid value = some sourceId) :
    options.take (ascii "--source-id") (some value) =
      .ok (true, { options with sourceId := some sourceId }) := by
  apply take_source value options (Or.inl rfl)
  rw [takeSource, if_pos rfl, hfree, refuse_of_not (by decide), ok_bind, optionValue_of hplain,
    ok_bind, refuse_of_not (not_not.mpr hvalid), ok_bind, hparsed, okOr_some]
  rfl

theorem take_unit (unit : UInt64) (hfree : options.unit = none)
    (hplain : isReserved value = false) (hvalid : Utf8.Valid value)
    (hparsed : parseU64 value = some unit) (hdecimal : decimal unit.toNat = value) :
    options.take (ascii "--unit") (some value) =
      .ok (true, { options with unit := some unit }) := by
  apply take_source value options (Or.inr rfl)
  rw [takeSource, if_neg (by decide), if_pos rfl, hfree, refuse_of_not (by decide), ok_bind,
    optionValue_of hplain, ok_bind, unitIndex, refuse_of_not (not_not.mpr hvalid), ok_bind,
    hparsed, okOr_some, ok_bind, refuse_of_not (not_not.mpr hdecimal)]
  rfl

theorem take_endpoint (hfree : options.endpoint = none) (hendpoint : IsEndpoint value) :
    options.take (ascii "--qdrant-url") (some value) =
      .ok (true, { options with endpoint := some value }) := by
  have htaken : options.takePublication (ascii "--qdrant-url") (some value) =
      .ok (some { options with endpoint := some value }) := by
    have hfilter : (some value).filter (fun value : Bytes => decide (Utf8.Valid value ∧
        value ≠ [] ∧ value.length ≤ 4096 ∧ ¬ 0 ∈ value)) = some value := by
      rw [Option.filter_some]
      exact if_pos (decide_eq_true hendpoint)
    rw [takePublication, if_pos rfl, hfilter, okOr_some, ok_bind, hfree,
      refuse_of_not (by decide)]
    rfl
  rw [take, if_neg (by decide)]
  have hflag : isCommand (ascii "--qdrant-url") = none := by decide
  have hindex : options.takeIndex (ascii "--qdrant-url") (some value) = .ok none := rfl
  have hsource : options.takeSource (ascii "--qdrant-url") (some value) = .ok none := rfl
  rw [hflag]
  dsimp only
  rw [if_neg (by decide), if_neg (by decide), if_neg (by decide), hindex, ok_bind]
  dsimp only
  rw [hsource, ok_bind]
  dsimp only
  rw [htaken]
  rfl

theorem take_position (next : Option Bytes) (hfree : options.positionalRoot = none)
    (hpath : IsPath value) (hplain : IsPlain value)
    (hbare : ¬ (Utf8.Valid value ∧ ascii "--" <+: value)) :
    options.take value next = .ok (false, { options with positionalRoot := some value }) := by
  have hvalidOption : ∀ option : Bytes, Utf8.Valid option ∧ ascii "--" <+: option →
      value ≠ option := by
    rintro option hoption rfl
    exact hbare hoption
  have hcommand : isCommand value = none := by
    rw [← Option.not_isSome_iff_eq_none, isCommand_isSome, hplain.2.2]
    decide
  have hflag : ¬ (isHelpFlag value = true ∨ isVersionFlag value = true) := by
    rw [hplain.1, hplain.2.1]
    decide
  have hindex : options.takeIndex value next = .ok none := by
    rw [takeIndex, if_neg (hvalidOption _ (by decide)), if_neg (hvalidOption _ (by decide))]
    rfl
  have hsource : options.takeSource value next = .ok none := by
    rw [takeSource, if_neg (hvalidOption _ (by decide)), if_neg (hvalidOption _ (by decide))]
    rfl
  have hpublication : options.takePublication value next = .ok none := by
    rw [takePublication, if_neg (hvalidOption _ (by decide))]
    rfl
  have hposition : options.takePosition value =
      .ok { options with positionalRoot := some value } := by
    rw [takePosition, refuse_of_not hbare, ok_bind, hfree, refuse_of_not (by decide), ok_bind,
      boundedPath_of hpath]
    rfl
  rw [take, if_neg hflag, hcommand]
  dsimp only
  rw [if_neg (hvalidOption _ (by decide)), if_neg (hvalidOption _ (by decide)),
    if_neg (hvalidOption _ (by decide)), hindex, ok_bind]
  dsimp only
  rw [hsource, ok_bind]
  dsimp only
  rw [hpublication, ok_bind]
  dsimp only
  rw [hposition]
  rfl

section LastArgument

variable {argument : Bytes} {options}

theorem takePublication_last {taken : Option Options}
    (htaken : options.takePublication argument none = .ok taken) :
    taken = none ∧ ∀ value, options.takePublication argument (some value) = .ok none := by
  unfold takePublication at htaken ⊢
  split at htaken
  · cases htaken
  · rename_i hother
    obtain rfl := Except.ok.inj htaken
    exact ⟨rfl, fun value => by rw [if_neg hother]; rfl⟩

theorem takeSource_last {taken : Option Options}
    (htaken : options.takeSource argument none = .ok taken) :
    taken = none ∧ ∀ value, options.takeSource argument (some value) = .ok none := by
  unfold takeSource at htaken ⊢
  split at htaken
  · simp [optionValue, bind_eq_ok, okOr] at htaken
  · split at htaken
    · simp [optionValue, bind_eq_ok, okOr] at htaken
    · rename_i hid hunit
      obtain rfl := Except.ok.inj htaken
      exact ⟨rfl, fun value => by rw [if_neg hid, if_neg hunit]; rfl⟩

theorem takeIndex_last {taken : Option (Bool × Options)}
    (htaken : options.takeIndex argument none = .ok taken) :
    (∀ pair, taken = some pair → pair.1 = false) ∧
      ∀ value, options.takeIndex argument (some value) = .ok taken := by
  unfold takeIndex at htaken ⊢
  split at htaken
  · simp [bind_eq_ok, okOr] at htaken
  · rename_i hpath
    split at htaken
    · rename_i howner
      refine ⟨?_, fun value => by rw [if_neg hpath, if_pos howner]; exact htaken⟩
      simp only [bind_eq_ok, pure_eq_ok, Except.ok.injEq] at htaken
      obtain ⟨_, -, rfl⟩ := htaken
      rintro _ ⟨⟩
      rfl
    · rename_i howner
      refine ⟨?_, fun value => by rw [if_neg hpath, if_neg howner]; exact htaken⟩
      obtain rfl := Except.ok.inj htaken
      rintro _ ⟨⟩

theorem selectPathOption_last {selected : Option Bytes} {kind : String} {value : Bytes} :
    selectPathOption selected none kind ≠ .ok value := by
  intro hselected
  simp [selectPathOption, optionValue, bind_eq_ok, okOr] at hselected

/-- The last argument takes no value. -/
theorem take_local : Local take := by
  intro argument options used next htake
  unfold take at htake ⊢
  split at htake
  · cases htake
  · rename_i hflag
    simp only [if_neg hflag]
    cases hcommand : isCommand argument with
    | some command =>
        rw [hcommand] at htake
        dsimp only at htake ⊢
        simp only [bind_eq_ok, pure_eq_ok, Except.ok.injEq, Prod.mk.injEq] at htake ⊢
        obtain ⟨_, hfree, rfl, rfl⟩ := htake
        exact ⟨rfl, fun _ => ⟨(), hfree, trivial, rfl⟩⟩
    | none =>
        rw [hcommand] at htake
        dsimp only at htake ⊢
        split at htake
        · obtain ⟨value, hselected, -⟩ := bind_eq_ok.mp htake
          exact absurd hselected selectPathOption_last
        · rename_i hroot
          split at htake
          · obtain ⟨value, hselected, -⟩ := bind_eq_ok.mp htake
            exact absurd hselected selectPathOption_last
          · rename_i hconfig
            split at htake
            · obtain ⟨value, hselected, -⟩ := bind_eq_ok.mp htake
              exact absurd hselected selectPathOption_last
            · rename_i hfile
              simp only [if_neg hroot, if_neg hconfig, if_neg hfile]
              obtain ⟨index, hindex, htake⟩ := bind_eq_ok.mp htake
              obtain ⟨hused, hindexed⟩ := takeIndex_last hindex
              simp only [hindexed, ok_bind]
              cases index with
              | some pair =>
                  obtain rfl := Except.ok.inj htake
                  have hfalse : used = false := hused _ rfl
                  subst hfalse
                  exact ⟨rfl, fun _ => rfl⟩
              | none =>
                  dsimp only at htake ⊢
                  obtain ⟨source, hsource, htake⟩ := bind_eq_ok.mp htake
                  obtain ⟨rfl, hsourced⟩ := takeSource_last hsource
                  simp only [hsourced, ok_bind]
                  dsimp only at htake ⊢
                  obtain ⟨publication, hpublication, htake⟩ := bind_eq_ok.mp htake
                  obtain ⟨rfl, hpublished⟩ := takePublication_last hpublication
                  simp only [hpublished, ok_bind]
                  dsimp only at htake ⊢
                  obtain ⟨position, hposition, htake⟩ := bind_eq_ok.mp htake
                  obtain ⟨rfl, rfl⟩ := Prod.mk.inj (Except.ok.inj htake)
                  exact ⟨rfl, fun _ => by rw [hposition]; rfl⟩

end LastArgument

/-- The path of a file is none that is set apart. -/
def Plain (options : Options) : Prop :=
  ∀ file, options.sourceFile = some file → isReserved file = false

theorem takeIndex_sourceFile {argument : Bytes} {next : Option Bytes} {options after : Options}
    {used : Bool} (htake : options.takeIndex argument next = .ok (some (used, after))) :
    after.sourceFile = options.sourceFile := by
  unfold takeIndex at htake
  split at htake
  · simp only [bind_eq_ok, pure_eq_ok, Except.ok.injEq, Option.some.injEq, Prod.mk.injEq] at htake
    obtain ⟨_, -, _, -, _, -, -, rfl⟩ := htake
    rfl
  · split at htake
    · simp only [bind_eq_ok, pure_eq_ok, Except.ok.injEq, Option.some.injEq, Prod.mk.injEq]
        at htake
      obtain ⟨_, -, -, rfl⟩ := htake
      rfl
    · cases htake

theorem takeSource_sourceFile {argument : Bytes} {next : Option Bytes} {options after : Options}
    (htake : options.takeSource argument next = .ok (some after)) :
    after.sourceFile = options.sourceFile := by
  unfold takeSource at htake
  split at htake
  · simp only [bind_eq_ok, pure_eq_ok, Except.ok.injEq, Option.some.injEq] at htake
    obtain ⟨_, -, _, -, _, -, _, -, rfl⟩ := htake
    rfl
  · split at htake
    · simp only [bind_eq_ok, pure_eq_ok, Except.ok.injEq, Option.some.injEq] at htake
      obtain ⟨_, -, _, -, _, -, rfl⟩ := htake
      rfl
    · cases htake

theorem takePublication_sourceFile {argument : Bytes} {next : Option Bytes}
    {options after : Options} (htake : options.takePublication argument next = .ok (some after)) :
    after.sourceFile = options.sourceFile := by
  unfold takePublication at htake
  split at htake
  · simp only [bind_eq_ok, pure_eq_ok, Except.ok.injEq, Option.some.injEq] at htake
    obtain ⟨_, -, _, -, rfl⟩ := htake
    rfl
  · cases htake

theorem takePosition_sourceFile {argument : Bytes} {options after : Options}
    (htake : options.takePosition argument = .ok after) :
    after.sourceFile = options.sourceFile := by
  simp only [takePosition, bind_eq_ok, pure_eq_ok, Except.ok.injEq] at htake
  obtain ⟨_, -, _, -, _, -, rfl⟩ := htake
  rfl

theorem take_plain {argument : Bytes} {next : Option Bytes} {options : Options} {used : Bool}
    {after : Options} (hplain : options.Plain)
    (htake : options.take argument next = .ok (used, after)) : after.Plain := by
  have hsame : after.sourceFile = options.sourceFile → after.Plain := by
    intro heq file hfile
    exact hplain file (heq.symm.trans hfile)
  unfold take at htake
  split at htake
  · cases htake
  · split at htake
    · simp only [bind_eq_ok, pure_eq_ok, Except.ok.injEq, Prod.mk.injEq] at htake
      obtain ⟨_, -, -, rfl⟩ := htake
      exact hsame rfl
    · split at htake
      · simp only [bind_eq_ok, pure_eq_ok, Except.ok.injEq, Prod.mk.injEq] at htake
        obtain ⟨_, -, -, rfl⟩ := htake
        exact hsame rfl
      · split at htake
        · simp only [bind_eq_ok, pure_eq_ok, Except.ok.injEq, Prod.mk.injEq] at htake
          obtain ⟨_, -, -, rfl⟩ := htake
          exact hsame rfl
        · split at htake
          · simp only [bind_eq_ok, pure_eq_ok, Except.ok.injEq, Prod.mk.injEq] at htake
            obtain ⟨value, hselected, -, rfl⟩ := htake
            intro file hfile
            obtain rfl := Option.some.inj hfile
            exact (selectPathOption_eq_ok hselected).2
          · obtain ⟨index, hindex, htake⟩ := bind_eq_ok.mp htake
            cases index with
            | some pair =>
                obtain rfl := Except.ok.inj htake
                exact hsame (takeIndex_sourceFile hindex)
            | none =>
                obtain ⟨source, hsource, htake⟩ := bind_eq_ok.mp htake
                cases source with
                | some changed =>
                    obtain ⟨-, rfl⟩ := Prod.mk.inj (Except.ok.inj htake)
                    exact hsame (takeSource_sourceFile hsource)
                | none =>
                    obtain ⟨publication, hpublication, htake⟩ := bind_eq_ok.mp htake
                    cases publication with
                    | some changed =>
                        obtain ⟨-, rfl⟩ := Prod.mk.inj (Except.ok.inj htake)
                        exact hsame (takePublication_sourceFile hpublication)
                    | none =>
                        obtain ⟨position, hposition, htake⟩ := bind_eq_ok.mp htake
                        obtain ⟨-, rfl⟩ := Prod.mk.inj (Except.ok.inj htake)
                        exact hsame (takePosition_sourceFile hposition)

end Options

end Bootstrap

/-! ## Agreement -/

/-- The daemon's command of the same name. -/
def RootCommand.forDaemon : RootCommand → Bootstrap.RootCommand
  | inspect => .inspect
  | initializeRoot => .initializeRoot
  | checkExistingOwner => .checkExistingOwner
  | discardIncomplete => .discardIncomplete
  | retainFile => .retainFile
  | prepareSource => .prepareSource
  | publishPrepared => .publishPrepared
  | index => .index
  | search => .search

/-- Both parsers have read the same selectors. -/
structure Agree (command : RootCommand) (selection : Selection) (options : Bootstrap.Options) :
    Prop where
  command : options.command = some command.forDaemon
  dataRoot : options.dataRoot = selection.dataRoot
  positionalRoot : options.positionalRoot = selection.positionalRoot
  configFile : options.configFile = selection.configFile
  sourceFile : options.sourceFile = selection.sourceFile
  indexPath : options.indexPath = selection.indexPath
  ownerStdio : options.ownerStdio = false
  sourceId : options.sourceId.map uuidText = selection.sourceId
  unit : options.unit = selection.unit
  endpoint : options.endpoint = selection.endpoint

/-- The path of the file is none that the daemon sets apart. -/
def Selection.Plain (selection : Selection) : Prop :=
  ∀ file, selection.sourceFile = some file → Bootstrap.isReserved file = false

/-! ### Values -/

/-- A value that is set apart begins with a dash and is short. -/
theorem reserved_shape {value : Bytes} (hreserved : Bootstrap.isReserved value = true) :
    value.head? = some dash ∧ value.length < 36 := by
  have hvalues : value ∈ [ascii "--help", ascii "-h", ascii "--version", ascii "-V"] ++
      Bootstrap.RootCommand.all.map Bootstrap.RootCommand.flag := by
    rw [Bootstrap.isReserved, Bool.or_eq_true, Bool.or_eq_true, Bootstrap.isCommand_isSome]
      at hreserved
    rw [List.mem_append]
    rcases hreserved with (hhelp | hversion) | hflag
    · left
      rcases of_decide_eq_true hhelp with rfl | rfl
      · decide
      · decide
    · left
      rcases of_decide_eq_true hversion with rfl | rfl
      · decide
      · decide
    · right
      exact of_decide_eq_true hflag
  have hall : ∀ value ∈ [ascii "--help", ascii "-h", ascii "--version", ascii "-V"] ++
      Bootstrap.RootCommand.all.map Bootstrap.RootCommand.flag,
      value.head? = some dash ∧ value.length < 36 := by decide
  exact hall value hvalues

/-- A part of a text holds bytes of the text. -/
theorem mem_part {value : Bytes} {start count : Nat} {byte : UInt8}
    (hmem : byte ∈ (value.drop start).take count) :
    ∃ index, index < count ∧ value[start + index]? = some byte := by
  obtain ⟨index, hindex⟩ := List.mem_iff_getElem?.mp hmem
  rw [List.getElem?_take] at hindex
  split at hindex
  · rename_i hcount
    rw [List.getElem?_drop] at hindex
    exact ⟨index, hcount, hindex⟩
  · cases hindex

/-- What is spelled like an identifier is one. -/
theorem parseUuid_of_text {value : Bytes} (htext : isUuidText value = true) :
    ∃ id, parseUuid value = some id := by
  obtain ⟨hlength, hbytes⟩ := of_decide_eq_true htext
  have hbyte : ∀ {position byte}, position < 36 → value[position]? = some byte →
      if position ∈ [8, 13, 18, 23] then byte = dash else IsLowerHex byte := by
    intro position byte hposition hfound
    exact hbytes position (List.mem_range.mpr hposition) byte hfound
  have hdash : ∀ position ∈ [8, 13, 18, 23], value[position]? = some dash := by
    intro position hmem
    have hposition : position < 36 := by
      simp only [List.mem_cons, List.not_mem_nil, or_false] at hmem
      omega
    have hfound : value[position]? = some value[position] :=
      List.getElem?_eq_getElem (by omega)
    have hvalue := hbyte hposition hfound
    rw [if_pos hmem] at hvalue
    rw [hfound, hvalue]
  have hgrouped : Grouped value :=
    ⟨hlength, hdash 8 (by decide), hdash 13 (by decide), hdash 18 (by decide),
      hdash 23 (by decide)⟩
  have hhex : ∀ {start count byte}, start + count ≤ 36 →
      (∀ index, index < count → start + index ∉ [8, 13, 18, 23]) →
      byte ∈ (value.drop start).take count → IsLowerHex byte := by
    intro start count byte hend hclear hmem
    obtain ⟨index, hindex, hfound⟩ := mem_part hmem
    have hvalue := hbyte (by omega) hfound
    rwa [if_neg (hclear index hindex)] at hvalue
  have hdigits : ∀ byte ∈ compact value, IsLowerHex byte := by
    intro byte hmem
    have hlast : (value.drop 24).take 12 = value.drop 24 :=
      List.take_of_length_le (by rw [List.length_drop, hlength])
    rw [compact, ← hlast, List.mem_append, List.mem_append, List.mem_append, List.mem_append]
      at hmem
    rcases hmem with (((hfirst | hsecond) | hthird) | hfourth) | hfifth
    · rw [← List.drop_zero (l := value)] at hfirst
      exact hhex (by decide) (by decide) hfirst
    · exact hhex (by decide) (by decide) hsecond
    · exact hhex (by decide) (by decide) hthird
    · exact hhex (by decide) (by decide) hfourth
    · exact hhex (by decide) (by decide) hfifth
  have hcompact : (compact value).length = 2 * 16 := by
    simp [compact, hlength]
  obtain ⟨bytes, hunhex, hcount⟩ := unhex_isSome hcompact hdigits
  refine ⟨⟨bytes, hcount⟩, ?_⟩
  rw [parseUuid, if_pos hgrouped, hunhex]
  exact Octets.ofBytes?_eq_some.mpr rfl

theorem not_reserved_of_uuid {value : Bytes} (htext : isUuidText value = true) :
    Bootstrap.isReserved value = false := by
  rw [← Bool.not_eq_true]
  intro hreserved
  have hshort := (reserved_shape hreserved).2
  have hlength := (of_decide_eq_true htext).1
  omega

theorem canonicalDecimal_eq_some {value : Bytes} {unit : UInt64}
    (hdecimal : canonicalDecimal value true = some unit) :
    parseU64 value = some unit ∧ decimal unit.toNat = value := by
  obtain ⟨hparsed, hcanonical⟩ := Option.filter_eq_some_iff.mp hdecimal
  refine ⟨hparsed, ?_⟩
  by_contra hother
  simp [hother] at hcanonical

theorem not_reserved_of_decimal {value : Bytes} {unit : UInt64}
    (hdecimal : decimal unit.toNat = value) : Bootstrap.isReserved value = false := by
  rw [← Bool.not_eq_true]
  intro hreserved
  have hhead := (reserved_shape hreserved).1
  have hmem : dash ∈ decimal unit.toNat := by
    rw [hdecimal]
    exact List.mem_of_mem_head? hhead
  exact absurd (isDigit_of_mem_decimal hmem) (by decide)

/-! ### One argument -/

section Forward

variable {command : RootCommand} {argument : Bytes} {next : Option Bytes}
  {selection after : Selection} {options changed : Bootstrap.Options} {used : Bool}

/-- An option is scanned with its value. -/
theorem scan_option {option value : Bytes}
    (htaken : options.take option (some value) = .ok (true, changed)) :
    scan Bootstrap.Options.take [option, value] options = .ok changed := by
  rw [scan, List.head?_cons, htaken]
  rfl

theorem Taken.forwarded (htaken : Taken command argument selection next used after)
    (hagree : Agree command selection options) (hplain : after.Plain) :
    ∃ added last, after.settings = selection.settings ++ added ∧
      scan Bootstrap.Options.take added options = .ok last ∧ Agree command after last := by
  cases htaken with
  | daemon value hargument =>
      exact ⟨[], options, (List.append_nil _).symm, rfl, hagree.command, hagree.dataRoot,
        hagree.positionalRoot, hagree.configFile, hagree.sourceFile, hagree.indexPath,
        hagree.ownerStdio, hagree.sourceId, hagree.unit, hagree.endpoint⟩
  | query value hargument =>
      exact ⟨[], options, (List.append_nil _).symm, rfl, hagree.command, hagree.dataRoot,
        hagree.positionalRoot, hagree.configFile, hagree.sourceFile, hagree.indexPath,
        hagree.ownerStdio, hagree.sourceId, hagree.unit, hagree.endpoint⟩
  | limit value limit hargument =>
      exact ⟨[], options, (List.append_nil _).symm, rfl, hagree.command, hagree.dataRoot,
        hagree.positionalRoot, hagree.configFile, hagree.sourceFile, hagree.indexPath,
        hagree.ownerStdio, hagree.sourceId, hagree.unit, hagree.endpoint⟩
  | dataRoot value hargument hfree hpath hvalue =>
      subst hargument
      refine ⟨[_, value], _, (List.append_assoc _ _ _), scan_option
        (Bootstrap.Options.take_dataRoot value options (hagree.dataRoot.trans hfree.1) hpath
          (Bootstrap.isReserved_of_plain hvalue)), ?_⟩
      exact ⟨hagree.command, rfl, hagree.positionalRoot, hagree.configFile, hagree.sourceFile,
        hagree.indexPath, hagree.ownerStdio, hagree.sourceId, hagree.unit, hagree.endpoint⟩
  | configFile value hargument hfree hpath hvalue =>
      subst hargument
      refine ⟨[_, value], _, (List.append_assoc _ _ _), scan_option
        (Bootstrap.Options.take_configFile value options (hagree.configFile.trans hfree) hpath
          (Bootstrap.isReserved_of_plain hvalue)), ?_⟩
      exact ⟨hagree.command, hagree.dataRoot, hagree.positionalRoot, rfl, hagree.sourceFile,
        hagree.indexPath, hagree.ownerStdio, hagree.sourceId, hagree.unit, hagree.endpoint⟩
  | sourceFile value hargument hfree hpath =>
      refine ⟨[_, value], _, (List.append_assoc _ _ _), scan_option
        (Bootstrap.Options.take_sourceFile value options (hagree.sourceFile.trans hfree) hpath
          (hplain value rfl)), ?_⟩
      exact ⟨hagree.command, hagree.dataRoot, hagree.positionalRoot, hagree.configFile, rfl,
        hagree.indexPath, hagree.ownerStdio, hagree.sourceId, hagree.unit, hagree.endpoint⟩
  | sourceId value hargument hfree hvalid huuid =>
      subst hargument
      obtain ⟨id, hparsed⟩ := parseUuid_of_text huuid
      have hnone : options.sourceId = none := by
        rw [← Option.map_eq_none_iff (f := uuidText), hagree.sourceId]
        exact hfree
      refine ⟨[_, value], _, (List.append_assoc _ _ _), scan_option
        (Bootstrap.Options.take_sourceId value options id hnone (not_reserved_of_uuid huuid)
          hvalid hparsed), ?_⟩
      exact ⟨hagree.command, hagree.dataRoot, hagree.positionalRoot, hagree.configFile,
        hagree.sourceFile, hagree.indexPath, hagree.ownerStdio,
        congrArg some (parseUuid_eq_some.mp hparsed), hagree.unit, hagree.endpoint⟩
  | unit value unit hargument hfree hcommand hvalid hdecimal =>
      subst hargument
      obtain ⟨hparsed, hcanonical⟩ := canonicalDecimal_eq_some hdecimal
      refine ⟨[_, value], _, (List.append_assoc _ _ _), scan_option
        (Bootstrap.Options.take_unit value options unit (hagree.unit.trans hfree)
          (not_reserved_of_decimal hcanonical) hvalid hparsed hcanonical), ?_⟩
      exact ⟨hagree.command, hagree.dataRoot, hagree.positionalRoot, hagree.configFile,
        hagree.sourceFile, hagree.indexPath, hagree.ownerStdio, hagree.sourceId, rfl,
        hagree.endpoint⟩
  | endpoint value hargument hfree hendpoint =>
      subst hargument
      refine ⟨[_, value], _, (List.append_assoc _ _ _), scan_option
        (Bootstrap.Options.take_endpoint value options (hagree.endpoint.trans hfree) hendpoint), ?_⟩
      exact ⟨hagree.command, hagree.dataRoot, hagree.positionalRoot, hagree.configFile,
        hagree.sourceFile, hagree.indexPath, hagree.ownerStdio, hagree.sourceId, hagree.unit, rfl⟩
  | indexPath next hvalue hcommand hfree hpath =>
      subst hcommand
      refine ⟨[_, argument], _, (List.append_assoc _ _ _), scan_option
        (Bootstrap.Options.take_indexPath argument options (hagree.indexPath.trans hfree)
          hagree.command hpath), ?_⟩
      exact ⟨hagree.command, hagree.dataRoot, hagree.positionalRoot, hagree.configFile,
        hagree.sourceFile, rfl, hagree.ownerStdio, hagree.sourceId, hagree.unit, hagree.endpoint⟩
  | positionalRoot next hvalue hfree hpath hvaluePlain hbare =>
      have htake := Bootstrap.Options.take_position argument options none
        (hagree.positionalRoot.trans hfree.1) hpath hvaluePlain hbare
      refine ⟨[argument], { options with positionalRoot := some argument }, rfl, ?_, ?_⟩
      · rw [scan, List.head?_nil, htake]
        rfl
      · exact ⟨hagree.command, hagree.dataRoot, rfl, hagree.configFile, hagree.sourceFile,
          hagree.indexPath, hagree.ownerStdio, hagree.sourceId, hagree.unit, hagree.endpoint⟩

/-- The path of the file is read once. -/
theorem Taken.plain_back (htaken : Taken command argument selection next used after)
    (hplain : after.Plain) : selection.Plain := by
  cases htaken with
  | sourceFile value hargument hfree hpath =>
      intro file hfile
      rw [hfree] at hfile
      cases hfile
  | daemon value hargument => exact hplain
  | query value hargument => exact hplain
  | limit value limit hargument => exact hplain
  | dataRoot value hargument hfree hpath hvalue => exact hplain
  | configFile value hargument hfree hpath hvalue => exact hplain
  | sourceId value hargument hfree hvalid huuid => exact hplain
  | unit value unit hargument hfree hcommand hvalid hdecimal => exact hplain
  | endpoint value hargument hfree hendpoint => exact hplain
  | indexPath next hvalue hcommand hfree hpath => exact hplain
  | positionalRoot next hvalue hfree hpath hvaluePlain hbare => exact hplain

/-- One data root, and a unit only of a source. -/
def Selection.Proper (command : RootCommand) (selection : Selection) : Prop :=
  (selection.dataRoot = none ∨ selection.positionalRoot = none) ∧
    (selection.unit.isSome = true → command = .prepareSource)

theorem Taken.proper (htaken : Taken command argument selection next used after)
    (hproper : selection.Proper command) : after.Proper command := by
  obtain ⟨hroot, hunit⟩ := hproper
  cases htaken with
  | dataRoot value hargument hfree hpath hvalue => exact ⟨Or.inr hfree.2, hunit⟩
  | positionalRoot next hvalue hfree hpath hvaluePlain hbare => exact ⟨Or.inl hfree.2, hunit⟩
  | unit value unit hargument hfree hcommand hvalid hdecimal => exact ⟨hroot, fun _ => hcommand⟩
  | sourceFile value hargument hfree hpath => exact ⟨hroot, hunit⟩
  | daemon value hargument => exact ⟨hroot, hunit⟩
  | query value hargument => exact ⟨hroot, hunit⟩
  | limit value limit hargument => exact ⟨hroot, hunit⟩
  | configFile value hargument hfree hpath hvalue => exact ⟨hroot, hunit⟩
  | sourceId value hargument hfree hvalid huuid => exact ⟨hroot, hunit⟩
  | endpoint value hargument hfree hendpoint => exact ⟨hroot, hunit⟩
  | indexPath next hvalue hcommand hfree hpath => exact ⟨hroot, hunit⟩

end Forward

/-! ### All arguments -/

/-- The daemon runs the command with the selectors of the command line. -/
structure Selects (command : RootCommand) (selection : Selection) (cli : Bootstrap.RootCli) :
    Prop where
  command : cli.command = command.forDaemon
  dataRoot : cli.dataRoot = selection.dataRoot.or selection.positionalRoot
  configFile : cli.configFile = selection.configFile
  sourceFile : cli.sourceFile = selection.sourceFile
  indexPath : cli.indexPath = selection.indexPath
  ownerStdio : cli.indexOwnerStdio = false
  sourceId : cli.sourceId.map uuidText = selection.sourceId
  unit : cli.unit = selection.unit
  endpoint : cli.publication.or cli.searchEndpoint = selection.endpoint

/-- The checks of the command line are those that the daemon makes at the end. -/
theorem finish_selects {command : RootCommand} {selection : Selection}
    {options : Bootstrap.Options} (hproper : selection.Proper command)
    (hvalid : selection.validateRequestSelection command = .ok ())
    (hagree : Agree command selection options) :
    ∃ cli, Bootstrap.finish options = .ok cli ∧ Selects command selection cli := by
  simp only [Selection.validateRequestSelection, bind_eq_ok, refuse_eq_ok, not_or] at hvalid
  obtain ⟨_, hsource, hendpoint, hindex, -, -⟩ := hvalid
  obtain ⟨hroot, hunit⟩ := hproper
  have hid : options.sourceId.isSome = selection.sourceId.isSome := by
    rw [← hagree.sourceId, Option.isSome_map]
  have hroots : ¬ (options.dataRoot.isSome = true ∧ options.positionalRoot.isSome = true) := by
    rw [hagree.dataRoot, hagree.positionalRoot]
    rintro ⟨hdata, hposition⟩
    rcases hroot with hnone | hnone
    · rw [hnone] at hdata
      cases hdata
    · rw [hnone] at hposition
      cases hposition
  have hpaths : ¬ ((options.indexPath.isSome = true ∨ options.ownerStdio = true) ∧
      command.forDaemon ≠ .index) := by
    rw [hagree.indexPath, hagree.ownerStdio]
    rintro ⟨hpath | hfalse, hother⟩
    · apply hindex
      refine ⟨hpath, fun hsame => hother ?_⟩
      rw [hsame]
      rfl
    · cases hfalse
  have hselected : Bootstrap.validateSourceSelection command.forDaemon options.sourceFile.isSome
      options.sourceId.isSome options.unit.isSome = .ok () := by
    rw [hagree.sourceFile, hid, hagree.unit]
    have hunits : ¬ (selection.unit.isSome = true ∧ command.forDaemon ≠ .prepareSource) := by
      rintro ⟨hsome, hother⟩
      apply hother
      rw [hunit hsome]
      rfl
    generalize selection.sourceFile.isSome = file at hsource ⊢
    generalize selection.sourceId.isSome = id at hsource ⊢
    generalize selection.unit.isSome = unit at hunits ⊢
    rw [Bool.not_eq_false] at hsource
    revert hsource hunits
    cases command <;> cases file <;> cases id <;> cases unit <;> decide
  have hpublication : ∃ publication searchEndpoint,
      Bootstrap.finishPublication command.forDaemon options.endpoint =
        .ok (publication, searchEndpoint) ∧
      publication.or searchEndpoint = selection.endpoint := by
    rw [hagree.endpoint]
    have hsome : decide (command = .publishPrepared ∨ command = .index ∨ command = .search) =
        selection.endpoint.isSome := by simpa using hendpoint
    by_cases hsearch : command = .search
    · subst hsearch
      exact ⟨none, selection.endpoint, rfl, rfl⟩
    · have hdaemon : ¬ (command.forDaemon = .search ∨ command.forDaemon = .session) := by
        revert hsearch
        cases command <;> decide
      have hmatches : ¬ (decide (command.forDaemon = .publishPrepared ∨
          command.forDaemon = .index) ≠ selection.endpoint.isSome) := by
        rw [← hsome, not_not]
        revert hsearch
        cases command <;> decide
      refine ⟨selection.endpoint, none, ?_, by rw [Option.or_none]⟩
      rw [Bootstrap.finishPublication, if_neg hdaemon, refuse_of_not hmatches]
      rfl
  obtain ⟨publication, searchEndpoint, hfinished, hboth⟩ := hpublication
  refine ⟨_, by
    rw [Bootstrap.finish, hagree.command, okOr_some, ok_bind, hfinished, ok_bind]
    dsimp only
    rw [hselected, ok_bind, refuse_of_not hpaths, ok_bind, refuse_of_not hroots]
    rfl, ?_⟩
  refine ⟨rfl, ?_, hagree.configFile, hagree.sourceFile, hagree.indexPath, hagree.ownerStdio,
    hagree.sourceId, hagree.unit, hboth⟩
  rw [hagree.dataRoot, hagree.positionalRoot]

/-- The value of `--file`, wherever it stands as an option. -/
def fileValue : List Bytes → Option Bytes
  | argument :: value :: rest =>
      if argument = ascii "--file" then some value
      else if takesValue argument then fileValue rest
      else fileValue (value :: rest)
  | _ => none

theorem Taken.file_value {command : RootCommand} {argument : Bytes} {next : Option Bytes}
    {selection after : Selection} {used : Bool}
    (htaken : Taken command argument selection next used after) :
    (used = true ∧ ∃ value, next = some value ∧
      ((argument = ascii "--file" ∧ selection.sourceFile = none ∧
          after.sourceFile = some value) ∨
        (argument ≠ ascii "--file" ∧ takesValue argument = true ∧
          after.sourceFile = selection.sourceFile))) ∨
    (used = false ∧ takesValue argument = false ∧ after.sourceFile = selection.sourceFile) := by
  cases htaken with
  | sourceFile value hargument hfree hpath =>
      exact Or.inl ⟨rfl, value, rfl, Or.inl ⟨hargument, hfree, rfl⟩⟩
  | daemon value hargument =>
      subst hargument
      exact Or.inl ⟨rfl, value, rfl, Or.inr ⟨by decide, by decide, rfl⟩⟩
  | query value hargument =>
      subst hargument
      exact Or.inl ⟨rfl, value, rfl, Or.inr ⟨by decide, by decide, rfl⟩⟩
  | limit value limit hargument =>
      subst hargument
      exact Or.inl ⟨rfl, value, rfl, Or.inr ⟨by decide, by decide, rfl⟩⟩
  | dataRoot value hargument hfree hpath hvalue =>
      subst hargument
      exact Or.inl ⟨rfl, value, rfl, Or.inr ⟨by decide, by decide, rfl⟩⟩
  | configFile value hargument hfree hpath hvalue =>
      subst hargument
      exact Or.inl ⟨rfl, value, rfl, Or.inr ⟨by decide, by decide, rfl⟩⟩
  | sourceId value hargument hfree hvalid huuid =>
      subst hargument
      exact Or.inl ⟨rfl, value, rfl, Or.inr ⟨by decide, by decide, rfl⟩⟩
  | unit value unit hargument hfree hcommand hvalid hdecimal =>
      subst hargument
      exact Or.inl ⟨rfl, value, rfl, Or.inr ⟨by decide, by decide, rfl⟩⟩
  | endpoint value hargument hfree hendpoint =>
      subst hargument
      exact Or.inl ⟨rfl, value, rfl, Or.inr ⟨by decide, by decide, rfl⟩⟩
  | indexPath next hvalue hcommand hfree hpath => exact Or.inr ⟨rfl, hvalue, rfl⟩
  | positionalRoot next hvalue hfree hpath hvaluePlain hbare => exact Or.inr ⟨rfl, hvalue, rfl⟩

/-- The path of the file is the one behind its option. -/
theorem sourceFile_of_scan {command : RootCommand} {arguments : List Bytes}
    {selection last : Selection}
    (hscan : scan (Selection.take command) arguments selection = .ok last) :
    last.sourceFile = selection.sourceFile.or (fileValue arguments) := by
  fun_induction scan (Selection.take command) arguments selection with
  | case1 selection =>
      obtain rfl := Except.ok.inj hscan
      rw [fileValue, Option.or_none]
      rintro _ _ _ ⟨⟩
  | case2 argument rest selection error htake => cases hscan
  | case3 argument rest selection after htake ih =>
      rcases (Selection.take_taken htake).file_value with ⟨htrue, -⟩ | ⟨-, hvalue, hsame⟩
      · cases htrue
      · rw [ih hscan, hsame]
        cases rest with
        | nil => rfl
        | cons value rest =>
            have hfile : argument ≠ ascii "--file" := by
              rintro rfl
              revert hvalue
              decide
            rw [fileValue.eq_1, if_neg hfile, if_neg (by rw [hvalue]; decide)]
  | case4 argument selection after htake =>
      rcases (Selection.take_taken htake).file_value with ⟨-, value, hnone, -⟩ | ⟨hfalse, -⟩
      · cases hnone
      · cases hfalse
  | case5 argument selection after value rest htake ih =>
      rcases (Selection.take_taken htake).file_value with
        ⟨-, found, hnext, ⟨hfile, hfree, hset⟩ | ⟨hother, hvalue, hsame⟩⟩ | ⟨hfalse, -⟩
      · obtain rfl := Option.some.inj hnext
        rw [ih hscan, hset, hfree, fileValue.eq_1, if_pos hfile, Option.some_or, Option.none_or]
      · rw [ih hscan, hsame, fileValue.eq_1, if_neg hother, if_pos hvalue]
      · cases hfalse

/-- The flag of a command is read first. -/
theorem take_daemonFlag (command : RootCommand) (next : Option Bytes) :
    Bootstrap.Options.take command.daemonFlag next .empty =
      .ok (false, { Bootstrap.Options.empty with command := some command.forDaemon }) := by
  cases command <;> rfl

theorem parse_daemonArguments (command : RootCommand) (selection : Selection) :
    Bootstrap.parse (daemonArguments command selection) =
      ((scan Bootstrap.Options.take selection.settings
        { Bootstrap.Options.empty with command := some command.forDaemon }) >>= fun options =>
          Bootstrap.finish options >>= fun cli => pure (.root cli)) := by
  have hlocal : Bootstrap.localInvocation (daemonArguments command selection) = none := by
    have hhelp : (isHelpFlag command.daemonFlag || isHelpCommand command.daemonFlag) = false := by
      cases command <;> decide
    have hversion : (isVersionFlag command.daemonFlag ||
        isVersionCommand command.daemonFlag) = false := by
      cases command <;> decide
    rw [Bootstrap.localInvocation, daemonArguments, if_neg (List.cons_ne_nil _ _),
      List.head?_cons, Option.any_some, hhelp, if_neg (by simp), Option.any_some, hversion,
      if_neg (by simp)]
  have hstart : scan Bootstrap.Options.take (daemonArguments command selection) .empty =
      scan Bootstrap.Options.take selection.settings
        { Bootstrap.Options.empty with command := some command.forDaemon } := by
    rw [daemonArguments, scan, take_daemonFlag]
  rw [Bootstrap.parse, hlocal]
  dsimp only
  rw [hstart]

theorem agree_empty (command : RootCommand) : Agree command .empty
    { Bootstrap.Options.empty with command := some command.forDaemon } :=
  ⟨rfl, rfl, rfl, rfl, rfl, rfl, rfl, rfl, rfl, rfl⟩

/-- The CLI forwards a root command to a daemon that runs the same command with the same
selectors, byte for byte, exactly when the path behind `--file` is no help or version
flag and no flag of a daemon command. -/
theorem forwarded_iff {arguments : List Bytes} {command : RootCommand} {selection : Selection}
    (hparsed : parse arguments = .ok (.root command selection)) :
    (∃ cli, Bootstrap.parse (daemonArguments command selection) = .ok (.root cli) ∧
      Selects command selection cli) ↔
    ∀ file, fileValue arguments.tail = some file → Bootstrap.isReserved file = false := by
  unfold parse at hparsed
  split at hparsed
  · rename_i parsed hstandalone
    obtain rfl := Except.ok.inj hparsed
    unfold standaloneInvocation at hstandalone
    split at hstandalone
    · cases hstandalone
    · split at hstandalone
      · cases hstandalone
      · split at hstandalone
        · cases hstandalone
        · split at hstandalone
          · cases hstandalone
          · cases hstandalone
  · simp only [bind_eq_ok, okOr_eq_ok, pure_eq_ok, Except.ok.injEq, Parsed.root.injEq] at hparsed
    obtain ⟨_, hcommand, _, hscan, _, hvalid, rfl, rfl⟩ := hparsed
    rename_i command selection _
    have hfile : selection.sourceFile = fileValue arguments.tail := sourceFile_of_scan hscan
    rw [← hfile]
    rw [parse_daemonArguments]
    constructor
    · rintro ⟨cli, haccepted, hselects⟩ file hsome
      simp only [bind_eq_ok, pure_eq_ok, Except.ok.injEq, Bootstrap.Parsed.root.injEq]
        at haccepted
      obtain ⟨options, hoptions, found, hfinish, rfl⟩ := haccepted
      have hstep : ∀ argument value options used next, options.Plain →
          Bootstrap.Options.take argument value options = .ok (used, next) → next.Plain :=
        fun argument value options used next hplain htake =>
          Bootstrap.Options.take_plain hplain htake
      have hempty : Bootstrap.Options.Plain
          { Bootstrap.Options.empty with command := some command.forDaemon } := by
        rintro file ⟨⟩
      apply scan_invariant hstep hoptions hempty
      have hsame : options.sourceFile = found.sourceFile := by
        simp only [Bootstrap.finish, bind_eq_ok, pure_eq_ok, Except.ok.injEq] at hfinish
        obtain ⟨_, -, _, -, _, -, _, -, _, -, rfl⟩ := hfinish
        rfl
      rw [hsame, hselects.sourceFile]
      exact hsome
    · intro hplain
      have hforward : ∀ argument value state used next reached, Agree command state reached →
          Selection.take command argument value state = .ok (used, next) → next.Plain →
          ∃ added after, next.settings = state.settings ++ added ∧
            scan Bootstrap.Options.take added reached = .ok after ∧ Agree command next after :=
        fun argument value state used next reached hagree htake hgood =>
          (Selection.take_taken htake).forwarded hagree hgood
      have hback : ∀ argument value state used next,
          Selection.take command argument value state = .ok (used, next) → next.Plain →
            state.Plain :=
        fun argument value state used next htake hgood =>
          (Selection.take_taken htake).plain_back hgood
      obtain ⟨options, hoptions, hagree⟩ := scan_forward Bootstrap.Options.take_local hforward hback
        hscan hplain rfl (agree_empty command)
      have hstep : ∀ argument value state used next, Selection.Proper command state →
          Selection.take command argument value state = .ok (used, next) →
            next.Proper command :=
        fun argument value state used next hproper htake =>
          (Selection.take_taken htake).proper hproper
      have hproper : selection.Proper command :=
        scan_invariant hstep hscan ⟨Or.inl rfl, by rintro ⟨⟩⟩
      obtain ⟨cli, hfinish, hselects⟩ := finish_selects hproper hvalid hagree
      refine ⟨cli, ?_, hselects⟩
      rw [hoptions, ok_bind, hfinish, ok_bind]
      rfl

/-! ### A file of a reserved name -/

namespace ForwardingSample

/-- Retain the file at a path, for a data root. -/
def retain (file : Bytes) : List Bytes := [ascii "retain-file", ascii "--file", file, ascii "root"]

def selection (file : Bytes) : Selection :=
  { Selection.empty with
    settings := [ascii "--source-file", file, ascii "root"]
    sourceFile := some file
    positionalRoot := some (ascii "root") }

end ForwardingSample

open ForwardingSample in
/-- A file of another name is retained by the daemon. -/
theorem forwarded_sample : ∃ cli,
    Bootstrap.parse (daemonArguments .retainFile (selection (ascii "a.txt"))) = .ok (.root cli) ∧
    Selects .retainFile (selection (ascii "a.txt")) cli := by
  have hparsed : parse (retain (ascii "a.txt")) =
      .ok (.root .retainFile (selection (ascii "a.txt"))) := by rfl
  apply (forwarded_iff hparsed).mpr
  intro file hfile
  obtain rfl := Option.some.inj hfile
  decide

open ForwardingSample in
/-- The daemon refuses the file `--help`, which the command line accepts. -/
theorem forwarded_fails : ∃ arguments command selection,
    parse arguments = .ok (.root command selection) ∧
    Bootstrap.parse (daemonArguments command selection) =
      .error (.invalid "conflicting_command") :=
  ⟨retain (ascii "--help"), .retainFile, selection (ascii "--help"), rfl, rfl⟩

end EliotSearch.Commands
