import EliotSearch.Control.Histories

/-!
# Preparation attempts

An attempt captures a source, its settings and its last outcome, prepares the
source outside the database, and installs its result later.  It takes effect
only if nothing it captured was touched in between.  The two revisions of a
preparation row count settings selections and installed outcomes.
-/

namespace EliotSearch.Control

open EliotSearch.Library
open EliotSearch.Library.Results
open EliotSearch.Library.Words

namespace Registry

variable {registry next : Registry} {id : SourceId}

/-! ## What one action does to a preparation -/

/-- A gap over a usable artifact of the same registration, input and settings. -/
def Downgrades (old new : BoundPreparationOutcome) : Prop :=
  old.result.isReady = true ∧ new.result.isReady = false ∧
    new.registrationRevision = old.registrationRevision ∧ new.input = old.input ∧
    new.settings = old.settings

/-- The preparation row of one identity before and after an action. -/
inductive Preparing : Option CurrentPreparation → Option CurrentPreparation → Prop where
  | kept (row : Option CurrentPreparation) : Preparing row row
  | erased (row : Option CurrentPreparation) : Preparing row none
  | selected {row : CurrentPreparation}
      (hsettings : row.settingsRevision = 1)
      (houtcome : row.outcome = none ∧ row.outcomeRevision = 0) : Preparing none (some row)
  | reselected {old new : CurrentPreparation}
      (hrevision : new.settingsRevision.toNat = old.settingsRevision.toNat + 1)
      (houtcome : new.outcome = old.outcome ∧ new.outcomeRevision = old.outcomeRevision) :
      Preparing (some old) (some new)
  | installed {old new : CurrentPreparation} {outcome : BoundPreparationOutcome}
      (hrevision : new.outcomeRevision.toNat = old.outcomeRevision.toNat + 1)
      (hsettings : new.settings = old.settings ∧ new.settingsRevision = old.settingsRevision)
      (houtcome : new.outcome = some outcome)
      (hupgrades : ∀ found ∈ old.outcome, ¬ Downgrades found outcome) :
      Preparing (some old) (some new)

theorem preparing_withPreparation {owner : SourceId} {row : CurrentPreparation}
    {revision : UInt64} (hvalid : row.validate = .ok ())
    (htables : next.db = (registry.db.withPreparation owner row).advanced revision)
    (howner : Preparing (registry.preparationOf owner) (some row)) (id : SourceId) :
    Preparing (registry.preparationOf id) (next.preparationOf id) := by
  have hinsert := preparationAt_insert (openTable registry.db.preparations) owner.bytes hvalid
    id.bytes
  have hnext : next.preparationOf id =
      if owner = id then some row else registry.preparationOf id := by
    simp only [bytes_eq_iff] at hinsert
    rw [preparationOf, htables]
    exact hinsert
  rw [hnext]
  split
  · rename_i hsame
    subst hsame
    exact howner
  · exact .kept _

/-- An installed outcome does not downgrade the one it replaces. -/
theorem not_downgrades {capture : PreparationCapture} {result : PreparationOutcome}
    {old : CurrentPreparation} {found : BoundPreparationOutcome}
    (hfound : old.outcome = some found)
    (hkeeps : keepsArtifact old capture.source capture.settings result = false) :
    ¬ Downgrades found (boundOutcome capture result) := by
  rintro ⟨hready, hgap, hregistration, hinput, hsettings⟩
  have hresult : result.isReady = false := hgap
  have hmatches : found.MatchesInput capture.source capture.settings :=
    ⟨hregistration.symm, hinput.symm, hsettings.symm⟩
  simp [keepsArtifact, hfound, hresult, hready, hmatches] at hkeeps

theorem preparing_same (hpreparations : next.db.preparations = registry.db.preparations)
    (id : SourceId) : Preparing (registry.preparationOf id) (next.preparationOf id) := by
  have hsame : next.preparationOf id = registry.preparationOf id := by
    rw [preparationOf, hpreparations, preparationOf]
  rw [hsame]
  exact .kept _

/-- Every action does one of these to every preparation. -/
theorem step_preparing (registry : Registry) (action : Action) (id : SourceId) :
    Preparing (registry.preparationOf id) ((registry.step action).preparationOf id) := by
  cases step_change registry action with
  | idle hdb _ _ _ => exact preparing_same (by rw [hdb]) id
  | captured _ _ hdb _ _ _ => exact preparing_same (by rw [hdb]) id
  | spent _ hdb _ _ _ => exact preparing_same (by rw [hdb]) id
  | wroteSource _ _ hwrite _ _ _ =>
      obtain ⟨revision, htables⟩ := hwrite.tables
      exact preparing_same (by rw [htables]; rfl) id
  | @erasedSources expected herased _ _ _ =>
      obtain ⟨revision, htables⟩ := herased.tables
      obtain ⟨-, hpreparation⟩ := recordAt_withoutSources registry.db expected id
      have hnext : (registry.step action).preparationOf id = preparationAt
          (openTable (expected.foldl Db.withoutSource registry.db).preparations) id.bytes := by
        rw [preparationOf, htables]
        rfl
      rw [hnext, hpreparation]
      split
      · exact .erased _
      · exact .kept _
  | admitted hadmitted _ _ _ =>
      obtain ⟨middle, hensured, -, htables⟩ := hadmitted.tables
      have hsame : middle.preparations = registry.db.preparations := by
        cases hensured with
        | existing => rfl
        | created => rfl
      exact preparing_same (by rw [htables, ← hsame]; rfl) id
  | @wroteSettings _ owner _ _ _ _ _ _ _ hwrite _ _ _ =>
      cases hwrite with
      | first _ _ hnone hvalid hnext =>
          apply preparing_withPreparation hvalid hnext
          have hbefore : registry.preparationOf owner = none := by
            simp [preparationOf, preparationAt, hnone]
          rw [hbefore]
          exact .selected rfl ⟨rfl, rfl⟩
      | change _ hrow hrevision hvalid hnext =>
          apply preparing_withPreparation hvalid hnext
          rw [preparationOf, hrow]
          exact .reselected (checkedAdd_eq_some.mp hrevision) ⟨rfl, rfl⟩
  | wroteOutcome _ _ hwrite _ _ _ =>
      obtain ⟨revision, htables⟩ := hwrite.tables
      apply preparing_withPreparation hwrite.valid htables
      have hrow := hwrite.row_eq
      rw [preparationOf, hwrite.held.stored]
      refine .installed (checkedAdd_eq_some.mp hwrite.revision) ?_ (by rw [hrow]) ?_
      · exact ⟨by rw [hrow], by rw [hrow]⟩
      · intro found hfound
        exact not_downgrades hfound hwrite.supersedes

/-! ## What an attempt captured -/

/-- A capture holds the stored source and preparation of its identity. -/
structure AttemptCaptured (registry : Registry) (id : SourceId) (capture : PreparationCapture)
    (row : CurrentPreparation) : Prop where
  source : registry.rowOf id = some capture.source
  id_eq : capture.source.sourceId = id
  stored : registry.preparationOf id = some row
  settings_eq : row.settings = capture.settings
  settingsRevision_eq : row.settingsRevision = capture.settingsRevision
  outcome_eq : row.outcome = capture.expectedOutcome
  outcomeRevision_eq : row.outcomeRevision = capture.expectedOutcomeRevision

theorem readSourceById_eq_ok {db : Db} {id : SourceId} {source : CurrentSourceRecord}
    (hread : readSourceById db id = .ok (some source)) :
    recordAt (openTable db.sourceRows) id.bytes = some source ∧ source.sourceId = id := by
  simp only [readSourceById, bind_eq_ok, okOr_eq_ok] at hread
  obtain ⟨rows, hrows, hread⟩ := hread
  rw [hrows, openTable_some]
  split at hread
  · cases hread
  · rename_i value hvalue
    simp only [bind_eq_ok, refuse_eq_ok, not_not, pure_eq_ok, Except.ok.injEq,
      Option.some.injEq] at hread
    obtain ⟨found, hfound, _, hid, rfl⟩ := hread
    exact ⟨recordAt_eq_some.mpr ⟨value, hvalue, hfound⟩, hid⟩

theorem readPreparation_captured {env : Env} {capture : PreparationCapture}
    (hcapture : readPreparation env registry.db id >>= (fun read => captureView read.1 read.2) =
      .ok capture) : ∃ row, AttemptCaptured registry id capture row := by
  simp only [readPreparation, captureView, bind_eq_ok, refuse_eq_ok, okOr_eq_ok, mapError_eq_ok,
    pure_eq_ok, Except.ok.injEq] at hcapture
  obtain ⟨_, ⟨_, _, _, _, _, _, found, hfound, source, rfl, _, _, _, _, _, _, stored, hstored, _,
    _, _, _, rfl⟩, row, hrow, rfl⟩ := hcapture
  obtain ⟨hsource, hid⟩ := readSourceById_eq_ok hfound
  simp only at hrow
  subst hrow
  rcases storedPreparation_eq_ok hstored with ⟨hnone, -⟩ | ⟨other, hother, hat⟩
  · cases hnone
  · obtain rfl := Option.some.inj hother
    exact ⟨row, hsource, hid, hat, rfl, rfl, rfl, rfl⟩

/-- Captures of preparations are only added. -/
theorem attempt_step (registry : Registry) (action : Action) {index : Nat}
    {capture : PreparationCapture} (hcapture : registry.preparations[index]? = some capture) :
    (registry.step action).preparations[index]? = some capture := by
  cases step_change registry action with
  | idle _ _ hpreparations _ =>
      rcases hpreparations with hsame | ⟨_, _, _, _, hadded⟩
      · rw [hsame, hcapture]
      · obtain ⟨hlt, -⟩ := List.getElem?_eq_some_iff.mp hcapture
        rw [hadded, List.getElem?_append_left hlt, hcapture]
  | captured _ _ _ _ hpreparations _ => rw [hpreparations, hcapture]
  | spent _ _ _ hpreparations _ => rw [hpreparations, hcapture]
  | wroteSource _ _ _ _ hpreparations _ => rw [hpreparations, hcapture]
  | erasedSources _ _ hpreparations _ => rw [hpreparations, hcapture]
  | admitted _ _ hpreparations _ => rw [hpreparations, hcapture]
  | wroteSettings _ _ _ _ hpreparations _ => rw [hpreparations, hcapture]
  | wroteOutcome _ _ _ _ hpreparations _ => rw [hpreparations, hcapture]

theorem attempt_run (registry : Registry) (actions : List Action) {index : Nat}
    {capture : PreparationCapture} (hcapture : registry.preparations[index]? = some capture) :
    (Runs.run step registry actions).preparations[index]? = some capture := by
  induction actions generalizing registry with
  | nil => exact hcapture
  | cons action actions ih => exact ih _ (attempt_step registry action hcapture)

/-! ## Installing -/

def attempting (env : Env) (id : SourceId) : Action := ⟨env, .capturePreparation id⟩

theorem step_attempting {env : Env} {capture : PreparationCapture}
    (hcapture : readPreparation env registry.db id >>= (fun read => captureView read.1 read.2) =
      .ok capture) :
    (registry.step (attempting env id)).db = registry.db ∧
      (registry.step (attempting env id)).preparations = registry.preparations ++ [capture] := by
  constructor
  · simp only [attempting, step, execute, capturePreparation, hcapture]
  · simp only [attempting, step, execute, capturePreparation, hcapture]

theorem step_commitPreparation (env : Env) {index : Nat} {capture : PreparationCapture}
    (result : PreparationOutcome) (owned : Bool)
    (hcapture : registry.preparations[index]? = some capture) :
    (registry.step ⟨env, .commitPreparation index result owned⟩).db =
      (settle env registry.db PreparationControlError.database
        (commitPreparationTransaction env registry.db capture result)).db := by
  simp only [step, execute, commitPreparation, hcapture]
  exact (finishPreparation_frame registry env owned _).1

/-- Only an attempt whose guards hold changes the database. -/
theorem commitPreparation_changed {env : Env} {index : Nat} {capture : PreparationCapture}
    {result : PreparationOutcome} {owned : Bool}
    (hcapture : registry.preparations[index]? = some capture)
    (hchanged : (registry.step ⟨env, .commitPreparation index result owned⟩).db ≠ registry.db) :
    ∃ old row, OutcomeWrite registry.db
      (registry.step ⟨env, .commitPreparation index result owned⟩).db capture result old row := by
  rcases settle_cases env registry.db PreparationControlError.database
    (commitPreparationTransaction env registry.db capture result) with
    ⟨-, hsame, -⟩ | ⟨after, row, hattempt, hafter, -⟩
  · rw [← step_commitPreparation env result owned hcapture] at hsame
    exact absurd hsame hchanged
  · rw [← step_commitPreparation env result owned hcapture] at hafter
    obtain ⟨old, hwrite⟩ := commitPreparationTransaction_wrote hattempt
    rw [← hafter] at hwrite
    exact ⟨old, row, hwrite⟩

theorem settle_error {ε α : Type} {env : Env} {db : Db} {lost error : ε}
    {attempt : Except ε (Option Db × α)} (hacknowledged : env.fate ≠ .unacknowledged)
    (hreply : (settle env db lost attempt).reply = .error error) :
    (settle env db lost attempt).db = db := by
  rcases attempt with found | ⟨_ | after, value⟩
  · rfl
  · rfl
  · cases hfate : env.fate with
    | acknowledged => simp [settle, hfate] at hreply
    | lost => simp [settle, hfate]
    | unacknowledged => exact absurd hfate hacknowledged

theorem finishPreparation_error {env : Env} {owned : Bool} {error : PreparationControlError}
    {attempt : Except PreparationControlError (Option Db × CurrentPreparation)}
    (hacknowledged : env.fate ≠ .unacknowledged)
    (hreply : (registry.finishPreparation env owned attempt).2 = .preparation (.error error)) :
    (registry.finishPreparation env owned attempt).1.db = registry.db := by
  rw [(finishPreparation_frame registry env owned attempt).1]
  unfold finishPreparation at hreply
  split at hreply
  · cases hreply
  · injection hreply with hreply
    exact settle_error hacknowledged hreply

/-- The read half of a settings selection changes nothing. -/
theorem selectSettings_db (env : Env) (id : SourceId) (settings : PreparationSettings)
    (initializeOnly owned : Bool) :
    (registry.selectSettings env id settings initializeOnly owned).1.db = registry.db := by
  unfold selectSettings
  split
  · rfl
  · split
    · rfl
    · split
      · split
        · rfl
        · rfl
      · rfl

/-- A preparation operation that fails leaves the database as it was, unless
the storage could not tell what became of the commit. -/
theorem preparation_failed {action : Action} {error : PreparationControlError}
    (hacknowledged : action.env.fate ≠ .unacknowledged)
    (hreply : registry.reply action = .preparation (.error error)) :
    (registry.step action).db = registry.db := by
  obtain ⟨env, command⟩ := action
  cases command with
  | captureCurrentSource selectedFile draws =>
      simp only [reply, execute, captureSource] at hreply
      split at hreply
      · cases hreply
      · cases hreply
  | commitCurrentSource slot fileKey object owned =>
      simp only [reply, execute, commitSource] at hreply
      split at hreply
      · cases hreply
      · split at hreply
        · cases hreply
        · cases hreply
  | captureCurrentSources => rfl
  | removeCurrentSources expected => cases hreply
  | admitSelection selection randomId => cases hreply
  | captureSelections => rfl
  | selectSettings id settings initializeOnly owned =>
      exact selectSettings_db env id settings initializeOnly owned
  | capturePreparation id =>
      simp only [step, execute, capturePreparation]
      split
      · rfl
      · rfl
  | commitPreparation index result owned =>
      simp only [reply, execute, commitPreparation] at hreply
      simp only [step, execute, commitPreparation]
      split at hreply
      · cases hreply
      · exact finishPreparation_error hacknowledged hreply
  | captureCorpus => rfl
  | advance call =>
      simp only [reply, execute] at hreply
      simp only [step, execute]
      split at hreply
      · cases hreply
      · rename_i found hfound
        cases found with
        | resolvingSource record => cases hreply
        | writingSettings id settings source previous owned =>
            exact finishPreparation_error hacknowledged hreply
        | resolvingPreparation proposed => rfl
  | abort call => rfl

/-- An attempt whose result is already installed, or would downgrade what is,
changes nothing. -/
theorem attempt_idle {env : Env} {index : Nat} {capture : PreparationCapture}
    {result : PreparationOutcome} {owned : Bool} {row : CurrentPreparation}
    (hcapture : registry.preparations[index]? = some capture)
    (hrow : registry.preparationOf capture.source.sourceId = some row)
    (hidle : keepsArtifact row capture.source capture.settings result = true ∨
      row.outcome = some (boundOutcome capture result)) :
    (registry.step ⟨env, .commitPreparation index result owned⟩).db = registry.db := by
  by_contra hchanged
  obtain ⟨old, revised, hwrite⟩ := commitPreparation_changed hcapture hchanged
  have hstored := hwrite.held.stored
  rw [preparationOf, hstored] at hrow
  obtain rfl := Option.some.inj hrow
  rcases hidle with hkeeps | hsame
  · rw [hwrite.supersedes] at hkeeps
    cases hkeeps
  · exact hwrite.changed hsame

/-- An attempt that takes effect found what it captured, untouched since. -/
theorem attempt_unchanged {registry taken : Registry} {middle : List Action}
    {capture : PreparationCapture} {row old : CurrentPreparation} (htracked : registry.Tracked)
    (hfresh : Runs.Throughout step Fresh registry middle)
    (hrowSame : registry.rowOf id = taken.rowOf id)
    (hpreparationSame : registry.preparationOf id = taken.preparationOf id)
    (hcaptured : AttemptCaptured taken id capture row)
    (hheld : OutcomeHeld (Runs.run step registry middle).db capture old) :
    old = row ∧ ∀ first second, middle = first ++ second →
      (Runs.run step registry first).rowOf id = some capture.source ∧
        (Runs.run step registry first).preparationOf id = some row := by
  have hsource := hrowSame.trans hcaptured.source
  have hid := hcaptured.id_eq
  have hlater : (Runs.run step registry middle).rowOf id = some capture.source := by
    have hrecord := hheld.source.record
    rw [hid] at hrecord
    exact hrecord
  have hstored : (Runs.run step registry middle).preparationOf id = some old := by
    have hat := hheld.stored
    rw [hid] at hat
    exact hat
  have hlevel : level ((Runs.run step registry middle).preparationOf id) =
      level (registry.preparationOf id) := by
    rw [hstored, hpreparationSame, hcaptured.stored]
    simp only [level, Option.elim_some, hheld.settingsRevision_eq, hheld.outcomeRevision_eq,
      hcaptured.settingsRevision_eq, hcaptured.outcomeRevision_eq]
  have hthroughout : ∀ first second, middle = first ++ second →
      (Runs.run step registry first).rowOf id = some capture.source ∧
        (Runs.run step registry first).preparationOf id = some row := by
    rintro first second rfl
    constructor
    · exact row_unchanged htracked hfresh hsource hlater rfl
    · rw [preparation_unchanged htracked hfresh hsource hlater hlevel, hpreparationSame]
      exact hcaptured.stored
  refine ⟨?_, hthroughout⟩
  obtain ⟨-, hend⟩ := hthroughout middle [] (List.append_nil _).symm
  rw [hstored] at hend
  exact Option.some.inj hend

/-- Outcomes are installed by compare-and-swap: an outcome takes effect only if
source, settings and outcome are as captured at every time since; installations
and settings selections each raise their own revision by one and keep the other
half; an operation that fails changes nothing unless the storage could not tell
what became of its commit; and a usable artifact is never downgraded. -/
theorem outcomes_kept {before middle : List Action} {takingEnv env : Env} {id : SourceId}
    {capture : PreparationCapture} (result : PreparationOutcome) (owned : Bool)
    (hfresh : Runs.Throughout step Fresh (init Db.empty)
      (before ++ attempting takingEnv id :: middle))
    (hcapture : readPreparation takingEnv (run before).db id >>=
      (fun read => captureView read.1 read.2) = .ok capture) :
    let taken := run before
    let current := run (before ++ attempting takingEnv id :: middle)
    let commit : Action := ⟨env, .commitPreparation taken.preparations.length result owned⟩
    let next := current.step commit
    (next.db ≠ current.db → ∃ row revised,
      taken.preparationOf id = some row ∧ row.settings = capture.settings ∧
      row.settingsRevision = capture.settingsRevision ∧
      row.outcome = capture.expectedOutcome ∧
      row.outcomeRevision = capture.expectedOutcomeRevision ∧
      (∀ first second, middle = first ++ second →
        (run (before ++ attempting takingEnv id :: first)).rowOf id = some capture.source ∧
        (run (before ++ attempting takingEnv id :: first)).preparationOf id = some row) ∧
      next.preparationOf id = some revised ∧
      revised.outcome = some (boundOutcome capture result) ∧
      revised.outcomeRevision.toNat = row.outcomeRevision.toNat + 1) ∧
    (∀ action other old new, current.preparationOf other = some old →
      (current.step action).preparationOf other = some new →
      (new.outcome ≠ old.outcome ∨ new.outcomeRevision ≠ old.outcomeRevision →
        new.outcomeRevision.toNat = old.outcomeRevision.toNat + 1 ∧
        new.settings = old.settings ∧ new.settingsRevision = old.settingsRevision) ∧
      (new.settings ≠ old.settings ∨ new.settingsRevision ≠ old.settingsRevision →
        new.settingsRevision.toNat = old.settingsRevision.toNat + 1 ∧
        new.outcome = old.outcome ∧ new.outcomeRevision = old.outcomeRevision) ∧
      ∀ ready gap, old.outcome = some ready → new.outcome = some gap →
        ¬ Downgrades ready gap) ∧
    (∀ action other new, current.preparationOf other = none →
      (current.step action).preparationOf other = some new →
        new.settingsRevision = 1 ∧ new.outcome = none ∧ new.outcomeRevision = 0) ∧
    (∀ action error, action.env.fate ≠ .unacknowledged →
      current.reply action = .preparation (.error error) →
        (current.step action).db = current.db) ∧
    ∀ row, current.preparationOf id = some row →
      keepsArtifact row capture.source capture.settings result = true ∨
        row.outcome = some (boundOutcome capture result) → next.db = current.db := by
  intro taken current commit next
  obtain ⟨hbefore, hafter⟩ := Runs.throughout_append.mp hfresh
  obtain ⟨htaking, hmiddle⟩ := hafter
  have htracked : taken.Tracked := tracked_run init_tracked hbefore
  obtain ⟨hdb, hpreparations⟩ := step_attempting hcapture
  obtain ⟨row, hcaptured⟩ := readPreparation_captured hcapture
  have hstart := htracked.step htaking
  have hrun : ∀ actions, run (before ++ attempting takingEnv id :: actions) =
      Runs.run step (taken.step (attempting takingEnv id)) actions := by
    intro actions
    exact Runs.run_append step _ _ _
  have hcurrent : current = Runs.run step (taken.step (attempting takingEnv id)) middle :=
    hrun middle
  have hheldCapture : current.preparations[taken.preparations.length]? = some capture := by
    rw [hcurrent]
    apply attempt_run
    rw [hpreparations, List.getElem?_append_right (Nat.le_refl _), Nat.sub_self]
    rfl
  refine ⟨?_, ?_, ?_, ?_, ?_⟩
  · intro hchanged
    obtain ⟨old, revised, hwrite⟩ := commitPreparation_changed hheldCapture hchanged
    have hheld := hwrite.held
    rw [hcurrent] at hheld
    obtain ⟨rfl, hthroughout⟩ := attempt_unchanged hstart hmiddle
      (by rw [rowOf, hdb, rowOf]) (by rw [preparationOf, hdb, preparationOf]) hcaptured hheld
    refine ⟨old, revised, hcaptured.stored, hcaptured.settings_eq, hcaptured.settingsRevision_eq,
      hcaptured.outcome_eq, hcaptured.outcomeRevision_eq, ?_, ?_, ?_, ?_⟩
    · intro first second hsplit
      rw [hrun first]
      exact hthroughout first second hsplit
    · obtain ⟨revision, htables⟩ := hwrite.tables
      have hinsert := preparationAt_insert (openTable current.db.preparations)
        capture.source.sourceId.bytes hwrite.valid id.bytes
      rw [hcaptured.id_eq, if_pos rfl] at hinsert
      rw [preparationOf]
      rw [hcaptured.id_eq] at htables
      exact (congrArg (fun db : Db => preparationAt (openTable db.preparations) id.bytes)
        htables).trans hinsert
    · rw [hwrite.row_eq]
    · exact checkedAdd_eq_some.mp hwrite.revision
  · intro action other old new hold hnew
    have hpreparing := step_preparing current action other
    rw [hold, hnew] at hpreparing
    cases hpreparing with
    | kept =>
        refine ⟨fun hother => ?_, fun hother => ?_, ?_⟩
        · simp at hother
        · simp at hother
        · rintro ready gap hready hgap ⟨husable, hunusable, -⟩
          rw [hready] at hgap
          obtain rfl := Option.some.inj hgap
          rw [husable] at hunusable
          cases hunusable
    | reselected hrevision houtcome =>
        refine ⟨fun hother => ?_, fun _ => ⟨hrevision, houtcome⟩, ?_⟩
        · simp [houtcome.1, houtcome.2] at hother
        · rintro ready gap hready hgap ⟨husable, hunusable, -⟩
          rw [houtcome.1, hready] at hgap
          obtain rfl := Option.some.inj hgap
          rw [husable] at hunusable
          cases hunusable
    | installed hrevision hsettings houtcome hupgrades =>
        refine ⟨fun _ => ⟨hrevision, hsettings⟩, fun hother => ?_, ?_⟩
        · simp [hsettings.1, hsettings.2] at hother
        · intro ready gap hready hgap
          rw [houtcome] at hgap
          obtain rfl := Option.some.inj hgap
          exact hupgrades ready hready
  · intro action other new hnone hnew
    have hpreparing := step_preparing current action other
    rw [hnone, hnew] at hpreparing
    cases hpreparing with
    | selected hsettings houtcome => exact ⟨hsettings, houtcome⟩
  · intro action error hacknowledged hreply
    exact preparation_failed hacknowledged hreply
  · intro found hfound hidle
    rw [← hcaptured.id_eq] at hfound
    exact attempt_idle hheldCapture hfound hidle

namespace Sample

def owner : SourceId := Octets.replicate 16 2

def retained : RetainedObject :=
  ⟨⟨1, .source, Octets.replicate 32 0, 5⟩, 8, by unfold NamedObject; decide⟩

/-- Register one source and select the default settings for it. -/
def selected : List Action :=
  [⟨Env.quiet, .captureCurrentSource [47, 97] ⟨some (Octets.replicate 16 1), some owner⟩⟩,
    ⟨Env.quiet, .commitCurrentSource 0 (.unix 1 1) retained true⟩,
    ⟨Env.quiet, .selectSettings owner PreparationSettings.default true true⟩,
    ⟨Env.quiet, .advance 0⟩]

def attempt : PreparationCapture where
  source := {
    sourceNamespaceId := Octets.replicate 16 1
    sourceId := owner
    rowRevision := 1
    registrationRevision := 1
    locator := [47, 97]
    fileKey := .unix 1 1
    objectRef := ⟨1, .source, Octets.replicate 32 0, 5⟩ }
  settings := PreparationSettings.default
  settingsRevision := 1
  expectedOutcomeRevision := 0
  expectedOutcome := none

/-- A commit whose storage cannot tell what became of it. -/
def ambiguous : Action :=
  ⟨{ Env.quiet with fate := .unacknowledged }, .commitPreparation 0 (.gap .binaryContent) true⟩

end Sample

/-- A commit that fails may have installed its outcome: the storage reports a
failed commit that took effect. -/
theorem ambiguous_outcome_installed :
    (run (Sample.selected ++ [attempting Env.quiet Sample.owner])).reply Sample.ambiguous =
        .preparation (.error .database) ∧
      ((run (Sample.selected ++ [attempting Env.quiet Sample.owner])).step Sample.ambiguous).db ≠
        (run (Sample.selected ++ [attempting Env.quiet Sample.owner])).db := by
  constructor
  · decide +kernel
  · decide +kernel

/-- A first attempt installs its gap and counts it. -/
theorem outcomes_kept_sample :
    ∃ revised, ((run (Sample.selected ++ [attempting Env.quiet Sample.owner])).step
      ⟨Env.quiet, .commitPreparation (run Sample.selected).preparations.length (.gap .binaryContent)
        true⟩).preparationOf Sample.owner =
        some revised ∧ revised.outcomeRevision.toNat = 1 := by
  have hfresh : Runs.Throughout step Fresh (init Db.empty)
      (Sample.selected ++ attempting Env.quiet Sample.owner :: []) := by decide +kernel
  have hcapture : readPreparation Env.quiet (run Sample.selected).db Sample.owner >>=
      (fun read => captureView read.1 read.2) = .ok Sample.attempt := by decide +kernel
  have hchanged : ((run (Sample.selected ++ [attempting Env.quiet Sample.owner])).step
      ⟨Env.quiet, .commitPreparation (run Sample.selected).preparations.length (.gap .binaryContent)
        true⟩).db ≠
        (run (Sample.selected ++ [attempting Env.quiet Sample.owner])).db := by decide +kernel
  have hkept := @outcomes_kept _ _ _ Env.quiet _ _ (.gap .binaryContent) true hfresh hcapture
  obtain ⟨row, revised, _, _, _, _, houtcomeRevision, _, hrevised, _, hcounted⟩ :=
    hkept.1 hchanged
  refine ⟨revised, hrevised, ?_⟩
  rw [hcounted, houtcomeRevision]
  rfl

end Registry

end EliotSearch.Control
