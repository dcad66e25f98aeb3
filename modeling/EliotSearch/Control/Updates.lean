import EliotSearch.Control.Histories

/-!
# Source updates

A source commit spans a read transaction, external work and a later write
transaction.  Whatever runs in between, the commit that takes effect replaces
exactly the row its capture observed, or the same absence, and a row that was
touched meanwhile makes it fail.
-/

namespace EliotSearch.Control

open EliotSearch.Library
open EliotSearch.Library.Results
open EliotSearch.Library.Words

/-! ## Named rows of a sound root -/

namespace Db

variable {db : Db} {locator : Bytes} {record : CurrentSourceRecord}

theorem Sound.sourceAt_stored (hsound : db.Sound) (hrecord : sourceAt db locator = some record) :
    (openTable db.sourceLocators)[locator]? = some record.sourceId.bytes ∧
      recordAt (openTable db.sourceRows) record.sourceId.bytes = some record ∧
      record.locator = locator := by
  rcases hsound.sources with hnone | ⟨namespaceId, hregistered⟩
  · rw [hnone.sourceAt] at hrecord
    cases hrecord
  · obtain ⟨hname, hrow, hlocator, -⟩ := hregistered.sourceAt_stored hrecord
    exact ⟨hname, hrow, hlocator⟩

theorem Sound.sourceAt_record (hsound : db.Sound) {key : Bytes}
    (hrow : recordAt (openTable db.sourceRows) key = some record) :
    sourceAt db record.locator = some record := by
  rw [sourceAt, hsound.inverse.indexed hrow, Option.bind_some, hrow]

end Db

namespace Registry

variable {registry next : Registry} {capture : SourceCapture}

/-! ## Slots of a run -/

/-- A slot keeps its capture until it is emptied. -/
theorem slot_step (registry : Registry) (action : Action) {slot : Nat}
    {held : Option SourceCapture} (hslot : registry.sources[slot]? = some held) :
    (registry.step action).sources[slot]? = some held ∨
      (registry.step action).sources[slot]? = some none := by
  have hspent : ∀ index, (registry.sources.set index none)[slot]? = some held ∨
      (registry.sources.set index none)[slot]? = some none := by
    intro index
    rw [List.getElem?_set]
    split
    · rename_i hsame
      subst hsame
      obtain ⟨hlt, -⟩ := List.getElem?_eq_some_iff.mp hslot
      exact Or.inr (by rw [if_pos hlt])
    · exact Or.inl hslot
  cases step_change registry action with
  | idle _ hsources _ _ => exact Or.inl (by rw [hsources, hslot])
  | captured _ _ _ hsources _ _ =>
      obtain ⟨hlt, -⟩ := List.getElem?_eq_some_iff.mp hslot
      exact Or.inl (by rw [hsources, List.getElem?_append_left hlt, hslot])
  | spent _ _ hsources _ _ => exact hsources ▸ hspent _
  | wroteSource _ _ _ hsources _ _ => exact hsources ▸ hspent _
  | erasedSources _ hsources _ _ => exact Or.inl (by rw [hsources, hslot])
  | admitted _ hsources _ _ => exact Or.inl (by rw [hsources, hslot])
  | wroteSettings _ _ _ hsources _ _ => exact Or.inl (by rw [hsources, hslot])
  | wroteOutcome _ _ _ hsources _ _ => exact Or.inl (by rw [hsources, hslot])

theorem slot_run (registry : Registry) (actions : List Action) {slot : Nat}
    (hslot : registry.sources[slot]? = some (some capture) ∨
      registry.sources[slot]? = some none) :
    (Runs.run step registry actions).sources[slot]? = some (some capture) ∨
      (Runs.run step registry actions).sources[slot]? = some none := by
  induction actions generalizing registry with
  | nil => exact hslot
  | cons action actions ih =>
      apply ih
      rcases hslot with hheld | hempty
      · exact slot_step registry action hheld
      · exact Or.inr (or_self_iff.mp (slot_step registry action hempty))

/-! ## Commits -/

/-- A commit action on the capture of a slot, taken apart. -/
theorem step_commitSource (env : Env) {slot : Nat} (fileKey : NativeFileKey)
    (object : RetainedObject) (owned : Bool)
    (hslot : registry.sources[slot]? = some (some capture)) :
    (registry.step ⟨env, .commitCurrentSource slot fileKey object owned⟩).db =
      (settle env registry.db SourceControlError.database
        (commitSourceTransaction env registry.db capture fileKey object.reference)).db :=
  (commitSource_frame env hslot fileKey object owned).1

/-- Only a commit that passed its guards changes the database. -/
theorem commitSource_changed {env : Env} {slot : Nat} {fileKey : NativeFileKey}
    {object : RetainedObject} {owned : Bool}
    (hslot : registry.sources[slot]? = some (some capture) ∨
      registry.sources[slot]? = some none)
    (hnext : next = registry.step ⟨env, .commitCurrentSource slot fileKey object owned⟩)
    (hchanged : next.db ≠ registry.db) :
    ∃ record, SourceWrite registry.db next.db capture fileKey object.reference record := by
  subst hnext
  rcases hslot with hslot | hempty
  · rcases settle_cases env registry.db SourceControlError.database
      (commitSourceTransaction env registry.db capture fileKey object.reference) with
      ⟨-, hsame, -⟩ | ⟨after, record, hattempt, hafter, -⟩
    · rw [← step_commitSource env fileKey object owned hslot] at hsame
      exact absurd hsame hchanged
    · rw [← step_commitSource env fileKey object owned hslot] at hafter
      have hwrite := commitSourceTransaction_wrote hattempt
      rw [← hafter] at hwrite
      exact ⟨record, hwrite⟩
  · refine absurd ?_ hchanged
    have hfound : registry.sources[slot]?.join = none := by rw [hempty, Option.join_some]
    simp only [step, execute, commitSource, hfound]

/-- The row that a commit writes is the one its locator names afterwards, and
the rows of other locators stay. -/
theorem sourceAt_written {db after : Db} {fileKey : NativeFileKey} {object : RetainedObject}
    {record : CurrentSourceRecord} (hsound : db.Sound)
    (hwrite : SourceWrite db after capture fileKey object.reference record) :
    sourceAt after capture.locator = some record ∧
      ∀ other, other ≠ capture.locator → sourceAt after other = sourceAt db other := by
  obtain ⟨revision, htables⟩ := hwrite.tables
  have hlocator : record.locator = capture.locator := by
    rw [hwrite.record_eq]
    rfl
  have hid : record.sourceId = capture.sourceId := by
    rw [hwrite.record_eq]
    rfl
  have hrows : ∀ key, recordAt (openTable after.sourceRows) key =
      if record.sourceId.bytes = key then some record
      else recordAt (openTable db.sourceRows) key := by
    intro key
    rw [htables]
    exact recordAt_withSource hwrite.recordable hwrite.bounded revision key
  have hlocators : ∀ name, (openTable after.sourceLocators)[name]? =
      if record.locator = name then some record.sourceId.bytes
      else (openTable db.sourceLocators)[name]? := by
    intro name
    rw [htables]
    exact Table.get_insert _ _ _ _
  constructor
  · rw [sourceAt, hlocators, if_pos hlocator, Option.bind_some, hrows, if_pos rfl]
  · intro other hother
    rw [sourceAt, hlocators, if_neg (fun heq => hother (heq.symm.trans hlocator)), sourceAt]
    cases hkey : (openTable db.sourceLocators)[other]? with
    | none => rfl
    | some key =>
        rw [Option.bind_some, Option.bind_some, hrows, if_neg]
        rintro rfl
        obtain ⟨value, hvalue, hname⟩ := hsound.inverse.stored hkey
        rw [hid] at hvalue
        rcases hwrite.held.split with ⟨_, _, _, _, _, hnone⟩ |
          ⟨current, _, _, _, _, _, hcurrent, _, hcurrentName⟩
        · rw [hnone] at hvalue
          cases hvalue
        · rw [hcurrent] at hvalue
          obtain rfl := Option.some.inj hvalue
          exact hother (hname.symm.trans hcurrentName)

/-! ## What the guards imply -/

/-- Guards that hold at the end of a run hold of the row observed at its start,
at every time between; an absence observed at the start is there at the end. -/
theorem held_unchanged {registry taken : Registry} {middle : List Action} {draws : Draws}
    {locator : Bytes} {row registration : UInt64} (htracked : registry.Tracked)
    (hfresh : Runs.Throughout step Fresh registry middle) (hdb : registry.db = taken.db)
    (hobserved : Observed taken.db locator draws capture)
    (hheld : RegistrationHeld (Runs.run step registry middle).db capture row registration) :
    (sourceAt taken.db locator = none ∧
      sourceAt (Runs.run step registry middle).db locator = none ∧ row = 1 ∧ registration = 1) ∨
    ∃ record, sourceAt taken.db locator = some record ∧ capture.sourceId = record.sourceId ∧
      (∀ first second, middle = first ++ second →
        sourceAt (Runs.run step registry first).db locator = some record) ∧
      row.toNat = record.rowRevision.toNat + 1 ∧ registration = record.registrationRevision := by
  have hlocator := hobserved.locator_eq
  rcases hheld.split with ⟨hrow, hregistration, hexpected, _, hfree, _⟩ |
    ⟨current, hrow, hregistration, hexpected, hexpectedRegistration, _, hcurrent, hid, hname⟩
  · left
    have habsent := hobserved.row
    rw [hexpected] at habsent
    refine ⟨Option.map_eq_none_iff.mp habsent.symm, ?_, hrow, hregistration⟩
    rw [sourceAt, ← hlocator, hfree, Option.bind_none]
  · right
    have hpresent := hobserved.row
    rw [hexpected] at hpresent
    obtain ⟨record, hrecord, hrevision⟩ := Option.map_eq_some_iff.mp hpresent.symm
    have hcaptured := hobserved.present record hrecord
    have hregistered := hobserved.registration
    rw [hexpectedRegistration, hrecord, Option.map_some] at hregistered
    have hsoundTaken : taken.db.Sound := hdb ▸ htracked.consistent.sound
    obtain ⟨-, hstored, hrecordName⟩ := hsoundTaken.sourceAt_stored hrecord
    rw [← hdb] at hstored
    rw [hcaptured] at hcurrent
    have hthroughout : ∀ first second, middle = first ++ second →
        (Runs.run step registry first).rowOf record.sourceId = some record := by
      rintro first second rfl
      exact row_unchanged htracked hfresh hstored hcurrent hrevision.symm
    refine ⟨record, hrecord, hcaptured, ?_, ?_, ?_⟩
    · intro first second hmiddle
      have hfirst : Runs.Throughout step Fresh registry first := by
        rw [hmiddle] at hfresh
        exact (Runs.throughout_append.mp hfresh).1
      have hsound := (tracked_run htracked hfirst).consistent.sound
      rw [← hrecordName]
      exact hsound.sourceAt_record (hthroughout first second hmiddle)
    · rw [hrow, hrevision]
    · rw [hregistration]
      exact Option.some.inj hregistered

/-- A commit whose observed row was touched meanwhile is refused. -/
theorem commitSource_refused (env : Env) {registry taken : Registry} {middle : List Action}
    {draws : Draws} {locator : Bytes} {record : CurrentSourceRecord} (fileKey : NativeFileKey)
    (object : RetainedObject) (htracked : registry.Tracked)
    (hfresh : Runs.Throughout step Fresh registry middle) (hdb : registry.db = taken.db)
    (hobserved : Observed taken.db locator draws capture)
    (hrecord : sourceAt taken.db locator = some record) {first second : List Action}
    (hmiddle : middle = first ++ second)
    (htouched : sourceAt (Runs.run step registry first).db locator ≠ some record) :
    ∃ error, commitSourceTransaction env (Runs.run step registry middle).db capture fileKey
      object.reference = .error error := by
  have hunheld : ∀ {row registration : UInt64},
      ¬ RegistrationHeld (Runs.run step registry middle).db capture row registration := by
    intro row registration hheld
    rcases held_unchanged htracked hfresh hdb hobserved hheld with
      ⟨hnone, -⟩ | ⟨found, hfound, _, hthroughout, -⟩
    · rw [hnone] at hrecord
      cases hrecord
    · rw [hrecord] at hfound
      obtain rfl := Option.some.inj hfound
      exact htouched (hthroughout first second hmiddle)
  cases hattempt : commitSourceTransaction env (Runs.run step registry middle).db capture fileKey
      object.reference with
  | error error => exact ⟨error, rfl⟩
  | ok outcome =>
      obtain ⟨after, found⟩ := outcome
      cases after with
      | some after => exact absurd (commitSourceTransaction_wrote hattempt).held hunheld
      | none =>
          obtain ⟨-, ⟨_, _, hheld⟩, -⟩ := commitSourceTransaction_kept hattempt
          exact absurd hheld hunheld

/-- The state in which a capture was taken, after the run that led to it. -/
def capturing (env : Env) (selectedFile : Bytes) (draws : Draws) : Action :=
  ⟨env, .captureCurrentSource selectedFile draws⟩

theorem step_capturing {env : Env} {selectedFile : Bytes} {draws : Draws}
    (hcapture : Control.captureCurrentSource env registry.db selectedFile draws = .ok capture) :
    (registry.step (capturing env selectedFile draws)).db = registry.db ∧
      (registry.step (capturing env selectedFile draws)).sources =
        registry.sources ++ [some capture] := by
  constructor
  · simp only [capturing, step, execute, captureSource, hcapture]
  · simp only [capturing, step, execute, captureSource, hcapture]

/-- No source update is lost: between a capture and its commit anything may
run, and still a commit that changes the database replaces exactly what the
capture observed, one that repeats the object and the file changes nothing, and
one whose row was touched meanwhile fails and changes nothing. -/
theorem source_updates_kept {before middle : List Action} {takingEnv env : Env}
    {selectedFile : Bytes} {draws : Draws} {capture : SourceCapture} (fileKey : NativeFileKey)
    (object : RetainedObject) (owned : Bool)
    (hfresh : Runs.Throughout step Fresh (init Db.empty)
      (before ++ capturing takingEnv selectedFile draws :: middle))
    (hcapture : Control.captureCurrentSource takingEnv (run before).db selectedFile draws =
      .ok capture) :
    let taken := run before
    let current := run (before ++ capturing takingEnv selectedFile draws :: middle)
    let commit : Action :=
      ⟨env, .commitCurrentSource taken.sources.length fileKey object owned⟩
    let next := current.step commit
    (next.db ≠ current.db →
      sourceAt current.db selectedFile = sourceAt taken.db selectedFile ∧
      (∃ record, sourceAt next.db selectedFile = some record ∧
        record.objectRef = object.reference ∧ record.fileKey = fileKey ∧
        match sourceAt taken.db selectedFile with
        | some row => record.sourceId = row.sourceId ∧
            record.registrationRevision = row.registrationRevision ∧
            record.rowRevision.toNat = row.rowRevision.toNat + 1
        | none => record.sourceId = capture.sourceId ∧ record.registrationRevision = 1 ∧
            record.rowRevision = 1) ∧
      ∀ other, other ≠ selectedFile → sourceAt next.db other = sourceAt current.db other) ∧
    (∀ row, sourceAt current.db selectedFile = some row → row.objectRef = object.reference →
      row.fileKey = fileKey → next.db = current.db) ∧
    ∀ row, sourceAt taken.db selectedFile = some row →
      (∃ first second, middle = first ++ second ∧
        sourceAt (run (before ++ capturing takingEnv selectedFile draws :: first)).db
          selectedFile ≠ some row) →
      next.db = current.db ∧ next.calls = current.calls ∧
        ∀ record, current.reply commit ≠ .source (.ok record) := by
  intro taken current commit next
  obtain ⟨hbefore, hafter⟩ := Runs.throughout_append.mp hfresh
  obtain ⟨htaking, hmiddle⟩ := hafter
  have htracked : taken.Tracked := tracked_run init_tracked hbefore
  obtain ⟨hdb, hsources⟩ := step_capturing hcapture
  have hobserved : Observed taken.db selectedFile draws capture := by
    rcases captureCurrentSource_cases takingEnv selectedFile draws htracked.consistent.sound with
      ⟨found, hfound, hobserved⟩ | ⟨_, herror, -⟩
    · obtain rfl := Except.ok.inj (hcapture.symm.trans hfound)
      exact hobserved
    · rw [hcapture] at herror
      cases herror
  have hstart := htracked.step htaking
  have hrun : ∀ actions, run (before ++ capturing takingEnv selectedFile draws :: actions) =
      Runs.run step (taken.step (capturing takingEnv selectedFile draws)) actions := by
    intro actions
    exact Runs.run_append step _ _ _
  have hcurrent : current =
      Runs.run step (taken.step (capturing takingEnv selectedFile draws)) middle := hrun middle
  have hsound : current.db.Sound := hcurrent ▸ (tracked_run hstart hmiddle).consistent.sound
  have hslot : current.sources[taken.sources.length]? = some (some capture) ∨
      current.sources[taken.sources.length]? = some none := by
    rw [hcurrent]
    apply slot_run
    left
    rw [hsources, List.getElem?_append_right (Nat.le_refl _), Nat.sub_self]
    rfl
  refine ⟨?_, ?_, ?_⟩
  · intro hchanged
    obtain ⟨record, hwrite⟩ := commitSource_changed hslot rfl hchanged
    obtain ⟨hnamed, hothers⟩ := sourceAt_written hsound hwrite
    rw [hobserved.locator_eq] at hnamed hothers
    have hheld := hwrite.held
    rw [hcurrent] at hheld
    have hrecord := hwrite.record_eq
    have hid : record.sourceId = capture.sourceId := by
      rw [hrecord]
      rfl
    have hobject : record.objectRef = object.reference := by
      rw [hrecord]
      rfl
    have hfile : record.fileKey = fileKey := by
      rw [hrecord]
      rfl
    rcases held_unchanged hstart hmiddle hdb hobserved hheld with
      ⟨hnone, hcurrentNone, hrow, hregistration⟩ |
      ⟨row, hrow, hcaptured, hthroughout, hrevision, hregistration⟩
    · rw [← hcurrent] at hcurrentNone
      refine ⟨hcurrentNone.trans hnone.symm, ⟨record, hnamed, hobject, hfile, ?_⟩, hothers⟩
      rw [hnone]
      exact ⟨hid, hregistration, hrow⟩
    · have hsame := hthroughout middle [] (List.append_nil _).symm
      rw [← hcurrent] at hsame
      refine ⟨hsame.trans hrow.symm, ⟨record, hnamed, hobject, hfile, ?_⟩, hothers⟩
      rw [hrow]
      exact ⟨hid.trans hcaptured, hregistration, hrevision⟩
  · intro row hrow hobject hfile
    by_contra hchanged
    obtain ⟨record, hwrite⟩ := commitSource_changed hslot rfl hchanged
    rw [← hobserved.locator_eq] at hrow
    rcases hwrite.held.split with ⟨_, _, _, _, hfree, _⟩ |
      ⟨found, _, _, hexpected, _, howner, hfound, _, _⟩
    · rw [sourceAt, hfree] at hrow
      cases hrow
    · rw [sourceAt, howner, Option.bind_some, hfound] at hrow
      obtain rfl := Option.some.inj hrow
      exact hwrite.changed (by rw [hexpected]; rfl) hfound ⟨hobject, hfile⟩
  · rintro row hrow ⟨first, second, hsplit, htouched⟩
    rw [hrun first] at htouched
    rcases hslot with hheld | hempty
    · obtain ⟨error, herror⟩ := commitSource_refused env fileKey object hstart hmiddle hdb
        hobserved hrow hsplit htouched
      rw [← hcurrent] at herror
      have hfound : current.sources[taken.sources.length]?.join = some capture := by
        rw [hheld, Option.join_some]
      refine ⟨?_, ?_, ?_⟩
      · simp only [next, commit, step, execute, commitSource, hfound, herror, unacknowledged, settle]
      · simp only [next, commit, step, execute, commitSource, hfound, herror, unacknowledged, settle]
      · intro record hreply
        simp only [commit, reply, execute, commitSource, hfound, herror, unacknowledged, settle]
          at hreply
        cases hreply
    · have hfound : current.sources[taken.sources.length]?.join = none := by
        rw [hempty, Option.join_some]
      refine ⟨?_, ?_, ?_⟩
      · simp only [next, commit, step, execute, commitSource, hfound]
      · simp only [next, commit, step, execute, commitSource, hfound]
      · intro record hreply
        simp only [commit, reply, execute, commitSource, hfound] at hreply
        cases hreply

namespace Sample

def file : Bytes := [47, 97]

def draws : Draws := ⟨some (Octets.replicate 16 1), some (Octets.replicate 16 2)⟩

def observed : SourceCapture where
  sourceNamespaceId := Octets.replicate 16 1
  sourceId := Octets.replicate 16 2
  locator := file
  expectedNamespace := none
  expectedRowRevision := none
  expectedRegistrationRevision := none

def object : RetainedObject :=
  ⟨⟨1, .source, Octets.replicate 32 1, 5⟩, 8, by unfold NamedObject; decide⟩

def commit : Action := ⟨Env.quiet, .commitCurrentSource 0 (.unix 1 1) object true⟩

end Sample

/-- A first registration takes effect on the absence its capture observed. -/
theorem source_updates_kept_sample :
    ∃ record, sourceAt ((run [capturing Env.quiet Sample.file Sample.draws]).step
      Sample.commit).db Sample.file = some record ∧ record.rowRevision = 1 := by
  have hfresh : Runs.Throughout step Fresh (init Db.empty)
      ([] ++ capturing Env.quiet Sample.file Sample.draws :: []) := by decide +kernel
  have hcapture : Control.captureCurrentSource Env.quiet (run []).db Sample.file Sample.draws =
      .ok Sample.observed := by decide +kernel
  have hchanged : ((run [capturing Env.quiet Sample.file Sample.draws]).step Sample.commit).db ≠
      (run [capturing Env.quiet Sample.file Sample.draws]).db := by decide +kernel
  have hkept := @source_updates_kept _ _ _ Env.quiet _ _ _ (.unix 1 1) Sample.object true hfresh
    hcapture
  obtain ⟨record, hrecord, -, -, hrevisions⟩ := (hkept.1 hchanged).2.1
  exact ⟨record, hrecord, hrevisions.2.2⟩

end Registry

end EliotSearch.Control
