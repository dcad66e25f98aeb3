import EliotSearch.Library.Runs
import EliotSearch.Roots.Restart

/-!
# Recovery of a root

Both commands from every layout that a cut off command leaves, and the runs of
commands that are cut off anywhere.
-/

namespace EliotSearch.Roots

open EliotSearch.Library
open EliotSearch.Library.Crash
open EliotSearch.Library.Results

/-! ## Roots with a lock -/

/-- The roots with a lock from which an initialization goes on. -/
inductive Resumable : Root → Prop
  | locked {markerStage : Option Bytes}
      (hstage : ∀ bytes ∈ markerStage, bytes <+: initMarkerBytes) :
      Resumable (lockedRoot markerStage)
  | marked {markerStage manifestStage : Option Bytes} {objects : Bool} {control : Option Slot}
      (howned : Owned markerStage manifestStage control) :
      Resumable (markedRoot markerStage objects control manifestStage)

section Steps

variable {engine : Engine} {root : Root}

theorem Resumable.sound (hresumable : Resumable root) : Sound root := by
  cases hresumable with
  | locked hstage => exact Sound.locked hstage
  | marked howned => exact howned.sound _

theorem Resumable.classify (hresumable : Resumable root) (probe : Bool) :
    classifyRoot engine probe root = .ok .incompleteInitialization := by
  cases hresumable with
  | locked hstage => exact classify_locked hstage probe
  | marked howned => exact classify_marked howned.marker howned.control howned.manifest probe

theorem Resumable.lock (hresumable : Resumable root) : pathKind root .lockFile = some .file := by
  cases hresumable with
  | locked hstage => rfl
  | marked howned => rfl

theorem acquireLock_present (hlock : pathKind root .lockFile = some .file) (create : Bool) :
    Completes Sound (acquireLock create) root fun _ left => left = root := by
  refine Completes.bind (completes_read (congrArg Except.ok hlock)) ?_
  rintro _ _ ⟨rfl, rfl⟩
  exact completes_pure rfl

theorem acquireLock_empty :
    Completes Sound (acquireLock true) (.directory .empty)
      fun _ left => left = lockedRoot none := by
  refine Completes.bind (completes_read rfl) ?_
  rintro _ _ ⟨rfl, rfl⟩
  refine putEntry_completes ?_ (Sound.locked none_spec)
  refine congrArg (fun entry => Root.directory ⟨entry, []⟩) (funext fun name => ?_)
  cases name <;> rfl

theorem requireIncomplete_completes {probe : Bool}
    (hclassify : classifyRoot engine probe root = .ok .incompleteInitialization) :
    Completes Sound (requireIncomplete engine probe) root fun _ left => left = root := by
  refine Completes.bind (completes_read hclassify) ?_
  rintro _ _ ⟨rfl, rfl⟩
  exact completes_refuse (not_not.mpr rfl)

theorem requireIncomplete_refuses {probe : Bool} {status : PlainRootStatus}
    (hclassify : classifyRoot engine probe root = .ok status)
    (hstatus : status ≠ .incompleteInitialization) :
    Refuses Sound (requireIncomplete engine probe) root (statusError status) fun left =>
      left = root := by
  refine Completes.bind (completes_read hclassify) ?_
  rintro _ _ ⟨rfl, rfl⟩
  exact refuses_refuse hstatus

theorem requireCurrent_completes (hclassify : classifyRoot engine false root = .ok .current) :
    Completes Sound (requireCurrent engine) root fun _ left => left = root := by
  refine Completes.bind (completes_read hclassify) ?_
  rintro _ _ ⟨rfl, rfl⟩
  exact completes_refuse (not_not.mpr rfl)

end Steps

/-! ## Initialization -/

section Initialization

variable {engine : Engine} {root : Root}

/-- The root is finished, without a stage. -/
def Finished (root : Root) : Prop := ∃ file, Formatted file ∧ root = committedRoot none file none

theorem Finished.sound (hfinished : Finished root) : Sound root := by
  obtain ⟨file, hfile, rfl⟩ := hfinished
  exact Sound.committed none_spec hfile none_spec

theorem Finished.classify (hfinished : Finished root) (probe : Bool) :
    classifyRoot engine probe root = .ok .current := by
  obtain ⟨file, hfile, rfl⟩ := hfinished
  exact classify_committed none_spec hfile none_spec probe

/-- The marker is published, or was, and its stage is gone. -/
theorem publishMarker_completes (hresumable : Resumable root) (persist : Persist) :
    Completes Sound
      (publishNoclobber persist .initMarker .initMarkerStage initMarkerBytes maxMarkerBytes) root
      fun _ left => ∃ objects control manifestStage, Owned none manifestStage control ∧
        left = markedRoot none objects control manifestStage := by
  have hlength : initMarkerBytes.length ≤ maxMarkerBytes := by decide
  cases hresumable with
  | locked hstage =>
      refine Completes.mono
        (publishNoclobber_completes marker_publication hlength persist hstage) ?_
      rintro _ _ rfl
      exact ⟨false, none, none, ⟨none_spec, none_spec, none_spec⟩, rfl⟩
  | @marked markerStage manifestStage objects control howned =>
      have howned' : Owned none manifestStage control :=
        ⟨none_spec, howned.control, howned.manifest⟩
      have hvaries : Varies .initMarkerStage fun stage =>
          markedRoot stage objects control manifestStage :=
        Layout.varies_markerStage ⟨true, none, objects, control, manifestStage, false⟩
      refine Completes.mono (publishNoclobber_present hvaries (fun _ => rfl) hlength persist
        howned.marker (howned'.sound objects)) ?_
      rintro _ _ rfl
      exact ⟨objects, control, manifestStage, howned', rfl⟩

/-- Under the lock, an initialization goes on to its end. -/
theorem initializeLocked_completes {persist : Persist}
    (hlock : Completes Sound (acquireLock true) root fun _ left => Resumable left) :
    Completes Sound (initializeLocked engine persist) root fun _ left => Finished left := by
  refine hlock.bind fun _ locked hresumable => ?_
  refine (requireIncomplete_completes (hresumable.classify true)).bind ?_
  rintro _ _ rfl
  refine (publishMarker_completes hresumable persist).bind ?_
  rintro _ _ ⟨objects, control, manifestStage, howned, rfl⟩
  refine (initializeStores_completes howned).bind ?_
  rintro _ _ ⟨file, hfile, rfl⟩
  have hcontrol : ∀ slot ∈ some (some file), ∀ file ∈ slot, Unfinished file :=
    some_spec (some_spec (Or.inr (Or.inr hfile)))
  refine (requireIncomplete_completes
    (classify_marked none_spec hcontrol howned.manifest true)).bind ?_
  rintro _ _ rfl
  refine (publishNoclobber_completes (manifest_publication hfile) (by decide) persist
    howned.manifest).bind ?_
  rintro _ _ rfl
  have hfinished : Finished (committedRoot none file none) := ⟨file, hfile, rfl⟩
  refine Completes.mono (requireCurrent_completes (hfinished.classify false)) ?_
  rintro _ _ rfl
  exact hfinished

/-- The roots from which an initialization goes on: those with a lock, an empty one and
an absent one. -/
inductive Startable : Root → Prop
  | absent : Startable .absent
  | empty : Startable (.directory .empty)
  | resumable {root : Root} (hresumable : Resumable root) : Startable root

theorem initializeLocked_startable {persist : Persist}
    (hroot : root = .directory .empty ∨ Resumable root) :
    Completes Sound (initializeLocked engine persist) root fun _ left => Finished left := by
  rcases hroot with rfl | hresumable
  · refine initializeLocked_completes (Completes.mono acquireLock_empty ?_)
    rintro _ _ rfl
    exact Resumable.locked none_spec
  · refine initializeLocked_completes
      (Completes.mono (acquireLock_present hresumable.lock true) ?_)
    rintro _ _ rfl
    exact hresumable

theorem observeOrCreate_absent :
    Completes Sound (observeOrCreate engine) .absent fun status left =>
      status = .empty ∧ left = .directory .empty := by
  refine Completes.bind (completes_read rfl) ?_
  rintro _ _ ⟨rfl, rfl⟩
  rw [if_pos rfl]
  refine Completes.bind (completes_change fun passed hmem => ?_) ?_
  · rw [List.mem_singleton.mp hmem]
    exact Sound.empty
  · rintro _ _ rfl
    refine Completes.mono (completes_read rfl) ?_
    rintro _ _ ⟨rfl, rfl⟩
    exact ⟨rfl, rfl⟩

theorem observeOrCreate_of {status : PlainRootStatus}
    (hclassify : classifyRoot engine false root = .ok status) (hstatus : status ≠ .absent) :
    Completes Sound (observeOrCreate engine) root fun found left =>
      found = status ∧ left = root := by
  refine Completes.bind (completes_read hclassify) ?_
  rintro _ _ ⟨rfl, rfl⟩
  rw [if_neg hstatus]
  exact completes_pure ⟨rfl, rfl⟩

/-- An initialization that is not interrupted finishes an unfinished root. -/
theorem initializePlain_completes (hstartable : Startable root) (persist : Persist) :
    Completes Sound (initializePlain engine persist) root fun _ left => Finished left := by
  cases hstartable with
  | absent =>
      refine observeOrCreate_absent.bind ?_
      rintro _ _ ⟨rfl, rfl⟩
      exact initializeLocked_startable (Or.inl rfl)
  | empty =>
      refine Completes.bind (observeOrCreate_of rfl (by decide)) ?_
      rintro _ _ ⟨rfl, rfl⟩
      exact initializeLocked_startable (Or.inl rfl)
  | resumable hresumable =>
      refine Completes.bind (observeOrCreate_of (hresumable.classify false) (by decide)) ?_
      rintro _ _ ⟨rfl, rfl⟩
      exact initializeLocked_startable (Or.inr hresumable)

/-- Behind a finished initialization only the stages are removed. -/
theorem cleanupCurrent_refuses {markerStage manifestStage : Option Bytes} {file : ControlFile}
    (hmarker : ∀ bytes ∈ markerStage, bytes = initMarkerBytes) (hfile : Formatted file)
    (hmanifest : ∀ bytes ∈ manifestStage, bytes = manifestBytes) :
    Refuses Sound (cleanupCurrent engine) (committedRoot markerStage file manifestStage)
      .alreadyExists Finished := by
  have hmarkerVaries : Varies .initMarkerStage fun stage =>
      committedRoot stage file manifestStage :=
    Layout.varies_markerStage ⟨true, none, true, some (some file), manifestStage, true⟩
  have hmanifestVaries : Varies .manifestStage fun stage => committedRoot none file stage :=
    Layout.varies_manifestStage ⟨true, none, true, some (some file), none, true⟩
  refine Completes.bind (completes_read rfl) ?_
  rintro _ _ ⟨rfl, rfl⟩
  split
  · next hpresent =>
      refine (acquireLock_present rfl false).bind ?_
      rintro _ _ rfl
      refine (requireCurrent_completes
        (classify_committed hmarker hfile hmanifest false)).bind ?_
      rintro _ _ rfl
      have hcleanup : Completes Sound cleanupCompleteMetadataStages
          (committedRoot markerStage file manifestStage) fun _ left => Finished left := by
        refine Completes.bind (completes_read rfl) ?_
        rintro _ _ ⟨rfl, rfl⟩
        rw [if_pos hpresent]
        refine Completes.bind (completes_read rfl) ?_
        rintro _ _ ⟨rfl, rfl⟩
        refine Completes.bind (completes_read rfl) ?_
        rintro _ _ ⟨rfl, rfl⟩
        refine Completes.bind (completes_refuse (by decide)) ?_
        rintro _ _ rfl
        refine Completes.bind (completes_read (metadataStageMatches_of
          (hmarkerVaries.entry markerStage) fun bytes hmem => ?_)) ?_
        · rw [hmarker bytes hmem]
          exact ⟨List.prefix_rfl, fun _ => rfl⟩
        rintro _ _ ⟨rfl, rfl⟩
        refine Completes.bind (completes_refuse (by decide)) ?_
        rintro _ _ rfl
        refine Completes.bind (completes_read (metadataStageMatches_of
          (show _ = manifestStage.map Entry.file from rfl) fun bytes hmem => ?_)) ?_
        · rw [hmanifest bytes hmem]
          exact ⟨List.prefix_rfl, fun _ => rfl⟩
        rintro _ _ ⟨rfl, rfl⟩
        refine Completes.bind (completes_refuse (by decide)) ?_
        rintro _ _ rfl
        refine (removeKnownFile_completes hmarkerVaries markerStage
          (Sound.committed none_spec hfile hmanifest)).bind ?_
        rintro _ _ rfl
        refine Completes.mono (removeKnownFile_completes hmanifestVaries manifestStage
          (Sound.committed none_spec hfile none_spec)) ?_
        rintro _ _ rfl
        exact ⟨file, hfile, rfl⟩
      refine hcleanup.bind fun _ left hfinished => ?_
      exact refuses_fail hfinished
  · next hstages =>
      refine refuses_fail ?_
      cases markerStage with
      | some bytes => exact absurd rfl hstages
      | none =>
          cases manifestStage with
          | some bytes => exact absurd rfl hstages
          | none => exact ⟨file, hfile, rfl⟩

/-- A root that is current is reported, without its stages. -/
theorem initializePlain_refuses {markerStage manifestStage : Option Bytes} {file : ControlFile}
    (hmarker : ∀ bytes ∈ markerStage, bytes = initMarkerBytes) (hfile : Formatted file)
    (hmanifest : ∀ bytes ∈ manifestStage, bytes = manifestBytes) (persist : Persist) :
    Refuses Sound (initializePlain engine persist) (committedRoot markerStage file manifestStage)
      .alreadyExists Finished := by
  refine Completes.bind (observeOrCreate_of
    (classify_committed hmarker hfile hmanifest false) (by decide)) ?_
  rintro _ _ ⟨rfl, rfl⟩
  exact cleanupCurrent_refuses hmarker hfile hmanifest

end Initialization

/-! ## Discarding -/

section Discarding

variable {engine : Engine} {root : Root} {markerStage manifestStage : Option Bytes}
  {objects : Bool} {control : Option Slot}

theorem requireMarker_completes (hentry : root.entry .initMarker = some (.file initMarkerBytes)) :
    Completes Sound requireMarker root fun _ left => left = root := by
  have hread : readOptionalBounded root .initMarker maxMarkerBytes = .ok (some initMarkerBytes) :=
    readOptionalBounded_of hentry (some_spec (by decide))
  refine Completes.bind (completes_read hread) ?_
  rintro _ _ ⟨rfl, rfl⟩
  exact completes_refuse (not_not.mpr rfl)

theorem requireMarker_refuses (hentry : root.entry .initMarker = none) :
    Refuses Sound requireMarker root .wrongState fun left => left = root := by
  have hread : readOptionalBounded root .initMarker maxMarkerBytes = .ok none :=
    readOptionalBounded_of hentry none_spec
  refine Completes.bind (completes_read hread) ?_
  rintro _ _ ⟨rfl, rfl⟩
  exact refuses_refuse (by decide)

/-- The database and then its directory are removed. -/
theorem removeControl_completes (howned : Owned markerStage manifestStage control) :
    Completes Sound removeControl (markedRoot markerStage objects control manifestStage)
      fun _ left => left = markedRoot markerStage objects none manifestStage := by
  have hwithout : Owned markerStage manifestStage none :=
    ⟨howned.marker, none_spec, howned.manifest⟩
  have hemptied : Owned markerStage manifestStage (some none) :=
    ⟨howned.marker, some_spec none_spec, howned.manifest⟩
  refine Completes.bind (completes_read rfl) ?_
  rintro _ _ ⟨rfl, rfl⟩
  cases control with
  | none =>
      have habsent : pathKind (markedRoot markerStage objects none manifestStage) .controlDir ≠
          some .directory := (Option.some_ne_none _).symm
      rw [if_neg habsent]
      exact completes_pure rfl
  | some slot =>
      rw [if_pos (by rfl)]
      have hfile : Completes Sound removeControlFile
          (markedRoot markerStage objects (some slot) manifestStage) fun _ left =>
            left = markedRoot markerStage objects (some none) manifestStage := by
        refine Completes.bind (completes_read rfl) ?_
        rintro _ _ ⟨rfl, rfl⟩
        cases slot with
        | none => exact completes_pure rfl
        | some file =>
            refine Completes.mono (completes_change fun passed hmem => ?_) ?_
            · rw [List.mem_singleton.mp hmem, putControlSlot_marked]
              exact hemptied.sound objects
            · rintro _ _ rfl
              exact putControlSlot_marked (some file) none
      refine hfile.bind ?_
      rintro _ _ rfl
      refine Completes.bind (completes_read rfl) ?_
      rintro _ _ ⟨rfl, rfl⟩
      refine Completes.bind (completes_read rfl) ?_
      rintro _ _ ⟨rfl, rfl⟩
      refine Completes.bind (completes_refuse (not_not.mpr rfl)) ?_
      rintro _ _ rfl
      refine putEntry_completes (Layout.root_put fun name => ?_) (hwithout.sound objects)
      cases name <;> rfl

theorem removeObjects_completes (howned : Owned markerStage manifestStage control) :
    Completes Sound (removeKnownEmptyDirectory .objectDir)
      (markedRoot markerStage objects control manifestStage) fun _ left =>
        left = markedRoot markerStage false control manifestStage := by
  refine Completes.bind (completes_read rfl) ?_
  rintro _ _ ⟨rfl, rfl⟩
  cases objects with
  | false => exact completes_pure rfl
  | true =>
      refine Completes.bind (completes_read rfl) ?_
      rintro _ _ ⟨rfl, rfl⟩
      refine Completes.bind (completes_refuse (not_not.mpr rfl)) ?_
      rintro _ _ rfl
      refine putEntry_completes (Layout.root_put fun name => ?_) (howned.sound false)
      cases name <;> rfl

/-- A root that is owned by its marker is taken back to its lock. -/
theorem discardIncompletePlain_completes (howned : Owned markerStage manifestStage control) :
    Completes Sound (discardIncompletePlain engine)
      (markedRoot markerStage objects control manifestStage) fun _ left =>
        left = lockedRoot none := by
  have hresumable : Resumable (markedRoot markerStage objects control manifestStage) :=
    Resumable.marked howned
  have hunstaged : Owned none manifestStage control := ⟨none_spec, howned.control, howned.manifest⟩
  have hbare : Owned none none control := ⟨none_spec, howned.control, none_spec⟩
  have hempty : Owned none none none := ⟨none_spec, none_spec, none_spec⟩
  have hmarkerVaries : Varies .initMarkerStage fun stage =>
      markedRoot stage objects control manifestStage :=
    Layout.varies_markerStage ⟨true, none, objects, control, manifestStage, false⟩
  have hmanifestVaries : Varies .manifestStage fun stage => markedRoot none objects control stage :=
    Layout.varies_manifestStage ⟨true, none, objects, control, none, false⟩
  refine (requireIncomplete_completes (hresumable.classify false)).bind ?_
  rintro _ _ rfl
  refine (requireMarker_completes rfl).bind ?_
  rintro _ _ rfl
  refine (acquireLock_present rfl false).bind ?_
  rintro _ _ rfl
  refine (requireIncomplete_completes (hresumable.classify true)).bind ?_
  rintro _ _ rfl
  refine (requireMarker_completes rfl).bind ?_
  rintro _ _ rfl
  refine Completes.bind (completes_read rfl) ?_
  rintro _ _ ⟨rfl, rfl⟩
  refine Completes.bind (completes_refuse Bool.false_ne_true) ?_
  rintro _ _ rfl
  refine (removeMetadataStage_completes hmarkerVaries (fun bytes hmem => ?_)
    (hunstaged.sound objects)).bind ?_
  · rw [howned.marker bytes hmem]
    exact ⟨List.prefix_rfl, fun _ => rfl⟩
  rintro _ _ rfl
  refine (removeMetadataStage_completes hmanifestVaries
    (fun bytes hmem => ⟨howned.manifest bytes hmem, fun heq => by cases heq⟩)
    (hbare.sound objects)).bind ?_
  rintro _ _ rfl
  refine (removeControl_completes hbare).bind ?_
  rintro _ _ rfl
  refine (removeObjects_completes hempty).bind ?_
  rintro _ _ rfl
  -- without its marker the root is the lock alone
  refine Completes.bind (completes_read rfl) ?_
  rintro _ _ ⟨rfl, rfl⟩
  refine putEntry_completes (Layout.root_put fun name => ?_) (Sound.locked none_spec)
  cases name <;> rfl

/-- A discard keeps to the roots that commands leave. -/
theorem discardIncompletePlain_ends (hsound : Sound root) :
    Ends Sound (discardIncompletePlain engine) root fun _ left => Sound left := by
  have hother {status : PlainRootStatus} (hclassify : classifyRoot engine false root = .ok status)
      (hstatus : status ≠ .incompleteInitialization) :
      Ends Sound (discardIncompletePlain engine) root fun _ left => Sound left := by
    refine Ends.mono (requireIncomplete_refuses hclassify hstatus).bind ?_
    rintro _ _ ⟨-, rfl⟩
    exact hsound
  cases hsound with
  | absent => exact hother rfl (by decide)
  | empty => exact hother rfl (by decide)
  | locked hstage =>
      refine (requireIncomplete_completes (classify_locked hstage false)).bind ?_
      rintro _ _ rfl
      refine Ends.mono (requireMarker_refuses rfl).bind ?_
      rintro _ _ ⟨-, rfl⟩
      exact Sound.locked hstage
  | marked hmarker hcontrol hmanifest =>
      refine Ends.mono (discardIncompletePlain_completes ⟨hmarker, hcontrol, hmanifest⟩) ?_
      rintro _ _ ⟨_, -, rfl⟩
      exact Sound.locked none_spec
  | committed hmarker hfile hmanifest =>
      exact hother (classify_committed hmarker hfile hmanifest false) (by decide)

end Discarding

/-! ## Runs of commands that are cut off -/

/-- The two commands that change an unfinished root. -/
inductive Command where
  | initializePlain (persist : Persist)
  | discardIncompletePlain
  deriving DecidableEq

def Command.run (engine : Engine) : Command → RootOp Unit
  | initializePlain persist => EliotSearch.Roots.initializePlain engine persist
  | discardIncompletePlain => EliotSearch.Roots.discardIncompletePlain engine

/-- The root behind a command that is stopped after so many changes. -/
def cutOff (engine : Engine) (root : Root) (cut : Command × Nat) : Root :=
  (cut.1.run engine).stopped cut.2 root

/-- What the first command finds at the selected path. -/
inductive Start where
  | absent
  | empty
  deriving DecidableEq

def Start.root : Start → Root
  | absent => .absent
  | empty => .directory .empty

/-- The statuses of a root between two commands. -/
def restartStatuses : List PlainRootStatus :=
  [.absent, .empty, .incompleteInitialization, .current]

section Runs

variable {engine : Engine} {root : Root}

/-- A root that commands leave can be started from, or is current. -/
theorem Sound.startable_or_committed (hsound : Sound root) :
    Startable root ∨ ∃ markerStage file manifestStage,
      root = committedRoot markerStage file manifestStage ∧
      (∀ bytes ∈ markerStage, bytes = initMarkerBytes) ∧ Formatted file ∧
      ∀ bytes ∈ manifestStage, bytes = manifestBytes := by
  cases hsound with
  | absent => exact Or.inl Startable.absent
  | empty => exact Or.inl Startable.empty
  | locked hstage => exact Or.inl (Startable.resumable (Resumable.locked hstage))
  | marked hmarker hcontrol hmanifest =>
      exact Or.inl (Startable.resumable (Resumable.marked ⟨hmarker, hcontrol, hmanifest⟩))
  | committed hmarker hfile hmanifest =>
      exact Or.inr ⟨_, _, _, rfl, hmarker, hfile, hmanifest⟩

theorem initializePlain_ends (hsound : Sound root) (persist : Persist) :
    Ends Sound (initializePlain engine persist) root fun _ left => Finished left := by
  rcases hsound.startable_or_committed with
    hstartable | ⟨_, file, _, rfl, hmarker, hfile, hmanifest⟩
  · exact Ends.mono (initializePlain_completes hstartable persist) fun _ _ ⟨_, _, h⟩ => h
  · exact Ends.mono (initializePlain_refuses hmarker hfile hmanifest persist) fun _ _ h => h.2

/-- A command that is stopped anywhere leaves a root that commands leave. -/
theorem cutOff_sound (cut : Command × Nat) (hsound : Sound root) :
    Sound (cutOff engine root cut) := by
  obtain ⟨command, point⟩ := cut
  cases command with
  | initializePlain persist =>
      exact (initializePlain_ends hsound persist).stopped hsound
        (fun _ _ hfinished => hfinished.sound) point
  | discardIncompletePlain =>
      exact (discardIncompletePlain_ends hsound).stopped hsound (fun _ _ hleft => hleft) point

theorem run_sound (start : Start) (cuts : List (Command × Nat)) :
    Sound (Runs.run (cutOff engine) start.root cuts) := by
  refine Runs.run_invariant ?_ (fun root cut => cutOff_sound cut) cuts
  cases start with
  | absent => exact Sound.absent
  | empty => exact Sound.empty

theorem observedStatus_of {status : PlainRootStatus}
    (hclassify : ∀ probe, classifyRoot engine probe root = .ok status)
    (hlock : status = .current ∨ status = .incompleteInitialization →
      pathKind root .lockFile = some .file) :
    observedStatus engine root = .ok status := by
  rw [observedStatus, hclassify, ok_bind]
  by_cases hstatus : status = .current ∨ status = .incompleteInitialization
  · rw [if_neg (fun h => hstatus.elim h.1 h.2), hlock hstatus]
    exact hclassify _
  · rw [if_pos (not_or.mp hstatus), pure_eq_ok]

/-- Both the classification and an inspection report what can be gone on from. -/
theorem Sound.classify (hsound : Sound root) :
    ∃ status ∈ restartStatuses, (∀ probe, classifyRoot engine probe root = .ok status) ∧
      observedStatus engine root = .ok status := by
  cases hsound with
  | absent => exact ⟨.absent, by decide, fun _ => rfl, rfl⟩
  | empty => exact ⟨.empty, by decide, fun _ => rfl, rfl⟩
  | locked hstage =>
      have hclassify := @classify_locked engine _ hstage
      exact ⟨_, by decide, hclassify, observedStatus_of hclassify fun _ => rfl⟩
  | @marked _ _ objects _ hmarker hcontrol hmanifest =>
      have hclassify := @classify_marked engine _ _ objects _ hmarker hcontrol hmanifest
      exact ⟨_, by decide, hclassify, observedStatus_of hclassify fun _ => rfl⟩
  | committed hmarker hfile hmanifest =>
      have hclassify := @classify_committed engine _ _ _ hmarker hfile hmanifest
      exact ⟨_, by decide, hclassify, observedStatus_of hclassify fun _ => rfl⟩

/-- A root from which an initialization goes on is not current. -/
theorem Startable.classify_ne (hstartable : Startable root) (probe : Bool) :
    classifyRoot engine probe root ≠ .ok .current := by
  cases hstartable with
  | absent => exact fun heq => by cases heq
  | empty => exact fun heq => by cases heq
  | resumable hresumable =>
      rw [hresumable.classify probe]
      exact fun heq => by cases heq

/-- The roots that carry the marker and are unfinished are those that it owns. -/
theorem Sound.owned (hsound : Sound root)
    (hclassify : classifyRoot engine false root = .ok .incompleteInitialization)
    (hmarker : root.entry .initMarker = some (.file initMarkerBytes)) :
    ∃ markerStage objects control manifestStage, Owned markerStage manifestStage control ∧
      root = markedRoot markerStage objects control manifestStage := by
  cases hsound with
  | absent => cases hmarker
  | empty => cases hmarker
  | locked hstage => cases hmarker
  | @marked markerStage manifestStage objects control hstage hcontrol hmanifest =>
      exact ⟨markerStage, objects, control, manifestStage, ⟨hstage, hcontrol, hmanifest⟩, rfl⟩
  | committed hstage hfile hmanifest =>
      rw [classify_committed hstage hfile hmanifest] at hclassify
      cases hclassify

/-- A command that is not interrupted ends with a result and leaves a current root. -/
def LeavesCurrent (engine : Engine) (op : RootOp Unit) (root : Root)
    (result : Except PlainRootError Unit) : Prop :=
  (op root).result = result ∧ ∀ probe, classifyRoot engine probe (op root).left = .ok .current

/-- What a root between two commands is taken for, and what the next command makes of it. -/
structure Restartable (engine : Engine) (root : Root) (status : PlainRootStatus) : Prop where
  known : status ∈ restartStatuses
  classified : ∀ probe, classifyRoot engine probe root = .ok status
  observed : observedStatus engine root = .ok status
  finishes : status ≠ .current →
    ∀ persist, LeavesCurrent engine (initializePlain engine persist) root (.ok ())
  reports : status = .current →
    ∀ persist, LeavesCurrent engine (initializePlain engine persist) root (.error .alreadyExists)
  discards : status = .incompleteInitialization →
    root.entry .initMarker = some (.file initMarkerBytes) →
    (discardIncompletePlain engine root).result = .ok () ∧
    ∀ persist, LeavesCurrent engine (initializePlain engine persist)
      (discardIncompletePlain engine root).left (.ok ())

theorem Startable.leavesCurrent (hstartable : Startable root) (persist : Persist) :
    LeavesCurrent engine (initializePlain engine persist) root (.ok ()) := by
  obtain ⟨-, _, hresult, hfinished⟩ := @initializePlain_completes engine _ hstartable persist
  exact ⟨hresult, hfinished.classify⟩

theorem Sound.restartable (hsound : Sound root) :
    ∃ status, Restartable engine root status := by
  obtain ⟨status, hknown, hclassify, hobserved⟩ := @Sound.classify engine _ hsound
  refine ⟨status, hknown, hclassify, hobserved, fun hstatus persist => ?_,
    fun hstatus persist => ?_, fun hstatus hmarker => ?_⟩
  · rcases hsound.startable_or_committed with
      hstartable | ⟨_, file, _, rfl, hmarker, hfile, hmanifest⟩
    · exact hstartable.leavesCurrent persist
    · have hcurrent := hclassify false
      rw [classify_committed hmarker hfile hmanifest] at hcurrent
      exact absurd (Except.ok.inj hcurrent).symm hstatus
  · subst hstatus
    rcases hsound.startable_or_committed with
      hstartable | ⟨_, file, _, rfl, hmarker, hfile, hmanifest⟩
    · exact absurd (hclassify false) (hstartable.classify_ne false)
    · obtain ⟨-, hresult, hfinished⟩ :=
        @initializePlain_refuses engine _ _ _ hmarker hfile hmanifest persist
      exact ⟨hresult, hfinished.classify⟩
  · subst hstatus
    obtain ⟨_, _, _, _, howned, rfl⟩ := hsound.owned (hclassify false) hmarker
    obtain ⟨-, _, hresult, hleft⟩ :=
      @discardIncompletePlain_completes engine _ _ _ _ howned
    refine ⟨hresult, fun persist => ?_⟩
    rw [hleft]
    exact (Startable.resumable (Resumable.locked none_spec)).leavesCurrent persist

/-- However often commands are cut off, the root is one to go on from. -/
theorem initialization_restarts (start : Start) (cuts : List (Command × Nat)) :
    ∃ status, Restartable engine (Runs.run (cutOff engine) start.root cuts) status :=
  (run_sound start cuts).restartable

end Runs

end EliotSearch.Roots
