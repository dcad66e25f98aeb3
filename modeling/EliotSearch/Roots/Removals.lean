import EliotSearch.Roots.Changes

/-!
# Removals from unfinished roots

The commands that tidy up or discard an unfinished root are cut off anywhere, on a
root with any contents.  What they have removed by then was verified to be the
root's own; everything else is as it was.
-/

namespace EliotSearch.Roots

open EliotSearch.Library
open EliotSearch.Library.Crash
open EliotSearch.Library.Results

/-! ## Unfinished layouts -/

/-- The judgement does not end early with the status. -/
def Avoids {α : Type} (status : PlainRootStatus) (judged : Judged α) : Prop :=
  judged ≠ .error (.ok status)

section Judging

variable {α β : Type} {status other : PlainRootStatus} {root : Root} {name : Name}

theorem conclude_eq_ok {judged : Judged PlainRootStatus} (havoids : Avoids status judged)
    (hconclude : conclude judged = .ok status) : judged = .ok status := by
  cases judged with
  | ok found => exact congrArg Except.ok (Except.ok.inj hconclude)
  | error verdict => exact absurd (congrArg Except.error hconclude) havoids

theorem avoids_pure (value : α) : Avoids status (pure value : Judged α) := nofun

theorem Avoids.bind {judged : Judged α} {next : α → Judged β} (hfirst : Avoids status judged)
    (hnext : ∀ value, Avoids status (next value)) : Avoids status (judged >>= next) := by
  intro hended
  rcases bind_eq_error.mp hended with hearly | ⟨value, -, hlate⟩
  · exact hfirst hearly
  · exact hnext value hlate

theorem avoids_judge {condition : Prop} [Decidable condition] (hother : other ≠ status) :
    Avoids status (judge condition other) := by
  intro hended
  exact hother (Except.ok.inj (refuse_eq_error.mp hended).2)

theorem avoids_attempt {value : Except PlainRootError α} : Avoids status (attempt value) := by
  intro hended
  obtain ⟨error, -, herror⟩ := mapError_eq_error.mp hended
  cases herror

theorem avoids_readMetadata {maximum : Nat} {missing : PlainRootStatus}
    (hmissing : missing ≠ status) (hunsupported : .unsupported ≠ status) :
    Avoids status (readMetadata root name maximum missing) := by
  intro hended
  unfold readMetadata at hended
  split at hended
  · cases hended
  · exact hmissing (Except.ok.inj (Except.error.inj hended))
  · exact hunsupported (Except.ok.inj (Except.error.inj hended))
  · cases Except.error.inj hended

theorem avoids_judgeMarker {missing : PlainRootStatus} (hmissing : missing ≠ status)
    (hunsupported : .unsupported ≠ status) : Avoids status (judgeMarker root missing) :=
  (avoids_readMetadata hmissing hunsupported).bind fun _ => avoids_judge hunsupported

theorem avoids_judgeStage {expected : Bytes} {allowPartial : Bool}
    (hunsupported : .unsupported ≠ status) :
    Avoids status (judgeStage root name expected allowPartial) :=
  avoids_attempt.bind fun _ => avoids_judge hunsupported

/-- No check of a layout ends with the status. -/
structure Unjudged (status : PlainRootStatus) : Prop where
  empty : .empty ≠ status
  unsupported : .unsupported ≠ status
  corrupt : .corrupt ≠ status
  busy : .busy ≠ status
  current : .current ≠ status
  archive : .archive ≠ status
  incompleteImport : .incompleteImport ≠ status

theorem unjudged_incomplete : Unjudged .incompleteInitialization := by
  constructor <;> decide

theorem unjudged_absent : Unjudged .absent := by
  constructor <;> decide

theorem avoids_judgeProbe {engine : Engine} (hunjudged : Unjudged status) :
    Avoids status (judgeProbe engine root) := by
  intro hended
  unfold judgeProbe at hended
  split at hended
  · cases hended
  · exact hunjudged.corrupt (Except.ok.inj (Except.error.inj hended))
  · rename_i error _
    have hended := Except.error.inj hended
    cases error with
    | busy => exact hunjudged.busy (Except.ok.inj hended)
    | corrupt => exact hunjudged.corrupt (Except.ok.inj hended)
    | unsupported => exact hunjudged.unsupported (Except.ok.inj hended)
    | _ => cases hended

/-- The judgement does not end with the status at all. -/
def Never (status : PlainRootStatus) (judged : Judged PlainRootStatus) : Prop :=
  Avoids status judged ∧ judged ≠ .ok status

theorem never_pure (hother : other ≠ status) : Never status (pure other : Judged PlainRootStatus) :=
  ⟨avoids_pure other, fun hended => hother (Except.ok.inj hended)⟩

theorem Avoids.never {judged : Judged α} {next : α → Judged PlainRootStatus}
    (hfirst : Avoids status judged) (hnext : ∀ value, Never status (next value)) :
    Never status (judged >>= next) := by
  constructor
  · exact hfirst.bind fun value => (hnext value).1
  · intro hended
    obtain ⟨value, -, hlate⟩ := bind_eq_ok.mp hended
    exact (hnext value).2 hlate

theorem Never.conclude {judged : Judged PlainRootStatus} (hnever : Never status judged) :
    Roots.conclude judged ≠ .ok status :=
  fun hconclude => hnever.2 (conclude_eq_ok hnever.1 hconclude)

/-- A status that no check ends with comes from the layout. -/
theorem Unjudged.layout {engine : Engine} {probeIncomplete : Bool} (hunjudged : Unjudged status)
    (hclassify : classifyRoot engine probeIncomplete root = .ok status) :
    classifyRootLayout engine root probeIncomplete = .ok status := by
  obtain ⟨found, hfound, hrest⟩ := bind_eq_ok.mp hclassify
  split at hrest
  · rw [hfound]
    exact hrest
  · split at hrest
    · exact absurd (Except.ok.inj hrest) hunjudged.current
    · rename_i error _
      cases error with
      | busy => exact absurd (Except.ok.inj hrest) hunjudged.busy
      | corrupt => exact absurd (Except.ok.inj hrest) hunjudged.corrupt
      | unsupported => exact absurd (Except.ok.inj hrest) hunjudged.unsupported
      | _ => cases hrest

/-- A committed layout ends with a judged status or the current one. -/
theorem never_committed {entries : Directory} (hunjudged : Unjudged status) :
    classifyCommittedRootLayout root entries ≠ .ok status := by
  have hunsupported := hunjudged.unsupported
  have hcorrupt := hunjudged.corrupt
  have hcontrol : Never status (judgeCommittedControl root) := by
    refine avoids_attempt.never fun _ => ?_
    refine (avoids_judge hunsupported).never fun _ => ?_
    refine (avoids_judge hcorrupt).never fun _ => ?_
    refine (avoids_judge hunsupported).never fun _ => ?_
    refine (avoids_judge hunsupported).never fun _ => ?_
    refine (avoids_judge hcorrupt).never fun _ => ?_
    exact (avoids_judge hcorrupt).never fun _ => never_pure hunjudged.current
  have hstores : Never status (do
      judge ((entries.containsName .initMarkerStage ∨ entries.containsName .manifestStage) ∧
        ¬ entries.containsName .initMarker) .unsupported
      judgeStage root .initMarkerStage initMarkerBytes false
      judgeStage root .manifestStage manifestBytes false
      judge (pathKind root .lockFile ≠ some .file) .corrupt
      judge (pathKind root .objectDir ≠ some .directory) .corrupt
      judge (pathKind root .controlDir ≠ some .directory) .corrupt
      judgeCommittedControl root) := by
    refine (avoids_judge hunsupported).never fun _ => ?_
    refine (avoids_judgeStage hunsupported).never fun _ => ?_
    refine (avoids_judgeStage hunsupported).never fun _ => ?_
    refine (avoids_judge hcorrupt).never fun _ => ?_
    refine (avoids_judge hcorrupt).never fun _ => ?_
    exact (avoids_judge hcorrupt).never fun _ => hcontrol
  refine Never.conclude ?_
  refine (avoids_judge hunsupported).never fun _ => ?_
  refine (avoids_readMetadata hcorrupt hunsupported).never fun _ => ?_
  refine (avoids_judge hunsupported).never fun _ => ?_
  dsimp only
  split
  · exact (avoids_judgeMarker hcorrupt hunsupported).never fun _ => hstores
  · exact hstores

/-- The checks of a marked layout end with a judged status. -/
theorem avoids_judgeIncompleteControl {engine : Engine} {probeIncomplete : Bool}
    (hunjudged : Unjudged status) :
    Avoids status (judgeIncompleteControl engine root probeIncomplete) := by
  refine avoids_attempt.bind fun _ => ?_
  refine (avoids_judge hunjudged.unsupported).bind fun _ => ?_
  refine (avoids_judge hunjudged.unsupported).bind fun _ => ?_
  split
  · exact avoids_judgeProbe hunjudged
  · exact avoids_pure ()

end Judging

/-- The control file, if it is there, is a file without length or an empty control. -/
def ProvenEmpty (engine : Engine) (folder : Folder) : Prop :=
  folder.others = [] ∧ ∀ node ∈ folder.database, ∃ content, node = .file content ∧
    (content.length = 0 ∨ plainControlIsEmpty engine content = .ok true)

section Layouts

variable {engine : Engine} {root : Root} {entries : Directory}

theorem controlIsEmpty_eq_ok {content : ControlFile}
    (hdatabase : (root.folder .controlDir).database = some (.file content))
    (hempty : controlIsEmpty engine root = .ok true) :
    plainControlIsEmpty engine content = .ok true := by
  rw [controlIsEmpty, controlFile, hdatabase] at hempty
  exact mapError_eq_ok.mp hempty

/-- A probed control directory is proven empty. -/
theorem judgeIncompleteControl_eq_ok {value : Unit}
    (hjudged : judgeIncompleteControl engine root true = .ok value) :
    ProvenEmpty engine (root.folder .controlDir) := by
  simp only [judgeIncompleteControl, bind_eq_ok, judge, refuse_eq_ok, not_not] at hjudged
  obtain ⟨_, -, _, hothers, _, hfile, hprobe⟩ := hjudged
  refine ⟨hothers, fun node hnode => ?_⟩
  cases node with
  | directory => exact absurd ⟨_, hnode, nofun⟩ hfile
  | other => exact absurd ⟨_, hnode, nofun⟩ hfile
  | file content =>
      refine ⟨content, rfl, ?_⟩
      have hnode : (root.folder .controlDir).database = some (.file content) := hnode
      have hlength : (root.folder .controlDir).fileLength = content.length := by
        rw [Folder.fileLength, hnode]
      by_cases hzero : content.length = 0
      · exact Or.inl hzero
      · have hlong : (root.folder .controlDir).fileLength ≠ 0 := hlength ▸ hzero
        rw [if_pos ⟨trivial, hlong⟩] at hprobe
        unfold judgeProbe at hprobe
        split at hprobe
        · rename_i hempty
          exact Or.inr (controlIsEmpty_eq_ok hnode hempty)
        · cases hprobe
        · cases hprobe

theorem Directory.length_le_count {names : List Name} (hdistinct : names.Nodup)
    (hthere : ∀ name ∈ names, (entries.entry name).isSome = true) :
    names.length ≤ entries.count := by
  have hpresent : names ⊆ entries.present := fun name hmem =>
    List.mem_filter.mpr ⟨Name.mem_all name, hthere name hmem⟩
  have hle := (List.subperm_of_subset hdistinct hpresent).length_le
  rw [Directory.count]
  omega

/-- On a directory a status that no check ends with comes from the unfinished layout. -/
theorem Unjudged.unfinished {status : PlainRootStatus} {probeIncomplete : Bool}
    (hunjudged : Unjudged status)
    (hlayout : classifyRootLayout engine (.directory entries) probeIncomplete = .ok status) :
    classifyIncompleteRoot engine (.directory entries) entries probeIncomplete = .ok status := by
  obtain ⟨_, -, hlayout⟩ := bind_eq_ok.mp hlayout
  split at hlayout
  · exact absurd (Except.ok.inj hlayout) hunjudged.empty
  split at hlayout
  · exact absurd (Except.ok.inj hlayout) hunjudged.unsupported
  split at hlayout
  · split at hlayout
    · exact absurd (Except.ok.inj hlayout) hunjudged.incompleteImport
    · exact absurd (Except.ok.inj hlayout) hunjudged.unsupported
  split at hlayout
  · split at hlayout
    · exact absurd (Except.ok.inj hlayout) hunjudged.archive
    · exact absurd (Except.ok.inj hlayout) hunjudged.unsupported
  split at hlayout
  · exact absurd hlayout (never_committed hunjudged)
  · exact hlayout

/-- An unfinished layout has the lock alone, the lock with the stage of its marker, or a
control directory that passed its checks, if it has one. -/
theorem Unjudged.incomplete {status : PlainRootStatus} {probeIncomplete : Bool}
    (hunjudged : Unjudged status)
    (hlayout : classifyIncompleteRoot engine root entries probeIncomplete = .ok status) :
    status = .incompleteInitialization ∧
      ((entries.count = 1 ∧ entries.containsName .lockFile) ∨
        (entries.count = 2 ∧ entries.containsName .lockFile ∧
          entries.containsName .initMarkerStage) ∨
        ((entries.containsName .controlDir → pathKind root .controlDir = some .directory) ∧
          judgeIncompleteControl engine root probeIncomplete = .ok ())) := by
  have hunsupported := hunjudged.unsupported
  have hcorrupt := hunjudged.corrupt
  unfold classifyIncompleteRoot at hlayout
  split at hlayout
  · rename_i hlock
    split at hlayout
    · exact ⟨(Except.ok.inj hlayout).symm, Or.inl hlock⟩
    · exact absurd (Except.ok.inj hlayout) hunsupported
  split at hlayout
  · have hended := conclude_eq_ok ?_ hlayout
    · simp only [judge, bind_eq_ok, refuse_eq_ok, not_not] at hended
      obtain ⟨_, ⟨hcount, hlock, hstage, -⟩, _, -, hended⟩ := hended
      exact ⟨(Except.ok.inj hended).symm, Or.inr (Or.inl ⟨hcount, hlock, hstage⟩)⟩
    · refine (avoids_judge hunsupported).bind fun _ => ?_
      exact (avoids_judgeStage hunsupported).bind fun _ => avoids_pure _
  · have hended := conclude_eq_ok ?_ hlayout
    · simp only [judge, bind_eq_ok, refuse_eq_ok, not_and, not_not] at hended
      obtain ⟨_, -, _, -, _, -, _, -, _, -, _, -, _, -, _, hkind, _, hcontrol, hended⟩ := hended
      exact ⟨(Except.ok.inj hended).symm, Or.inr (Or.inr ⟨hkind, hcontrol⟩)⟩
    · refine (avoids_judge hunsupported).bind fun _ => ?_
      refine (avoids_judgeMarker hunsupported hunsupported).bind fun _ => ?_
      refine (avoids_judgeStage hunsupported).bind fun _ => ?_
      refine (avoids_judgeStage hunsupported).bind fun _ => ?_
      refine (avoids_judge hcorrupt).bind fun _ => ?_
      refine (avoids_judge hunsupported).bind fun _ => ?_
      refine (avoids_judge hcorrupt).bind fun _ => ?_
      refine (avoids_judge hunsupported).bind fun _ => ?_
      exact (avoids_judgeIncompleteControl hunjudged).bind fun _ => avoids_pure _

/-- Under the lock an unfinished root has a control directory that is proven
empty, or none. -/
theorem incomplete_control
    (hclassify : classifyRoot engine true root = .ok .incompleteInitialization) {entry : Entry}
    (hentry : root.entry .controlDir = some entry) :
    ∃ folder, entry = .directory folder ∧ ProvenEmpty engine folder := by
  have hlayout := unjudged_incomplete.layout hclassify
  cases root with
  | absent => cases hentry
  | other => cases hentry
  | directory entries =>
      have hthere : (entries.entry .controlDir).isSome = true := by
        rw [show entries.entry .controlDir = some entry from hentry]
        rfl
      obtain ⟨-, ⟨hcount, hlock⟩ | ⟨hcount, hlock, hstage⟩ | ⟨hkind, hcontrol⟩⟩ :=
        unjudged_incomplete.incomplete (unjudged_incomplete.unfinished hlayout)
      · have htwo : 2 ≤ entries.count :=
          Directory.length_le_count (by decide : [Name.lockFile, Name.controlDir].Nodup)
            (List.forall_mem_cons.mpr ⟨hlock, List.forall_mem_singleton.mpr hthere⟩)
        omega
      · have hthree : 3 ≤ entries.count :=
          Directory.length_le_count
            (by decide : [Name.lockFile, Name.initMarkerStage, Name.controlDir].Nodup)
            (List.forall_mem_cons.mpr ⟨hlock, List.forall_mem_cons.mpr
              ⟨hstage, List.forall_mem_singleton.mpr hthere⟩⟩)
        omega
      · obtain ⟨folder, hfolder, hsame⟩ := pathKind_eq_directory (hkind hthere)
        rw [hentry] at hfolder
        obtain rfl := Option.some.inj hfolder
        exact ⟨folder, rfl, hsame ▸ judgeIncompleteControl_eq_ok hcontrol⟩

/-- Only a path without anything is classified as absent. -/
theorem classifyRoot_absent (habsent : classifyRoot engine false root = .ok .absent) :
    root = .absent := by
  have hlayout := unjudged_absent.layout habsent
  cases root with
  | absent => rfl
  | other => cases hlayout
  | directory entries =>
      obtain ⟨hstatus, -⟩ := unjudged_absent.incomplete (unjudged_absent.unfinished hlayout)
      cases hstatus

end Layouts

/-! ## Discarding -/

/-- What a discard may remove. -/
inductive Discardable (engine : Engine) : Name → Option Entry → Option Entry → Prop where
  | markerStage : Discardable engine .initMarkerStage (some (.file initMarkerBytes)) none
  | manifestStage {bytes : Bytes} (hfront : bytes <+: manifestBytes) :
      Discardable engine .manifestStage (some (.file bytes)) none
  | control {folder : Folder} {after : Option Entry} (hempty : ProvenEmpty engine folder)
      (hafter : after = none ∨ after = some (.directory .empty)) :
      Discardable engine .controlDir (some (.directory folder)) after
  | objects : Discardable engine .objectDir (some (.directory .empty)) none
  | marker : Discardable engine .initMarker (some (.file initMarkerBytes)) none

theorem Folder.eq_empty {folder : Folder} (hcount : folder.count = 0) : folder = .empty := by
  obtain ⟨database, others⟩ := folder
  obtain ⟨hdatabase, hothers⟩ := Nat.add_eq_zero_iff.mp hcount
  cases database with
  | none =>
      obtain rfl := List.length_eq_zero_iff.mp hothers
      rfl
  | some node => cases hdatabase

section Discarding

variable {allowed : Name → Option Entry → Option Entry → Prop} {engine : Engine} {root left : Root}
  {name : Name}

theorem removeKnownEmptyDirectory_preserves (hleft : Within allowed root left)
    (hallowed : left.entry name = some (.directory .empty) →
      allowed name (root.entry name) none) :
    Preserves (Within allowed root) (removeKnownEmptyDirectory name) left fun _ after =>
      Frames name left after := by
  refine (preserves_read hleft).bind ?_
  rintro kind _ hleft ⟨hkind, rfl⟩
  have hkind := Except.ok.inj hkind
  cases kind with
  | none => exact preserves_pure hleft fun _ _ => rfl
  | some kind =>
      cases kind with
      | file => exact preserves_fail hleft
      | other => exact preserves_fail hleft
      | directory =>
          obtain ⟨folder, hentry, hfolder⟩ := pathKind_eq_directory hkind
          refine (preserves_read hleft).bind ?_
          rintro _ _ hleft ⟨hread, rfl⟩
          obtain rfl := Except.ok.inj hread
          refine (preserves_refuse hleft).bind ?_
          rintro _ _ hleft ⟨hcount, rfl⟩
          have hempty := Folder.eq_empty (not_not.mp hcount)
          rw [← hfolder, hempty] at hentry
          refine (putEntry_preserves hleft (hallowed hentry)).mono ?_
          rintro _ _ - rfl
          exact frames_put _ _ _

theorem requireMarker_preserves {Inv : Root → Prop} (hleft : Inv left) :
    Preserves Inv requireMarker left fun _ after =>
      left.entry .initMarker = some (.file initMarkerBytes) ∧ after = left := by
  refine (preserves_read hleft).bind ?_
  rintro marker _ hleft ⟨hmarker, rfl⟩
  refine (preserves_refuse hleft).mono ?_
  rintro _ _ - ⟨hexact, rfl⟩
  rw [not_not.mp hexact] at hmarker
  exact ⟨readOptionalBounded_eq_some hmarker, rfl⟩

/-- A control directory goes together with its control file, if that is proven empty. -/
theorem removeControl_preserves (hleft : Within (Discardable engine) root left)
    (hsame : left.entry .controlDir = root.entry .controlDir)
    (hempty : ∀ entry, root.entry .controlDir = some entry →
      ∃ folder, entry = .directory folder ∧ ProvenEmpty engine folder) :
    Preserves (Within (Discardable engine) root) removeControl left fun _ after =>
      Frames .controlDir left after := by
  refine (preserves_read hleft).bind ?_
  rintro kind start hleft ⟨hkind, rfl⟩
  have hkind := Except.ok.inj hkind
  split
  · rename_i hdirectory
    rw [hdirectory] at hkind
    obtain ⟨found, hentry, hfound⟩ := pathKind_eq_directory hkind
    obtain ⟨folder, hfolder, hproven⟩ := hempty _ (hsame.symm.trans hentry)
    obtain rfl := Entry.directory.inj hfolder
    have hgone : ∀ {after : Option Entry}, after = none ∨ after = some (.directory .empty) →
        Discardable engine .controlDir (root.entry .controlDir) after := by
      intro after hafter
      rw [← hsame, hentry]
      exact .control hproven hafter
    have hfile : Preserves (Within (Discardable engine) root) removeControlFile start
        fun _ after => Frames .controlDir start after := by
      refine (preserves_read hleft).bind ?_
      rintro node start hleft ⟨-, rfl⟩
      have hput : putControlSlot start none =
          start.put .controlDir (some (.directory .empty)) := by
        rw [putControlSlot, hfound]
        change start.put .controlDir (some (.directory ⟨none, found.others⟩)) = _
        rw [hproven.1, Folder.empty]
      cases node with
      | none => exact preserves_pure hleft fun _ _ => rfl
      | some node =>
          cases node with
          | directory => exact preserves_fail hleft
          | other => exact preserves_fail hleft
          | file content =>
              refine (preserves_change hleft fun passed hmem => ?_).mono ?_
              · rw [List.mem_singleton.mp hmem, hput]
                exact hleft.put (hgone (Or.inr rfl))
              · rintro _ _ - rfl
                change Frames .controlDir start (putControlSlot start none)
                rw [hput]
                exact frames_put _ _ _
    refine hfile.bind ?_
    rintro _ after hafter hframe
    refine (removeKnownEmptyDirectory_preserves hafter fun _ => hgone (Or.inl rfl)).mono ?_
    intro _ last _ hlast other hother
    rw [hlast other hother, hframe other hother]
  · exact preserves_pure hleft fun _ _ => rfl

/-- A discard removes what it verified, wherever it is cut off. -/
theorem discardIncompletePlain_preserves (engine : Engine) (root : Root) :
    Preserves (Within (Discardable engine) root) (discardIncompletePlain engine) root
      fun _ _ => True := by
  refine (requireIncomplete_preserves (Within.self root)).bind ?_
  rintro _ _ hroot ⟨-, rfl⟩
  refine (requireMarker_preserves hroot).bind ?_
  rintro _ _ hroot ⟨-, rfl⟩
  refine (acquireLock_preserves hroot).bind ?_
  rintro _ _ hroot rfl
  refine (requireIncomplete_preserves hroot).bind ?_
  rintro _ _ hroot ⟨hincomplete, rfl⟩
  refine (requireMarker_preserves hroot).bind ?_
  rintro _ _ hroot ⟨hmarker, rfl⟩
  refine (preserves_read hroot).bind ?_
  rintro _ _ hroot ⟨-, rfl⟩
  refine (preserves_refuse hroot).bind ?_
  rintro _ start hroot ⟨-, rfl⟩
  refine (removeMetadataStage_preserves hroot fun bytes hbytes _ hexact => ?_).bind ?_
  · rw [hbytes, hexact rfl]
    exact .markerStage
  rintro _ staged hstaged ⟨-, hfirst, -⟩
  refine (removeMetadataStage_preserves hstaged fun bytes hbytes hfront _ => ?_).bind ?_
  · rw [← hfirst .manifestStage (by decide), hbytes]
    exact .manifestStage hfront
  rintro _ cleared hcleared ⟨-, hsecond, -⟩
  have hcontrol : cleared.entry .controlDir = start.entry .controlDir := by
    rw [hsecond _ (by decide), hfirst _ (by decide)]
  refine (removeControl_preserves hcleared hcontrol fun entry hentry =>
    incomplete_control hincomplete hentry).bind ?_
  rintro _ stripped hstripped hthird
  refine (removeKnownEmptyDirectory_preserves hstripped fun hempty => ?_).bind ?_
  · rw [hthird _ (by decide), hsecond _ (by decide), hfirst _ (by decide)] at hempty
    rw [hempty]
    exact .objects
  rintro _ emptied hemptied hfourth
  refine (removeKnownFile_preserves hemptied fun _ _ => ?_).mono fun _ _ _ _ => trivial
  rw [hmarker]
  exact .marker

/-- A root that is not an unfinished initialization is not discarded at all. -/
theorem discardIncompletePlain_foreign
    (hforeign : classifyRoot engine false root ≠ .ok .incompleteInitialization) :
    Preserves (fun left => left = root) (discardIncompletePlain engine) root
      fun _ _ => True := by
  refine Preserves.bind (requireIncomplete_preserves rfl) ?_
  rintro _ _ - ⟨hincomplete, -⟩
  exact absurd hincomplete hforeign

end Discarding

/-! ## Initializing -/

/-- What an initialization may change. -/
inductive Initialized (engine : Engine) : Name → Option Entry → Option Entry → Prop where
  | lock : Initialized engine .lockFile none (some (.file []))
  | markerStage {before after : Option Entry} (hbefore : Front initMarkerBytes before)
      (hafter : Front initMarkerBytes after) : Initialized engine .initMarkerStage before after
  | manifestStage {before after : Option Entry} (hbefore : Front manifestBytes before)
      (hafter : Front manifestBytes after) : Initialized engine .manifestStage before after
  | marker : Initialized engine .initMarker none (some (.file initMarkerBytes))
  | manifest : Initialized engine .manifestFile none (some (.file manifestBytes))
  | objects : Initialized engine .objectDir none (some (.directory .empty))
  | control {before : Option Entry} {folder : Folder}
      (hbefore : ∀ entry, before = some entry →
        ∃ folder, entry = .directory folder ∧ ProvenEmpty engine folder)
      (hafter : folder.others = []) :
      Initialized engine .controlDir before (some (.directory folder))

section Initializing

variable {engine : Engine} {root left : Root} {name : Name}

/-- An entry that is not there now was not there before, except for a stage. -/
theorem Within.none_before (hleft : Within (Initialized engine) root left)
    (hentry : left.entry name = none) (hmarkerStage : name ≠ .initMarkerStage)
    (hmanifestStage : name ≠ .manifestStage) : root.entry name = none := by
  rcases hleft.entries name with hsame | hchanged
  · rw [← hsame, hentry]
  · rw [hentry] at hchanged
    generalize root.entry name = before at hchanged
    cases hchanged with
    | markerStage => exact absurd rfl hmarkerStage
    | manifestStage => exact absurd rfl hmanifestStage

/-- A publication whose stage and destination belong to an initialization is a part
of it. -/
theorem publishNoclobber_initialized {persist : Persist} {destination stage : Name}
    {bytes : Bytes} {maximum : Nat} (hleft : Within (Initialized engine) root left)
    (hfinal : ∀ before, (before = none ∨ Initialized engine destination before none) →
      Initialized engine destination before (some (.file bytes)))
    (hstage : ∀ {before after after'}, (before = after ∨ Initialized engine stage before after) →
      Front bytes after → Front bytes after' → Initialized engine stage before after') :
    Preserves (Within (Initialized engine) root)
      (publishNoclobber persist destination stage bytes maximum) left fun _ _ => True := by
  refine (publishNoclobber_preserves persist).weaken fun after hafter =>
    hleft.trans hafter fun other hbefore hpublished => ?_
  rcases hpublished.stage_or_final with ⟨rfl, hfront, hlast⟩ | ⟨rfl, hnone, hbytes⟩
  · exact hstage (hbefore.imp_left Eq.symm) hfront hlast
  · rw [hnone] at hbefore
    rw [hbytes]
    exact hfinal _ (hbefore.imp_left Eq.symm)

theorem publishMarker_preserves {persist : Persist}
    (hleft : Within (Initialized engine) root left) :
    Preserves (Within (Initialized engine) root)
      (publishNoclobber persist .initMarker .initMarkerStage initMarkerBytes maxMarkerBytes) left
      fun _ _ => True := by
  refine publishNoclobber_initialized hleft ?_ ?_
  · rintro before (rfl | hchanged)
    · exact .marker
    · cases hchanged
  · rintro before after after' (rfl | hchanged) hfront hlast
    · exact .markerStage hfront hlast
    · cases hchanged with
      | markerStage hbefore _ => exact .markerStage hbefore hlast

theorem publishManifest_preserves {persist : Persist}
    (hleft : Within (Initialized engine) root left) :
    Preserves (Within (Initialized engine) root)
      (publishNoclobber persist .manifestFile .manifestStage manifestBytes maxManifestBytes) left
      fun _ _ => True := by
  refine publishNoclobber_initialized hleft ?_ ?_
  · rintro before (rfl | hchanged)
    · exact .manifest
    · cases hchanged
  · rintro before after after' (rfl | hchanged) hfront hlast
    · exact .manifestStage hfront hlast
    · cases hchanged with
      | manifestStage hbefore _ => exact .manifestStage hbefore hlast

theorem acquireLock_initialized (hleft : Within (Initialized engine) root left) :
    Preserves (Within (Initialized engine) root) (acquireLock true) left fun _ after =>
      Frames .lockFile left after := by
  refine (preserves_read hleft).bind ?_
  rintro kind _ hleft ⟨hkind, rfl⟩
  have hkind := Except.ok.inj hkind
  cases kind with
  | none =>
      refine (putEntry_preserves hleft ?_).mono ?_
      · rw [hleft.none_before (pathKind_eq_none hkind) (by decide) (by decide)]
        exact .lock
      · rintro _ _ - rfl
        exact frames_put _ _ _
  | some kind =>
      cases kind with
      | file => exact preserves_pure hleft fun _ _ => rfl
      | directory => exact preserves_fail hleft
      | other => exact preserves_fail hleft

/-- A store directory that is not there is made. -/
theorem ensureStoreDirectory_preserves (hleft : Within (Initialized engine) root left)
    (hallowed : left.entry name = none →
      Initialized engine name (root.entry name) (some (.directory .empty))) :
    Preserves (Within (Initialized engine) root) (ensureStoreDirectory name) left
      fun _ _ => True := by
  refine (preserves_read hleft).bind ?_
  rintro kind _ hleft ⟨hkind, rfl⟩
  have hkind := Except.ok.inj hkind
  cases kind with
  | none =>
      exact (putEntry_preserves hleft (hallowed (pathKind_eq_none hkind))).mono
        fun _ _ _ _ => trivial
  | some kind =>
      cases kind with
      | file => exact preserves_fail hleft
      | directory => exact preserves_pure hleft trivial
      | other => exact preserves_fail hleft

/-- The control directory is missing, or proven empty. -/
def Free (engine : Engine) (root : Root) : Prop :=
  ∀ entry, root.entry .controlDir = some entry →
    ∃ folder, entry = .directory folder ∧ ProvenEmpty engine folder

theorem Within.control_others (hleft : Within (Initialized engine) root left)
    (hfree : Free engine root) : (left.folder .controlDir).others = [] := by
  rw [Root.folder]
  rcases hleft.entries .controlDir with hsame | hchanged
  · rw [hsame]
    cases hentry : root.entry .controlDir with
    | none => rfl
    | some entry =>
        obtain ⟨folder, rfl, hproven⟩ := hfree entry hentry
        exact hproven.1
  · generalize root.entry .controlDir = before, left.entry .controlDir = after at hchanged
    cases hchanged with
    | control hbefore hafter => exact hafter

theorem initializeStores_preserves (hleft : Within (Initialized engine) root left)
    (hfree : Free engine root) :
    Preserves (Within (Initialized engine) root) (initializeStores engine) left
      fun _ _ => True := by
  refine (ensureStoreDirectory_preserves hleft fun hnone => ?_).bind ?_
  · rw [hleft.none_before hnone (by decide) (by decide)]
    exact .objects
  rintro _ _ hleft -
  refine (ensureStoreDirectory_preserves hleft fun _ => .control hfree rfl).bind ?_
  rintro _ _ hleft -
  refine (preserves_read hleft).bind ?_
  rintro _ _ hleft -
  refine (preserves_refuse hleft).bind ?_
  rintro _ _ hleft -
  refine (preserves_read hleft).bind ?_
  rintro _ _ hleft -
  refine (preserves_refuse hleft).bind ?_
  rintro _ opened hleft -
  refine (preserves_zoom fun slot => ?_).mapError
  exact hleft.put (.control hfree (hleft.control_others hfree))

theorem initializeLocked_preserves {persist : Persist}
    (hroot : Within (Initialized engine) root root) :
    Preserves (Within (Initialized engine) root) (initializeLocked engine persist) root
      fun _ _ => True := by
  refine (acquireLock_initialized hroot).bind ?_
  rintro _ locked hlocked hframe
  refine (requireIncomplete_preserves hlocked).bind ?_
  rintro _ _ hlocked ⟨hincomplete, rfl⟩
  have hfree : Free engine root := fun entry hentry =>
    incomplete_control hincomplete ((hframe .controlDir (by decide)).trans hentry)
  refine (publishMarker_preserves hlocked).bind ?_
  rintro _ _ hleft -
  refine (initializeStores_preserves hleft hfree).bind ?_
  rintro _ _ hleft -
  refine (requireIncomplete_preserves hleft).bind ?_
  rintro _ _ hleft -
  refine (publishManifest_preserves hleft).bind ?_
  rintro _ _ hleft -
  exact (requireCurrent_preserves hleft).mono fun _ _ _ _ => trivial

theorem Tidied.initialized {before after : Option Entry} (htidied : Tidied name before after) :
    Initialized engine name before after := by
  cases htidied with
  | markerStage => exact .markerStage (front_some List.prefix_rfl) (front_none _)
  | manifestStage => exact .manifestStage (front_some List.prefix_rfl) (front_none _)

/-- The root that a command goes on from is the selected one, or was just made. -/
def Entered (root left : Root) : Prop :=
  left = root ∨ (root = .absent ∧ left = .directory .empty)

theorem Entered.within {allowed : Name → Option Entry → Option Entry → Prop} {after : Root}
    (hentered : Entered root left) (hafter : Within allowed left after) :
    Within allowed root after := by
  rcases hentered with rfl | ⟨rfl, rfl⟩
  · exact hafter
  · exact ⟨hafter.others, Or.inl rfl, hafter.entries⟩

theorem observeOrCreate_preserves (engine : Engine) (root : Root) :
    Preserves (Within (Initialized engine) root) (observeOrCreate engine) root
      fun status left => Entered root left ∧ classifyRoot engine false left = .ok status := by
  refine (preserves_read (Within.self root)).bind ?_
  rintro status start hroot ⟨hstatus, rfl⟩
  split
  · rename_i habsent
    rw [habsent] at hstatus
    obtain rfl := classifyRoot_absent hstatus
    have hmade : Within (Initialized engine) .absent (.directory .empty) :=
      Entered.within (Or.inr ⟨rfl, rfl⟩) (Within.self _)
    refine (preserves_change hroot fun passed hmem => ?_).bind ?_
    · rw [List.mem_singleton.mp hmem]
      exact hmade
    rintro _ _ hleft rfl
    refine (preserves_read hleft).mono ?_
    rintro status _ - ⟨hstatus, rfl⟩
    exact ⟨Or.inr ⟨rfl, rfl⟩, hstatus⟩
  · exact preserves_pure hroot ⟨Or.inl rfl, hstatus⟩

/-- An initialization changes its own files only, wherever it is cut off. -/
theorem initializePlain_preserves (engine : Engine) (persist : Persist) (root : Root) :
    Preserves (Within (Initialized engine) root) (initializePlain engine persist) root
      fun _ _ => True := by
  refine (observeOrCreate_preserves engine root).bind ?_
  rintro status left hleft ⟨hentered, -⟩
  have hfresh : Preserves (Within (Initialized engine) left) (initializeLocked engine persist) left
      fun _ _ => True := initializeLocked_preserves (Within.self left)
  have hlocked := hfresh.weaken fun _ => hentered.within
  cases status with
  | empty => exact hlocked
  | incompleteInitialization => exact hlocked
  | current =>
      exact (cleanupCurrent_preserves left).weaken fun _ htidied =>
        hentered.within (htidied.mono fun _ _ _ => Tidied.initialized)
  | _ => exact preserves_fail hleft

/-- On a current root an initialization only tidies up. -/
theorem initializePlain_current {persist : Persist}
    (hcurrent : classifyRoot engine false root = .ok .current) :
    Preserves (Within Tidied root) (initializePlain engine persist) root fun _ _ => True := by
  have hobserved : Preserves (Within Tidied root) (observeOrCreate engine) root
      fun status left => status = .current ∧ left = root := by
    refine (preserves_read (Within.self root)).bind ?_
    rintro status _ hroot ⟨hstatus, rfl⟩
    obtain rfl : status = .current := Except.ok.inj (hstatus.symm.trans hcurrent)
    exact preserves_pure hroot ⟨rfl, rfl⟩
  refine hobserved.bind ?_
  rintro _ _ - ⟨rfl, rfl⟩
  exact cleanupCurrent_preserves _

/-- A root that is none of an initialization's is not changed at all. -/
theorem initializePlain_foreign {persist : Persist}
    (hforeign : ∀ status ∈ [PlainRootStatus.absent, .empty, .incompleteInitialization, .current],
      classifyRoot engine false root ≠ .ok status) :
    Preserves (fun left => left = root) (initializePlain engine persist) root
      fun _ _ => True := by
  have hobserved : Preserves (fun left => left = root) (observeOrCreate engine) root
      fun status left => classifyRoot engine false root = .ok status ∧ left = root := by
    refine Preserves.bind (preserves_read rfl) ?_
    rintro status _ hroot ⟨hstatus, rfl⟩
    split
    · rename_i habsent
      rw [habsent] at hstatus
      exact absurd hstatus (hforeign .absent (by decide))
    · exact preserves_pure hroot ⟨hstatus, rfl⟩
  refine hobserved.bind ?_
  rintro status _ hleft ⟨hstatus, rfl⟩
  cases status with
  | empty => exact absurd hstatus (hforeign .empty (by decide))
  | incompleteInitialization =>
      exact absurd hstatus (hforeign .incompleteInitialization (by decide))
  | current => exact absurd hstatus (hforeign .current (by decide))
  | _ => exact preserves_fail hleft

end Initializing

namespace Sample

def engine : Engine where
  createdLength := 8
  committedLength := 16
  zeroLengthError := .corrupt
  created_pos := by decide
  created_le := by decide
  committed_pos := by decide
  committed_le := by decide

def control : ControlFile :=
  .database 16 ⟨0, [⟨metaTable, some [(formatVersionKey, formatVersion)]⟩], []⟩

/-- A current root in which the stage of the manifest was left behind. -/
def leftover : Root := .directory
  { others := []
    entry := fun name =>
      match name with
      | .lockFile => some (.file [])
      | .initMarker => some (.file initMarkerBytes)
      | .manifestFile => some (.file manifestBytes)
      | .manifestStage => some (.file manifestBytes)
      | .objectDir => some (.directory .empty)
      | .controlDir => some (.directory ⟨some (.file control), []⟩)
      | _ => none }

end Sample

/-- An initialization takes a finished stage away from a current root. -/
theorem initializePlain_tidies_current :
    classifyRoot Sample.engine false Sample.leftover = .ok .current ∧
      Sample.leftover.entry .manifestStage = some (.file manifestBytes) ∧
      ((initializePlain Sample.engine .renames).stopped 1 Sample.leftover).entry .manifestStage =
        none := by
  refine ⟨?_, rfl, ?_⟩
  · rfl
  · rfl

/-- Wherever they are cut off, on a root with any contents, the commands on an unfinished
root have changed its own files only.  A discard takes away verified stages, the exact
marker, an empty object directory and a control file that is proven empty.  A current root
loses verified finished stages at most, and only to an initialization; no other root is
touched that is not unfinished. -/
theorem unfinished_root_removals (engine : Engine) (persist : Persist) (root : Root)
    (point : Nat) :
    Within (Discardable engine) root ((discardIncompletePlain engine).stopped point root) ∧
      (classifyRoot engine false root ≠ .ok .incompleteInitialization →
        (discardIncompletePlain engine).stopped point root = root) ∧
      Within (Initialized engine) root ((initializePlain engine persist).stopped point root) ∧
      (classifyRoot engine false root = .ok .current →
        Within Tidied root ((initializePlain engine persist).stopped point root)) ∧
      ((∀ status ∈ [PlainRootStatus.absent, .empty, .incompleteInitialization, .current],
          classifyRoot engine false root ≠ .ok status) →
        (initializePlain engine persist).stopped point root = root) ∧
      ∀ (destination stage : Name) (bytes : Bytes) (maximum : Nat),
        Within (Published destination stage bytes root) root
          ((publishNoclobber persist destination stage bytes maximum).stopped point root) := by
  refine ⟨?_, ?_, ?_, ?_, ?_, ?_⟩
  · exact (discardIncompletePlain_preserves engine root).stopped (Within.self root) point
  · intro hforeign
    exact (discardIncompletePlain_foreign hforeign).stopped rfl point
  · exact (initializePlain_preserves engine persist root).stopped (Within.self root) point
  · intro hcurrent
    exact (initializePlain_current hcurrent).stopped (Within.self root) point
  · intro hforeign
    exact (initializePlain_foreign hforeign).stopped rfl point
  · intro destination stage bytes maximum
    exact (publishNoclobber_preserves persist).stopped (Within.self root) point

theorem unfinished_root_removals_sample :
    (discardIncompletePlain Sample.engine).stopped 3 Sample.leftover = Sample.leftover ∧
      Within Tidied Sample.leftover
        ((initializePlain Sample.engine .renames).stopped 3 Sample.leftover) := by
  obtain ⟨-, hdiscard, -, hinitialize, -⟩ :=
    unfinished_root_removals Sample.engine .renames Sample.leftover 3
  constructor
  · exact hdiscard nofun
  · exact hinitialize rfl

end EliotSearch.Roots
