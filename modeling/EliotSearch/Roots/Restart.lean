import EliotSearch.Library.Runs
import EliotSearch.Roots.PlainRoot

/-!
# Restarting an initialization

The layouts that cut off initializations and discards leave behind, what each of
them is taken for, and that the next command goes on from every one of them.
-/

namespace EliotSearch.Roots

open EliotSearch.Library
open EliotSearch.Library.Crash
open EliotSearch.Library.Json
open EliotSearch.Library.Results

/-! ## Layouts -/

/-- What a root with a lock file holds besides it. -/
structure Layout where
  marker : Bool
  markerStage : Option Bytes
  objects : Bool
  control : Option Slot
  manifestStage : Option Bytes
  manifest : Bool

namespace Layout

def entry (layout : Layout) : Name → Option Entry
  | .lockFile => some (.file [])
  | .manifestFile => if layout.manifest then some (.file manifestBytes) else none
  | .initMarker => if layout.marker then some (.file initMarkerBytes) else none
  | .incompleteImportMarker => none
  | .archiveCompleteMarker => none
  | .objectDir => if layout.objects then some (.directory .empty) else none
  | .controlDir => layout.control.map fun slot => .directory ⟨slot.map Node.file, []⟩
  | .initMarkerStage => layout.markerStage.map Entry.file
  | .manifestStage => layout.manifestStage.map Entry.file

def root (layout : Layout) : Root := .directory ⟨layout.entry, []⟩

/-- Two layouts are the same root where they have the same entries. -/
theorem root_put {layout changed : Layout} {name : Name} {entry : Option Entry}
    (hentry : ∀ other, changed.entry other = if other = name then entry else layout.entry other) :
    layout.root.put name entry = changed.root :=
  congrArg Root.directory (congrArg (Directory.mk · []) (funext fun other => (hentry other).symm))

end Layout

/-- The lock alone, or with the stage of the marker. -/
def lockedRoot (markerStage : Option Bytes) : Root :=
  Layout.root ⟨false, markerStage, false, none, none, false⟩

/-- A root that is owned by its marker. -/
def markedRoot (markerStage : Option Bytes) (objects : Bool) (control : Option Slot)
    (manifestStage : Option Bytes) : Root :=
  Layout.root ⟨true, markerStage, objects, control, manifestStage, false⟩

/-- A root with its manifest. -/
def committedRoot (markerStage : Option Bytes) (file : ControlFile)
    (manifestStage : Option Bytes) : Root :=
  Layout.root ⟨true, markerStage, true, some (some file), manifestStage, true⟩

/-! ## What is read -/

theorem readOptionalBounded_of {root : Root} {name : Name} {contents : Option Bytes}
    {maximum : Nat} (hentry : root.entry name = contents.map Entry.file)
    (hlength : ∀ bytes ∈ contents, bytes.length ≤ maximum) :
    readOptionalBounded root name maximum = .ok contents := by
  cases contents with
  | none => rw [readOptionalBounded, hentry]; rfl
  | some bytes =>
      rw [readOptionalBounded, hentry]
      dsimp only [Option.map_some]
      rw [refuse_of_not (Nat.not_lt.mpr (hlength bytes rfl)), ok_bind]
      rfl

theorem pathKind_of {root : Root} {name : Name} {contents : Option Bytes}
    (hentry : root.entry name = contents.map Entry.file) :
    pathKind root name = contents.map fun _ => .file := by
  rw [pathKind, hentry, Option.map_map]
  rfl

/-- A stage that is absent, whole, or a front where that is allowed matches. -/
theorem metadataStageMatches_of {root : Root} {name : Name} {expected : Bytes}
    {stage : Option Bytes} {allowPartial : Bool} (hentry : root.entry name = stage.map Entry.file)
    (hstage : ∀ bytes ∈ stage, bytes <+: expected ∧ (allowPartial = false → bytes = expected)) :
    metadataStageMatches root name expected allowPartial = .ok true := by
  have hkind : ¬ (pathKind root name = some .directory ∨ pathKind root name = some .other) := by
    rw [pathKind_of hentry]
    cases stage with
    | none => simp
    | some bytes => simp
  have hread := readOptionalBounded_of hentry fun bytes hmem => (hstage bytes hmem).1.length_le
  rw [metadataStageMatches, if_neg hkind, hread, ok_bind, pure_eq_ok]
  cases stage with
  | none => rfl
  | some bytes =>
      obtain ⟨hfront, hwhole⟩ := hstage bytes rfl
      cases allowPartial with
      | false => simp [hwhole rfl]
      | true => simpa using hfront

theorem judgeStage_of {root : Root} {name : Name} {expected : Bytes} {stage : Option Bytes}
    {allowPartial : Bool} (hentry : root.entry name = stage.map Entry.file)
    (hstage : ∀ bytes ∈ stage, bytes <+: expected ∧ (allowPartial = false → bytes = expected)) :
    judgeStage root name expected allowPartial = .ok () := by
  rw [judgeStage, metadataStageMatches_of hentry hstage]
  rfl

theorem judge_of_not {condition : Prop} [Decidable condition] {status : PlainRootStatus}
    (hcondition : ¬ condition) : judge condition status = .ok () :=
  refuse_of_not hcondition

/-! ## Classification -/

section Classification

variable {engine : Engine}

theorem mem_present {entries : Directory} {name : Name} :
    name ∈ entries.present ↔ (entries.entry name).isSome = true := by
  rw [Directory.present, List.mem_filter]
  exact and_iff_right (Name.mem_all name)

theorem count_le (layout : Layout) : (Directory.mk layout.entry []).count ≤ maxRootEntries := by
  have hlength := List.length_filter_le (fun name => (layout.entry name).isSome) Name.all
  exact hlength.trans (by decide)

theorem count_ne_zero (layout : Layout) : (Directory.mk layout.entry []).count ≠ 0 := by
  have hlock : Name.lockFile ∈ (Directory.mk layout.entry []).present := mem_present.mpr rfl
  exact Nat.ne_of_gt (Nat.lt_of_lt_of_le (List.length_pos_of_mem hlock) (Nat.le_add_right _ _))

theorem supported (layout : Layout) : (Directory.mk layout.entry []).Supported := by
  refine ⟨fun name _ => ?_, fun found hmem => absurd hmem List.not_mem_nil⟩
  have hoption {α : Type} {value : Option α} {entry : α → Entry}
      (hentry : ∀ found, entry found ≠ .other) : value.map entry ≠ some .other := by
    cases value with
    | none => exact fun heq => by cases heq
    | some found => exact fun heq => hentry found (Option.some.inj heq)
  have hif {present : Bool} {entry : Entry} (hentry : entry ≠ .other) :
      (if present then some entry else none) ≠ some .other := by
    cases present with
    | false => exact fun heq => by cases heq
    | true => exact fun heq => hentry (Option.some.inj heq)
  cases name with
  | lockFile => exact fun heq => by cases heq
  | manifestFile => exact hif fun heq => by cases heq
  | initMarker => exact hif fun heq => by cases heq
  | incompleteImportMarker => exact fun heq => by cases heq
  | archiveCompleteMarker => exact fun heq => by cases heq
  | objectDir => exact hif fun heq => by cases heq
  | controlDir => exact hoption fun _ heq => by cases heq
  | initMarkerStage => exact hoption fun _ heq => by cases heq
  | manifestStage => exact hoption fun _ heq => by cases heq

/-- A root with a lock is judged by whether it has a manifest. -/
theorem classifyRootLayout_root (layout : Layout) (probe : Bool) :
    classifyRootLayout engine layout.root probe =
      if layout.manifest then classifyCommittedRootLayout layout.root ⟨layout.entry, []⟩
      else classifyIncompleteRoot engine layout.root ⟨layout.entry, []⟩ probe := by
  have hmanifest : (Directory.mk layout.entry []).containsName .manifestFile = layout.manifest := by
    change (if layout.manifest then some (Entry.file manifestBytes) else none).isSome = _
    cases layout.manifest <;> rfl
  have himport : ¬ (Directory.mk layout.entry []).containsName .incompleteImportMarker = true :=
    Bool.false_ne_true
  have harchive : ¬ (Directory.mk layout.entry []).containsName .archiveCompleteMarker = true :=
    Bool.false_ne_true
  simp only [Layout.root, classifyRootLayout]
  rw [refuse_of_not (Nat.not_lt.mpr (count_le layout)), ok_bind, if_neg (count_ne_zero layout),
    if_neg (not_not.mpr (supported layout)), if_neg himport, if_neg harchive, hmanifest]

theorem classify_of_layout {root : Root} {status : PlainRootStatus} {probe : Bool}
    (hlayout : classifyRootLayout engine root probe = .ok status) (hstatus : status ≠ .current) :
    classifyRoot engine probe root = .ok status := by
  rw [classifyRoot, hlayout, ok_bind, if_pos hstatus, pure_eq_ok]

theorem readMetadata_of {root : Root} {name : Name} {bytes : Bytes} {maximum : Nat}
    {missing : PlainRootStatus} (hentry : root.entry name = some (.file bytes))
    (hlength : bytes.length ≤ maximum) : readMetadata root name maximum missing = .ok bytes := by
  have hread : readOptionalBounded root name maximum = .ok (some bytes) :=
    readOptionalBounded_of hentry fun found hfound => by
      rw [← Option.some.inj hfound]
      exact hlength
  rw [readMetadata, hread]

theorem judgeMarker_of {root : Root} {missing : PlainRootStatus}
    (hentry : root.entry .initMarker = some (.file initMarkerBytes)) :
    judgeMarker root missing = .ok () := by
  rw [judgeMarker, readMetadata_of hentry (by decide), ok_bind]
  exact judge_of_not (not_not.mpr rfl)

/-- A lock, alone or with a front of the marker at its stage, is a retry point. -/
theorem classify_locked {markerStage : Option Bytes}
    (hstage : ∀ bytes ∈ markerStage, bytes <+: initMarkerBytes) (probe : Bool) :
    classifyRoot engine probe (lockedRoot markerStage) = .ok .incompleteInitialization := by
  refine classify_of_layout ?_ (by decide)
  rw [lockedRoot, classifyRootLayout_root]
  cases markerStage with
  | none => rfl
  | some bytes =>
      have hcount : (Directory.mk (Layout.entry ⟨false, some bytes, false, none, none, false⟩)
          []).count = 2 := rfl
      have hfront : judgeStage (lockedRoot (some bytes)) .initMarkerStage initMarkerBytes true =
          .ok () := judgeStage_of rfl fun found hfound => ⟨hstage found hfound, by simp⟩
      rw [if_neg Bool.false_ne_true, classifyIncompleteRoot, if_neg, if_pos, judge_of_not, ok_bind]
      · change conclude (judgeStage (lockedRoot (some bytes)) .initMarkerStage initMarkerBytes true
          >>= fun _ => pure .incompleteInitialization) = _
        rw [hfront]
        rfl
      · exact not_not.mpr ⟨hcount, rfl, rfl, rfl⟩
      · exact Bool.false_ne_true
      · rintro ⟨hone, -⟩
        rw [hcount] at hone
        cases hone

/-- A control directory with nothing but an unfinished file is one of a restart. -/
theorem judgeIncompleteControl_of {root : Root} {slot : Slot}
    (hfolder : root.folder .controlDir = ⟨slot.map Node.file, []⟩)
    (hslot : ∀ file ∈ slot, Unfinished file) (probe : Bool) :
    judgeIncompleteControl engine root probe = .ok () := by
  cases slot with
  | none =>
      have hprobe : ¬ (probe = true ∧ (root.folder .controlDir).fileLength ≠ 0) := by
        rw [hfolder]
        exact fun h => h.2 rfl
      rw [judgeIncompleteControl, if_neg hprobe, hfolder]
      rfl
  | some file =>
      have hgoes : (if probe = true ∧ (root.folder .controlDir).fileLength ≠ 0 then
          judgeProbe engine root else pure ()) = .ok () := by
        by_cases hprobe : probe = true ∧ (root.folder .controlDir).fileLength ≠ 0
        · have hlength : file.length ≠ 0 := by
            have hfound := hprobe.2
            rw [hfolder] at hfound
            exact hfound
          have hempty : controlIsEmpty engine root = .ok true := by
            rw [controlIsEmpty, controlFile, hfolder]
            dsimp only [Option.map_some]
            rw [ok_bind, (hslot file rfl).isEmpty hlength]
            rfl
          rw [if_pos hprobe, judgeProbe, hempty]
        · rw [if_neg hprobe]
          rfl
      rw [judgeIncompleteControl, hgoes, hfolder, judge_of_not, judge_of_not]
      · rfl
      · rintro ⟨node, hnode, hkind⟩
        obtain rfl := Option.some.inj hnode
        exact hkind rfl
      · exact not_not.mpr rfl

/-- A root that is owned by its marker is unfinished, whatever was made of it. -/
theorem classify_marked {markerStage manifestStage : Option Bytes} {objects : Bool}
    {control : Option Slot} (hmarker : ∀ bytes ∈ markerStage, bytes = initMarkerBytes)
    (hcontrol : ∀ slot ∈ control, ∀ file ∈ slot, Unfinished file)
    (hmanifest : ∀ bytes ∈ manifestStage, bytes <+: manifestBytes) (probe : Bool) :
    classifyRoot engine probe (markedRoot markerStage objects control manifestStage) =
      .ok .incompleteInitialization := by
  refine classify_of_layout ?_ (by decide)
  rw [markedRoot, classifyRootLayout_root]
  obtain ⟨layout, hlayout⟩ : ∃ layout, layout =
      Layout.mk true markerStage objects control manifestStage false := ⟨_, rfl⟩
  rw [← hlayout]
  have honly : (Directory.mk layout.entry []).Only incompleteNames := by
    refine ⟨rfl, fun name hmem => ?_⟩
    have hpresent := mem_present.mp hmem
    subst hlayout
    cases name with
    | manifestFile => cases hpresent
    | incompleteImportMarker => cases hpresent
    | archiveCompleteMarker => cases hpresent
    | _ => decide
  have htwo : ¬ ((Directory.mk layout.entry []).count = 1 ∧
      (Directory.mk layout.entry []).containsName .lockFile = true) := by
    rintro ⟨hone, -⟩
    have hlock : Name.lockFile ∈ (Directory.mk layout.entry []).present := mem_present.mpr rfl
    have hmarkerName : Name.initMarker ∈ (Directory.mk layout.entry []).present :=
      mem_present.mpr (by rw [hlayout]; rfl)
    obtain ⟨only, honly⟩ := List.length_eq_one_iff.mp hone
    rw [honly, List.mem_singleton] at hlock hmarkerName
    rw [← hlock] at hmarkerName
    cases hmarkerName
  have hstage : judgeStage layout.root .initMarkerStage initMarkerBytes false = .ok () := by
    refine judgeStage_of rfl fun bytes hmem => ?_
    obtain rfl := hmarker bytes (by rwa [hlayout] at hmem)
    exact ⟨List.prefix_rfl, fun _ => rfl⟩
  have hmanifestStage : judgeStage layout.root .manifestStage manifestBytes true = .ok () := by
    refine judgeStage_of rfl fun bytes hmem => ⟨?_, fun heq => by cases heq⟩
    exact hmanifest bytes (by rwa [hlayout] at hmem)
  have hcontrolled : judgeIncompleteControl engine layout.root probe = .ok () := by
    subst hlayout
    cases control with
    | none =>
        exact @judgeIncompleteControl_of engine _ none rfl (fun _ hmem => by cases hmem) probe
    | some slot => exact judgeIncompleteControl_of rfl (hcontrol slot rfl) probe
  have hobjects : ¬ ((layout.root.folder .objectDir).count ≠ 0) := by
    subst hlayout
    cases objects <;> exact not_not.mpr rfl
  have hobjectKind : ¬ ((Directory.mk layout.entry []).containsName .objectDir = true ∧
      pathKind layout.root .objectDir ≠ some .directory) := by
    subst hlayout
    cases objects with
    | false => exact fun h => absurd h.1 Bool.false_ne_true
    | true => exact fun h => h.2 rfl
  have hcontrolKind : ¬ ((Directory.mk layout.entry []).containsName .controlDir = true ∧
      pathKind layout.root .controlDir ≠ some .directory) := by
    subst hlayout
    cases control with
    | none => exact fun h => absurd h.1 Bool.false_ne_true
    | some slot => exact fun h => h.2 rfl
  have hmarkerEntry : layout.root.entry .initMarker = some (.file initMarkerBytes) := by
    rw [hlayout]
    rfl
  have hmarked : ¬ ¬ (Directory.mk layout.entry []).containsName .initMarker = true := by
    rw [hlayout]
    exact not_not.mpr rfl
  have hmanifestAbsent : ¬ layout.manifest = true := by
    rw [hlayout]
    exact Bool.false_ne_true
  have hlockKind : ¬ (pathKind layout.root .lockFile ≠ some .file) := not_not.mpr rfl
  rw [if_neg hmanifestAbsent, classifyIncompleteRoot, if_neg htwo, if_neg hmarked,
    classifyMarkedRoot, judge_of_not (not_not.mpr honly), ok_bind, judgeMarker_of hmarkerEntry,
    ok_bind, hstage, ok_bind, hmanifestStage, ok_bind, judge_of_not hlockKind, ok_bind,
    judge_of_not hobjectKind, ok_bind, judge_of_not hobjects, ok_bind, judge_of_not hcontrolKind,
    ok_bind, hcontrolled]
  rfl

theorem judgeCommittedControl_of {root : Root} {file : ControlFile}
    (hfolder : root.folder .controlDir = ⟨some (.file file), []⟩) (hlength : 0 < file.length) :
    judgeCommittedControl root = .ok .current := by
  have hpositive : ¬ ((Folder.mk (some (.file file)) []).fileLength = 0) := Nat.ne_of_gt hlength
  rw [judgeCommittedControl, hfolder, judge_of_not hpositive]
  rfl

/-- A root with its manifest and a formatted database is current. -/
theorem classify_committed {markerStage manifestStage : Option Bytes} {file : ControlFile}
    (hmarker : ∀ bytes ∈ markerStage, bytes = initMarkerBytes) (hfile : Formatted file)
    (hmanifest : ∀ bytes ∈ manifestStage, bytes = manifestBytes) (probe : Bool) :
    classifyRoot engine probe (committedRoot markerStage file manifestStage) = .ok .current := by
  rw [committedRoot]
  obtain ⟨layout, hlayout⟩ : ∃ layout, layout =
      Layout.mk true markerStage true (some (some file)) manifestStage true := ⟨_, rfl⟩
  rw [← hlayout]
  have honly : (Directory.mk layout.entry []).Only committedNames := by
    refine ⟨rfl, fun name hmem => ?_⟩
    have hpresent := mem_present.mp hmem
    cases name with
    | incompleteImportMarker => cases hpresent
    | archiveCompleteMarker => cases hpresent
    | _ => decide
  have hstage : judgeStage layout.root .initMarkerStage initMarkerBytes false = .ok () := by
    refine judgeStage_of rfl fun bytes hmem => ?_
    obtain rfl := hmarker bytes (by rwa [hlayout] at hmem)
    exact ⟨List.prefix_rfl, fun _ => rfl⟩
  have hmanifestStage : judgeStage layout.root .manifestStage manifestBytes false = .ok () := by
    refine judgeStage_of rfl fun bytes hmem => ?_
    obtain rfl := hmanifest bytes (by rwa [hlayout] at hmem)
    exact ⟨List.prefix_rfl, fun _ => rfl⟩
  have hmarkerEntry : layout.root.entry .initMarker = some (.file initMarkerBytes) := by
    rw [hlayout]
    rfl
  have hmanifestEntry : layout.root.entry .manifestFile = some (.file manifestBytes) := by
    rw [hlayout]
    rfl
  have hmarked : (Directory.mk layout.entry []).containsName .initMarker = true := by
    rw [hlayout]
    rfl
  have hstages : ¬ (((Directory.mk layout.entry []).containsName .initMarkerStage = true ∨
      (Directory.mk layout.entry []).containsName .manifestStage = true) ∧
      ¬ (Directory.mk layout.entry []).containsName .initMarker = true) :=
    fun h => h.2 hmarked
  have hlockKind : ¬ (pathKind layout.root .lockFile ≠ some .file) := not_not.mpr rfl
  have hobjectKind : ¬ (pathKind layout.root .objectDir ≠ some .directory) := by
    rw [hlayout]
    exact not_not.mpr rfl
  have hcontrolKind : ¬ (pathKind layout.root .controlDir ≠ some .directory) := by
    rw [hlayout]
    exact not_not.mpr rfl
  have hfolder : layout.root.folder .controlDir = ⟨some (.file file), []⟩ := by
    rw [hlayout]
    rfl
  have hcommitted : classifyRootLayout engine layout.root probe = .ok .current := by
    rw [classifyRootLayout_root, if_pos (by rw [hlayout]), classifyCommittedRootLayout,
      judge_of_not (not_not.mpr honly), ok_bind, readMetadata_of hmanifestEntry (by decide),
      ok_bind, judge_of_not (not_not.mpr rfl), ok_bind, if_pos hmarked,
      judgeMarker_of hmarkerEntry, ok_bind, judge_of_not hstages, ok_bind, hstage, ok_bind,
      hmanifestStage, ok_bind, judge_of_not hlockKind, ok_bind, judge_of_not hobjectKind, ok_bind,
      judge_of_not hcontrolKind, ok_bind, judgeCommittedControl_of hfolder hfile.length_pos]
    rfl
  have hinspect : inspectControlFormat engine layout.root = .ok () := by
    rw [inspectControlFormat, controlFile, hfolder]
    dsimp only
    rw [ok_bind, hfile.inspect]
    rfl
  rw [classifyRoot, hcommitted, ok_bind, if_neg (not_not.mpr rfl), hinspect]
  rfl

end Classification

/-! ## What cut off commands leave -/

/-- The roots that initializations and discards leave, cut off anywhere. -/
inductive Sound : Root → Prop
  | absent : Sound .absent
  | empty : Sound (.directory .empty)
  | locked {markerStage : Option Bytes}
      (hstage : ∀ bytes ∈ markerStage, bytes <+: initMarkerBytes) :
      Sound (lockedRoot markerStage)
  | marked {markerStage manifestStage : Option Bytes} {objects : Bool} {control : Option Slot}
      (hmarker : ∀ bytes ∈ markerStage, bytes = initMarkerBytes)
      (hcontrol : ∀ slot ∈ control, ∀ file ∈ slot, Unfinished file)
      (hmanifest : ∀ bytes ∈ manifestStage, bytes <+: manifestBytes) :
      Sound (markedRoot markerStage objects control manifestStage)
  | committed {markerStage manifestStage : Option Bytes} {file : ControlFile}
      (hmarker : ∀ bytes ∈ markerStage, bytes = initMarkerBytes) (hfile : Formatted file)
      (hmanifest : ∀ bytes ∈ manifestStage, bytes = manifestBytes) :
      Sound (committedRoot markerStage file manifestStage)

theorem none_spec {α : Type} {p : α → Prop} : ∀ found ∈ (none : Option α), p found :=
  fun _ hmem => by cases hmem

theorem some_spec {α : Type} {p : α → Prop} {value : α} (hvalue : p value) :
    ∀ found ∈ some value, p found := by
  intro found hmem
  rwa [← Option.some.inj hmem]

section Steps

variable {engine : Engine} {root : Root}

theorem putEntry_completes {name : Name} {entry : Option Entry} {next : Root}
    (hput : root.put name entry = next) (hsound : Sound next) :
    Completes Sound (putEntry name entry) root fun _ left => left = next := by
  refine Completes.mono (completes_change fun passed hmem => ?_) ?_
  · rw [List.mem_singleton.mp hmem, hput]
    exact hsound
  · rintro _ _ rfl
    exact hput

/-- The roots that differ in the contents of one file only. -/
structure Varies (name : Name) (states : Option Bytes → Root) : Prop where
  entry : ∀ contents, (states contents).entry name = contents.map Entry.file
  put : ∀ contents other, (states contents).put name (other.map Entry.file) = states other

theorem removeKnownFile_completes {name : Name} {states : Option Bytes → Root}
    (hvaries : Varies name states) (contents : Option Bytes) (hsound : Sound (states none)) :
    Completes Sound (removeKnownFile name) (states contents) fun _ left => left = states none := by
  have hkind := pathKind_of (hvaries.entry contents)
  refine Completes.bind (completes_read (congrArg Except.ok hkind)) ?_
  rintro _ _ ⟨rfl, rfl⟩
  cases contents with
  | none => exact completes_pure rfl
  | some bytes => exact putEntry_completes (hvaries.put (some bytes) none) hsound

/-- A stage that matches is removed. -/
theorem removeMetadataStage_completes {name : Name} {states : Option Bytes → Root}
    {expected : Bytes} {allowPartial : Bool} {stage : Option Bytes} (hvaries : Varies name states)
    (hstage : ∀ bytes ∈ stage, bytes <+: expected ∧ (allowPartial = false → bytes = expected))
    (hsound : Sound (states none)) :
    Completes Sound (removeMetadataStage name expected allowPartial) (states stage) fun _ left =>
      left = states none := by
  refine Completes.bind (completes_read (metadataStageMatches_of (hvaries.entry stage) hstage)) ?_
  rintro _ _ ⟨rfl, rfl⟩
  refine Completes.bind (completes_refuse (by decide)) ?_
  rintro _ _ rfl
  exact removeKnownFile_completes hvaries stage hsound

/-- A file that holds the bytes is read back. -/
theorem readBack_completes {destination : Name} {bytes : Bytes} {maximum : Nat}
    {different : PlainRootError} (hentry : root.entry destination = some (.file bytes))
    (hlength : bytes.length ≤ maximum) :
    Completes Sound (readBack destination bytes maximum different) root fun _ left =>
      left = root := by
  have hread : readOptionalBounded root destination maximum = .ok (some bytes) :=
    readOptionalBounded_of hentry (some_spec hlength)
  refine Completes.bind (completes_read hread) ?_
  rintro _ _ ⟨rfl, rfl⟩
  refine Completes.bind (completes_read (okOr_some bytes _)) ?_
  rintro _ _ ⟨rfl, rfl⟩
  exact completes_refuse (not_not.mpr rfl)

theorem writeStage_completes {stage : Name} {bytes : Bytes} {states : Option Bytes → Root}
    (hvaries : Varies stage states)
    (hsound : ∀ written, written <+: bytes → Sound (states (some written))) :
    Completes Sound (writeStage stage bytes) (states none) fun _ left =>
      left = states (some bytes) := by
  refine Completes.bind (completes_read (congrArg Except.ok (hvaries.entry none))) ?_
  rintro _ _ ⟨rfl, rfl⟩
  refine Completes.bind (completes_refuse (by simp)) ?_
  rintro _ _ rfl
  have hthrough : (bytes.inits.map fun written =>
      (states none).put stage (some (.file written))) =
      bytes.inits.map fun written => states (some written) :=
    List.map_congr_left fun written _ => hvaries.put none (some written)
  refine Completes.mono (completes_change fun passed hmem => ?_) ?_
  · rw [hthrough] at hmem
    obtain ⟨written, hwritten, rfl⟩ := List.mem_map.mp hmem
    exact hsound written ((List.mem_inits _ _).mp hwritten)
  · rintro _ _ rfl
    rw [hthrough, getLastD_inits]

end Steps

/-! ## Publications -/

/-- A file and its stage: the roots without the file and the roots with it, for every
content of the stage. -/
structure Publication (destination stage : Name) (bytes : Bytes)
    (before after : Option Bytes → Root) : Prop where
  before_varies : Varies stage before
  after_varies : Varies stage after
  absent : ∀ contents, (before contents).entry destination = none
  present : ∀ contents, (after contents).entry destination = some (.file bytes)
  put : ∀ contents, (before contents).put destination (some (.file bytes)) = after contents
  before_sound : ∀ contents : Option Bytes, (∀ found ∈ contents, found <+: bytes) →
    Sound (before contents)
  after_sound : ∀ contents : Option Bytes, (∀ found ∈ contents, found = bytes) →
    Sound (after contents)

section Publications

variable {destination stage : Name} {bytes : Bytes} {before after : Option Bytes → Root}
  {maximum : Nat}

/-- The finished stage gets its final name, and may stay as a second link. -/
theorem persistNoclobber_completes (hpublication : Publication destination stage bytes before after)
    (persist : Persist) :
    Completes Sound (persistNoclobber persist destination stage bytes maximum)
      (before (some bytes)) fun _ left =>
        ∃ contents, (∀ found ∈ contents, found = bytes) ∧ left = after contents := by
  have hplain := hpublication.after_sound none none_spec
  have hlinked := hpublication.after_sound (some bytes) (some_spec rfl)
  have hput := hpublication.put (some bytes)
  have hremoved : (after (some bytes)).put stage none = after none :=
    hpublication.after_varies.put (some bytes) none
  have hrenamed : ((before (some bytes)).put stage none).put destination (some (.file bytes)) =
      after none := by
    have hbefore : (before (some bytes)).put stage none = before none :=
      hpublication.before_varies.put (some bytes) none
    rw [hbefore]
    exact hpublication.put none
  refine Completes.bind
    (completes_read (congrArg Except.ok (hpublication.absent (some bytes)))) ?_
  rintro _ _ ⟨rfl, rfl⟩
  rw [if_neg (by decide)]
  cases persist with
  | renames =>
      refine Completes.mono (completes_change fun passed hmem => ?_) ?_
      · rw [List.mem_singleton.mp hmem, hrenamed]
        exact hplain
      · rintro _ _ rfl
        exact ⟨none, none_spec, hrenamed⟩
  | links =>
      refine Completes.mono (completes_change fun passed hmem => ?_) ?_
      · rw [List.mem_pair, hput, hremoved] at hmem
        rcases hmem with rfl | rfl
        · exact hlinked
        · exact hplain
      · rintro _ _ rfl
        refine ⟨none, none_spec, ?_⟩
        change ((before (some bytes)).put destination (some (.file bytes))).put stage none = _
        rw [hput, hremoved]
  | leavesLink =>
      refine Completes.mono (completes_change fun passed hmem => ?_) ?_
      · rw [List.mem_singleton.mp hmem, hput]
        exact hlinked
      · rintro _ _ rfl
        exact ⟨some bytes, some_spec rfl, hput⟩

/-- A file is published from a stage that holds a front of it, or nothing. -/
theorem publishNoclobber_completes
    (hpublication : Publication destination stage bytes before after)
    (hlength : bytes.length ≤ maximum) (persist : Persist) {contents : Option Bytes}
    (hcontents : ∀ found ∈ contents, found <+: bytes) :
    Completes Sound (publishNoclobber persist destination stage bytes maximum) (before contents)
      fun _ left => left = after none := by
  have hentry : (before contents).entry destination = (none : Option Bytes).map Entry.file :=
    hpublication.absent contents
  refine Completes.bind (completes_refuse (Nat.not_lt.mpr hlength)) ?_
  rintro _ _ rfl
  refine Completes.bind (completes_read (readOptionalBounded_of hentry none_spec)) ?_
  rintro _ _ ⟨rfl, rfl⟩
  refine Completes.bind (removeMetadataStage_completes hpublication.before_varies
    (fun found hmem => ⟨hcontents found hmem, fun heq => by cases heq⟩)
    (hpublication.before_sound none none_spec)) ?_
  rintro _ _ rfl
  refine Completes.bind (writeStage_completes hpublication.before_varies fun written hwritten =>
    hpublication.before_sound (some written) (some_spec hwritten)) ?_
  rintro _ _ rfl
  refine Completes.bind
    (readBack_completes (hpublication.before_varies.entry (some bytes)) le_rfl) ?_
  rintro _ _ rfl
  refine Completes.bind (persistNoclobber_completes hpublication persist) ?_
  rintro _ _ ⟨linked, hlinked, rfl⟩
  refine Completes.bind (readBack_completes (hpublication.present linked) hlength) ?_
  rintro _ _ rfl
  refine removeMetadataStage_completes hpublication.after_varies (fun found hmem => ?_)
    (hpublication.after_sound none none_spec)
  rw [hlinked found hmem]
  exact ⟨List.prefix_rfl, fun _ => rfl⟩

/-- A file that is already published loses only its stage. -/
theorem publishNoclobber_present {states : Option Bytes → Root} (hvaries : Varies stage states)
    (hpresent : ∀ contents, (states contents).entry destination = some (.file bytes))
    (hlength : bytes.length ≤ maximum) (persist : Persist) {contents : Option Bytes}
    (hcontents : ∀ found ∈ contents, found = bytes) (hsound : Sound (states none)) :
    Completes Sound (publishNoclobber persist destination stage bytes maximum) (states contents)
      fun _ left => left = states none := by
  have hentry : (states contents).entry destination = (some bytes).map Entry.file :=
    hpresent contents
  refine Completes.bind (completes_refuse (Nat.not_lt.mpr hlength)) ?_
  rintro _ _ rfl
  refine Completes.bind (completes_read (readOptionalBounded_of hentry (some_spec hlength))) ?_
  rintro _ _ ⟨rfl, rfl⟩
  refine Completes.bind (completes_refuse (not_not.mpr rfl)) ?_
  rintro _ _ rfl
  refine removeMetadataStage_completes hvaries (fun found hmem => ?_) hsound
  rw [hcontents found hmem]
  exact ⟨List.prefix_rfl, fun _ => rfl⟩

end Publications

/-! ## The files of a layout -/

theorem Layout.varies_markerStage (layout : Layout) :
    Varies .initMarkerStage fun stage => { layout with markerStage := stage }.root := by
  refine ⟨fun contents => rfl, fun contents other => Layout.root_put fun name => ?_⟩
  cases name <;> rfl

theorem Layout.varies_manifestStage (layout : Layout) :
    Varies .manifestStage fun stage => { layout with manifestStage := stage }.root := by
  refine ⟨fun contents => rfl, fun contents other => Layout.root_put fun name => ?_⟩
  cases name <;> rfl

theorem marker_publication :
    Publication .initMarker .initMarkerStage initMarkerBytes lockedRoot fun stage =>
      markedRoot stage false none none where
  before_varies := Layout.varies_markerStage ⟨false, none, false, none, none, false⟩
  after_varies := Layout.varies_markerStage ⟨true, none, false, none, none, false⟩
  absent _ := rfl
  present _ := rfl
  put contents := Layout.root_put fun name => by cases name <;> rfl
  before_sound _ hcontents := Sound.locked hcontents
  after_sound _ hcontents := Sound.marked hcontents none_spec none_spec

theorem manifest_publication {file : ControlFile} (hfile : Formatted file) :
    Publication .manifestFile .manifestStage manifestBytes
      (fun stage => markedRoot none true (some (some file)) stage)
      fun stage => committedRoot none file stage where
  before_varies := Layout.varies_manifestStage ⟨true, none, true, some (some file), none, false⟩
  after_varies := Layout.varies_manifestStage ⟨true, none, true, some (some file), none, true⟩
  absent _ := rfl
  present _ := rfl
  put contents := Layout.root_put fun name => by cases name <;> rfl
  before_sound _ hcontents := Sound.marked none_spec
    (some_spec (some_spec (Or.inr (Or.inr hfile)))) hcontents
  after_sound _ hcontents := Sound.committed none_spec hfile hcontents

/-! ## Stores -/

section Stores

variable {engine : Engine} {markerStage manifestStage : Option Bytes} {objects : Bool}
  {control : Option Slot}

/-- What is known of a root that is owned by its marker. -/
structure Owned (markerStage manifestStage : Option Bytes) (control : Option Slot) : Prop where
  marker : ∀ bytes ∈ markerStage, bytes = initMarkerBytes
  control : ∀ slot ∈ control, ∀ file ∈ slot, Unfinished file
  manifest : ∀ bytes ∈ manifestStage, bytes <+: manifestBytes

theorem Owned.sound (howned : Owned markerStage manifestStage control) (objects : Bool) :
    Sound (markedRoot markerStage objects control manifestStage) :=
  Sound.marked howned.marker howned.control howned.manifest

theorem ensureObjects_completes (howned : Owned markerStage manifestStage control) :
    Completes Sound (ensureStoreDirectory .objectDir)
      (markedRoot markerStage objects control manifestStage) fun _ left =>
        left = markedRoot markerStage true control manifestStage := by
  refine Completes.bind (completes_read rfl) ?_
  rintro _ _ ⟨rfl, rfl⟩
  cases objects with
  | true => exact completes_pure rfl
  | false =>
      refine putEntry_completes (Layout.root_put fun name => ?_) (howned.sound true)
      cases name <;> rfl

theorem ensureControl_completes (howned : Owned markerStage manifestStage control) :
    Completes Sound (ensureStoreDirectory .controlDir)
      (markedRoot markerStage objects control manifestStage) fun _ left =>
        left = markedRoot markerStage objects (some (control.getD none)) manifestStage := by
  refine Completes.bind (completes_read rfl) ?_
  rintro _ _ ⟨rfl, rfl⟩
  cases control with
  | some slot => exact completes_pure rfl
  | none =>
      have howned' : Owned markerStage manifestStage (some none) :=
        ⟨howned.marker, some_spec none_spec, howned.manifest⟩
      refine putEntry_completes (Layout.root_put fun name => ?_) (howned'.sound objects)
      cases name <;> rfl

theorem putControlSlot_marked (slot other : Slot) :
    putControlSlot (markedRoot markerStage objects (some slot) manifestStage) other =
      markedRoot markerStage objects (some other) manifestStage :=
  Layout.root_put fun name => by cases name <;> rfl

theorem controlSlot_marked (slot : Slot) :
    controlSlot (markedRoot markerStage objects (some slot) manifestStage) = slot := by
  cases slot <;> rfl

/-- The control file of a marked root gets its format. -/
theorem initializeControl_completes {slot : Slot}
    (howned : Owned markerStage manifestStage (some slot)) :
    Completes Sound (initializeControl engine)
      (markedRoot markerStage objects (some slot) manifestStage) fun _ left =>
        ∃ file, Formatted file ∧
          left = markedRoot markerStage objects (some (some file)) manifestStage := by
  refine Completes.bind (completes_read rfl) ?_
  rintro _ _ ⟨rfl, rfl⟩
  refine Completes.bind (completes_refuse ?_) ?_
  · rintro ⟨node, hnode, hkind⟩
    cases slot with
    | none => cases hnode
    | some file =>
        obtain rfl := Option.some.inj hnode
        exact hkind rfl
  · rintro _ _ rfl
    have hslot : ∀ file ∈ controlSlot
        (markedRoot markerStage objects (some slot) manifestStage), Unfinished file := by
      rw [controlSlot_marked]
      exact howned.control slot rfl
    refine Completes.mapError ((initializePlainControl_completes hslot).zoom ?_ ?_)
    · rintro _ ⟨file, rfl, hfile⟩
      rw [putControlSlot_marked]
      exact Sound.marked howned.marker (some_spec (some_spec hfile)) howned.manifest
    · rintro _ _ ⟨file, rfl, hfile⟩
      exact ⟨file, hfile, putControlSlot_marked slot (some file)⟩

theorem initializeStores_completes (howned : Owned markerStage manifestStage control) :
    Completes Sound (initializeStores engine)
      (markedRoot markerStage objects control manifestStage) fun _ left =>
        ∃ file, Formatted file ∧
          left = markedRoot markerStage true (some (some file)) manifestStage := by
  refine (ensureObjects_completes howned).bind ?_
  rintro _ _ rfl
  refine (ensureControl_completes howned).bind ?_
  rintro _ _ rfl
  refine Completes.bind (completes_read rfl) ?_
  rintro _ _ ⟨rfl, rfl⟩
  refine Completes.bind (completes_refuse (not_not.mpr rfl)) ?_
  rintro _ _ rfl
  refine initializeControl_completes ⟨howned.marker, ?_, howned.manifest⟩
  cases control with
  | none => exact some_spec none_spec
  | some slot => exact howned.control

end Stores

end EliotSearch.Roots
