import EliotSearch.Query.Objects
import EliotSearch.Roots.PlainRoot

/-!
# Publication of an object

How the bytes of an object come to their final name in the object directory: a stage
beside the destination is written, read back and renamed without overwriting.  The
destination and the stage are all that a publication sees of the directory.
-/

namespace EliotSearch.Retention

open EliotSearch.Control
open EliotSearch.Library
open EliotSearch.Library.Crash
open EliotSearch.Library.Results
open EliotSearch.Query
open EliotSearch.Roots (PlainRootError Persist)

/-! ## Reading -/

/-- The destination of a publication and its stage. -/
structure Place where
  final : Option Stored
  stage : Option Stored
  deriving DecidableEq

abbrev PlaceOp (α : Type) : Type := Op Place PlainRootError α

/-- How the file system gives the stage its final name, and whether it removes a stage
that is given up. -/
structure Staging where
  persist : Persist
  drops : Bool

def operationError : Interruption → PlainRootError
  | .cancelled => .cancelled
  | .deadline => .deadline
  | .io => .io

/-- The checks of the operation and the calls of the file system up to the next change. -/
def pass (env : Env) (site : Nat) : PlaceOp Unit :=
  Op.read fun _ => env.check operationError site

def readOptionalBounded (entry : Option Stored) (maximum : Nat) :
    Except PlainRootError (Option Bytes) :=
  match entry with
  | none => .ok none
  | some (.file bytes) => do
      refuse (bytes.length > maximum) .tooLarge
      return some bytes
  | some .irregular => .error .unsupported
  | some .unreadable => .error .io

/-- The stage is absent, or a file with the expected bytes or a front of them. -/
def metadataStageMatches (stage : Option Stored) (expected : Bytes) (allowPartial : Bool) :
    Except PlainRootError Bool :=
  if stage = some .irregular then .ok false
  else do
    let contents ← readOptionalBounded stage expected.length
    return contents.all fun contents =>
      if allowPartial then contents.isPrefixOf expected else contents == expected

/-- An entry holds exactly the bytes. -/
def readBack (entry : Place → Option Stored) (bytes : Bytes) (maximum : Nat)
    (different : PlainRootError) : PlaceOp Unit := do
  let existing ← Op.read fun place => readOptionalBounded (entry place) maximum
  let found ← Op.read fun _ => okOr existing PlainRootError.io
  Op.refuse (found ≠ bytes) different

/-! ## Writing -/

def Place.withoutStage (place : Place) : Place := { place with stage := none }

def removeKnownFile : PlaceOp Unit := do
  let stage ← Op.read fun place => .ok place.stage
  match stage with
  | none => return ()
  | some (.file _) => Op.change fun place => [place.withoutStage]
  | some .irregular => Op.fail .unsupported
  | some .unreadable => Op.fail .io

/-- Validate the stage before it is removed. -/
def removeMetadataStage (env : Env) (site : Nat) (bytes : Bytes) (allowPartial : Bool) :
    PlaceOp Unit := do
  pass env site
  let found ← Op.read fun place => metadataStageMatches place.stage bytes allowPartial
  Op.refuse (found = false) .unsupported
  pass env (site + 1)
  removeKnownFile
  pass env (site + 2)

/-- Give the stage its final name; a name that is taken is reported. -/
def persistNoclobber (persist : Persist) (bytes : Bytes) : PlaceOp Bool := do
  let existing ← Op.read fun place => .ok place.final
  if existing.isSome then return false
  else do
    match persist with
    | .renames => Op.change fun _ => [⟨some (.file bytes), none⟩]
    | .links => Op.change fun place =>
        [{ place with final := some (.file bytes) }, ⟨some (.file bytes), none⟩]
    | .leavesLink => Op.change fun place => [{ place with final := some (.file bytes) }]
    return true

/-- Write a new stage byte by byte, read it back and give it its final name. -/
def writeAndPersist (persist : Persist) (env : Env) (bytes : Bytes) : PlaceOp Bool := do
  Op.change fun place => bytes.inits.map fun written => { place with stage := some (.file written) }
  pass env 0
  readBack Place.stage bytes bytes.length .corrupt
  pass env 1
  persistNoclobber persist bytes

/-- A stage that is given up is removed, as far as the file system does it. -/
def dropStage (staging : Staging) (place : Place) : List Place :=
  if staging.drops then [place.withoutStage] else []

/-- Another publisher was faster: the stage is given up and the destination compared. -/
def resolveLost (staging : Staging) (env : Env) (bytes : Bytes) (maximum : Nat) :
    PlaceOp Unit := do
  Op.change (dropStage staging)
  pass env 0
  readBack Place.final bytes maximum .alreadyExists

def publishNoclobber (staging : Staging) (env : Env) (bytes : Bytes) (maximum : Nat) :
    PlaceOp Unit := do
  Op.refuse (bytes.length > maximum) .tooLarge
  pass env 0
  let existing ← Op.read fun place => readOptionalBounded place.final maximum
  match existing with
  | some found => do
      Op.refuse (found ≠ bytes) .alreadyExists
      removeMetadataStage env 1 bytes false
  | none => do
      removeMetadataStage env 1 bytes true
      let stage ← Op.read fun place => .ok place.stage
      Op.refuse (stage.isSome = true) .alreadyExists
      let persisted ← (writeAndPersist staging.persist (within env 4) bytes).clearing
        (dropStage staging)
      if persisted then pass env 5 else resolveLost staging (within env 5) bytes maximum
      readBack Place.final bytes maximum .corrupt
      removeMetadataStage env 6 bytes false

/-! ## What a publication passes through -/

/-- The bytes of a stage that is there are a front of the expected ones. -/
def Front (expected : Bytes) (stage : Option Stored) : Prop :=
  ∀ found ∈ stage, ∃ bytes, found = .file bytes ∧ bytes <+: expected

/-- The places that a publication leads through.  Behind a destination with the bytes a
finished stage is removed; else the destination is made from a stage that is verified. -/
inductive Published (bytes : Bytes) (start : Place) : Place → Prop where
  | same : Published bytes start start
  | cleared (hfinal : start.final = some (.file bytes)) :
      Published bytes start start.withoutStage
  | staged {stage : Option Stored} (hfinal : start.final = none)
      (hfront : Front bytes start.stage) (hstage : Front bytes stage) :
      Published bytes start ⟨none, stage⟩
  | published {stage : Option Stored} (hfinal : start.final = none)
      (hfront : Front bytes start.stage)
      (hstage : stage = none ∨ stage = some (.file bytes)) :
      Published bytes start ⟨some (.file bytes), stage⟩

section Stages

variable {bytes : Bytes} {maximum : Nat} {allowPartial : Bool} {stage : Option Stored}

theorem front_none (expected : Bytes) : Front expected none :=
  fun _ hmem => absurd hmem (Option.not_mem_none _)

theorem front_some {written : Bytes} (hwritten : written <+: bytes) :
    Front bytes (some (.file written)) := by
  rintro _ ⟨⟩
  exact ⟨written, rfl, hwritten⟩

/-- A stage that matches is a front of the bytes, or all of them. -/
theorem metadataStageMatches_eq_true
    (hmatches : metadataStageMatches stage bytes allowPartial = .ok true) :
    Front bytes stage ∧ (allowPartial = false → stage = none ∨ stage = some (.file bytes)) := by
  unfold metadataStageMatches at hmatches
  split at hmatches
  · cases hmatches
  obtain ⟨contents, hcontents, hsame⟩ := bind_eq_ok.mp hmatches
  cases stage with
  | none => exact ⟨front_none bytes, fun _ => Or.inl rfl⟩
  | some stored =>
      cases stored with
      | irregular => cases hcontents
      | unreadable => cases hcontents
      | file written =>
          obtain ⟨_, -, hfound⟩ := bind_eq_ok.mp hcontents
          obtain rfl := Except.ok.inj hfound
          have hfits := Except.ok.inj hsame
          cases allowPartial with
          | true => exact ⟨front_some (List.isPrefixOf_iff_prefix.mp hfits), nofun⟩
          | false =>
              obtain rfl : written = bytes := beq_iff_eq.mp hfits
              exact ⟨front_some List.prefix_rfl, fun _ => Or.inr rfl⟩

theorem metadataStageMatches_of_front (hfront : Front bytes stage) :
    metadataStageMatches stage bytes true = .ok true := by
  unfold metadataStageMatches
  cases stage with
  | none => rfl
  | some stored =>
      obtain ⟨written, rfl, hwritten⟩ := hfront stored rfl
      rw [if_neg nofun, readOptionalBounded, refuse_of_not (Nat.not_lt.mpr hwritten.length_le),
        ok_bind, pure_eq_ok, ok_bind, pure_eq_ok]
      exact congrArg Except.ok (List.isPrefixOf_iff_prefix.mpr hwritten)

theorem metadataStageMatches_of_exact (hexact : stage = none ∨ stage = some (.file bytes)) :
    metadataStageMatches stage bytes false = .ok true := by
  unfold metadataStageMatches
  rcases hexact with rfl | rfl
  · rfl
  · rw [if_neg nofun, readOptionalBounded, refuse_of_not (Nat.lt_irrefl _), ok_bind, pure_eq_ok,
      ok_bind, pure_eq_ok]
    exact congrArg Except.ok (beq_self_eq_true bytes)

theorem readOptionalBounded_eq_none {entry : Option Stored}
    (hread : readOptionalBounded entry maximum = .ok none) : entry = none := by
  unfold readOptionalBounded at hread
  split at hread
  · rfl
  · obtain ⟨_, -, hfound⟩ := bind_eq_ok.mp hread
    cases hfound
  · cases hread
  · cases hread

theorem readOptionalBounded_eq_some {entry : Option Stored} {found : Bytes}
    (hread : readOptionalBounded entry maximum = .ok (some found)) :
    entry = some (.file found) := by
  unfold readOptionalBounded at hread
  split at hread
  · cases hread
  · obtain ⟨_, -, hfound⟩ := bind_eq_ok.mp hread
    obtain rfl := Option.some.inj (Except.ok.inj hfound)
    rfl
  · cases hread
  · cases hread

end Stages

section Steps

variable {Inv : Place → Prop} {env : Env} {site : Nat} {bytes : Bytes} {maximum : Nat}
  {place : Place}

theorem pass_preserves (hplace : Inv place) :
    Preserves Inv (pass env site) place fun _ after => after = place :=
  (preserves_read hplace).mono fun _ _ _ hdone => hdone.2

theorem readBack_preserves {entry : Place → Option Stored} {different : PlainRootError}
    (hplace : Inv place) :
    Preserves Inv (readBack entry bytes maximum different) place fun _ after =>
      entry place = some (.file bytes) ∧ after = place := by
  refine (preserves_read hplace).bind ?_
  rintro existing _ hplace ⟨hread, rfl⟩
  refine (preserves_read hplace).bind ?_
  rintro found _ hplace ⟨hfound, rfl⟩
  obtain rfl := okOr_eq_ok.mp hfound
  refine (preserves_refuse hplace).mono ?_
  rintro _ _ - ⟨hsame, rfl⟩
  obtain rfl := not_not.mp hsame
  exact ⟨readOptionalBounded_eq_some hread, rfl⟩

theorem removeKnownFile_preserves (hplace : Inv place) (hremoved : Inv place.withoutStage) :
    Preserves Inv removeKnownFile place fun _ after => after = place.withoutStage := by
  refine (preserves_read hplace).bind ?_
  rintro stage _ hplace ⟨hstage, rfl⟩
  have hstage := Except.ok.inj hstage
  cases stage with
  | none =>
      refine preserves_pure hplace ?_
      rw [Place.withoutStage, ← hstage]
  | some stored =>
      cases stored with
      | irregular => exact preserves_fail hplace
      | unreadable => exact preserves_fail hplace
      | file written =>
          refine preserves_change hplace fun passed hmem => ?_
          rw [List.mem_singleton.mp hmem]
          exact hremoved

theorem removeMetadataStage_preserves {allowPartial : Bool} (hplace : Inv place)
    (hremoved : Front bytes place.stage →
      (allowPartial = false → place.stage = none ∨ place.stage = some (.file bytes)) →
      Inv place.withoutStage) :
    Preserves Inv (removeMetadataStage env site bytes allowPartial) place fun _ after =>
      Front bytes place.stage ∧ after = place.withoutStage := by
  refine (pass_preserves hplace).bind ?_
  rintro _ _ hplace rfl
  refine (preserves_read hplace).bind ?_
  rintro found _ hplace ⟨hmatches, rfl⟩
  refine (preserves_refuse hplace).bind ?_
  rintro _ _ hplace ⟨hfound, rfl⟩
  obtain rfl : found = true := Bool.eq_true_of_not_eq_false hfound
  obtain ⟨hfront, hexact⟩ := metadataStageMatches_eq_true hmatches
  refine (pass_preserves hplace).bind ?_
  rintro _ _ hplace rfl
  refine (removeKnownFile_preserves hplace (hremoved hfront hexact)).bind ?_
  rintro _ _ hremoved rfl
  refine (pass_preserves hremoved).mono ?_
  rintro _ _ - rfl
  exact ⟨hfront, rfl⟩

end Steps

section Publishing

variable {env : Env} {bytes : Bytes} {maximum : Nat} {start : Place}

/-- A place whose destination has the bytes, behind a publication that made it. -/
def Finished (bytes : Bytes) (place : Place) : Prop :=
  place.final = some (.file bytes) ∧ (place.stage = none ∨ place.stage = some (.file bytes))

theorem persistNoclobber_preserves {persist : Persist} (hfinal : start.final = none)
    (hfront : Front bytes start.stage)
    (hstaged : Published bytes start ⟨none, some (.file bytes)⟩) :
    Preserves (Published bytes start) (persistNoclobber persist bytes)
      ⟨none, some (.file bytes)⟩
      fun persisted after => persisted = true ∧ Finished bytes after := by
  have hfinished : ∀ {stage : Option Stored}, stage = none ∨ stage = some (.file bytes) →
      Published bytes start ⟨some (.file bytes), stage⟩ := .published hfinal hfront
  refine (preserves_read hstaged).bind ?_
  rintro existing _ hstaged ⟨hexisting, rfl⟩
  obtain rfl := Except.ok.inj hexisting
  rw [if_neg nofun]
  cases persist with
  | renames =>
      refine (preserves_change hstaged fun passed hmem => ?_).bind ?_
      · rw [List.mem_singleton.mp hmem]
        exact hfinished (Or.inl rfl)
      rintro _ _ hafter rfl
      exact preserves_pure hafter ⟨rfl, rfl, Or.inl rfl⟩
  | links =>
      refine (preserves_change hstaged fun passed hmem => ?_).bind ?_
      · rcases List.mem_cons.mp hmem with rfl | hmem
        · exact hfinished (Or.inr rfl)
        · rw [List.mem_singleton.mp hmem]
          exact hfinished (Or.inl rfl)
      rintro _ _ hafter rfl
      exact preserves_pure hafter ⟨rfl, rfl, Or.inl rfl⟩
  | leavesLink =>
      refine (preserves_change hstaged fun passed hmem => ?_).bind ?_
      · rw [List.mem_singleton.mp hmem]
        exact hfinished (Or.inr rfl)
      rintro _ _ hafter rfl
      exact preserves_pure hafter ⟨rfl, rfl, Or.inr rfl⟩

theorem writeAndPersist_preserves {persist : Persist} (hfinal : start.final = none)
    (hfront : Front bytes start.stage) :
    Preserves (Published bytes start) (writeAndPersist persist env bytes) ⟨none, none⟩
      fun persisted after => persisted = true ∧ Finished bytes after := by
  refine (preserves_change (.staged hfinal hfront (front_none bytes)) fun passed hmem => ?_).bind ?_
  · obtain ⟨written, hwritten, rfl⟩ := List.mem_map.mp hmem
    exact .staged hfinal hfront (front_some ((List.mem_inits _ _).mp hwritten))
  rintro _ _ hwritten rfl
  rw [getLastD_inits] at hwritten ⊢
  refine (pass_preserves hwritten).bind ?_
  rintro _ _ hwritten rfl
  refine (readBack_preserves hwritten).bind ?_
  rintro _ _ hwritten ⟨-, rfl⟩
  refine (pass_preserves hwritten).bind ?_
  rintro _ _ hwritten rfl
  exact persistNoclobber_preserves hfinal hfront hwritten

/-- Giving up the stage leads nowhere else. -/
theorem Published.dropped {staging : Staging} {place cleared : Place}
    (hfinal : start.final = none) (hfront : Front bytes start.stage)
    (hpublished : Published bytes start place) (hmem : cleared ∈ dropStage staging place) :
    Published bytes start cleared := by
  have hstaged : Published bytes start ⟨none, none⟩ := .staged hfinal hfront (front_none bytes)
  unfold dropStage at hmem
  split at hmem
  · rw [List.mem_singleton.mp hmem]
    cases hpublished with
    | same =>
        rw [Place.withoutStage, hfinal]
        exact hstaged
    | cleared _ =>
        rw [Place.withoutStage, Place.withoutStage, hfinal]
        exact hstaged
    | staged _ _ _ => exact hstaged
    | published _ _ _ => exact .published hfinal hfront (Or.inl rfl)
  · cases hmem

theorem Finished.published {place : Place} (hfinal : start.final = none)
    (hfront : Front bytes start.stage) (hfinished : Finished bytes place) :
    Published bytes start place := by
  obtain ⟨final, stage⟩ := place
  obtain ⟨rfl, hstage⟩ := hfinished
  exact .published hfinal hfront hstage

/-- A publication changes its place in no other way, wherever it is cut off, and ends with
the bytes under their final name. -/
theorem publishNoclobber_preserves (staging : Staging) (env : Env) (bytes : Bytes)
    (maximum : Nat) (start : Place) :
    Preserves (Published bytes start) (publishNoclobber staging env bytes maximum) start
      fun _ after => after.final = some (.file bytes) := by
  refine (preserves_refuse .same).bind ?_
  rintro _ _ hstart ⟨-, rfl⟩
  refine (pass_preserves hstart).bind ?_
  rintro _ _ hstart rfl
  refine (preserves_read hstart).bind ?_
  rintro existing place hstart ⟨hread, rfl⟩
  cases existing with
  | some found =>
      have hfinal := readOptionalBounded_eq_some hread
      refine (preserves_refuse hstart).bind ?_
      rintro _ _ hstart ⟨hsame, rfl⟩
      obtain rfl := not_not.mp hsame
      refine (removeMetadataStage_preserves hstart fun _ _ => .cleared hfinal).mono ?_
      rintro _ _ - ⟨-, rfl⟩
      exact hfinal
  | none =>
      have hfinal := readOptionalBounded_eq_none hread
      refine (removeMetadataStage_preserves hstart fun hfront _ => ?_).bind ?_
      · rw [Place.withoutStage, hfinal]
        exact .staged hfinal hfront (front_none bytes)
      rintro _ _ hremoved ⟨hfront, rfl⟩
      rw [Place.withoutStage, hfinal] at hremoved ⊢
      refine (preserves_read hremoved).bind ?_
      rintro _ _ hremoved ⟨-, rfl⟩
      refine (preserves_refuse hremoved).bind ?_
      rintro _ _ hremoved ⟨-, rfl⟩
      have hwritten := (@writeAndPersist_preserves (within env 4) bytes place staging.persist
        hfinal hfront).clearing fun _ hpublished _ hmem =>
          @Published.dropped bytes place staging _ _ hfinal hfront hpublished hmem
      refine hwritten.bind ?_
      rintro persisted _ hleft ⟨rfl, hfinished⟩
      rw [if_pos rfl]
      refine (pass_preserves hleft).bind ?_
      rintro _ _ hleft rfl
      refine (readBack_preserves hleft).bind ?_
      rintro _ _ hleft ⟨-, rfl⟩
      refine (removeMetadataStage_preserves hleft fun _ _ =>
        Finished.published hfinal hfront ⟨hfinished.1, Or.inl rfl⟩).mono ?_
      rintro _ _ - ⟨-, rfl⟩
      exact hfinished.1

/-! ## Resuming a publication -/

/-- A place that earlier publications of the bytes left behind. -/
def Sound (bytes : Bytes) (place : Place) : Prop :=
  (place.final = none ∧ Front bytes place.stage) ∨ Finished bytes place

/-- Wherever a publication is cut off, the place is one to go on from. -/
theorem Sound.published {place : Place} (hsound : Sound bytes start)
    (hpublished : Published bytes start place) : Sound bytes place := by
  cases hpublished with
  | same => exact hsound
  | cleared hfinal => exact Or.inr ⟨hfinal, Or.inl rfl⟩
  | staged hfinal hfront hstage => exact Or.inl ⟨rfl, hstage⟩
  | published hfinal hfront hstage => exact Or.inr ⟨rfl, hstage⟩

/-- Behind a destination that is there at most the stage is removed. -/
theorem Published.eq_or_withoutStage {place : Place} {stored : Stored}
    (hpublished : Published bytes start place) (hfinal : start.final = some stored) :
    place = start ∨ place = start.withoutStage := by
  cases hpublished with
  | same => exact Or.inl rfl
  | cleared _ => exact Or.inr rfl
  | staged habsent _ _ =>
      rw [habsent] at hfinal
      cases hfinal
  | published habsent _ _ =>
      rw [habsent] at hfinal
      cases hfinal

/-- A destination that is there stays as it is. -/
theorem Published.final_eq {place : Place} {stored : Stored}
    (hpublished : Published bytes start place) (hfinal : start.final = some stored) :
    place.final = some stored := by
  rcases hpublished.eq_or_withoutStage hfinal with rfl | rfl
  · exact hfinal
  · exact hfinal

end Publishing

section Resuming

variable {env : Env} {bytes : Bytes} {maximum : Nat} {place : Place}

/-- Any place will do on the way. -/
def Anywhere (_ : Place) : Prop := True

theorem pass_completes (hquiet : Undisturbed env) (site : Nat) :
    Completes Anywhere (pass env site) place fun _ after => after = place := by
  have hcheck : env.check operationError site = .ok () := by
    rw [Env.check, hquiet site]
  have hread : Completes Anywhere (pass env site) place
      fun found after => found = () ∧ after = place := completes_read hcheck
  exact hread.mono fun _ _ hdone => hdone.2

theorem readBack_completes {entry : Place → Option Stored} {different : PlainRootError}
    (hentry : entry place = some (.file bytes)) (hlength : bytes.length ≤ maximum) :
    Completes Anywhere (readBack entry bytes maximum different) place fun _ after =>
      after = place := by
  have hread : readOptionalBounded (entry place) maximum = .ok (some bytes) := by
    rw [hentry, readOptionalBounded, refuse_of_not (Nat.not_lt.mpr hlength), ok_bind, pure_eq_ok]
  refine Completes.bind (completes_read hread) ?_
  rintro _ _ ⟨rfl, rfl⟩
  refine Completes.bind (completes_read (okOr_some bytes _)) ?_
  rintro _ _ ⟨rfl, rfl⟩
  exact completes_refuse (not_not.mpr rfl)

theorem removeKnownFile_completes (hfront : Front bytes place.stage) :
    Completes Anywhere removeKnownFile place fun _ after => after = place.withoutStage := by
  refine Completes.bind (completes_read rfl) ?_
  rintro _ place ⟨rfl, rfl⟩
  cases hstage : place.stage with
  | none =>
      refine completes_pure ?_
      rw [Place.withoutStage, ← hstage]
  | some stored =>
      obtain ⟨written, rfl, -⟩ := hfront stored hstage
      exact completes_change fun _ _ => trivial

theorem removeMetadataStage_completes {allowPartial : Bool} (hquiet : Undisturbed env)
    (site : Nat) (hfront : Front bytes place.stage)
    (hexact : allowPartial = false → place.stage = none ∨ place.stage = some (.file bytes)) :
    Completes Anywhere (removeMetadataStage env site bytes allowPartial) place fun _ after =>
      after = place.withoutStage := by
  have hmatches : metadataStageMatches place.stage bytes allowPartial = .ok true := by
    cases allowPartial with
    | true => exact metadataStageMatches_of_front hfront
    | false => exact metadataStageMatches_of_exact (hexact rfl)
  refine Completes.bind (pass_completes hquiet _) ?_
  rintro _ _ rfl
  refine Completes.bind (completes_read hmatches) ?_
  rintro _ _ ⟨rfl, rfl⟩
  refine Completes.bind (completes_refuse nofun) ?_
  rintro _ _ rfl
  refine Completes.bind (pass_completes hquiet _) ?_
  rintro _ _ rfl
  refine Completes.bind (removeKnownFile_completes hfront) ?_
  rintro _ _ rfl
  exact pass_completes hquiet _

theorem Finished.front (hfinished : Finished bytes place) : Front bytes place.stage := by
  rcases hfinished.2 with hstage | hstage
  · rw [hstage]
    exact front_none bytes
  · rw [hstage]
    exact front_some List.prefix_rfl

theorem persistNoclobber_completes {persist : Persist} :
    Completes Anywhere (persistNoclobber persist bytes) ⟨none, some (.file bytes)⟩
      fun persisted after => persisted = true ∧ Finished bytes after := by
  refine Completes.bind (completes_read rfl) ?_
  rintro _ _ ⟨rfl, rfl⟩
  rw [if_neg nofun]
  cases persist with
  | renames =>
      refine Completes.bind (completes_change fun _ _ => trivial) ?_
      rintro _ _ rfl
      exact completes_pure ⟨rfl, rfl, Or.inl rfl⟩
  | links =>
      refine Completes.bind (completes_change fun _ _ => trivial) ?_
      rintro _ _ rfl
      exact completes_pure ⟨rfl, rfl, Or.inl rfl⟩
  | leavesLink =>
      refine Completes.bind (completes_change fun _ _ => trivial) ?_
      rintro _ _ rfl
      exact completes_pure ⟨rfl, rfl, Or.inr rfl⟩

theorem writeAndPersist_completes {persist : Persist} (hquiet : Undisturbed env) :
    Completes Anywhere (writeAndPersist persist env bytes) ⟨none, none⟩
      fun persisted after => persisted = true ∧ Finished bytes after := by
  refine Completes.bind (completes_change fun _ _ => trivial) ?_
  rintro _ _ rfl
  rw [getLastD_inits]
  refine Completes.bind (pass_completes hquiet _) ?_
  rintro _ _ rfl
  refine Completes.bind (readBack_completes rfl (Nat.le_refl _)) ?_
  rintro _ _ rfl
  refine Completes.bind (pass_completes hquiet _) ?_
  rintro _ _ rfl
  exact persistNoclobber_completes

/-- Undisturbed, a publication of the bytes goes on from whatever earlier ones left. -/
theorem publishNoclobber_completes (staging : Staging) (hquiet : Undisturbed env)
    (hlength : bytes.length ≤ maximum) (hsound : Sound bytes place) :
    Completes Anywhere (publishNoclobber staging env bytes maximum) place fun _ after =>
      after = ⟨some (.file bytes), none⟩ := by
  refine Completes.bind (completes_refuse (Nat.not_lt.mpr hlength)) ?_
  rintro _ _ rfl
  refine Completes.bind (pass_completes hquiet _) ?_
  rintro _ place rfl
  rcases hsound with ⟨hfinal, hfront⟩ | hfinished
  · have hread : readOptionalBounded place.final maximum = .ok none := by
      rw [hfinal, readOptionalBounded]
    refine Completes.bind (completes_read hread) ?_
    rintro _ _ ⟨rfl, rfl⟩
    refine Completes.bind (removeMetadataStage_completes hquiet _ hfront nofun) ?_
    rintro _ _ rfl
    rw [Place.withoutStage, hfinal]
    refine Completes.bind (completes_read rfl) ?_
    rintro _ _ ⟨rfl, rfl⟩
    refine Completes.bind (completes_refuse nofun) ?_
    rintro _ _ rfl
    refine Completes.bind (writeAndPersist_completes (hquiet.within 4)).clearing ?_
    rintro _ after ⟨rfl, hfinished⟩
    rw [if_pos rfl]
    refine Completes.bind (pass_completes hquiet _) ?_
    rintro _ _ rfl
    refine Completes.bind (readBack_completes hfinished.1 hlength) ?_
    rintro _ _ rfl
    refine (removeMetadataStage_completes hquiet _ hfinished.front fun _ => hfinished.2).mono ?_
    rintro _ _ rfl
    rw [Place.withoutStage, hfinished.1]
  · have hread : readOptionalBounded place.final maximum = .ok (some bytes) := by
      rw [hfinished.1, readOptionalBounded, refuse_of_not (Nat.not_lt.mpr hlength), ok_bind,
        pure_eq_ok]
    refine Completes.bind (completes_read hread) ?_
    rintro _ _ ⟨rfl, rfl⟩
    refine Completes.bind (completes_refuse (not_not.mpr rfl)) ?_
    rintro _ _ rfl
    refine (removeMetadataStage_completes hquiet _ hfinished.front fun _ => hfinished.2).mono ?_
    rintro _ _ rfl
    rw [Place.withoutStage, hfinished.1]

end Resuming

end EliotSearch.Retention
