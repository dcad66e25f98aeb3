import EliotSearch.Roots.PlainRoot

/-!
# Changes to a root

What a step on a root may change, on a root with any contents and wherever it is cut
off.  A publication touches its stage and its destination only, and the tidying up
behind a finished initialization removes finished stages only.
-/

namespace EliotSearch.Roots

open EliotSearch.Library
open EliotSearch.Library.Crash
open EliotSearch.Library.Results

/-! ## Changes to a root -/

namespace Root

/-- The entries of other names. -/
def others : Root → List (String × Entry)
  | absent => []
  | directory entries => entries.others
  | other => []

def kind : Root → Option EntryKind
  | absent => none
  | directory _ => some .directory
  | other => some .other

theorem entry_put_of_ne {root : Root} {name other : Name} (hother : other ≠ name)
    (entry : Option Entry) : (root.put name entry).entry other = root.entry other := by
  cases root with
  | absent => rfl
  | directory entries => exact if_neg hother
  | other => rfl

theorem entry_put_none (root : Root) (name : Name) : (root.put name none).entry name = none := by
  cases root with
  | absent => rfl
  | directory entries => exact if_pos rfl
  | other => rfl

/-- An entry that is put under a name is there, if the root is a directory. -/
theorem entry_put (root : Root) (name : Name) (entry : Option Entry) :
    (root.put name entry).entry name = entry ∨ root.put name entry = root := by
  cases root with
  | absent => exact Or.inr rfl
  | directory entries => exact Or.inl (if_pos rfl)
  | other => exact Or.inr rfl

theorem others_put (root : Root) (name : Name) (entry : Option Entry) :
    (root.put name entry).others = root.others := by
  cases root <;> rfl

theorem kind_put (root : Root) (name : Name) (entry : Option Entry) :
    (root.put name entry).kind = root.kind := by
  cases root <;> rfl

end Root

/-- Every entry of a root is as it was, or changed in an allowed way. -/
structure Within (allowed : Name → Option Entry → Option Entry → Prop) (root left : Root) :
    Prop where
  others : left.others = root.others
  kind : root.kind = none ∨ left.kind = root.kind
  entries : ∀ name, left.entry name = root.entry name ∨
    allowed name (root.entry name) (left.entry name)

section Changes

variable {allowed wider : Name → Option Entry → Option Entry → Prop} {root left after : Root}
  {name : Name} {entry : Option Entry}

theorem Within.self (root : Root) : Within allowed root root :=
  ⟨rfl, Or.inr rfl, fun _ => Or.inl rfl⟩

theorem Within.put (hwithin : Within allowed root left)
    (hallowed : allowed name (root.entry name) entry) :
    Within allowed root (left.put name entry) where
  others := (left.others_put name entry).trans hwithin.others
  kind := by
    rw [left.kind_put name entry]
    exact hwithin.kind
  entries other := by
    by_cases hother : other = name
    · subst hother
      rcases left.entry_put other entry with hput | hput
      · rw [hput]
        exact Or.inr hallowed
      · rw [hput]
        exact hwithin.entries other
    · rw [Root.entry_put_of_ne hother]
      exact hwithin.entries other

theorem Within.mono (hwithin : Within allowed root left)
    (hwider : ∀ name before after, allowed name before after → wider name before after) :
    Within wider root left where
  others := hwithin.others
  kind := hwithin.kind
  entries name := (hwithin.entries name).imp_right (hwider name _ _)

/-- Changes that are allowed from where earlier ones led are allowed together. -/
theorem Within.trans (hfirst : Within wider root left) (hsecond : Within allowed left after)
    (hcompose : ∀ name, left.entry name = root.entry name ∨
      wider name (root.entry name) (left.entry name) →
      allowed name (left.entry name) (after.entry name) →
      wider name (root.entry name) (after.entry name)) : Within wider root after where
  others := hsecond.others.trans hfirst.others
  kind := by
    rcases hfirst.kind with habsent | hkind
    · exact Or.inl habsent
    · rw [← hkind]
      exact hsecond.kind
  entries name := by
    rcases hsecond.entries name with hsame | hchanged
    · rw [hsame]
      exact hfirst.entries name
    · exact Or.inr (hcompose name (hfirst.entries name) hchanged)

/-- Nothing outside a name changes. -/
def Frames (name : Name) (left after : Root) : Prop :=
  ∀ other, other ≠ name → after.entry other = left.entry other

theorem frames_put (left : Root) (name : Name) (entry : Option Entry) :
    Frames name left (left.put name entry) :=
  fun _ hother => Root.entry_put_of_ne hother entry

/-! ## Verified stages -/

/-- A stage that matches is absent, or holds the expected bytes or a front of them. -/
theorem metadataStageMatches_eq_true {expected : Bytes} {allowPartial : Bool}
    (hmatches : metadataStageMatches root name expected allowPartial = .ok true) :
    root.entry name = none ∨ ∃ bytes, root.entry name = some (.file bytes) ∧ bytes <+: expected ∧
      (allowPartial = false → bytes = expected) := by
  unfold metadataStageMatches pathKind at hmatches
  cases hentry : root.entry name with
  | none => exact Or.inl rfl
  | some entry =>
      cases entry with
      | directory folder =>
          rw [hentry] at hmatches
          cases hmatches
      | other =>
          rw [hentry] at hmatches
          cases hmatches
      | file bytes =>
          rw [hentry, if_neg (by rintro (hkind | hkind) <;> cases hkind), readOptionalBounded,
            hentry] at hmatches
          obtain ⟨contents, hcontents, hsame⟩ := bind_eq_ok.mp hmatches
          obtain ⟨_, -, hfound⟩ := bind_eq_ok.mp hcontents
          obtain rfl := Except.ok.inj hfound
          refine Or.inr ⟨bytes, rfl, ?_⟩
          have hfits := Except.ok.inj hsame
          cases allowPartial with
          | true => exact ⟨List.isPrefixOf_iff_prefix.mp hfits, nofun⟩
          | false =>
              have hequal : bytes = expected := beq_iff_eq.mp hfits
              exact ⟨hequal ▸ List.prefix_rfl, fun _ => hequal⟩

theorem readOptionalBounded_eq_none {maximum : Nat}
    (hread : readOptionalBounded root name maximum = .ok none) : root.entry name = none := by
  unfold readOptionalBounded at hread
  split at hread
  · assumption
  · obtain ⟨_, -, hfound⟩ := bind_eq_ok.mp hread
    cases hfound
  · cases hread
  · cases hread

theorem readOptionalBounded_eq_some {maximum : Nat} {bytes : Bytes}
    (hread : readOptionalBounded root name maximum = .ok (some bytes)) :
    root.entry name = some (.file bytes) := by
  unfold readOptionalBounded at hread
  split at hread
  · cases hread
  · rename_i hentry
    obtain ⟨_, -, hfound⟩ := bind_eq_ok.mp hread
    obtain rfl := Option.some.inj (Except.ok.inj hfound)
    exact hentry
  · cases hread
  · cases hread

theorem pathKind_eq_file (hkind : pathKind root name = some .file) :
    ∃ bytes, root.entry name = some (.file bytes) := by
  obtain ⟨entry, hentry, hfile⟩ := Option.map_eq_some_iff.mp hkind
  cases entry with
  | file bytes => exact ⟨bytes, hentry⟩
  | directory folder => cases hfile
  | other => cases hfile

theorem pathKind_eq_directory (hkind : pathKind root name = some .directory) :
    ∃ folder, root.entry name = some (.directory folder) ∧ root.folder name = folder := by
  obtain ⟨entry, hentry, hdirectory⟩ := Option.map_eq_some_iff.mp hkind
  cases entry with
  | file bytes => cases hdirectory
  | directory folder => exact ⟨folder, hentry, by rw [Root.folder, hentry]⟩
  | other => cases hdirectory

theorem pathKind_eq_none (hkind : pathKind root name = none) : root.entry name = none :=
  Option.map_eq_none_iff.mp hkind

/-! ## Steps -/

theorem putEntry_preserves (hleft : Within allowed root left)
    (hallowed : allowed name (root.entry name) entry) :
    Preserves (Within allowed root) (putEntry name entry) left fun _ after =>
      after = left.put name entry :=
  preserves_change hleft fun passed hmem => by
    rw [List.mem_singleton.mp hmem]
    exact hleft.put hallowed

theorem removeKnownFile_preserves (hleft : Within allowed root left)
    (hallowed : ∀ bytes, left.entry name = some (.file bytes) →
      allowed name (root.entry name) none) :
    Preserves (Within allowed root) (removeKnownFile name) left fun _ after =>
      after.entry name = none ∧ Frames name left after := by
  refine (preserves_read hleft).bind ?_
  rintro kind _ hleft ⟨hkind, rfl⟩
  have hkind := Except.ok.inj hkind
  cases kind with
  | none => exact preserves_pure hleft ⟨pathKind_eq_none hkind, fun _ _ => rfl⟩
  | some kind =>
      cases kind with
      | file =>
          obtain ⟨bytes, hbytes⟩ := pathKind_eq_file hkind
          refine (putEntry_preserves hleft (hallowed bytes hbytes)).mono ?_
          rintro _ _ - rfl
          exact ⟨Root.entry_put_none _ _, frames_put _ _ _⟩
      | directory => exact preserves_fail hleft
      | other => exact preserves_fail hleft

/-- A stage is removed only with the expected bytes, or a front of them. -/
theorem removeMetadataStage_preserves {expected : Bytes} {allowPartial : Bool}
    (hleft : Within allowed root left)
    (hallowed : ∀ bytes, left.entry name = some (.file bytes) → bytes <+: expected →
      (allowPartial = false → bytes = expected) → allowed name (root.entry name) none) :
    Preserves (Within allowed root) (removeMetadataStage name expected allowPartial) left
      fun _ after => after.entry name = none ∧ Frames name left after ∧
        ∀ found ∈ left.entry name, ∃ bytes, found = .file bytes ∧ bytes <+: expected := by
  refine (preserves_read hleft).bind ?_
  rintro found _ hleft ⟨hmatches, rfl⟩
  refine (preserves_refuse hleft).bind ?_
  rintro _ _ hleft ⟨hfound, rfl⟩
  obtain rfl : found = true := Bool.eq_true_of_not_eq_false hfound
  rcases metadataStageMatches_eq_true hmatches with hnone | ⟨bytes, hbytes, hfront, hexact⟩
  · refine (removeKnownFile_preserves hleft fun bytes hbytes => ?_).mono ?_
    · rw [hnone] at hbytes
      cases hbytes
    · rintro _ _ - ⟨hgone, hframe⟩
      refine ⟨hgone, hframe, fun found hmem => ?_⟩
      rw [hnone] at hmem
      cases hmem
  · refine (removeKnownFile_preserves hleft fun _ _ => hallowed bytes hbytes hfront hexact).mono ?_
    rintro _ _ - ⟨hgone, hframe⟩
    refine ⟨hgone, hframe, fun found hmem => ?_⟩
    rw [hbytes] at hmem
    obtain rfl := Option.some.inj hmem
    exact ⟨bytes, rfl, hfront⟩

end Changes

/-! ## Publication -/

/-- The bytes of a stage that is there are a front of the expected ones. -/
def Front (expected : Bytes) (entry : Option Entry) : Prop :=
  ∀ found ∈ entry, ∃ bytes, found = .file bytes ∧ bytes <+: expected

theorem front_none (expected : Bytes) : Front expected none :=
  fun _ hmem => absurd hmem (Option.not_mem_none _)

theorem front_some {expected written : Bytes} (hwritten : written <+: expected) :
    Front expected (some (.file written)) := by
  rintro _ ⟨⟩
  exact ⟨written, rfl, hwritten⟩

/-- What a publication may change in the root that it starts from: behind a
destination with the bytes it removes a finished stage; else it replaces a front of
the stage and makes the destination. -/
inductive Published (destination stage : Name) (bytes : Bytes) (start : Root) :
    Name → Option Entry → Option Entry → Prop where
  | cleared (hdestination : start.entry destination = some (.file bytes)) :
      Published destination stage bytes start stage (some (.file bytes)) none
  | staged {before after : Option Entry} (habsent : start.entry destination = none)
      (hbefore : Front bytes before) (hafter : Front bytes after) :
      Published destination stage bytes start stage before after
  | final (habsent : start.entry destination = none) :
      Published destination stage bytes start destination none (some (.file bytes))

/-- A publication replaces a front of its stage by another, or makes the destination. -/
theorem Published.stage_or_final {destination stage name : Name} {bytes : Bytes} {start : Root}
    {before after : Option Entry}
    (hpublished : Published destination stage bytes start name before after) :
    (name = stage ∧ Front bytes before ∧ Front bytes after) ∨
      (name = destination ∧ before = none ∧ after = some (.file bytes)) := by
  cases hpublished with
  | cleared hdestination =>
      exact Or.inl ⟨rfl, front_some List.prefix_rfl, front_none bytes⟩
  | staged habsent hbefore hafter => exact Or.inl ⟨rfl, hbefore, hafter⟩
  | final habsent => exact Or.inr ⟨rfl, rfl, rfl⟩

section Publishing

variable {destination stage : Name} {bytes : Bytes} {maximum : Nat} {start left : Root}

theorem readBack_preserves {allowed : Name → Option Entry → Option Entry → Prop}
    {different : PlainRootError} (hleft : Within allowed start left) :
    Preserves (Within allowed start) (readBack destination bytes maximum different) left
      fun _ after => after = left := by
  refine (preserves_read hleft).bind ?_
  rintro _ _ hleft ⟨-, rfl⟩
  refine (preserves_read hleft).bind ?_
  rintro _ _ hleft ⟨-, rfl⟩
  exact (preserves_refuse hleft).mono fun _ _ _ hdone => hdone.2

theorem writeStage_preserves
    (hleft : Within (Published destination stage bytes start) start left)
    (habsent : start.entry destination = none) (hfront : Front bytes (start.entry stage)) :
    Preserves (Within (Published destination stage bytes start) start) (writeStage stage bytes) left
      fun _ _ => True := by
  refine (preserves_read hleft).bind ?_
  rintro _ _ hleft -
  refine (preserves_refuse hleft).bind ?_
  rintro _ _ hleft -
  refine (preserves_change hleft fun passed hmem => ?_).mono fun _ _ _ _ => trivial
  obtain ⟨written, hwritten, rfl⟩ := List.mem_map.mp hmem
  exact hleft.put (.staged habsent hfront (front_some ((List.mem_inits _ _).mp hwritten)))

theorem persistNoclobber_preserves {persist : Persist}
    (hleft : Within (Published destination stage bytes start) start left)
    (habsent : start.entry destination = none) (hfront : Front bytes (start.entry stage)) :
    Preserves (Within (Published destination stage bytes start) start)
      (persistNoclobber persist destination stage bytes maximum) left fun _ _ => True := by
  have hcleared : Published destination stage bytes start stage (start.entry stage) none :=
    .staged habsent hfront (front_none bytes)
  have hfinal : Published destination stage bytes start destination (start.entry destination)
      (some (.file bytes)) := habsent ▸ .final habsent
  refine (preserves_read hleft).bind ?_
  rintro existing _ hleft -
  split
  · refine (putEntry_preserves hleft hcleared).bind ?_
    rintro _ _ hleft -
    exact (readBack_preserves hleft).mono fun _ _ _ _ => trivial
  · cases persist with
    | renames =>
        refine (preserves_change hleft fun passed hmem => ?_).mono fun _ _ _ _ => trivial
        rw [List.mem_singleton.mp hmem]
        exact (hleft.put hcleared).put hfinal
    | links =>
        refine (preserves_change hleft fun passed hmem => ?_).mono fun _ _ _ _ => trivial
        rcases List.mem_cons.mp hmem with rfl | hmem
        · exact hleft.put hfinal
        · rw [List.mem_singleton.mp hmem]
          exact (hleft.put hfinal).put hcleared
    | leavesLink =>
        refine (preserves_change hleft fun passed hmem => ?_).mono fun _ _ _ _ => trivial
        rw [List.mem_singleton.mp hmem]
        exact hleft.put hfinal

/-- A publication changes its stage and its destination only, the stage from
verified bytes only. -/
theorem publishNoclobber_preserves (persist : Persist) :
    Preserves (Within (Published destination stage bytes start) start)
      (publishNoclobber persist destination stage bytes maximum) start fun _ _ => True := by
  refine (preserves_refuse (Within.self start)).bind ?_
  rintro _ _ hstart ⟨-, rfl⟩
  refine (preserves_read hstart).bind ?_
  rintro existing _ hstart ⟨hread, rfl⟩
  cases existing with
  | some found =>
      refine (preserves_refuse hstart).bind ?_
      rintro _ _ hstart ⟨hsame, rfl⟩
      obtain rfl : found = bytes := not_not.mp hsame
      have hdestination := readOptionalBounded_eq_some hread
      refine (removeMetadataStage_preserves hstart fun content hcontent _ hexact => ?_).mono
        fun _ _ _ _ => trivial
      obtain rfl := hexact rfl
      rw [hcontent]
      exact .cleared hdestination
  | none =>
      have habsent := readOptionalBounded_eq_none hread
      refine (removeMetadataStage_preserves hstart fun content hcontent hfront _ => ?_).bind ?_
      · rw [hcontent]
        exact .staged habsent (front_some hfront) (front_none bytes)
      rintro _ left hleft ⟨-, -, hfront⟩
      refine (writeStage_preserves hleft habsent hfront).bind ?_
      rintro _ _ hleft -
      refine (readBack_preserves hleft).bind ?_
      rintro _ _ hleft -
      refine (persistNoclobber_preserves hleft habsent hfront).bind ?_
      rintro _ _ hleft -
      refine (readBack_preserves hleft).bind ?_
      rintro _ _ hleft -
      refine (removeMetadataStage_preserves hleft fun _ _ _ _ => ?_).mono fun _ _ _ _ => trivial
      exact .staged habsent hfront (front_none bytes)

end Publishing

/-! ## Tidying up -/

/-- A finished stage that is removed. -/
inductive Tidied : Name → Option Entry → Option Entry → Prop where
  | markerStage : Tidied .initMarkerStage (some (.file initMarkerBytes)) none
  | manifestStage : Tidied .manifestStage (some (.file manifestBytes)) none

section Tidying

variable {engine : Engine} {root left : Root}

theorem acquireLock_preserves {allowed : Name → Option Entry → Option Entry → Prop}
    (hleft : Within allowed root left) :
    Preserves (Within allowed root) (acquireLock false) left fun _ after => after = left := by
  refine (preserves_read hleft).bind ?_
  rintro kind _ hleft ⟨-, rfl⟩
  cases kind with
  | none => exact preserves_fail hleft
  | some kind =>
      cases kind with
      | file => exact preserves_pure hleft rfl
      | directory => exact preserves_fail hleft
      | other => exact preserves_fail hleft

theorem requireIncomplete_preserves {Inv : Root → Prop} {probe : Bool} (hleft : Inv left) :
    Preserves Inv (requireIncomplete engine probe) left fun _ after =>
      classifyRoot engine probe left = .ok .incompleteInitialization ∧ after = left := by
  refine (preserves_read hleft).bind ?_
  rintro status _ hleft ⟨hstatus, rfl⟩
  refine (preserves_refuse hleft).mono ?_
  rintro _ _ - ⟨hincomplete, rfl⟩
  obtain rfl := not_not.mp hincomplete
  exact ⟨hstatus, rfl⟩

theorem requireCurrent_preserves {Inv : Root → Prop} (hleft : Inv left) :
    Preserves Inv (requireCurrent engine) left fun _ after => after = left := by
  refine (preserves_read hleft).bind ?_
  rintro status _ hleft ⟨-, rfl⟩
  exact (preserves_refuse hleft).mono fun _ _ _ hdone => hdone.2

theorem cleanupCompleteMetadataStages_preserves (hroot : Within Tidied root root) :
    Preserves (Within Tidied root) cleanupCompleteMetadataStages root fun _ _ => True := by
  refine (preserves_read hroot).bind ?_
  rintro present _ hroot ⟨-, rfl⟩
  split
  · refine (preserves_read hroot).bind ?_
    rintro _ _ hroot ⟨-, rfl⟩
    refine (preserves_read hroot).bind ?_
    rintro _ _ hroot ⟨-, rfl⟩
    refine (preserves_refuse hroot).bind ?_
    rintro _ _ hroot ⟨-, rfl⟩
    refine (preserves_read hroot).bind ?_
    rintro marker _ hroot ⟨hmarker, rfl⟩
    refine (preserves_refuse hroot).bind ?_
    rintro _ _ hroot ⟨hmarkerFits, rfl⟩
    obtain rfl : marker = true := Bool.eq_true_of_not_eq_false hmarkerFits
    refine (preserves_read hroot).bind ?_
    rintro manifest _ hroot ⟨hmanifest, rfl⟩
    refine (preserves_refuse hroot).bind ?_
    rintro _ start hroot ⟨hmanifestFits, rfl⟩
    obtain rfl : manifest = true := Bool.eq_true_of_not_eq_false hmanifestFits
    refine (removeKnownFile_preserves hroot fun bytes hbytes => ?_).bind ?_
    · rcases metadataStageMatches_eq_true hmarker with hnone | ⟨found, hfound, -, hexact⟩
      · rw [hnone] at hbytes
        cases hbytes
      · rw [hfound, hexact rfl]
        exact .markerStage
    rintro _ after hafter ⟨-, hframe⟩
    refine (removeKnownFile_preserves hafter fun bytes hbytes => ?_).mono fun _ _ _ _ => trivial
    rw [hframe .manifestStage (by decide)] at hbytes
    rcases metadataStageMatches_eq_true hmanifest with hnone | ⟨found, hfound, -, hexact⟩
    · rw [hnone] at hbytes
      cases hbytes
    · rw [hfound, hexact rfl]
      exact .manifestStage
  · exact preserves_pure hroot trivial

theorem cleanupCurrent_preserves (root : Root) :
    Preserves (Within Tidied root) (cleanupCurrent engine) root fun _ _ => True := by
  refine (preserves_read (Within.self root)).bind ?_
  rintro present _ hroot ⟨-, rfl⟩
  split
  · refine (acquireLock_preserves hroot).bind ?_
    rintro _ _ hroot rfl
    refine (requireCurrent_preserves hroot).bind ?_
    rintro _ _ hroot rfl
    refine (cleanupCompleteMetadataStages_preserves hroot).bind ?_
    rintro _ _ hleft -
    exact preserves_fail hleft
  · exact preserves_fail hroot

end Tidying

end EliotSearch.Roots
