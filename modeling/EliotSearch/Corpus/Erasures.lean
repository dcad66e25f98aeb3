import EliotSearch.Corpus.Deliveries

/-!
# Deletions and what they leave

A cleanup deletes the collection of a generation that left the store with nothing in
flight, and forgets its row once the collection is absent.  Nothing that is served or
built is ever deleted, and every collection that exists is named by the header or by a
retired row.
-/

namespace EliotSearch.Corpus

open EliotSearch.Control
open EliotSearch.Library
open EliotSearch.Library.RemoteCalls
open EliotSearch.Library.Results
open EliotSearch.Library.SerialDispatch
open EliotSearch.Library.Utf8
open EliotSearch.Library.Words

theorem present_delete (log : List Mutation) (name : Bytes) :
    present (log ++ [.deleteCollection ⟨name⟩]) = false := by
  rw [present, List.getLast?_concat]

theorem not_nil_of_present {log : List Mutation} (hpresent : present log = true) : log ≠ [] := by
  rintro rfl
  cases hpresent

namespace Site

variable {texts : PointEvidence → Text} {site next : Site} {state after : State} {build : BuildId}

/-! ## Builds at rest -/

/-- The build left the header with nothing in flight. -/
structure Rests (site : Site) (state : State) (build : BuildId) : Prop where
  dead : Dead state build.sequence
  idle : (site.world.progress build).inFlight = none

/-- The log stayed, or the collection was deleted. -/
def OnlyDeleted (before after : List Mutation) : Prop :=
  after = before ∨ present before = true ∧ present after = false

theorem OnlyDeleted.absent {before after : List Mutation} (hdeleted : OnlyDeleted before after)
    (habsent : present before = false) : present after = false := by
  rcases hdeleted with rfl | ⟨-, hafter⟩
  · exact habsent
  · exact hafter

theorem OnlyDeleted.nil {after : List Mutation} (hdeleted : OnlyDeleted [] after) : after = [] := by
  rcases hdeleted with rfl | ⟨hpresent, -⟩
  · rfl
  · cases hpresent

theorem OnlyDeleted.trans {before between after : List Mutation}
    (hfirst : OnlyDeleted before between) (hsecond : OnlyDeleted between after) :
    OnlyDeleted before after := by
  rcases hfirst with rfl | ⟨hpresent, habsent⟩
  · exact hsecond
  · exact Or.inr ⟨hpresent, hsecond.absent habsent⟩

/-- A build at rest stays at rest, and its collection is at most deleted. -/
theorem Rests.step (hrests : site.Rests state build) (hordered : Ordered site)
    (hstate : readState site.world.db = .ok state) (texts : PointEvidence → Text) {action : Action}
    (hmoved : Moved site.world (site.step texts action).world state after) :
    (site.step texts action).Rests after build ∧
      OnlyDeleted (site.log build) ((site.step texts action).log build) := by
  refine ⟨⟨hmoved.dead _ hrests.dead, ?_⟩, ?_⟩
  · rcases step_cases texts site action with ⟨performed, hstore⟩ | hlocal
    · rw [hstore.world, hordered.sound.progress_dead ⟨state, hstate, hrests.dead⟩]
      exact hrests.idle
    · rw [hlocal.world]
      exact hrests.idle
  · cases evolves texts hordered action build with
    | same htarget => exact Or.inl (congrArg Target.log htarget)
    | step hstep => exact Or.inl ((hordered.serial build).step_of_idle hrests.idle hstep)
    | deleted erased hpresent htarget =>
        refine Or.inr ⟨hpresent, ?_⟩
        have hlog : (site.step texts action).log build = _ := congrArg Target.log htarget
        rw [hlog]
        exact present_delete _ _

/-! ## Cleanups -/

/-- What cleanups may rely on: a retired row without an unresolved build is at rest, and
its collection is as the row says. -/
structure Cleaned (site : Site) (state : State) : Prop where
  served : site.world.Served state
  resting : ∀ retired, site.world.db.rows.Retires retired → retired.unresolvedBuild = none →
    site.Rests state retired.generation.build ∧
      (retired.remoteOwned = false → site.log retired.generation.build = [])
  cleanups : ∀ cleanup ∈ site.cleanups, cleanup.retired.unresolvedBuild = none →
    site.Rests state cleanup.retired.generation.build ∧
      (cleanup.absent = true → present (site.log cleanup.retired.generation.build) = false)
  erasures : ∀ name ∈ site.erasures, ∃ build : BuildId, build.collection = name ∧
    site.Rests state build
  cleaning : ∀ call ∈ site.world.calls, ∀ retired, World.Cleans retired call →
    site.Rests state retired.generation.build ∧
      (retired.remoteOwned = true → present (site.log retired.generation.build) = false)

/-- A row that is read back is stored. -/
theorem mem_readRetirements {db : Db} {rows : List RetiredGeneration}
    (hread : readRetirements db = .ok rows) {retired : RetiredGeneration} (hmem : retired ∈ rows) :
    db.rows.Retires retired := by
  simp only [readRetirements, bind_eq_ok] at hread
  obtain ⟨state, -, hread⟩ := hread
  split at hread
  · obtain rfl := Except.ok.inj hread
    cases hmem
  · simp only [bind_eq_ok, okOr_eq_ok, refuse_eq_ok] at hread
    obtain ⟨table, htable, _, -, hrows⟩ := hread
    obtain ⟨hlength, heach⟩ := mapM_eq_ok hrows
    obtain ⟨index, hindex, hretired⟩ := List.mem_iff_getElem.mp hmem
    have hrow := List.getElem?_eq_getElem (hlength ▸ hindex : index < table.toList.length)
    obtain ⟨found, hfound, hresult⟩ := heach index _ hrow
    obtain rfl : found = retired := by
      rw [List.getElem?_eq_getElem hindex, hretired] at hresult
      exact (Option.some.inj hresult).symm
    simp only [readRetiredRow, bind_eq_ok, okOr_eq_ok, refuse_eq_ok, not_not, pure_eq_ok,
      Except.ok.injEq] at hfound
    obtain ⟨_, -, decoded, hdecode, _, haccepts, rfl⟩ := hfound
    have hrows : db.rows.retired = table := by simp [Db.rows, htable]
    refine ⟨_, ?_, hdecode⟩
    rw [hrows, ← haccepts.1]
    exact Table.mem_rows.mp (List.getElem_mem _)

/-- A stored row is read back. -/
theorem readRetirements_mem {db : Db} {state : State} (hstate : readState db = .ok state)
    {rows : List RetiredGeneration} (hread : readRetirements db = .ok rows)
    {retired : RetiredGeneration} (hretires : db.rows.Retires retired)
    (hnamed : state.namespaceId ≠ none) : retired ∈ rows := by
  obtain ⟨value, hvalue, hdecode⟩ := hretires
  simp only [readRetirements, hstate, ok_bind, if_neg hnamed, bind_eq_ok, okOr_eq_ok,
    refuse_eq_ok] at hread
  obtain ⟨table, htable, _, -, hrows⟩ := hread
  have htable : db.rows.retired = table := by simp [Db.rows, htable]
  obtain ⟨-, heach⟩ := mapM_eq_ok hrows
  rw [htable] at hvalue
  obtain ⟨index, hindex, hrow⟩ := List.mem_iff_getElem.mp (Table.mem_rows.mpr hvalue)
  obtain ⟨found, hfound, hresult⟩ :=
    heach index _ ((List.getElem?_eq_getElem hindex).trans (congrArg some hrow))
  simp only [readRetiredRow, bind_eq_ok, okOr_eq_ok, refuse_eq_ok, hdecode, Option.some.injEq,
    pure_eq_ok, Except.ok.injEq] at hfound
  obtain ⟨_, -, _, rfl, _, -, rfl⟩ := hfound
  exact List.mem_of_getElem? hresult

/-- A generation that a transaction retires is at rest. -/
theorem Cleaned.retire (hcleaned : Cleaned site state) (hsound : site.world.Sound)
    (hmirrored : Mirrored texts site state) (hstate : readState site.world.db = .ok state)
    {retired : RetiredGeneration}
    (hmay : state.MayRetire retired) (hsettled : retired.unresolvedBuild = none) :
    (site.world.progress retired.generation.build).inFlight = none ∧
      (retired.remoteOwned = false → site.log retired.generation.build = []) := by
  cases hmay with
  | replaced current =>
      obtain ⟨revision, hprogress⟩ := hcleaned.served _ current
      rw [hprogress]
      refine ⟨rfl, ?_⟩
      rintro ⟨⟩
  | @abandoned p pending idle =>
      have hprogress := hsound.progress_pending hstate pending
      have hidle : (site.world.progress p.build).inFlight = none := by
        rw [hprogress]
        simp [PendingGeneration.progress, idle]
      refine ⟨hidle, fun hcreated => ?_⟩
      have hcreated : p.created = false := hcreated
      have hlanded := (hmirrored.landed p.build (Or.inl ⟨p, pending, rfl⟩)).idle hidle
      have happlied : (site.target p.build).progress.applied = 0 := by
        rw [show (site.target p.build).progress = p.progress from hprogress]
        simp [PendingGeneration.progress, hcreated]
      rw [happlied] at hlanded
      exact hlanded
  | superseded => cases hsettled

theorem Cleaned.step (hcleaned : Cleaned site state) (hordered : Ordered site)
    (hmirrored : Mirrored texts site state) (hstate : readState site.world.db = .ok state)
    {action : Action} (hmoved : Moved site.world (site.step texts action).world state after) :
    Cleaned (site.step texts action) after := by
  have hsound := hordered.sound
  have hrests : ∀ {build}, site.Rests state build →
      (site.step texts action).Rests after build ∧
        OnlyDeleted (site.log build) ((site.step texts action).log build) :=
    fun hrests => hrests.step hordered hstate texts hmoved
  have habsent : ∀ {build} {owned : Prop}, site.Rests state build ∧
      (owned → present (site.log build) = false) → (site.step texts action).Rests after build ∧
        (owned → present ((site.step texts action).log build) = false) := by
    rintro build owned ⟨hrest, hgone⟩
    obtain ⟨hnext, hdeleted⟩ := hrests hrest
    exact ⟨hnext, fun howned => hdeleted.absent (hgone howned)⟩
  have hresting : ∀ {retired : RetiredGeneration}, site.Rests state retired.generation.build ∧
      (retired.remoteOwned = false → site.log retired.generation.build = []) →
      (site.step texts action).Rests after retired.generation.build ∧
        (retired.remoteOwned = false →
          (site.step texts action).log retired.generation.build = []) := by
    rintro retired ⟨hrest, hempty⟩
    obtain ⟨hnext, hdeleted⟩ := hrests hrest
    refine ⟨hnext, fun howned => ?_⟩
    rw [hempty howned] at hdeleted
    exact hdeleted.nil
  rcases step_cases texts site action with ⟨performed, hstore⟩ | hlocal
  · refine ⟨?_, ?_, ?_, ?_, ?_⟩
    · rw [hstore.world]
      refine hsound.served_step hstate hcleaned.served performed ?_
      rw [← hstore.world]
      exact hmoved.header
    · intro retired hretires hsettled
      rw [hstore.world] at hretires
      rcases hsound.retires_before hstate performed hretires with hstored | ⟨hmay, hsilent⟩
      · exact hresting (hcleaned.resting retired hstored hsettled)
      · obtain ⟨hidle, hempty⟩ := hcleaned.retire hsound hmirrored hstate hmay hsettled
        obtain ⟨value, hvalue, -⟩ := hretires
        obtain ⟨-, -, -, -, hdead⟩ := (hsound.step performed).retired_row
          (hstore.world ▸ hmoved.header) (hvalue ▸ Option.some_ne_none value)
        refine ⟨⟨hdead, ?_⟩, fun howned => ?_⟩
        · rw [hstore.world, hsilent]
          exact hidle
        · rw [log, hstore.logs]
          exact hempty howned
    · rw [hstore.cleanups]
      exact fun cleanup hmem hsettled => habsent (hcleaned.cleanups cleanup hmem hsettled)
    · rw [hstore.erasures]
      intro name hmem
      obtain ⟨build, hname, hrest⟩ := hcleaned.erasures name hmem
      exact ⟨build, hname, (hrests hrest).1⟩
    · intro call hmem retired hcleans
      rw [hstore.world] at hmem
      rcases World.step_cleans hmem hcleans with ⟨earlier, hearlier, hsame⟩ | hcommand
      · exact habsent (hcleaned.cleaning earlier hearlier retired hsame)
      · obtain ⟨cleanup, hcleanup, rfl, hsettled, hgone⟩ := hstore.finishable retired hcommand
        obtain ⟨hrest, hobserved⟩ := hcleaned.cleanups cleanup hcleanup hsettled
        exact habsent ⟨hrest, fun howned => hobserved (hgone howned)⟩
  · refine ⟨?_, ?_, ?_, ?_, ?_⟩
    · have hafter := hmoved.header
      rw [hlocal.world, hstate] at hafter
      rw [hlocal.world, ← Except.ok.inj hafter]
      exact hcleaned.served
    · intro retired hretires hsettled
      rw [hlocal.world] at hretires
      exact hresting (hcleaned.resting retired hretires hsettled)
    · intro cleanup hmem hsettled
      rcases hlocal.cleanups cleanup hmem with hold | ⟨hunseen, rows, hread, hretired⟩ |
        ⟨earlier, hearlier, hsame, hgone⟩
      · exact habsent (hcleaned.cleanups cleanup hold hsettled)
      · have hretires := mem_readRetirements hread hretired
        refine habsent ⟨(hcleaned.resting _ hretires hsettled).1, ?_⟩
        rw [hunseen]
        rintro ⟨⟩
      · rw [hsame] at hsettled
        have hrest := (hcleaned.cleanups earlier hearlier hsettled).1
        rw [← hsame] at hrest
        exact habsent ⟨hrest, fun _ => hgone⟩
    · intro name hmem
      rcases hlocal.erasures name hmem with hold | ⟨cleanup, hcleanup, ⟨hsettled, -⟩, rfl⟩
      · obtain ⟨build, hname, hrest⟩ := hcleaned.erasures name hold
        exact ⟨build, hname, (hrests hrest).1⟩
      · exact ⟨_, rfl, (hrests (hcleaned.cleanups cleanup hcleanup hsettled).1).1⟩
    · intro call hmem retired hcleans
      rw [hlocal.world] at hmem
      exact habsent (hcleaned.cleaning call hmem retired hcleans)

/-! ## Collections that exist -/

/-- Every collection that exists is named by the header or by a retired row. -/
def Kept (site : Site) (state : State) : Prop :=
  ∀ build, present (site.log build) = true →
    state.Names build ∨ site.world.db.rows.retired[be64 build.sequence]? ≠ none

/-- A collection that exists was touched. -/
theorem Ordered.progress_of_present (hordered : Ordered site)
    (hpresent : present (site.log build) = true) : site.world.progress build ≠ Progress.start := by
  intro hstart
  have hlog : site.log build = [] := by
    refine (hordered.serial build).untouched ?_
    rw [show (site.target build).progress = Progress.start from hstart]
    rfl
  exact not_nil_of_present hpresent hlog

/-- No cleanup forgets the row of a collection that exists or may be called. -/
theorem Cleaned.row_step (hcleaned : Cleaned site state) (hordered : Ordered site)
    (hstate : readState site.world.db = .ok state)
    (hused : present (site.log build) = true ∨ (site.world.progress build).inFlight ≠ none)
    (hrow : site.world.db.rows.retired[be64 build.sequence]? ≠ none)
    (performed : Control.Action) :
    (site.world.step performed).db.rows.retired[be64 build.sequence]? ≠ none := by
  obtain ⟨-, -, -, -, hdead⟩ := hordered.sound.retired_row hstate hrow
  rcases hordered.sound.row_kept ⟨state, hstate, hdead⟩ performed with
    hsame | ⟨retired, hsequence, hretires, hsettled, call, hmem, hcleans⟩
  · rw [hsame]
    exact hrow
  · have hprogress : site.world.progress build ≠ Progress.start := by
      rcases hused with hpresent | hinFlight
      · exact hordered.progress_of_present hpresent
      · intro hstart
        rw [hstart] at hinFlight
        exact hinFlight rfl
    obtain ⟨found, ⟨_, hfound, hdecode⟩, hsame, hnamespace, -⟩ :=
      hordered.sound.retired_row hstate hrow
    obtain rfl : found = retired := by
      obtain ⟨_, hvalue, hdecoded⟩ := hretires
      rw [hsame, ← hsequence, hvalue] at hfound
      obtain rfl := Option.some.inj hfound
      exact Option.some.inj (hdecode.symm.trans hdecoded)
    have hbuild := hordered.sound.build_eq hstate hprogress hnamespace hsequence
    obtain ⟨hrests, hempty⟩ := hcleaned.resting found hretires hsettled
    rw [hbuild] at hrests hempty
    rcases hused with hpresent | hinFlight
    · cases howned : found.remoteOwned with
      | false => exact absurd (hempty howned) (not_nil_of_present hpresent)
      | true =>
          have habsent := (hcleaned.cleaning call hmem found hcleans).2 howned
          rw [hbuild, hpresent] at habsent
          cases habsent
    · exact absurd hrests.idle hinFlight

theorem Kept.step (hkept : Kept site state) (hordered : Ordered site)
    (hcleaned : Cleaned site state) (hstate : readState site.world.db = .ok state)
    (texts : PointEvidence → Text) {action : Action}
    (hmoved : Moved site.world (site.step texts action).world state after) :
    Kept (site.step texts action) after := by
  intro build hpresent
  have hused : present (site.log build) = true ∨ (site.world.progress build).inFlight ≠ none := by
    cases evolves texts hordered action build with
    | same htarget =>
        left
        rw [← hpresent]
        exact congrArg present (congrArg Target.log htarget).symm
    | step hstep =>
        rcases (hordered.serial build).log_step hstep with hlog | hinFlight
        · left
          rw [← hpresent]
          exact congrArg present hlog.symm
        · exact Or.inr hinFlight
    | deleted erased hbefore htarget =>
        have hlog : (site.step texts action).log build = _ := congrArg Target.log htarget
        rw [hlog, present_delete] at hpresent
        cases hpresent
  have hnamed : state.Names build ∨
      site.world.db.rows.retired[be64 build.sequence]? ≠ none := by
    rcases hused with hbefore | hinFlight
    · exact hkept build hbefore
    · exact hordered.sound.named_of_inFlight hstate hinFlight
  have hafter := hmoved.header
  rcases step_cases texts site action with ⟨performed, hstore⟩ | hlocal
  · rw [hstore.world] at hafter ⊢
    rcases hnamed with hnames | hrow
    · exact hordered.sound.names_after hstate performed hafter hnames
    · exact Or.inr (hcleaned.row_step hordered hstate hused hrow performed)
  · rw [hlocal.world, hstate] at hafter
    rw [hlocal.world, ← Except.ok.inj hafter]
    exact hnamed

/-! ## Runs -/

/-- The store, the collections and the cleanups agree. -/
structure Agreeing (texts : PointEvidence → Text) (site : Site) : Prop where
  ordered : Ordered site
  header : ∃ state, readState site.world.db = .ok state ∧ Mirrored texts site state ∧
    Cleaned site state ∧ Kept site state

theorem agreeing_init (texts : PointEvidence → Text) {db : Db} (habsent : db.PublicationAbsent) :
    Agreeing texts (Site.init db) := by
  have hunnamed : ∀ build, ¬ State.default.Names build := by
    rintro build (⟨p, hp, -⟩ | ⟨g, hg, -⟩)
    · cases hp
    · cases hg
  refine ⟨ordered_init habsent, State.default, habsent.readState_eq, ⟨⟨?_, ?_⟩, ?_, ?_, ?_⟩,
    ⟨?_, ?_, ?_, ?_, ?_⟩, ?_⟩
  · rintro p ⟨⟩
  · rintro g ⟨⟩
  · intro read hmem
    cases hmem
  · exact fun build hnames => absurd hnames (hunnamed build)
  · exact fun build hnames => absurd hnames (hunnamed build)
  · rintro g ⟨⟩
  · rintro retired ⟨value, hvalue, -⟩
    rw [show (Site.init db).world.db.rows.retired = ∅ from habsent.rows_empty.2,
      Table.get_empty] at hvalue
    cases hvalue
  · intro cleanup hmem
    cases hmem
  · intro name hmem
    cases hmem
  · intro call hmem
    cases hmem
  · intro build hpresent
    cases hpresent

theorem Agreeing.step (hagreeing : Agreeing texts site) (action : Action) :
    Agreeing texts (site.step texts action) := by
  obtain ⟨hordered, state, hstate, hmirrored, hcleaned, hkept⟩ := hagreeing
  obtain ⟨after, hmoved⟩ := hordered.moved hstate hmirrored.staged texts action
  refine ⟨hordered.step action, after, hmoved.header, ?_, ?_, ?_⟩
  · refine hmirrored.step hordered hmoved fun name hmem => ?_
    obtain ⟨build, hname, hrests⟩ := hcleaned.erasures name hmem
    exact ⟨build, hname, hrests.dead⟩
  · exact hcleaned.step hordered hmirrored hstate hmoved
  · exact hkept.step hordered hcleaned hstate texts hmoved

/-- In every run on, a build at rest stays at rest. -/
theorem Agreeing.rests_run (hagreeing : Agreeing texts site)
    (hstate : readState site.world.db = .ok state) (hrests : site.Rests state build)
    (actions : List Action) : ∃ after,
      readState (site.run texts actions).world.db = .ok after ∧
      (site.run texts actions).Rests after build ∧
      OnlyDeleted (site.log build) ((site.run texts actions).log build) := by
  induction actions generalizing site state with
  | nil => exact ⟨state, hstate, hrests, Or.inl rfl⟩
  | cons action actions ih =>
      have hagrees := hagreeing.step action
      obtain ⟨hordered, found, hfound, hmirrored, -⟩ := hagreeing
      obtain rfl : state = found := Except.ok.inj (hstate.symm.trans hfound)
      obtain ⟨after, hmoved⟩ := hordered.moved hstate hmirrored.staged texts action
      obtain ⟨hnext, hdeleted⟩ := hrests.step hordered hstate texts hmoved
      obtain ⟨last, hlast, hresting, hrest⟩ := ih hagrees hmoved.header hnext
      exact ⟨last, hlast, hresting, hdeleted.trans hrest⟩

theorem agreeing_run (texts : PointEvidence → Text) {db : Db} (habsent : db.PublicationAbsent)
    (actions : List Action) : Agreeing texts ((Site.init db).run texts actions) :=
  Runs.run_invariant (agreeing_init texts habsent)
    (fun _ action hholds => hholds.step action) actions

end Site

end EliotSearch.Corpus
