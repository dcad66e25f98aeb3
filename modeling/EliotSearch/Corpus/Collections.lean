import EliotSearch.Control.PublishedView
import EliotSearch.Control.Readback
import EliotSearch.Corpus.Erasures
import EliotSearch.Library.Hex

/-!
# Collections of live builds

In every run the collection of a live build with nothing in flight holds what its
header says: the creation and the pages uploaded so far, each once and in order.
The collection of the served generation is whole, nothing is underway to it, and it
holds every point of the generation exactly once.
-/

namespace EliotSearch.Corpus

open EliotSearch.Control
open EliotSearch.Control.Verify (pointsIn)
open EliotSearch.Library
open EliotSearch.Library.Hex
open EliotSearch.Library.RemoteCalls
open EliotSearch.Library.Results
open EliotSearch.Library.SerialDispatch
open EliotSearch.Library.Utf8
open EliotSearch.Library.Words

/-! ## Points -/

/-- Points that are inserted only where their identifiers are new. -/
def insertNew (held : List PointStruct) : List PointStruct → List PointStruct
  | [] => held
  | point :: points =>
      if point.id ∈ held.map PointStruct.id then insertNew held points
      else insertNew (held ++ [point]) points

/-- The points of a collection after the mutations it applied.  Every batch is sent to
insert only. -/
def contents : List PointStruct → List Mutation → List PointStruct
  | held, [] => held
  | _, .createCollection _ :: log => contents [] log
  | held, .createFieldIndex _ :: log => contents held log
  | held, .upsertPoints request :: log => contents (insertNew held request.points) log
  | _, .deleteCollection _ :: log => contents [] log

theorem insertNew_distinct {held points : List PointStruct}
    (hdistinct : ((held ++ points).map PointStruct.id).Nodup) :
    insertNew held points = held ++ points := by
  induction points generalizing held with
  | nil => exact (List.append_nil held).symm
  | cons point points ih =>
      have hfresh : point.id ∉ held.map PointStruct.id := by
        rw [List.map_append, List.map_cons] at hdistinct
        intro hmem
        exact (List.nodup_append.mp hdistinct).2.2 _ hmem _ List.mem_cons_self rfl
      rw [List.append_cons] at hdistinct
      rw [insertNew, if_neg hfresh, ih hdistinct]
      exact (List.append_cons held point points).symm

section Pages

variable (texts : PointEvidence → Text) (name : Bytes)

/-- The points of pages as they are sent. -/
def sentPoints (pages : List UploadPage) : List PointStruct :=
  (textInputs texts (pointsIn pages)).map pointStruct

variable {texts name}

theorem sentPoints_cons (page : UploadPage) (pages : List UploadPage) :
    sentPoints texts (page :: pages) =
      (textInputs texts page.points).map pointStruct ++ sentPoints texts pages := by
  simp only [sentPoints, pointsIn, List.flatMap_cons, textInputs, List.map_append]

/-- Pages of distinct points are inserted whole. -/
theorem contents_insertions {held : List PointStruct} {pages : List UploadPage}
    (hdistinct : ((held ++ sentPoints texts pages).map PointStruct.id).Nodup) :
    contents held (pages.flatMap (insertion texts name)) = held ++ sentPoints texts pages := by
  induction pages generalizing held with
  | nil => exact (List.append_nil held).symm
  | cons page pages ih =>
      rw [sentPoints_cons, ← List.append_assoc] at hdistinct ⊢
      have hfirst : ((held ++ (textInputs texts page.points).map pointStruct).map
          PointStruct.id).Nodup := by
        rw [List.map_append] at hdistinct
        exact (List.nodup_append.mp hdistinct).1
      have hpage : contents held ((page :: pages).flatMap (insertion texts name)) =
          contents (insertNew held ((textInputs texts page.points).map pointStruct))
            (pages.flatMap (insertion texts name)) := rfl
      rw [hpage, insertNew_distinct hfirst, ih hdistinct]

/-- The points of a staged build have distinct identifiers. -/
theorem sentPoints_distinct {rows : Rows} {g : Generation} {pages : List UploadPage}
    (hstaged : StagedBuild rows g pages) : ((sentPoints texts pages).map PointStruct.id).Nodup := by
  have hids : (sentPoints texts pages).map PointStruct.id =
      (pointsIn pages).map fun point => uuidText point.id := by
    simp only [sentPoints, textInputs, List.map_map]
    rfl
  have hbound : (pointsIn pages).length < 2 ^ 64 := hstaged.pointCount ▸ g.pointCount.toNat_lt
  rw [hids, List.nodup_iff_getElem?_ne_getElem?]
  intro first second hless hsecond hsame
  rw [List.length_map] at hsecond
  have hpoint := List.getElem?_eq_getElem (Nat.lt_trans hless hsecond)
  have hother := List.getElem?_eq_getElem hsecond
  rw [List.getElem?_map, List.getElem?_map, hpoint, hother] at hsame
  have hid := uuidText_injective (Option.some.inj hsame)
  have hbytes := congrArg Octets.bytes hid
  rw [(hstaged.points.placed _ _ hpoint).id, (hstaged.points.placed _ _ hother).id] at hbytes
  have hword := congrArg UInt64.toNat (be64_injective (List.append_cancel_left hbytes))
  have hlater : second < 2 ^ 64 := Nat.lt_trans hsecond hbound
  rw [UInt64.toNat_ofNat_of_lt' (Nat.lt_trans hless hlater),
    UInt64.toNat_ofNat_of_lt' hlater] at hword
  exact absurd hword (Nat.ne_of_lt hless)

end Pages

/-! ## Live builds -/

namespace Site

variable {texts : PointEvidence → Text} {site : Site} {state : State}

/-- The requests of the first steps of a staged build. -/
theorem planned_plan {rows : Rows} {g : Generation} {pages : List UploadPage}
    (hstaged : StagedBuild rows g pages) {count : ℕ} (hcount : count ≤ pages.length) :
    planned (plan texts rows g.build) (count + 1) =
      creation g.collection ++ (pages.take count).flatMap (insertion texts g.collection) := by
  induction count with
  | zero => rfl
  | succ count ih =>
      have hpage := List.getElem?_eq_getElem hcount
      have hstep : plan texts rows g.build (count + 1) =
          insertion texts g.collection pages[count] := by
        rw [plan, show g.build.sequence = g.sequence from rfl, hstaged.page_eq hpage]
        rfl
      rw [planned_succ, ih (Nat.le_of_succ_le hcount), hstep, List.take_add_one, hpage,
        List.flatMap_append, List.append_assoc]
      rfl

/-- Nothing concerns the collection but what it applied. -/
theorem Ordered.settled (hordered : Ordered site) {build : BuildId}
    (hidle : (site.world.progress build).inFlight = none) :
    site.channels build.collection = ⟨[], [], site.log build⟩ := by
  obtain ⟨hcalls, hstray⟩ := (hordered.serial build).idle hidle
  have hnone : (site.channels build.collection).calls = [] := List.map_eq_nil_iff.mp hcalls
  have hquiet : (site.channels build.collection).stray = [] := hstray
  rw [log, ← hnone, ← hquiet]

/-- No deletion is underway to a live build. -/
theorem Cleaned.not_erased (hcleaned : Cleaned site state) {build : BuildId}
    (hnames : state.Names build) : build.collection ∉ site.erasures := by
  intro hmem
  obtain ⟨other, hother, hrests⟩ := hcleaned.erasures _ hmem
  have hdead := hrests.dead
  rw [BuildId.collection_injective hother] at hdead
  exact hdead.not_names hnames

/-- The site of a run, with the header of its store. -/
theorem header_run (texts : PointEvidence → Text) {db : Db} (habsent : db.PublicationAbsent)
    (actions : List Action) {state : State}
    (hstate : readState ((Site.init db).run texts actions).world.db = .ok state) :
    Ordered ((Site.init db).run texts actions) ∧
      Mirrored texts ((Site.init db).run texts actions) state ∧
      Cleaned ((Site.init db).run texts actions) state ∧
      Kept ((Site.init db).run texts actions) state := by
  obtain ⟨hordered, found, hfound, hagree⟩ := agreeing_run texts habsent actions
  obtain rfl : state = found := Except.ok.inj (hstate.symm.trans hfound)
  exact ⟨hordered, hagree⟩

/-- What a live build with nothing in flight has received. -/
theorem live_collection (hordered : Ordered site) (hmirrored : Mirrored texts site state)
    {g : Generation} (hnames : state.Names g.build) {applied : ℕ} {revision : ℕ}
    (hprogress : site.world.progress g.build = ⟨applied, none, revision⟩) :
    site.channels g.collection =
      ⟨[], [], planned (plan texts site.world.db.rows g.build) applied⟩ := by
  have hidle : (site.world.progress g.build).inFlight = none := by rw [hprogress]
  have hlanded := (hmirrored.landed g.build hnames).idle hidle
  rw [show (site.target g.build).progress = _ from hprogress] at hlanded
  have hchannel := hordered.settled hidle
  rw [show site.log g.build = _ from hlanded] at hchannel
  exact hchannel

/-- In every run the collection of the served generation has applied its creation and one
insertion of each of its pages, in order and nothing else; no upload calls it, and no
request or deletion is underway to it.  It holds each of the points of the generation
once. -/
theorem served_collection (texts : PointEvidence → Text) {db : Db}
    (habsent : db.PublicationAbsent) (actions : List Action) (state : State)
    (hstate : readState ((Site.init db).run texts actions).world.db = .ok state)
    (g : Generation) (hcurrent : state.current = some g) :
    ∃ pages, StagedBuild ((Site.init db).run texts actions).world.db.rows g pages ∧
      ((Site.init db).run texts actions).channels g.collection =
        ⟨[], [], creation g.collection ++ pages.flatMap (insertion texts g.collection)⟩ ∧
      g.collection ∉ ((Site.init db).run texts actions).erasures ∧
      contents [] (((Site.init db).run texts actions).channels g.collection).log =
        sentPoints texts pages ∧
      (sentPoints texts pages).length = g.pointCount.toNat := by
  obtain ⟨hordered, hmirrored, hcleaned, -⟩ := header_run texts habsent actions hstate
  have hnames : state.Names g.build := Or.inr ⟨g, hcurrent, rfl⟩
  obtain ⟨pages, hstaged⟩ := hmirrored.staged.current g hcurrent
  obtain ⟨revision, hprogress⟩ := hcleaned.served g hcurrent
  have hchannel := live_collection hordered hmirrored hnames hprogress
  rw [← hstaged.pageCount, planned_plan hstaged (Nat.le_refl _), List.take_length] at hchannel
  refine ⟨pages, hstaged, hchannel, hcleaned.not_erased hnames, ?_, ?_⟩
  · rw [hchannel]
    exact contents_insertions (sentPoints_distinct hstaged)
  · rw [sentPoints, textInputs, List.length_map, List.length_map, hstaged.pointCount]

/-- In every run the collection of a pending build with nothing in flight has applied
what the header counts: nothing before it is created, then its creation and the pages
uploaded so far, so an upload may go on from its header. -/
theorem pending_collection (texts : PointEvidence → Text) {db : Db}
    (habsent : db.PublicationAbsent) (actions : List Action) (state : State)
    (hstate : readState ((Site.init db).run texts actions).world.db = .ok state)
    (p : PendingGeneration) (hpending : state.pending = some p) (hidle : p.inFlight = none) :
    ∃ pages, StagedBuild ((Site.init db).run texts actions).world.db.rows p.generation pages ∧
      ((Site.init db).run texts actions).channels p.generation.collection =
        ⟨[], [], if p.created then creation p.generation.collection ++
          (pages.take p.uploadedPages.toNat).flatMap (insertion texts p.generation.collection)
          else []⟩ ∧
      p.generation.collection ∉ ((Site.init db).run texts actions).erasures := by
  obtain ⟨hordered, hmirrored, hcleaned, -⟩ := header_run texts habsent actions hstate
  have hnames : state.Names p.generation.build := Or.inl ⟨p, hpending, rfl⟩
  obtain ⟨pages, hstaged⟩ := hmirrored.staged.pending p hpending
  have hprogress := hordered.sound.progress_pending hstate hpending
  rw [PendingGeneration.progress, hidle] at hprogress
  have hchannel := live_collection hordered hmirrored hnames hprogress
  refine ⟨pages, hstaged, ?_, hcleaned.not_erased hnames⟩
  rw [hchannel]
  cases p.created with
  | false => rfl
  | true =>
      obtain ⟨found, hfound, hconsistent⟩ := hordered.sound.header
      obtain rfl : state = found := Except.ok.inj (hstate.symm.trans hfound)
      have huploaded := (hconsistent.progressed.pending p hpending).uploaded
      rw [UInt64.le_iff_toNat_le, ← hstaged.pageCount] at huploaded
      rw [if_pos rfl, planned_plan hstaged huploaded]
      rfl

/-- In every run each collection that exists is that of the pending build, that of the
served generation, or that of a row which the reader of retired rows returns, so a
cleanup finds it. -/
theorem existing_collection (texts : PointEvidence → Text) {db : Db}
    (habsent : db.PublicationAbsent) (actions : List Action) (state : State)
    (hstate : readState ((Site.init db).run texts actions).world.db = .ok state) (name : Bytes)
    (hpresent : present (((Site.init db).run texts actions).channels name).log = true) :
    (∃ p ∈ state.pending, p.generation.collection = name) ∨
      (∃ g ∈ state.current, g.collection = name) ∨
      ∃ rows, readRetirements ((Site.init db).run texts actions).world.db = .ok rows ∧
        ∃ retired ∈ rows, retired.generation.collection = name := by
  obtain ⟨hordered, -, -, hkept⟩ := header_run texts habsent actions hstate
  have hsound := hordered.sound
  obtain ⟨build, rfl⟩ : ∃ build : BuildId, build.collection = name := by
    rcases hordered.named name with hempty | hnamed
    · rw [hempty] at hpresent
      cases hpresent
    · exact hnamed
  rcases hkept build hpresent with (⟨p, hp, rfl⟩ | ⟨g, hg, rfl⟩) | hrow
  · exact Or.inl ⟨p, hp, rfl⟩
  · exact Or.inr (Or.inl ⟨g, hg, rfl⟩)
  · right
    right
    obtain ⟨retired, hretires, hsequence, hnamespace, -⟩ := hsound.retired_row hstate hrow
    have hbuild := hsound.build_eq hstate (hordered.progress_of_present hpresent) hnamespace
      hsequence
    obtain ⟨found, hfound, hconsistent⟩ := hsound.header
    obtain rfl : state = found := Except.ok.inj (hstate.symm.trans hfound)
    obtain ⟨rows, hrows, -⟩ := hsound.readRetirements_ok hstate hconsistent
    refine ⟨rows, hrows, retired, ?_, congrArg BuildId.collection hbuild⟩
    exact readRetirements_mem hstate hrows hretires (hnamespace ▸ Option.some_ne_none _)

/-- In every run at most one upload calls the collection of a build, for the operation
that is in flight in the log of the build, and then nothing else is underway to it.  Of
the pending build it is the operation that the header has in flight. -/
theorem one_upload_underway (texts : PointEvidence → Text) {db : Db}
    (habsent : db.PublicationAbsent) (actions : List Action) (build : BuildId) (upload : Upload)
    (hmem : upload ∈ (((Site.init db).run texts actions).channels build.collection).calls) :
    (((Site.init db).run texts actions).channels build.collection).calls = [upload] ∧
      (((Site.init db).run texts actions).channels build.collection).stray = [] ∧
      upload.pending.build = build ∧
      (((Site.init db).run texts actions).world.progress build).inFlight =
        some (upload.operation.step, upload.revision.toNat) ∧
      ∀ state, readState ((Site.init db).run texts actions).world.db = .ok state →
        ∀ p ∈ state.pending, p.build = build →
          p.inFlight = some upload.operation ∧ p.operationRevision = upload.revision := by
  have hordered := (agreeing_run texts habsent actions).ordered
  have hserial := hordered.serial build
  obtain ⟨hinFlight, -, hstray⟩ := hserial.calling _ (List.mem_map.mpr ⟨upload, hmem, rfl⟩)
  have hsingle := hserial.single
  rw [target, Channel.target, List.length_map] at hsingle
  obtain ⟨only, honly⟩ := List.length_eq_one_iff.mp
    (Nat.le_antisymm hsingle (List.length_pos_of_mem hmem))
  rw [honly, List.mem_singleton] at hmem
  refine ⟨hmem ▸ honly, hstray, ?_, hinFlight, ?_⟩
  · exact hordered.owned build upload (by rw [honly, hmem]; exact List.mem_singleton_self _)
  · rintro state hstate p hp rfl
    have hprogress := hordered.sound.progress_pending hstate hp
    have hheader : p.progress.inFlight = some (upload.operation.step, upload.revision.toNat) := by
      rw [← hprogress]
      exact hinFlight
    obtain ⟨operation, hoperation, hsame⟩ := Option.map_eq_some_iff.mp hheader
    obtain ⟨hstep, hrevision⟩ := Prod.mk.inj hsame
    rw [hoperation, PendingOperation.step_injective hstep]
    exact ⟨rfl, UInt64.toNat_inj.mp hrevision⟩

/-- A deletion that is underway concerns a build that left the store for good: in every
run on, the header does not name its collection, no upload calls it and nothing but a
deletion changes it. -/
theorem erased_collection (texts : PointEvidence → Text) {db : Db}
    (habsent : db.PublicationAbsent) (actions later : List Action) (name : Bytes)
    (hmem : name ∈ ((Site.init db).run texts actions).erasures) (state : State)
    (hstate : readState ((Site.init db).run texts (actions ++ later)).world.db = .ok state) :
    (∀ p ∈ state.pending, p.generation.collection ≠ name) ∧
      (∀ g ∈ state.current, g.collection ≠ name) ∧
      ∃ log, ((Site.init db).run texts (actions ++ later)).channels name = ⟨[], [], log⟩ ∧
        (log = (((Site.init db).run texts actions).channels name).log ∨
          present (((Site.init db).run texts actions).channels name).log = true ∧
            present log = false) := by
  have hagreeing := agreeing_run texts habsent actions
  obtain ⟨-, before, hbefore, -, hcleaned, -⟩ := agreeing_run texts habsent actions
  obtain ⟨build, rfl, hrests⟩ := hcleaned.erasures name hmem
  obtain ⟨after, hafter, hrest, hdeleted⟩ := hagreeing.rests_run hbefore hrests later
  rw [run, Runs.run_append] at hstate ⊢
  obtain rfl : state = after := Except.ok.inj (hstate.symm.trans hafter)
  have hordered := (agreeing_run texts habsent (actions ++ later)).ordered
  rw [run, Runs.run_append] at hordered
  refine ⟨?_, ?_, _, hordered.settled hrest.idle, hdeleted⟩
  · intro p hp hname
    exact hrest.dead.not_names (Or.inl ⟨p, hp, BuildId.collection_injective hname⟩)
  · intro g hg hname
    exact hrest.dead.not_names (Or.inr ⟨g, hg, BuildId.collection_injective hname⟩)

/-- A collection that a cleanup saw to be absent stays absent: in every run on, no late
request brings it back, so its row may be forgotten. -/
theorem absent_collection (texts : PointEvidence → Text) {db : Db}
    (habsent : db.PublicationAbsent) (actions later : List Action) (cleanup : Cleanup)
    (hmem : cleanup ∈ ((Site.init db).run texts actions).cleanups)
    (hsettled : cleanup.retired.unresolvedBuild = none) (hseen : cleanup.absent = true) :
    present (((Site.init db).run texts (actions ++ later)).channels
      cleanup.retired.generation.collection).log = false := by
  have hagreeing := agreeing_run texts habsent actions
  obtain ⟨-, before, hbefore, -, hcleaned, -⟩ := agreeing_run texts habsent actions
  obtain ⟨hrests, hgone⟩ := hcleaned.cleanups cleanup hmem hsettled
  obtain ⟨-, -, -, hdeleted⟩ := hagreeing.rests_run hbefore hrests later
  rw [run, Runs.run_append]
  exact hdeleted.absent (hgone hseen)

end Site

/-! ## A build from its capture to its cleanup -/

namespace Sample

/-- The build of one prepared source, as it was reserved. -/
def reserved : PendingGeneration :=
  { Control.Sample.reserved with generation := ⟨Control.Sample.namespaceId, 1, 3, 1, 0, 0, 0⟩ }

/-- The build with its two units staged on two pages. -/
def staged : Generation := ⟨Control.Sample.namespaceId, 1, 3, 1, 0, 2, 2⟩

/-- Capture the source, stage its units, and seal the build. -/
def staging : List Site.Action :=
  List.map (fun command => .control (Control.Sample.act command))
    ([.commitCurrentSource
        ⟨Control.Sample.namespaceId, Control.Sample.sourceId, Json.ascii "/a", none, none, none⟩
        (.unix 1 2) Control.Sample.object,
      .writeSettings Control.Sample.sourceId .default Control.Sample.source none,
      .commitPreparation ⟨Control.Sample.source, .default, 1, 0, none⟩
        (.ready Control.Sample.artifact),
      .captureCorpus, .startBuild 0 (some Control.Sample.namespaceId), .advance 0] ++
      Control.Sample.unitPoints.map (fun point => .stagePage reserved ⟨[point], some 9⟩) ++
      [.finishSource reserved Control.Sample.sourceId 2, .completeCapture reserved])

/-- What the header of a store says. -/
theorem header_of {db : Db} {α : Type} {select : State → α} {value : α}
    (hheader : (readState db).toOption.map select = some value) :
    ∃ state, readState db = .ok state ∧ select state = value := by
  obtain ⟨state, hstate, hvalue⟩ := Option.map_eq_some_iff.mp hheader
  exact ⟨state, toOption_eq_some.mp hstate, hvalue⟩

/-- Send each request of a call, have it applied and answered, and settle the call. -/
def delivered (count : ℕ) : List Site.Action :=
  (List.replicate count [Site.Action.send staged.collection 0,
    .handle staged.collection 0 true, .answer staged.collection 0]).flatten ++
    [.settle Env.quiet staged.collection 0 true]

/-- Create the collection and insert its first page. -/
def uploading : List Site.Action :=
  staging ++ [.create Env.quiet reserved] ++ delivered 2 ++
    [.readPage Env.quiet staged 0, .readPage Env.quiet staged 1,
      .insert Env.quiet { reserved with created := true, operationRevision := 1 } 0] ++ delivered 1

/-- Insert the second page and commit the generation. -/
def publishing : List Site.Action :=
  uploading ++
    [.insert Env.quiet
      { reserved with created := true, operationRevision := 2, uploadedPages := 1 } 1] ++
    delivered 1 ++
    [.control (Control.Sample.act (.commitGeneration
      { reserved with
        generation := staged
        captureComplete := true
        created := true
        operationRevision := 3
        completedSources := 1
        uploadedPages := 2
        stagedBytes := 392 }))]

def word : PointEvidence → Text := fun _ => ⟨Json.ascii "ab", by decide⟩

theorem published_current :
    ∃ state, readState ((Site.init Db.empty).run word publishing).world.db = .ok state ∧
      state.current = some staged := by
  apply header_of
  decide +kernel

def uploaded : PendingGeneration :=
  { reserved with
    generation := staged
    captureComplete := true
    created := true
    operationRevision := 2
    completedSources := 1
    uploadedPages := 1
    stagedBytes := 392 }

theorem started_pending :
    ∃ state, readState ((Site.init Db.empty).run word uploading).world.db = .ok state ∧
      state.pending = some uploaded := by
  apply header_of
  decide +kernel

/-- Abandon the build after its first page, and begin to delete its collection. -/
def abandoning : List Site.Action :=
  uploading ++ [.control (Control.Sample.act (.abandonBuild uploaded)), .readRetired Env.quiet,
    .erase 0]

/-- The collection is deleted and seen to be absent. -/
def erasing : List Site.Action := abandoning ++ [.delete 0 true, .observe 0]

def abandoned : Cleanup := ⟨⟨staged, true, none⟩, true⟩

end Sample

theorem Site.served_collection_sample :
    ∃ pages,
      StagedBuild ((Site.init Db.empty).run Sample.word Sample.publishing).world.db.rows
        Sample.staged pages ∧
      ((Site.init Db.empty).run Sample.word Sample.publishing).channels Sample.staged.collection =
        ⟨[], [], creation Sample.staged.collection ++
          pages.flatMap (insertion Sample.word Sample.staged.collection)⟩ ∧
      Sample.staged.collection ∉
        ((Site.init Db.empty).run Sample.word Sample.publishing).erasures ∧
      contents [] (((Site.init Db.empty).run Sample.word Sample.publishing).channels
        Sample.staged.collection).log = sentPoints Sample.word pages ∧
      (sentPoints Sample.word pages).length = 2 := by
  obtain ⟨state, hstate, hcurrent⟩ := Sample.published_current
  exact Site.served_collection Sample.word Control.Sample.absent Sample.publishing state
    hstate Sample.staged hcurrent

theorem Site.pending_collection_sample :
    ∃ pages,
      StagedBuild ((Site.init Db.empty).run Sample.word Sample.uploading).world.db.rows
        Sample.uploaded.generation pages ∧
      ((Site.init Db.empty).run Sample.word Sample.uploading).channels
          Sample.uploaded.generation.collection =
        ⟨[], [], if Sample.uploaded.created then
          creation Sample.uploaded.generation.collection ++
            (pages.take Sample.uploaded.uploadedPages.toNat).flatMap
              (insertion Sample.word Sample.uploaded.generation.collection) else []⟩ ∧
      Sample.uploaded.generation.collection ∉
        ((Site.init Db.empty).run Sample.word Sample.uploading).erasures := by
  obtain ⟨state, hstate, hpending⟩ := Sample.started_pending
  exact Site.pending_collection Sample.word Control.Sample.absent Sample.uploading state hstate
    Sample.uploaded hpending rfl

theorem Site.existing_collection_sample :
    ∃ state,
      readState ((Site.init Db.empty).run Sample.word Sample.uploading).world.db = .ok state ∧
      ((∃ p ∈ state.pending, p.generation.collection = Sample.staged.collection) ∨
        (∃ g ∈ state.current, g.collection = Sample.staged.collection) ∨
        ∃ rows,
          readRetirements ((Site.init Db.empty).run Sample.word Sample.uploading).world.db =
            .ok rows ∧
          ∃ retired ∈ rows, retired.generation.collection = Sample.staged.collection) := by
  have hpresent : present (((Site.init Db.empty).run Sample.word Sample.uploading).channels
      Sample.staged.collection).log = true := by
    decide +kernel
  obtain ⟨state, hstate, -⟩ := Sample.started_pending
  refine ⟨state, hstate, ?_⟩
  exact Site.existing_collection Sample.word Control.Sample.absent Sample.uploading state hstate
    Sample.staged.collection hpresent

theorem Site.one_upload_underway_sample :
    (((Site.init Db.empty).run Sample.word (Sample.staging ++
        [.create Env.quiet Sample.reserved])).world.progress Sample.staged.build).inFlight =
      some (0, 1) := by
  have hmem : Upload.mk Sample.reserved .create 1 (creation Sample.staged.collection) (.ready 0) ∈
      (((Site.init Db.empty).run Sample.word (Sample.staging ++
        [.create Env.quiet Sample.reserved])).channels Sample.staged.build.collection).calls := by
    decide +kernel
  exact (Site.one_upload_underway Sample.word Control.Sample.absent _ _ _ hmem).2.2.2.1

theorem Site.erased_collection_sample :
    ∃ log, ((Site.init Db.empty).run Sample.word
        (Sample.abandoning ++ [.delete 0 true])).channels Sample.staged.collection =
      ⟨[], [], log⟩ := by
  have hmem : Sample.staged.collection ∈
      ((Site.init Db.empty).run Sample.word Sample.abandoning).erasures := by
    decide +kernel
  have hheader : ∃ state, readState ((Site.init Db.empty).run Sample.word
      (Sample.abandoning ++ [.delete 0 true])).world.db = .ok state ∧ state.pending = none := by
    apply Sample.header_of
    decide +kernel
  obtain ⟨state, hstate, -⟩ := hheader
  obtain ⟨-, -, log, hlog, -⟩ := Site.erased_collection Sample.word Control.Sample.absent
    Sample.abandoning [.delete 0 true] _ hmem state hstate
  exact ⟨log, hlog⟩

theorem Site.absent_collection_sample :
    present (((Site.init Db.empty).run Sample.word
      (Sample.erasing ++ [.retire Env.quiet 0])).channels
        Sample.abandoned.retired.generation.collection).log = false := by
  have hmem : Sample.abandoned ∈
      ((Site.init Db.empty).run Sample.word Sample.erasing).cleanups := by
    decide +kernel
  exact Site.absent_collection Sample.word Control.Sample.absent Sample.erasing
    [.retire Env.quiet 0] Sample.abandoned hmem rfl rfl

end EliotSearch.Corpus
