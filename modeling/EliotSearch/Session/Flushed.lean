import EliotSearch.Session.Paging

/-!
# Flushed pages

The worker's side of paging: every command it takes and every job it finishes
keeps the invariant, so it holds in every run.  The cursor moves only by the
update of a flushed page, and an update is never stale.
-/

namespace EliotSearch.Session

open EliotSearch.Library

variable {wire : Wire}

namespace Daemon

/-! ## Steps of the worker -/

theorem isBare_entries {ready : Ready wire} (hbare : ready.reply.outcome.isBare = true) :
    ready.entries = [] := by
  unfold Ready.entries
  cases houtcome : ready.reply.outcome with
  | page page =>
      rw [houtcome] at hbare
      cases hbare
  | _ => rfl

/-- The worker leaves its loop, or has left it. -/
theorem Paging.leaves {daemon next : Daemon wire} (hdaemon : daemon.Paging)
    (hordered : next.Ordered) (hloop : next.loop = daemon.loop)
    (hvector : next.worker.vector = daemon.worker.vector) (hwindow : next.worker.window = none)
    (hdeparted : next.worker.departure.isSome = true) (hidle : next.worker.job = none)
    (hfirst : CommitsFirst next.queue)
    (hcommits : commitsOf daemon.queue = [] → commitsOf next.queue = [])
    (hopenings : next.openings.Sublist daemon.openings)
    (hanswers : ∀ job ready, (job, some (.ok ready)) ∈ next.answers →
      (job, some (.ok ready)) ∈ daemon.answers ∨
        (ready.commit = none ∧ ready.reply.outcome.isBare = true)) : next.Paging := by
  have hflushed : next.flushed = daemon.flushed := by rw [Daemon.flushed, hloop]; rfl
  have hcurrent {ready : Ready wire} (hready : daemon.Current ready) : next.Current ready := by
    refine ⟨?_, fun hsome => hcommits (hready.settled hsome), fun _ hstays => ?_⟩
    · rw [hvector, hflushed]
      exact hready.follows
    · rw [hstays] at hdeparted
      cases hdeparted
  constructor
  · exact hordered
  · exact hfirst
  · rw [hidle]
    rintro ⟨⟩
  · rw [hvector]
    exact hdaemon.fits
  · rw [hvector, hflushed]
    exact hdaemon.flushed
  · rw [hloop]
    exact fun hlive output houtput => hcurrent (hdaemon.output hlive output houtput)
  · rw [hloop]
    intro active job ready hactive hmem hserial
    rcases hanswers job ready hmem with hbefore | ⟨hcommit, hbare⟩
    · exact hcurrent (hdaemon.answered active job ready hactive hbefore hserial)
    · have hextends : ready.Extends next.worker.vector next.flushed := by
        rw [hvector, hflushed]
        exact Ready.extends_of_bare hdaemon.flushed hcommit (isBare_entries hbare)
      refine ⟨hextends, ?_, ?_⟩
      · rw [hcommit]
        rintro ⟨⟩
      · rw [hcommit]
        rintro ⟨⟩
  · rw [hwindow]
    intro _ hcontra
    cases hcontra
  · intro _ hstays
    rw [hstays] at hdeparted
    cases hdeparted
  · exact fun _ => hwindow
  · exact hopenings.length_le.trans hdaemon.single
  · intro hne
    refine ⟨hwindow, hvector.trans (hdaemon.opening fun hempty => hne ?_).2⟩
    rw [hempty] at hopenings
    exact List.sublist_nil.mp hopenings
  · rw [hloop]
    intro hclosed
    obtain ⟨hempty, -, hnil⟩ := hdaemon.unopened hclosed
    rw [hempty] at hopenings
    exact ⟨List.sublist_nil.mp hopenings, hwindow, hvector.trans hnil⟩
  · rw [hflushed]
    intro job ready expansion hmem hexpanded
    rcases hanswers job ready hmem with hbefore | ⟨-, hbare⟩
    · exact hdaemon.expanded job ready expansion hbefore hexpanded
    · rw [hexpanded] at hbare
      cases hbare

/-- The update at the head of the queue is applied. -/
theorem Paging.commits {daemon : Daemon wire} (hdaemon : daemon.Paging) {limit : Instant}
    {expected next : UInt8} {queue : List (Command wire)}
    (hstage : daemon.worker.stage = .waiting limit)
    (hqueue : daemon.queue = .commit expected next :: queue) :
    ∃ window moved, daemon.worker.window = some window ∧
      window.commitPage expected next = .ok moved ∧ expected = window.cursor ∧
      moved.items = window.items ∧ moved.cursor = next ∧ next.toNat = daemon.flushed.length ∧
      commitsOf queue = [] ∧
      ∃ output ∈ daemon.loop.delivered, output.ready.commit = some (expected, next) := by
  have hstays : daemon.worker.departure = none := by rw [Worker.departure, hstage]
  have hupdates : commitsOf daemon.queue = (expected, next) :: commitsOf queue := by
    rw [hqueue]
    rfl
  cases hwindow : daemon.worker.window with
  | none =>
      have hmissing := hdaemon.missing hwindow hstays
      rw [hupdates] at hmissing
      cases hmissing
  | some window =>
      obtain ⟨hitems, hcursor⟩ := hdaemon.window window hwindow
      cases hcursor with
      | settled hnone =>
          rw [hupdates] at hnone
          cases hnone
      | behind hupdate hnext hle houtput hcommit =>
          rw [hupdates] at hupdate
          obtain ⟨hpair, hrest⟩ := List.cons.inj hupdate
          obtain ⟨rfl, rfl⟩ := Prod.mk.inj hpair
          have hbound : next.toNat ≤ window.items.length := by
            have hlength := hdaemon.flushed.length_le
            rw [Window.entriesOf_length] at hlength
            rw [hnext, hitems]
            exact hlength
          obtain ⟨moved, hmoved, hsame, hat⟩ := Window.commitPage_ok hle hbound
          exact ⟨window, moved, rfl, hmoved, rfl, hsame, hat, hnext, hrest, _, houtput, hcommit⟩

/-- The daemon after its worker took a command. -/
def taking (daemon : Daemon wire) (command : Command wire) (queue : List (Command wire)) :
    Daemon wire :=
  { daemon with
    worker := (daemon.worker.take daemon.loop.clock command).1
    queue
    answers := daemon.answers ++
      (daemon.worker.take daemon.loop.clock command).2.toList.map
        fun (job, result) => (job, some result) }

theorem openings_tail {daemon : Daemon wire} {command : Command wire}
    {queue : List (Command wire)} {worker : Worker wire} {answers : List (Job wire × Answer wire)}
    (hqueue : daemon.queue = command :: queue) (hidle : worker.job = none) :
    (openings { daemon with worker, queue, answers }).Sublist daemon.openings := by
  have hjobs : (jobsOf queue).Sublist (daemon.worker.job.toList ++ jobsOf daemon.queue) := by
    rw [hqueue, jobsOf_cons]
    exact (List.sublist_append_right _ _).trans (List.sublist_append_right _ _)
  simp only [openings, hidle, Option.toList_none, List.nil_append]
  exact hjobs.filter _

theorem Paging.taken_commit {daemon : Daemon wire} (hdaemon : daemon.Paging) {limit : Instant}
    {expected next : UInt8} {queue : List (Command wire)}
    (hstage : daemon.worker.stage = .waiting limit)
    (hqueue : daemon.queue = .commit expected next :: queue)
    (hordered : (daemon.taking (.commit expected next) queue).Ordered) :
    (daemon.taking (.commit expected next) queue).Paging := by
  obtain ⟨window, moved, hwindow, hmoved, rfl, hitems, rfl, hnext, hrest, -⟩ :=
    hdaemon.commits hstage hqueue
  have hstays : daemon.worker.departure = none := by rw [Worker.departure, hstage]
  have hfirst := hdaemon.first
  rw [hqueue] at hfirst
  by_cases hexpired : daemon.worker.Expired daemon.loop.clock
  · have htake : daemon.worker.take daemon.loop.clock (.commit window.cursor moved.cursor) =
        (daemon.worker.leave .lifetime, none) := by
      rw [Worker.take, if_pos hexpired]
    rw [taking, htake] at hordered ⊢
    refine hdaemon.leaves hordered rfl rfl rfl rfl rfl hfirst (fun _ => hrest)
      (openings_tail hqueue rfl) ?_
    intro job ready hmem
    exact Or.inl (by simpa using hmem)
  · have htake : daemon.worker.take daemon.loop.clock (.commit window.cursor moved.cursor) =
        ({ daemon.worker with window := some moved }.wait daemon.loop.clock, none) := by
      rw [Worker.take, if_neg hexpired, hwindow]
      dsimp only
      rw [hmoved]
    rw [taking, htake] at hordered ⊢
    have hopenings := @openings_tail wire daemon _ queue
      ({ daemon.worker with window := some moved }.wait daemon.loop.clock) daemon.answers hqueue rfl
    have hnone : daemon.openings = [] := by
      by_contra hne
      rw [(hdaemon.opening hne).1] at hwindow
      cases hwindow
    have hvector := (hdaemon.window window hwindow).1
    rw [hnone] at hopenings
    replace hopenings := List.sublist_nil.mp hopenings
    have hcurrent {ready : Ready wire} (hready : daemon.Current ready) :
        Current { daemon with
          worker := { daemon.worker with window := some moved }.wait daemon.loop.clock
          queue
          answers := daemon.answers ++ [] } ready :=
      ⟨hready.follows, fun _ => hrest, fun _ _ => rfl⟩
    constructor
    · exact hordered
    · exact hfirst
    · exact fun _ => hrest
    · exact hdaemon.fits
    · exact hdaemon.flushed
    · exact fun hlive output houtput => hcurrent (hdaemon.output hlive output houtput)
    · intro active job ready hactive hmem hserial
      have hbefore : (job, some (.ok ready)) ∈ daemon.answers := by simpa using hmem
      exact hcurrent (hdaemon.answered active job ready hactive hbefore hserial)
    · rintro _ ⟨⟩
      exact ⟨hitems.trans hvector, .settled hrest hnext⟩
    · exact fun _ _ => hrest
    · rintro ⟨⟩
    · exact (congrArg List.length hopenings).le.trans (Nat.zero_le 1)
    · exact fun hne => absurd hopenings hne
    · intro hclosed
      rw [(hdaemon.unopened hclosed).2.1] at hwindow
      cases hwindow
    · intro job ready expansion hmem hexpanded
      have hbefore : (job, some (.ok ready)) ∈ daemon.answers := by simpa using hmem
      exact hdaemon.expanded job ready expansion hbefore hexpanded

theorem Paging.taken_execute {daemon : Daemon wire} (hdaemon : daemon.Paging) {limit : Instant}
    {job : Job wire} {queue : List (Command wire)}
    (hstage : daemon.worker.stage = .waiting limit) (hqueue : daemon.queue = .execute job :: queue)
    (hordered : (daemon.taking (.execute job) queue).Ordered) :
    (daemon.taking (.execute job) queue).Paging := by
  have hfirst := hdaemon.first
  rw [hqueue] at hfirst
  have hcommits : commitsOf daemon.queue = commitsOf queue := by
    rw [hqueue]
    rfl
  have hempty : commitsOf queue = [] := hfirst
  by_cases hexpired : daemon.worker.Expired daemon.loop.clock
  · have htake : daemon.worker.take daemon.loop.clock (.execute job) =
        (daemon.worker.leave .lifetime,
          some (job, outcome job.message.requestId .expired true)) := by
      rw [Worker.take, if_pos hexpired]
    rw [taking, htake] at hordered ⊢
    refine hdaemon.leaves hordered rfl rfl rfl rfl rfl (commitsFirst_tail hfirst)
      (fun _ => hempty) (openings_tail hqueue rfl) ?_
    intro found ready hmem
    rcases List.mem_append.mp hmem with hbefore | hnew
    · exact Or.inl hbefore
    · have hreply := List.mem_singleton.mp hnew
      obtain ⟨-, hready⟩ := Prod.mk.inj hreply
      obtain ⟨hexpiry, hcommit, -⟩ := outcome_eq_ok (Option.some.inj hready).symm
      exact Or.inr ⟨hcommit, by rw [hexpiry]; rfl⟩
  · have htake : daemon.worker.take daemon.loop.clock (.execute job) =
        ({ daemon.worker with
            stage := .running job
            expires := job.expires.elim daemon.worker.expires some },
          none) := by
      unfold Worker.take
      dsimp only
      rw [if_neg hexpired]
      cases job.expires <;> rfl
    rw [taking, htake] at hordered ⊢
    have hidle : daemon.worker.job = none := by rw [Worker.job, hstage]
    have hstays : daemon.worker.departure = none := by rw [Worker.departure, hstage]
    have hopenings : daemon.openings =
        (job :: jobsOf queue).filter fun job => job.message.isOpen := by
      rw [openings, hidle, hqueue]
      rfl
    constructor
    · exact hordered
    · exact commitsFirst_tail hfirst
    · exact fun _ => hempty
    · exact hdaemon.fits
    · exact hdaemon.flushed
    · intro hlive output houtput
      obtain ⟨hfollows, -, hwindowed⟩ := hdaemon.output hlive output houtput
      exact ⟨hfollows, fun _ => hempty, fun hsome _ => hwindowed hsome hstays⟩
    · intro active found ready hactive hmem hserial
      have hbefore : (found, some (.ok ready)) ∈ daemon.answers := by simpa using hmem
      obtain ⟨hfollows, -, hwindowed⟩ :=
        hdaemon.answered active found ready hactive hbefore hserial
      exact ⟨hfollows, fun _ => hempty, fun hsome _ => hwindowed hsome hstays⟩
    · intro window hwindow
      obtain ⟨hitems, hcursor⟩ := hdaemon.window window hwindow
      exact ⟨hitems, hcursor.of_same rfl hcommits.symm⟩
    · exact fun _ _ => hempty
    · rintro ⟨⟩
    · have hsingle := hdaemon.single
      rw [hopenings] at hsingle
      exact hsingle
    · have hopening := hdaemon.opening
      rw [hopenings] at hopening
      exact hopening
    · have hunopened := hdaemon.unopened
      rw [hopenings] at hunopened
      exact hunopened
    · intro found ready expansion hmem hexpanded
      have hbefore : (found, some (.ok ready)) ∈ daemon.answers := by simpa using hmem
      exact hdaemon.expanded found ready expansion hbefore hexpanded

theorem Paging.taken_shutdown {daemon : Daemon wire} (hdaemon : daemon.Paging)
    {queue : List (Command wire)} (hqueue : daemon.queue = .shutdown :: queue)
    (hordered : (daemon.taking .shutdown queue).Ordered) :
    (daemon.taking .shutdown queue).Paging := by
  have hfirst := hdaemon.first
  rw [hqueue] at hfirst
  refine hdaemon.leaves hordered rfl rfl rfl rfl rfl hfirst ?_ (openings_tail hqueue rfl) ?_
  · rw [hqueue]
    exact commitsOf_tail
  · intro job ready hmem
    exact Or.inl (by simpa [taking, Worker.take] using hmem)

/-! ## Finished jobs -/

/-- What performing a job leaves of the window: the flushed entries are those of
its vector, and its cursor is behind none of them. -/
structure Performed (daemon : Daemon wire) (worker : Worker wire) : Prop where
  fits : worker.vector.length < 256
  flushed : daemon.flushed <+: entriesOf worker.vector
  window : ∀ window, worker.window = some window →
    window.items = worker.vector ∧ window.cursor.toNat = daemon.flushed.length

/-- The vector that is left is that of the window, if there is one. -/
theorem performed_vector (worker : Worker wire) (job : Job wire) (verdict : Verdict wire) :
    (worker.performed job verdict).vector =
      (job.execute worker.window verdict).1.elim worker.vector Window.items := by
  unfold Worker.performed
  cases (job.execute worker.window verdict).1 <;> rfl

theorem Paging.performed {daemon : Daemon wire} (hdaemon : daemon.Paging) {job : Job wire}
    (hjob : daemon.worker.job = some job) (verdict : Verdict wire) :
    daemon.Performed (daemon.worker.performed job verdict) := by
  have hsettled := hdaemon.performing (by rw [hjob]; rfl)
  have hwindow : ∀ window, daemon.worker.window = some window →
      window.items = daemon.worker.vector ∧ window.cursor.toNat = daemon.flushed.length := by
    intro window hsome
    obtain ⟨hitems, hcursor⟩ := hdaemon.window window hsome
    refine ⟨hitems, ?_⟩
    cases hcursor with
    | settled _ hcursor => exact hcursor
    | behind hupdate =>
        rw [hsettled] at hupdate
        cases hupdate
  have hvector : (daemon.worker.performed job verdict).vector =
      (job.execute daemon.worker.window verdict).1.elim daemon.worker.vector Window.items :=
    performed_vector daemon.worker job verdict
  have hnext : (daemon.worker.performed job verdict).window =
      (job.execute daemon.worker.window verdict).1 := rfl
  have hwindowing := Job.execute_window daemon.worker.window job verdict
  generalize (job.execute daemon.worker.window verdict).1 = after at *
  cases hwindowing with
  | kept =>
      have hsame : (daemon.worker.performed job verdict).vector = daemon.worker.vector := by
        rw [hvector]
        cases hsome : daemon.worker.window with
        | none => rfl
        | some window => exact (hwindow window hsome).1
      refine ⟨hsame ▸ hdaemon.fits, hsame ▸ hdaemon.flushed, ?_⟩
      rw [hnext, hsame]
      exact hwindow
  | @opened window hopen hcursor =>
      -- the only request for a window, so nothing is flushed yet
      have hne : daemon.openings ≠ [] := by
        rw [openings, hjob]
        simp [hopen]
      have hnil : daemon.flushed = [] := by
        have hflushed := hdaemon.flushed
        rw [(hdaemon.opening hne).2] at hflushed
        exact List.prefix_nil.mp hflushed
      refine ⟨?_, ?_, ?_⟩
      · rw [hvector]
        exact window.length_lt
      · rw [hnil]
        exact List.nil_prefix
      · rw [hnext, hvector, hnil]
        rintro _ ⟨⟩
        exact ⟨rfl, by rw [hcursor]; rfl⟩
  | closed hclose =>
      have hsame : (daemon.worker.performed job verdict).vector = daemon.worker.vector := hvector
      refine ⟨hsame ▸ hdaemon.fits, hsame ▸ hdaemon.flushed, ?_⟩
      rw [hnext]
      intro _ hcontra
      cases hcontra

/-- The worker after its reply: it has dropped the window and left, or waits
with the window it has. -/
structure Finished (performed worker : Worker wire) : Prop where
  vector : worker.vector = performed.vector
  idle : worker.job = none
  window : (worker.window = none ∧ worker.departure.isSome = true) ∨
    (worker.window = performed.window ∧ worker.departure = none)

theorem finishing_finished {now : Instant} {job : Job wire} {performed worker : Worker wire}
    {result : Except Bytes (Ready wire)}
    (hfinishing : Worker.Finishing now job performed worker result) : Finished performed worker := by
  cases hfinishing with
  | lifetime => exact ⟨rfl, rfl, Or.inl ⟨rfl, rfl⟩⟩
  | ending => exact ⟨rfl, rfl, Or.inl ⟨rfl, rfl⟩⟩
  | replied => exact ⟨rfl, rfl, Or.inr ⟨rfl, rfl⟩⟩
  | unreported => exact ⟨rfl, rfl, Or.inr ⟨rfl, rfl⟩⟩

theorem finishing_reporting {now : Instant} {job : Job wire} {performed worker : Worker wire}
    {ready : Ready wire} (hfinishing : Worker.Finishing now job performed worker (.ok ready)) :
    (ready.reply.outcome = .expired ∧ ready.commit = none) ∨
      Reporting job performed.window ready := by
  cases hfinishing with
  | lifetime hexpired hreply hcommit hends =>
      exact Or.inl ⟨congrArg SessionReply.outcome hreply, hcommit⟩
  | ending hlasting hid hreport hends => exact Or.inr hreport
  | replied hlasting hid hreport hends => exact Or.inr hreport

/-- The reply of a finished job follows the flushed entries. -/
theorem Performed.extends {daemon : Daemon wire} {performed : Worker wire}
    (hperformed : daemon.Performed performed) {job : Job wire} {ready : Ready wire}
    (hreport : (ready.reply.outcome = .expired ∧ ready.commit = none) ∨
      Reporting job performed.window ready) :
    ready.Extends performed.vector daemon.flushed ∧
      (ready.commit.isSome = true → performed.window.isSome = true) := by
  have hbare (hcommit : ready.commit = none) (hentries : ready.entries = []) :
      ready.Extends performed.vector daemon.flushed ∧
        (ready.commit.isSome = true → performed.window.isSome = true) := by
    refine ⟨Ready.extends_of_bare hperformed.flushed hcommit hentries, ?_⟩
    rw [hcommit]
    rintro ⟨⟩
  rcases hreport with ⟨hexpired, hcommit⟩ | hreport
  · exact hbare hcommit (by rw [Ready.entries, hexpired])
  · cases hreport with
    | failed hfailed => exact hbare hfailed.2.1 hfailed.entries
    | page hwindow hslice =>
        obtain ⟨hitems, hcursor⟩ := hperformed.window _ hwindow
        rw [hitems] at hslice
        refine ⟨hslice.extends hperformed.flushed hcursor, fun _ => ?_⟩
        rw [hwindow]
        rfl
    | expanded hwindow hbelow hjob hexpanded hcommit hends =>
        exact hbare hcommit (by rw [Ready.entries, hexpanded])
    | closed hjob hclosed hcommit hends => exact hbare hcommit (by rw [Ready.entries, hclosed])

theorem performed_closed {worker : Worker wire} {job : Job wire} (hwindow : worker.window = none)
    (hopen : job.message.isOpen = false) (verdict : Verdict wire) :
    (worker.performed job verdict).window = none ∧
      (worker.performed job verdict).vector = worker.vector := by
  have hvector : (worker.performed job verdict).vector =
      (job.execute worker.window verdict).1.elim worker.vector Window.items :=
    performed_vector worker job verdict
  have hnext : (worker.performed job verdict).window = (job.execute worker.window verdict).1 := rfl
  have hwindowing := Job.execute_window worker.window job verdict
  generalize (job.execute worker.window verdict).1 = after at *
  cases hwindowing with
  | kept =>
      rw [hwindow] at hnext hvector
      exact ⟨hnext, hvector⟩
  | opened hopens =>
      rw [hopen] at hopens
      cases hopens
  | closed => exact ⟨hnext, hvector⟩

theorem Paging.finished {daemon : Daemon wire} (hdaemon : daemon.Paging) {job : Job wire}
    {verdict : Verdict wire} {worker : Worker wire} {result : Except Bytes (Ready wire)}
    (hstage : daemon.worker.stage = .running job)
    (hfinishing : Worker.Finishing daemon.loop.clock job (daemon.worker.performed job verdict)
      worker result)
    (hordered : Ordered
      { daemon with worker, answers := daemon.answers ++ [(job, some result)] }) :
    Paging { daemon with worker, answers := daemon.answers ++ [(job, some result)] } := by
  have hjob : daemon.worker.job = some job := by rw [Worker.job, hstage]
  have hsettled : commitsOf daemon.queue = [] := hdaemon.performing (by rw [hjob]; rfl)
  have hperformed := hdaemon.performed hjob verdict
  obtain ⟨hvector, hidle, hwindow⟩ := finishing_finished hfinishing
  have hactive : ∃ active, daemon.loop.exchange.active = some active := by
    cases hnone : daemon.loop.exchange.active with
    | none =>
        rw [(hdaemon.ordered.idle hnone).1] at hjob
        cases hjob
    | some active => exact ⟨active, rfl⟩
  obtain ⟨active, hactive⟩ := hactive
  have hunanswered : ∀ found answer, (found, answer) ∈ daemon.answers →
      found.serial ≠ active.serial := by
    intro found answer hmem hserial
    have hlast : found.serial + 1 = daemon.loop.exchange.issued := by
      rw [hserial]
      exact hdaemon.ordered.active active hactive
    rw [(hdaemon.ordered.answered_last hmem hlast).1] at hjob
    cases hjob
  have hopenings : daemon.openings =
      (job :: jobsOf daemon.queue).filter fun job => job.message.isOpen := by
    rw [openings, hjob]
    rfl
  have hlater : openings { daemon with worker, answers := daemon.answers ++ [(job, some result)] } =
      (jobsOf daemon.queue).filter fun job => job.message.isOpen := by
    rw [openings, hidle]
    rfl
  -- when another request for a window waits, or none was accepted, this was none
  have hunopened (hwindow : daemon.worker.window = none) (hnil : daemon.worker.vector = [])
      (hopen : job.message.isOpen = false) : worker.window = none ∧ worker.vector = [] := by
    obtain ⟨hnone, hsame⟩ := performed_closed hwindow hopen verdict
    refine ⟨?_, hvector.trans (hsame.trans hnil)⟩
    rcases ‹(worker.window = none ∧ _) ∨ _› with ⟨hdropped, -⟩ | ⟨hkept, -⟩
    · exact hdropped
    · exact hkept.trans hnone
  constructor
  · exact hordered
  · exact hdaemon.first
  · exact fun _ => hsettled
  · exact hvector ▸ hperformed.fits
  · exact hvector ▸ hperformed.flushed
  · intro hlive output houtput
    rw [(hdaemon.ordered.integral.exclusive hlive).output_of_active hactive] at houtput
    cases houtput
  · intro found answered ready hfound hmem hserial
    obtain rfl := Option.some.inj (hactive.symm.trans hfound)
    rcases List.mem_append.mp hmem with hbefore | hnew
    · exact absurd hserial (hunanswered _ _ hbefore)
    · obtain ⟨-, hready⟩ := Prod.mk.inj (List.mem_singleton.mp hnew)
      obtain rfl := Option.some.inj hready
      obtain ⟨hextends, hsome⟩ := hperformed.extends (finishing_reporting hfinishing)
      refine ⟨hvector ▸ hextends, fun _ => hsettled, fun hcommit hstays => ?_⟩
      rcases hwindow with ⟨-, hdeparted⟩ | ⟨hkept, -⟩
      · rw [hstays] at hdeparted
        cases hdeparted
      · exact hkept ▸ hsome hcommit
  · intro window hsome
    rcases hwindow with ⟨hnone, -⟩ | ⟨hkept, -⟩
    · rw [hnone] at hsome
      cases hsome
    · obtain ⟨hitems, hcursor⟩ := hperformed.window window (hkept.symm.trans hsome)
      exact ⟨hitems.trans hvector.symm, .settled hsettled hcursor⟩
  · exact fun _ _ => hsettled
  · intro hdeparted
    rcases hwindow with ⟨hnone, -⟩ | ⟨-, hstays⟩
    · exact hnone
    · rw [hstays] at hdeparted
      cases hdeparted
  · rw [hlater]
    have hsingle := hdaemon.single
    rw [hopenings, List.filter_cons] at hsingle
    split at hsingle
    · exact (Nat.le_succ _).trans hsingle
    · exact hsingle
  · rw [hlater]
    intro hne
    have hsingle := hdaemon.single
    have hopening := hdaemon.opening
    rw [hopenings, List.filter_cons] at hsingle hopening
    cases hopen : job.message.isOpen with
    | true =>
        rw [hopen, if_pos rfl, List.length_cons] at hsingle
        have hzero := Nat.le_zero.mp (Nat.le_of_succ_le_succ hsingle)
        exact absurd (List.length_eq_zero_iff.mp hzero) hne
    | false =>
        rw [hopen, if_neg Bool.false_ne_true] at hopening
        obtain ⟨hnone, hnil⟩ := hopening hne
        exact hunopened hnone hnil hopen
  · rw [hlater]
    intro hclosed
    obtain ⟨hempty, hnone, hnil⟩ := hdaemon.unopened hclosed
    rw [hopenings, List.filter_cons] at hempty
    cases hopen : job.message.isOpen with
    | true =>
        rw [hopen, if_pos rfl] at hempty
        cases hempty
    | false =>
        rw [hopen, if_neg Bool.false_ne_true] at hempty
        exact ⟨hempty, hunopened hnone hnil hopen⟩
  · intro found ready expansion hmem hexpanded
    rcases List.mem_append.mp hmem with hbefore | hnew
    · exact hdaemon.expanded found ready expansion hbefore hexpanded
    · obtain ⟨rfl, hready⟩ := Prod.mk.inj (List.mem_singleton.mp hnew)
      obtain rfl := Option.some.inj hready
      rcases finishing_reporting hfinishing with ⟨hexpired, -⟩ | hreport
      · rw [hexpired] at hexpanded
        cases hexpanded
      · cases hreport with
        | failed hfailed =>
            have hfailure := hfailed.1
            rw [hexpanded] at hfailure
            cases hfailure
        | page hfound hslice =>
            obtain ⟨page, hpage⟩ := hslice.outcome
            rw [hpage] at hexpanded
            cases hexpanded
        | expanded hfound hbelow hmessage _ hcommit hends =>
            refine ⟨_, _, _, _, _, _, hmessage, ?_⟩
            exact hbelow.trans_eq (hperformed.window _ hfound).2
        | closed hclose hclosed hcommit hends =>
            rw [hclosed] at hexpanded
            cases hexpanded

/-! ## Runs -/

theorem Stepping.keeps_paging {daemon next : Daemon wire} {action : Action wire}
    (hstep : Stepping daemon action next) (hdaemon : daemon.Paging) : next.Paging := by
  have hordered := hstep.ordered hdaemon.ordered
  cases hstep with
  | idle => exact hdaemon
  | loop hevent hreaction => exact hdaemon.loop hevent hreaction
  | @taken limit command queue hstage hqueue =>
      cases command with
      | execute job => exact hdaemon.taken_execute hstage hqueue hordered
      | commit expected next => exact hdaemon.taken_commit hstage hqueue hordered
      | shutdown => exact hdaemon.taken_shutdown hqueue hordered
  | finished hstage hsound hfinishing => exact hdaemon.finished hstage hfinishing hordered
  | timedOut hstage hlimit =>
      have hidle : daemon.worker.job = none := by rw [Worker.job, hstage]
      refine hdaemon.leaves hordered rfl rfl rfl rfl rfl hdaemon.first id ?_ fun _ _ => Or.inl
      rw [openings, openings, hidle]
      exact List.Sublist.refl _
  | @signalled departure hstage =>
      have hidle : daemon.worker.job = none := by rw [Worker.job, hstage]
      have hleft : daemon.worker.departure = some departure := by rw [Worker.departure, hstage]
      refine hdaemon.leaves hordered rfl rfl (hdaemon.departed (by rw [hleft]; rfl)) rfl rfl
        hdaemon.first id ?_ fun _ _ => Or.inl
      rw [openings, openings, hidle]
      exact List.Sublist.refl _
  | @dropped departure hstage =>
      have hleft : daemon.worker.departure = some departure := by rw [Worker.departure, hstage]
      refine hdaemon.leaves hordered rfl rfl (hdaemon.departed (by rw [hleft]; rfl)) rfl rfl trivial
        (fun _ => rfl) (List.nil_sublist _) ?_
      intro job ready hmem
      rcases List.mem_append.mp hmem with hbefore | hnew
      · exact Or.inl hbefore
      · obtain ⟨found, -, hclosed⟩ := List.mem_map.mp hnew
        cases hclosed

theorem paging_run (clock : Instant) (moves : List (Move wire)) : (run clock moves).Paging := by
  refine Runs.run_invariant (paging_start clock) (fun daemon move hdaemon => ?_) moves
  exact ((daemon.advance move).perform_stepping move.action).keeps_paging (hdaemon.advance move)

/-- The cursor moves only by the update of a flushed page. -/
theorem Stepping.cursor {daemon next : Daemon wire} {action : Action wire}
    (hstep : Stepping daemon action next) (hdaemon : daemon.Paging) {window moved : Window wire}
    (hwindow : daemon.worker.window = some window) (hmoved : next.worker.window = some moved)
    (hne : moved.cursor ≠ window.cursor) :
    ∃ output ∈ daemon.loop.delivered, output.ready.commit = some (window.cursor, moved.cursor) := by
  have hsame (hkept : next.worker.window = daemon.worker.window) : False := by
    rw [hkept, hwindow] at hmoved
    obtain rfl := Option.some.inj hmoved
    exact hne rfl
  have hdropped (hnone : next.worker.window = none) : False := by
    rw [hnone] at hmoved
    cases hmoved
  cases hstep with
  | idle => exact (hsame rfl).elim
  | loop hevent hreaction => exact (hsame (by rw [send_worker])).elim
  | @taken limit command queue hstage hqueue =>
      cases command with
      | execute job =>
          simp only [Worker.take] at hmoved
          split at hmoved
          · cases hmoved
          · rw [hwindow] at hmoved
            obtain rfl := Option.some.inj hmoved
            exact absurd rfl hne
      | shutdown => cases hmoved
      | commit expected next =>
          obtain ⟨found, after, hfound, hafter, rfl, -, rfl, -, -, output, houtput, hcommit⟩ :=
            hdaemon.commits hstage hqueue
          obtain rfl := Option.some.inj (hwindow.symm.trans hfound)
          simp only [Worker.take, hwindow] at hmoved
          split at hmoved
          · cases hmoved
          · rw [hafter] at hmoved
            obtain rfl := Option.some.inj hmoved
            exact ⟨output, houtput, hcommit⟩
  | @finished job verdict worker result hstage hsound hfinishing =>
      rcases (finishing_finished hfinishing).window with ⟨hnone, -⟩ | ⟨hkept, -⟩
      · exact (hdropped hnone).elim
      · have hperformed : (daemon.worker.performed job verdict).window = some moved :=
          hkept.symm.trans hmoved
        have hjob : daemon.worker.job = some job := by rw [Worker.job, hstage]
        have hsettled : commitsOf daemon.queue = [] := hdaemon.performing (by rw [hjob]; rfl)
        have hbefore : window.cursor.toNat = daemon.flushed.length := by
          obtain ⟨-, hcursor⟩ := hdaemon.window window hwindow
          cases hcursor with
          | settled _ hcursor => exact hcursor
          | behind hupdate =>
              rw [hsettled] at hupdate
              cases hupdate
        have hafter := ((hdaemon.performed hjob verdict).window moved hperformed).2
        exact absurd (UInt8.toNat_inj.mp (hafter.trans hbefore.symm)) hne
  | timedOut => exact (hdropped rfl).elim
  | signalled => exact (hsame rfl).elim
  | dropped => exact (hsame rfl).elim

/-- The result vector is set once. -/
theorem Stepping.vector {daemon next : Daemon wire} {action : Action wire}
    (hstep : Stepping daemon action next) (hdaemon : daemon.Paging) :
    daemon.worker.vector = [] ∨ next.worker.vector = daemon.worker.vector := by
  cases hstep with
  | loop hevent hreaction => exact Or.inr (by rw [send_worker])
  | @taken limit command queue hstage hqueue =>
      refine Or.inr ?_
      cases command with
      | execute job =>
          simp only [Worker.take]
          split <;> rfl
      | shutdown => rfl
      | commit expected next =>
          simp only [Worker.take]
          split
          · rfl
          · split
            · rfl
            · split <;> rfl
  | @finished job verdict worker result hstage hsound hfinishing =>
      have hjob : daemon.worker.job = some job := by rw [Worker.job, hstage]
      have hvector := (finishing_finished hfinishing).vector
      have hperformed : (daemon.worker.performed job verdict).vector =
          (job.execute daemon.worker.window verdict).1.elim daemon.worker.vector Window.items :=
        performed_vector daemon.worker job verdict
      have hwindowing := Job.execute_window daemon.worker.window job verdict
      generalize (job.execute daemon.worker.window verdict).1 = after at *
      cases hwindowing with
      | kept =>
          refine Or.inr (hvector.trans (hperformed.trans ?_))
          cases hwindow : daemon.worker.window with
          | none => rfl
          | some window => exact (hdaemon.window window hwindow).1
      | opened hopen =>
          refine Or.inl (hdaemon.opening ?_).2
          rw [openings, hjob]
          simp [hopen]
      | closed => exact Or.inr (hvector.trans hperformed)
  | _ => exact Or.inr rfl

/-- Paging over every run: the flushed entries are an initial part of the result
vector, without repetition, and so they stay with the entries of the reply in
the slot.  The cursor is never beyond them and equals their number when no
update is under way; it moves only by the update of a flushed page, and no
update is ever stale.  An expansion is given only for a flushed item. -/
theorem paging (clock : Instant) (moves : List (Move wire)) :
    ((run clock moves).flushed <+: entriesOf (run clock moves).worker.vector ∧
      ((run clock moves).flushed.map WindowEntry.itemIndex).Nodup ∧
      ((run clock moves).loop.Live → ∀ output, (run clock moves).loop.exchange.output = some output →
        (run clock moves).flushed ++ output.ready.entries <+:
          entriesOf (run clock moves).worker.vector) ∧
      ∀ move, (run clock moves).worker.vector = [] ∨
        (run clock (moves ++ [move])).worker.vector = (run clock moves).worker.vector) ∧
    (∀ window, (run clock moves).worker.window = some window →
      window.items = (run clock moves).worker.vector ∧
      window.cursor.toNat ≤ (run clock moves).flushed.length ∧
      (commitsOf (run clock moves).queue = [] →
        window.cursor.toNat = (run clock moves).flushed.length) ∧
      ∀ move moved, (run clock (moves ++ [move])).worker.window = some moved →
        moved.cursor ≠ window.cursor →
          ∃ output ∈ (run clock moves).loop.delivered,
            output.ready.commit = some (window.cursor, moved.cursor)) ∧
    (∀ limit expected next queue, (run clock moves).worker.stage = .waiting limit →
      (run clock moves).queue = .commit expected next :: queue →
        ∃ window moved, (run clock moves).worker.window = some window ∧
          window.commitPage expected next = .ok moved) ∧
    ∀ job ready expansion, (job, some (.ok ready)) ∈ (run clock moves).answers →
      ready.reply.outcome = .expanded expansion →
        ∃ requestId remainingMs windowId itemIndex beforeBytes afterBytes,
          job.message = .expand requestId remainingMs windowId itemIndex beforeBytes afterBytes ∧
            itemIndex.toNat < (run clock moves).flushed.length := by
  have hpaging : (run clock moves : Daemon wire).Paging := paging_run clock moves
  have hlast (move : Move wire) : Stepping ((run clock moves).advance move) move.action
      (run clock (moves ++ [move])) := by
    rw [run_append]
    exact ((run clock moves).advance move).perform_stepping move.action
  refine ⟨⟨hpaging.flushed, ?_, ?_, ?_⟩, ?_, ?_, hpaging.expanded⟩
  · have hindexes := Window.entriesOf_index (run clock moves).worker.vector hpaging.fits
    have hnodup : ((entriesOf (run clock moves).worker.vector).map fun entry =>
        entry.itemIndex.toNat).Nodup := by
      rw [hindexes]
      exact List.nodup_range
    have hflushed := (hpaging.flushed.map fun entry => entry.itemIndex.toNat).sublist.nodup hnodup
    refine List.Nodup.of_map UInt8.toNat ?_
    rw [List.map_map]
    exact hflushed
  · exact fun hlive output houtput => (hpaging.output hlive output houtput).follows.entries
  · exact fun move => (hlast move).vector (hpaging.advance move)
  · intro window hwindow
    obtain ⟨hitems, hcursor⟩ := hpaging.window window hwindow
    refine ⟨hitems, ?_, ?_, fun move moved hmoved hne =>
      (hlast move).cursor (hpaging.advance move) hwindow hmoved hne⟩
    · cases hcursor with
      | settled hnone hcursor => exact hcursor.le
      | behind hupdate hnext hle => exact hnext ▸ hle
    · intro hnone
      cases hcursor with
      | settled _ hcursor => exact hcursor
      | behind hupdate =>
          rw [hnone] at hupdate
          cases hupdate
  · intro limit expected next queue hstage hqueue
    obtain ⟨window, moved, hwindow, hmoved, -⟩ := hpaging.commits hstage hqueue
    exact ⟨window, moved, hwindow, hmoved⟩

end Daemon

end EliotSearch.Session
