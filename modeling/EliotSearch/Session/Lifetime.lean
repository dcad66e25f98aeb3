import EliotSearch.Session.Flushed

/-!
# The lifetime of a window

The loop fixes the end of the lifetime when it accepts an Open, and the worker
learns it with the job.  So a worker that leaves because the lifetime has passed
leaves a loop for which it has passed too, and a reply that ends the session
tells why the worker left.
-/

namespace EliotSearch.Session

open EliotSearch.Library

variable {wire : Wire}

/-- What a reply tells about the worker: it goes on, or it has left because the
window was closed or because its lifetime has passed. -/
inductive Ready.Standing (departure : Option Departure) (ready : Ready wire) : Prop where
  | lasting (hends : ready.ends = false) (hexpired : ready.reply.outcome.isExpired = false)
  | closed (hends : ready.ends = true) (hcommit : ready.commit = none)
      (houtcome : ready.reply.outcome = .closed) (hleft : departure = some .ending)
  | expired (hends : ready.ends = true) (hcommit : ready.commit = none)
      (houtcome : ready.reply.outcome = .expired) (hleft : departure = some .lifetime)

namespace Ready

theorem IsFailure.lasting {ready : Ready wire} (hfailed : ready.IsFailure) :
    ready.ends = false ∧ ready.reply.outcome.isExpired = false := by
  obtain ⟨hfailure, -, hends⟩ := hfailed
  refine ⟨hends, ?_⟩
  cases houtcome : ready.reply.outcome with
  | expired =>
      rw [houtcome] at hfailure
      cases hfailure
  | _ => rfl

theorem IsFailure.standing {ready : Ready wire} (hfailed : ready.IsFailure)
    (departure : Option Departure) : ready.Standing departure :=
  .lasting hfailed.lasting.1 hfailed.lasting.2

/-- A worker that has left does not leave again. -/
theorem Standing.later {ready : Ready wire} {departure later : Option Departure}
    (hready : ready.Standing departure) (hkept : departure.isSome = true → later = departure) :
    ready.Standing later := by
  cases hready with
  | lasting hends hexpired => exact .lasting hends hexpired
  | closed hends hcommit houtcome hleft =>
      exact .closed hends hcommit houtcome ((hkept (by rw [hleft]; rfl)).trans hleft)
  | expired hends hcommit houtcome hleft =>
      exact .expired hends hcommit houtcome ((hkept (by rw [hleft]; rfl)).trans hleft)

/-- A reply about an expired window comes from a worker that left for it. -/
theorem Standing.lifetime {ready : Ready wire} {departure : Option Departure}
    (hready : ready.Standing departure) (hexpired : ready.reply.outcome.isExpired = true) :
    departure = some .lifetime := by
  cases hready with
  | lasting _ hlasting =>
      rw [hexpired] at hlasting
      cases hlasting
  | closed _ _ houtcome _ =>
      rw [houtcome] at hexpired
      cases hexpired
  | expired _ _ _ hleft => exact hleft

end Ready

/-- A reply that ends the session is the one to a Close. -/
theorem Reporting.standing {job : Job wire} {window : Option (Window wire)} {ready : Ready wire}
    (hreport : Reporting job window ready) :
    (ready.ends = false ∧ ready.reply.outcome.isExpired = false) ∨
      (ready.ends = true ∧ ready.commit = none ∧ ready.reply.outcome = .closed) := by
  cases hreport with
  | failed hfailed => exact Or.inl hfailed.lasting
  | page hwindow hslice =>
      obtain ⟨page, houtcome⟩ := hslice.outcome
      exact Or.inl ⟨hslice.ends, by rw [houtcome]; rfl⟩
  | expanded hwindow hbelow hjob hexpanded hcommit hends =>
      exact Or.inl ⟨hends, by rw [hexpanded]; rfl⟩
  | closed hjob hclosed hcommit hends => exact Or.inr ⟨hends, hcommit, hclosed⟩

namespace Worker

/-- Finishing a job does not change the lifetime; the reply tells whether the
worker leaves, and why. -/
theorem Finishing.standing {now : Instant} {job : Job wire} {worker next : Worker wire}
    {result : Except Bytes (Ready wire)} (hfinishing : Finishing now job worker next result) :
    next.expires = worker.expires ∧
      (∀ limit, next.stage = .waiting limit → ∀ expires ∈ next.expires, expires ≤ limit) ∧
      (next.departure = some .lifetime → worker.Expired now) ∧
      ∀ ready, result = .ok ready → ready.reply.requestId = job.message.requestId ∧
        ready.Standing next.departure := by
  have hwaits : ∀ limit, (worker.wait now).stage = .waiting limit →
      ∀ expires ∈ (worker.wait now).expires, expires ≤ limit := by
    rintro _ ⟨⟩ expires hexpires
    rw [show worker.expires = some expires from hexpires]
    exact le_rfl
  cases hfinishing with
  | lifetime hexpired hreply hcommit hends =>
      refine ⟨rfl, by rintro _ ⟨⟩, fun _ => hexpired, ?_⟩
      rintro _ ⟨⟩
      refine ⟨by rw [hreply], .expired hends hcommit (by rw [hreply]) rfl⟩
  | ending hlasting hid hreport hends =>
      refine ⟨rfl, by rintro _ ⟨⟩, by rintro ⟨⟩, ?_⟩
      rintro _ ⟨⟩
      rcases hreport.standing with ⟨hcontra, -⟩ | ⟨-, hcommit, hclosed⟩
      · rw [hends] at hcontra
        cases hcontra
      · exact ⟨hid, .closed hends hcommit hclosed rfl⟩
  | replied hlasting hid hreport hends =>
      refine ⟨rfl, hwaits, by rintro ⟨⟩, ?_⟩
      rintro _ ⟨⟩
      rcases hreport.standing with hlasts | ⟨hcontra, -⟩
      · exact ⟨hid, .lasting hlasts.1 hlasts.2⟩
      · rw [hends] at hcontra
        cases hcontra
  | unreported hlasting => exact ⟨rfl, hwaits, by rintro ⟨⟩, by rintro _ ⟨⟩⟩

end Worker

/-! ## The loop -/

/-- The loop is past the check of the lifetime at its head. -/
def Phase.isUnderway : Phase wire → Bool
  | .selecting _ => true
  | .consuming _ => true
  | .flushing => true
  | .resuming _ => true
  | _ => false

namespace Loop

/-- The slot holds the reply of an expired window. -/
def ShowsExpiry (loop : Loop wire) : Prop :=
  ∃ output ∈ loop.exchange.output, output.ready.reply.outcome.isExpired = true

/-- A reply of an expired window is never followed by a branch: the check at the
head of the loop comes first. -/
theorem Reaction.shows {loop next : Loop wire} {event : Event wire}
    {command : Option (Command wire)} (hreaction : Reaction loop event next command)
    (hloop : loop.ShowsExpiry → loop.Expired ∧ loop.phase.isUnderway = false)
    (hnext : next.ShowsExpiry) : next.phase.isUnderway = false := by
  have hcontra {phase : Phase wire} (hphase : loop.phase = phase)
      (hunderway : phase.isUnderway = true) (hshows : loop.ShowsExpiry) : False := by
    have hnot := (hloop hshows).2
    rw [hphase, hunderway] at hnot
    cases hnot
  cases hreaction with
  | ignored => exact (hloop hnext).2
  | selecting hphase hlasting => exact absurd (hloop hnext).1 hlasting
  | read hphase => exact (hcontra hphase rfl hnext).elim
  | @frame _ bytes rest exchange job hphase hconsume halive =>
      obtain ⟨output, houtput, hexpired⟩ := hnext
      have hshows : loop.ShowsExpiry := by
        cases hconsume.trading with
        | quiet hactive hkeeps =>
            rcases hkeeps output houtput with ⟨before, hbefore, hcontinues⟩ | ⟨-, hfailed⟩
            · rcases hcontinues.ready with hsame | ⟨-, hfailed, -⟩
              · exact ⟨before, hbefore, hsame ▸ hexpired⟩
              · rw [hfailed.lasting.2] at hexpired
                cases hexpired
            · rw [hfailed.lasting.2] at hexpired
              cases hexpired
        | sent hsends =>
            rw [hsends.output] at houtput
            cases houtput
      exact (hcontra hphase rfl hshows).elim
  | flushing hphase => exact (hcontra hphase rfl hnext).elim
  | committed =>
      obtain ⟨output, houtput, -⟩ := hnext
      cases houtput
  | unasked hphase hactive houtput hexpired hdrain =>
      obtain ⟨ready, -, rfl⟩ := hdrain
      rfl
  | joined hphase hwhole hdrain =>
      obtain ⟨ready, -, rfl⟩ := hdrain
      rfl
  | drained hphase => rw [hphase]; rfl
  | _ => rfl

/-- The end of a lifetime is fixed once, and the job of an Open carries it. -/
theorem Traffic.expires {loop next : Loop wire} {event : Event wire}
    {command : Option (Command wire)} (htraffic : Traffic loop event next command)
    (hclosed : loop.exchange.opened = false → loop.exchange.expires = none) :
    (next.exchange.opened = false → next.exchange.expires = none) ∧
      (∀ expires, loop.exchange.expires = some expires → next.exchange.expires = some expires) ∧
      ∀ job, dispatched command = some job → ∀ expires, job.expires = some expires →
        next.exchange.expires = some expires := by
  have hkept (hopened : next.exchange.opened = loop.exchange.opened)
      (hexpires : next.exchange.expires = loop.exchange.expires) :
      (next.exchange.opened = false → next.exchange.expires = none) ∧
        ∀ expires, loop.exchange.expires = some expires →
          next.exchange.expires = some expires := by
    rw [hopened, hexpires]
    exact ⟨hclosed, fun _ => id⟩
  cases htraffic with
  | quiet htrading hdelivered hcommand =>
      cases htrading with
      | quiet hactive houtput hissued hopened hexpires =>
          refine ⟨(hkept hopened hexpires).1, (hkept hopened hexpires).2, ?_⟩
          intro job hjob
          rcases hcommand with rfl | rfl <;> cases hjob
  | @sent event _ job hsends halive hdelivered =>
      rcases hsends.expires with ⟨hopen, hexpires⟩ | ⟨hnone, hexpires⟩
      · refine ⟨?_, ?_, ?_⟩
        · rw [hsends.opened, hopen, Bool.or_true]
          rintro ⟨⟩
        · rw [hclosed (hsends.fresh hopen)]
          rintro _ ⟨⟩
        · rintro _ ⟨⟩ expires hfound
          exact hexpires.symm.trans hfound
      · refine ⟨?_, ?_, ?_⟩
        · intro hnext
          rw [hsends.opened, Bool.or_eq_false_iff] at hnext
          rw [hexpires]
          exact hclosed hnext.1
        · rw [hexpires]
          exact fun _ => id
        · rintro _ ⟨⟩ expires hfound
          rw [hnone] at hfound
          cases hfound
  | answered hactive hanswer hidle houtput hready hissued hopened hexpires hdelivered =>
      exact ⟨(hkept hopened hexpires).1, (hkept hopened hexpires).2, by rintro _ ⟨⟩⟩
  | @flushed alive _ output hlive houtput halive hactive hnone hissued hopened hexpires
      hdelivered =>
      refine ⟨(hkept hopened hexpires).1, (hkept hopened hexpires).2, ?_⟩
      intro job hjob
      cases hcommit : output.ready.commit with
      | none =>
          rw [hcommit] at hjob
          cases hjob
      | some update =>
          rw [hcommit] at hjob
          cases hjob

/-- A new end of the lifetime is sent with a job. -/
theorem Traffic.expires_cases {loop next : Loop wire} {event : Event wire}
    {command : Option (Command wire)} (htraffic : Traffic loop event next command)
    {expires : Instant} (hexpires : next.exchange.expires = some expires) :
    loop.exchange.expires = some expires ∨
      ∃ job, dispatched command = some job ∧ job.expires = some expires := by
  cases htraffic with
  | quiet htrading hdelivered hcommand =>
      cases htrading with
      | quiet hactive houtput hissued hopened hsame => exact Or.inl (hsame.symm.trans hexpires)
  | @sent event _ job hsends halive hdelivered =>
      rcases hsends.expires with ⟨-, hgiven⟩ | ⟨-, hsame⟩
      · exact Or.inr ⟨job, rfl, hgiven.trans hexpires⟩
      · exact Or.inl (hsame.symm.trans hexpires)
  | answered _ _ _ _ _ _ _ hsame => exact Or.inl (hsame.symm.trans hexpires)
  | flushed _ _ _ _ _ _ _ hsame => exact Or.inl (hsame.symm.trans hexpires)

end Loop

/-! ## The daemon -/

namespace Daemon

/-- The worker knows the lifetime of the loop or is going to, leaves no earlier,
and its replies tell why it left. -/
structure Lifetime (daemon : Daemon wire) : Prop where
  ordered : daemon.Ordered
  unopened : daemon.loop.exchange.opened = false → daemon.loop.exchange.expires = none
  worker : ∀ expires, daemon.worker.expires = some expires →
    daemon.loop.exchange.expires = some expires
  jobs : ∀ job ∈ daemon.jobs, ∀ expires, job.expires = some expires →
    daemon.loop.exchange.expires = some expires
  started : ∀ active, daemon.loop.exchange.active = some active → ∀ job ∈ daemon.jobs,
    job.serial = active.serial → job.Starts active
  waiting : ∀ limit, daemon.worker.stage = .waiting limit → ∀ expires ∈ daemon.worker.expires,
    expires ≤ limit
  informed : daemon.worker.departure = none →
    ∀ expires, daemon.loop.exchange.expires = some expires →
      daemon.worker.expires = some expires ∨
        ∃ job ∈ jobsOf daemon.queue, job.expires = some expires
  departed : daemon.worker.departure = some .lifetime → daemon.loop.Expired
  answers : ∀ job ready, (job, some (.ok ready)) ∈ daemon.answers →
    ready.reply.requestId = job.message.requestId ∧ ready.Standing daemon.worker.departure
  slot : ∀ output, daemon.loop.exchange.output = some output →
    output.ready.Standing daemon.worker.departure
  shows : daemon.loop.ShowsExpiry → daemon.loop.phase.isUnderway = false
  delivered : ∀ output ∈ daemon.loop.delivered, output.ready.reply.outcome.isExpired = false

theorem lifetime_start (clock : Instant) : (start clock : Daemon wire).Lifetime where
  ordered := ordered_start clock
  unopened _ := rfl
  worker _ hexpires := by cases hexpires
  jobs _ hmem := by cases hmem
  started _ hactive := by cases hactive
  waiting _ _ _ hexpires := by cases hexpires
  informed _ _ hexpires := by cases hexpires
  departed hleft := by cases hleft
  answers _ _ hmem := by cases hmem
  slot _ houtput := by cases houtput
  shows := by
    rintro ⟨output, houtput, -⟩
    cases houtput
  delivered _ hmem := by cases hmem

/-- A worker whose lifetime has passed serves a loop for which it has passed. -/
theorem Lifetime.expired {daemon : Daemon wire} (hdaemon : daemon.Lifetime) {now : Instant}
    (hexpired : daemon.worker.Expired now) (hnow : now ≤ daemon.loop.clock) :
    daemon.loop.Expired := by
  obtain ⟨expires, hexpires, hpassed⟩ := hexpired
  exact ⟨expires, hdaemon.worker expires hexpires, hpassed.trans hnow⟩

theorem Lifetime.advance {daemon : Daemon wire} (hdaemon : daemon.Lifetime) (move : Move wire) :
    (daemon.advance move).Lifetime where
  ordered := hdaemon.ordered.advance move
  unopened := hdaemon.unopened
  worker := hdaemon.worker
  jobs := hdaemon.jobs
  started := hdaemon.started
  waiting := hdaemon.waiting
  informed := hdaemon.informed
  departed hleft := by
    obtain ⟨expires, hexpires, hpassed⟩ := hdaemon.departed hleft
    exact ⟨expires, hexpires, hpassed.trans (Nat.le_add_right _ _)⟩
  answers := hdaemon.answers
  slot := hdaemon.slot
  shows := hdaemon.shows
  delivered := hdaemon.delivered

/-- A step of the worker that keeps the loop. -/
theorem Lifetime.works {daemon next : Daemon wire} (hdaemon : daemon.Lifetime)
    (hordered : next.Ordered) (hloop : next.loop = daemon.loop) (hjobs : next.jobs = daemon.jobs)
    (hworker : ∀ expires, next.worker.expires = some expires →
      daemon.loop.exchange.expires = some expires)
    (hwaiting : ∀ limit, next.worker.stage = .waiting limit →
      ∀ expires ∈ next.worker.expires, expires ≤ limit)
    (hinformed : next.worker.departure = none →
      ∀ expires, daemon.loop.exchange.expires = some expires →
        next.worker.expires = some expires ∨ ∃ job ∈ jobsOf next.queue, job.expires = some expires)
    (hleft : daemon.worker.departure.isSome = true →
      next.worker.departure = daemon.worker.departure)
    (hdeparted : next.worker.departure = some .lifetime → daemon.loop.Expired)
    (hanswers : ∀ job ready, (job, some (.ok ready)) ∈ next.answers →
      (job, some (.ok ready)) ∈ daemon.answers ∨
        (ready.reply.requestId = job.message.requestId ∧
          ready.Standing next.worker.departure)) : next.Lifetime where
  ordered := hordered
  unopened := by
    rw [hloop]
    exact hdaemon.unopened
  worker := by
    rw [hloop]
    exact hworker
  jobs := by
    rw [hloop, hjobs]
    exact hdaemon.jobs
  started := by
    rw [hloop, hjobs]
    exact hdaemon.started
  waiting := hwaiting
  informed := by
    rw [hloop]
    exact hinformed
  departed := by
    rw [hloop]
    exact hdeparted
  answers job ready hmem := by
    rcases hanswers job ready hmem with hbefore | hnew
    · obtain ⟨hid, hstanding⟩ := hdaemon.answers job ready hbefore
      exact ⟨hid, hstanding.later hleft⟩
    · exact hnew
  slot := by
    rw [hloop]
    exact fun output houtput => (hdaemon.slot output houtput).later hleft
  shows := by
    rw [hloop]
    exact hdaemon.shows
  delivered := by
    rw [hloop]
    exact hdaemon.delivered

/-- The worker goes on waiting, or leaves without a reply. -/
theorem take_commit (now : Instant) (expected next : UInt8) (worker : Worker wire) :
    ∃ after, worker.take now (.commit expected next) = (after, none) ∧
      after.expires = worker.expires ∧
      (∀ limit, after.stage = .waiting limit → ∀ expires ∈ after.expires, expires ≤ limit) ∧
      (after.departure = some .lifetime → worker.Expired now) := by
  simp only [Worker.take]
  split
  · rename_i hexpired
    exact ⟨_, rfl, rfl, by rintro _ ⟨⟩, fun _ => hexpired⟩
  · split
    · exact ⟨_, rfl, rfl, by rintro _ ⟨⟩, by rintro ⟨⟩⟩
    · split
      · rename_i moved hmoved
        refine ⟨_, rfl, rfl, ?_, by rintro ⟨⟩⟩
        rintro _ ⟨⟩ expires hexpires
        have hlimit : worker.expires = some expires := hexpires
        change expires ≤ worker.expires.getD _
        rw [hlimit]
        exact le_rfl
      · exact ⟨_, rfl, rfl, by rintro _ ⟨⟩, by rintro ⟨⟩⟩

theorem Stepping.lifetime_taken {daemon : Daemon wire} (hdaemon : daemon.Lifetime)
    {limit : Instant} {command : Command wire} {queue : List (Command wire)}
    (hstage : daemon.worker.stage = .waiting limit) (hqueue : daemon.queue = command :: queue)
    (hordered : (daemon.perform .take).Ordered) : (daemon.perform .take).Lifetime := by
  have htaken : daemon.perform .take = { daemon with
      worker := (daemon.worker.take daemon.loop.clock command).1
      queue
      answers := daemon.answers ++ (daemon.worker.take daemon.loop.clock command).2.toList.map
        fun taken => (taken.1, some taken.2) } := by
    simp only [perform, Daemon.event, take, hstage, hqueue]
  have hjobs : (daemon.perform .take).jobs = daemon.jobs :=
    (daemon.perform_stepping .take).jobs_eq rfl
  have hstays : daemon.worker.departure = none := by rw [Worker.departure, hstage]
  have hleft {departure : Option Departure} (hsome : daemon.worker.departure.isSome = true) :
      departure = daemon.worker.departure := by
    rw [hstays] at hsome
    cases hsome
  rw [htaken] at hordered hjobs ⊢
  cases command with
  | shutdown =>
      refine hdaemon.works hordered rfl hjobs hdaemon.worker (by rintro _ ⟨⟩) (by rintro ⟨⟩) hleft
        (by rintro ⟨⟩) fun job ready hmem => Or.inl ?_
      simpa [Worker.take] using hmem
  | commit expected next =>
      obtain ⟨after, htake, hexpires, hwaiting, hdeparted⟩ :=
        take_commit daemon.loop.clock expected next daemon.worker
      rw [htake] at hordered hjobs ⊢
      refine hdaemon.works hordered rfl hjobs ?_ hwaiting ?_ hleft
        (fun hlifetime => hdaemon.expired (hdeparted hlifetime) le_rfl)
        fun job ready hmem => Or.inl ?_
      · intro expires hafter
        exact hdaemon.worker expires (hexpires.symm.trans hafter)
      · intro _ expires hfound
        rw [hexpires]
        have hbefore := hdaemon.informed hstays expires hfound
        rw [hqueue] at hbefore
        exact hbefore
      · simpa using hmem
  | execute job =>
      have hmem : job ∈ daemon.jobs := by
        rw [jobs, hqueue, jobsOf_cons]
        exact List.mem_append_right _ (List.mem_cons_self ..)
      by_cases hexpired : daemon.worker.Expired daemon.loop.clock
      · simp only [Worker.take, if_pos hexpired] at hordered hjobs ⊢
        refine hdaemon.works hordered rfl hjobs hdaemon.worker (by rintro _ ⟨⟩) (by rintro ⟨⟩) hleft
          (fun _ => hdaemon.expired hexpired le_rfl) ?_
        intro found ready hfound
        rcases List.mem_append.mp hfound with hbefore | hnew
        · exact Or.inl hbefore
        · simp only [Option.toList_some, List.map_cons, List.map_nil, List.mem_singleton,
            Prod.mk.injEq, Option.some.injEq] at hnew
          obtain ⟨rfl, hready⟩ := hnew
          obtain ⟨hreply, hcommit, hends⟩ := outcome_eq_ok hready.symm
          exact Or.inr ⟨by rw [hreply], .expired hends hcommit (by rw [hreply]) rfl⟩
      · simp only [Worker.take, if_neg hexpired] at hordered hjobs ⊢
        refine hdaemon.works hordered rfl hjobs ?_ (by rintro _ ⟨⟩) ?_ hleft (by rintro ⟨⟩)
          fun found ready hfound => Or.inl ?_
        · intro expires hfound
          cases hgiven : job.expires with
          | some given =>
              rw [hgiven] at hfound
              exact hdaemon.jobs job hmem expires (hgiven.trans hfound)
          | none =>
              rw [hgiven] at hfound
              exact hdaemon.worker expires hfound
        · intro _ expires hfound
          cases hgiven : job.expires with
          | some given =>
              have hsame := (hdaemon.jobs job hmem given hgiven).symm.trans hfound
              exact Or.inl hsame
          | none =>
              have hbefore := hdaemon.informed hstays expires hfound
              rw [hqueue, jobsOf_cons] at hbefore
              rcases hbefore with hknown | ⟨later, hlater, hexpires⟩
              · exact Or.inl hknown
              · rcases List.mem_cons.mp hlater with rfl | hrest
                · rw [hgiven] at hexpires
                  cases hexpires
                · exact Or.inr ⟨later, hrest, hexpires⟩
        · simpa using hfound

theorem Stepping.lifetime_worker {daemon next : Daemon wire} {action : Action wire}
    (hstep : Stepping daemon action next) (hdaemon : daemon.Lifetime)
    (hnext : next = daemon.perform action) (hworker : daemon.event action = none) :
    next.Lifetime := by
  have hordered : next.Ordered := hstep.ordered hdaemon.ordered
  have hjobs : next.jobs = daemon.jobs := hstep.jobs_eq hworker
  have hstays {departure : Option Departure} (hnone : daemon.worker.departure = none)
      (hsome : daemon.worker.departure.isSome = true) : departure = daemon.worker.departure := by
    rw [hnone] at hsome
    cases hsome
  cases hstep with
  | idle => exact hdaemon
  | loop hevent =>
      rw [hworker] at hevent
      cases hevent
  | taken hstage hqueue =>
      rw [hnext] at hordered ⊢
      exact lifetime_taken hdaemon hstage hqueue hordered
  | @finished job verdict worker result hstage hsound hfinishing =>
      have hnone : daemon.worker.departure = none := by rw [Worker.departure, hstage]
      obtain ⟨hexpires, hwaiting, hdeparted, hreply⟩ := hfinishing.standing
      refine hdaemon.works hordered rfl hjobs ?_ hwaiting ?_ (hstays hnone)
        (fun hlifetime => hdaemon.expired (hdeparted hlifetime) le_rfl) ?_
      · intro expires hfound
        exact hdaemon.worker expires (hexpires.symm.trans hfound)
      · intro _ expires hfound
        rw [hexpires]
        exact hdaemon.informed hnone expires hfound
      · intro found ready hmem
        rcases List.mem_append.mp hmem with hbefore | hnew
        · exact Or.inl hbefore
        · obtain ⟨rfl, hresult⟩ := Prod.mk.inj (List.mem_singleton.mp hnew)
          exact Or.inr (hreply ready (Option.some.inj hresult).symm)
  | @timedOut limit hstage hlimit =>
      have hnone : daemon.worker.departure = none := by rw [Worker.departure, hstage]
      refine hdaemon.works hordered rfl hjobs hdaemon.worker (by rintro _ ⟨⟩) (by rintro ⟨⟩)
        (hstays hnone) ?_ fun found ready => Or.inl
      intro hleft
      -- only a worker that knows the lifetime leaves for it
      cases hexpires : daemon.worker.expires with
      | none =>
          simp only [Worker.timeOut, Worker.leave, Worker.departure, hexpires] at hleft
          cases hleft
      | some expires =>
          have hpassed := (hdaemon.waiting limit hstage expires hexpires).trans hlimit
          exact hdaemon.expired ⟨expires, hexpires, hpassed⟩ le_rfl
  | @signalled departure hstage =>
      have hsame : daemon.worker.departure = some departure := by rw [Worker.departure, hstage]
      exact hdaemon.works hordered rfl hjobs hdaemon.worker (by rintro _ ⟨⟩) (by rintro ⟨⟩)
        (fun _ => hsame.symm) (fun hleft => hdaemon.departed (hsame.trans hleft)) fun found ready => Or.inl
  | @dropped departure hstage =>
      have hsame : daemon.worker.departure = some departure := by rw [Worker.departure, hstage]
      refine hdaemon.works hordered rfl hjobs hdaemon.worker (by rintro _ ⟨⟩) (by rintro ⟨⟩)
        (fun _ => hsame.symm) (fun hleft => hdaemon.departed (hsame.trans hleft)) fun found ready hmem => Or.inl ?_
      rcases List.mem_append.mp hmem with hbefore | hnew
      · exact hbefore
      · obtain ⟨job, -, hpair⟩ := List.mem_map.mp hnew
        cases hpair

/-! ## Steps of the loop -/

/-- The job with the number of the active operation was sent for it. -/
theorem Lifetime.loop_started {daemon : Daemon wire} (hdaemon : daemon.Lifetime) {event : Event wire}
    {next : Loop wire} {command : Option (Command wire)}
    (htraffic : Loop.Traffic daemon.loop event next command) :
    ∀ active, next.exchange.active = some active →
      ∀ job ∈ daemon.jobs ++ (Loop.dispatched command).toList,
        job.serial = active.serial → job.Starts active := by
  have hbefore {active : Active} {job : Job wire} {found : Active}
      (hfound : daemon.loop.exchange.active = some found) (hsame : found.Same active)
      (hmem : job ∈ daemon.jobs) (hserial : job.serial = active.serial) : job.Starts active := by
    have hstarts := hdaemon.started found hfound job hmem (hserial.trans hsame.serial_eq.symm)
    exact ⟨hstarts.id_eq.trans hsame.id_eq, hstarts.data_eq.trans hsame.data_eq, hserial⟩
  intro active hactive job hmem hserial
  cases htraffic with
  | quiet htrading hdelivered hcommand =>
      have hnone : Loop.dispatched command = none := by
        rcases hcommand with rfl | rfl <;> rfl
      rw [hnone, Option.toList_none, List.append_nil] at hmem
      cases htrading with
      | quiet hkeeps =>
          obtain ⟨found, hfound, hsame⟩ := hkeeps.active active hactive
          exact hbefore hfound hsame hmem hserial
  | @sent event _ sent hsends halive hdelivered =>
      obtain ⟨found, hfound, hstarts⟩ := hsends.active
      obtain rfl := Option.some.inj (hfound.symm.trans hactive)
      rcases List.mem_append.mp hmem with hold | hnew
      · have hlt := hdaemon.ordered.serial_lt hold
        rw [hserial, ← hstarts.serial_eq, hsends.serial] at hlt
        exact absurd hlt (lt_irrefl _)
      · obtain rfl := List.mem_singleton.mp hnew
        exact hstarts
  | answered _ _ hidle =>
      rw [hidle] at hactive
      cases hactive
  | flushed _ _ _ hidle =>
      rw [hidle.2] at hactive
      cases hactive

/-- The worker knows the lifetime or finds it in the queue. -/
theorem Lifetime.loop_informed {daemon : Daemon wire} (hdaemon : daemon.Lifetime)
    {event : Event wire} {next : Loop wire} {command : Option (Command wire)}
    (htraffic : Loop.Traffic daemon.loop event next command)
    (hstays : daemon.worker.departure = none) :
    ∀ expires, next.exchange.expires = some expires → daemon.worker.expires = some expires ∨
      ∃ job ∈ jobsOf (send command { daemon with loop := next }).queue,
        job.expires = some expires := by
  have halive : daemon.worker.alive = true := by
    unfold Worker.alive
    split
    · rename_i hstage
      rw [Worker.departure, hstage] at hstays
      cases hstays
    · rfl
  intro expires hexpires
  rw [send_jobs command { daemon with loop := next } fun _ => halive]
  rcases htraffic.expires_cases hexpires with hbefore | ⟨job, hjob, hgiven⟩
  · rcases hdaemon.informed hstays expires hbefore with hknown | ⟨job, hmem, hgiven⟩
    · exact Or.inl hknown
    · exact Or.inr ⟨job, List.mem_append_left _ hmem, hgiven⟩
  · exact Or.inr ⟨job, List.mem_append_right _ (Option.mem_toList.mpr hjob), hgiven⟩

/-- What the slot tells about the worker. -/
theorem Lifetime.loop_slot {daemon : Daemon wire} (hdaemon : daemon.Lifetime) {action : Action wire}
    {event : Event wire} {next : Loop wire} {command : Option (Command wire)}
    (hevent : daemon.event action = some event)
    (htraffic : Loop.Traffic daemon.loop event next command) :
    ∀ output, next.exchange.output = some output →
      output.ready.Standing daemon.worker.departure := by
  intro output houtput
  cases htraffic with
  | quiet htrading hdelivered hcommand =>
      cases htrading with
      | quiet hactive hkeeps =>
          rcases hkeeps output houtput with ⟨before, hbefore, hcontinues⟩ | ⟨-, hfailed⟩
          · rcases hcontinues.ready with hsame | ⟨-, hfailed, -⟩
            · rw [hsame]
              exact hdaemon.slot before hbefore
            · exact hfailed.standing _
          · exact hfailed.standing _
  | sent hsends =>
      rw [hsends.output] at houtput
      cases houtput
  | answered hactive hanswer hidle hfound hready =>
      obtain rfl := Option.some.inj (hfound.symm.trans houtput)
      obtain ⟨active, job, -, hmem, -⟩ := event_reply hevent
      rw [hready]
      cases hanswer with
      | kept => exact (hdaemon.answers job _ hmem).2
      | stopped _ _ hfailed => exact hfailed.standing _
  | flushed _ _ _ _ hnone =>
      rw [hnone] at houtput
      cases houtput

/-- The reply of an expired window is not flushed by the loop. -/
theorem Lifetime.loop_delivered {daemon : Daemon wire} (hdaemon : daemon.Lifetime) {event : Event wire}
    {next : Loop wire} {command : Option (Command wire)}
    (hreaction : Loop.Reaction daemon.loop event next command) :
    ∀ output ∈ next.delivered, output.ready.reply.outcome.isExpired = false := by
  have hkept (hsame : next.delivered = daemon.loop.delivered) :
      ∀ output ∈ next.delivered, output.ready.reply.outcome.isExpired = false := by
    rw [hsame]
    exact hdaemon.delivered
  cases hreaction.traffic hdaemon.ordered.integral with
  | quiet htrading hdelivered => exact hkept hdelivered
  | sent hsends halive hdelivered => exact hkept hdelivered
  | answered _ _ _ _ _ _ _ _ hdelivered => exact hkept hdelivered
  | @flushed alive _ output hlive houtput halive hactive hnone hissued hopened hexpires
      hdelivered =>
      rw [hdelivered]
      intro found hmem
      rcases List.mem_append.mp hmem with hbefore | hnew
      · exact hdaemon.delivered found hbefore
      · obtain rfl := List.mem_singleton.mp hnew
        by_contra hexpired
        have hflushing : daemon.loop.phase = .flushing := by
          rcases hreaction.output_cases hdaemon.ordered.integral houtput with
            ⟨hsame, -⟩ | ⟨hphase, -⟩ | ⟨hsame, -⟩
          · exact absurd (hdelivered.symm.trans hsame) (by simp)
          · exact hphase
          · exact absurd (hdelivered.symm.trans hsame) (by simp)
        have hshows := hdaemon.shows ⟨found, houtput, Bool.eq_true_of_not_eq_false hexpired⟩
        rw [hflushing] at hshows
        cases hshows

theorem Stepping.lifetime_loop {daemon : Daemon wire} (hdaemon : daemon.Lifetime)
    {action : Action wire} {event : Event wire} {next : Loop wire}
    {command : Option (Command wire)} (hevent : daemon.event action = some event)
    (hreaction : Loop.Reaction daemon.loop event next command) :
    (send command { daemon with loop := next }).Lifetime := by
  have htraffic := hreaction.traffic hdaemon.ordered.integral
  obtain ⟨hunopened, hexpires, hsent⟩ := htraffic.expires hdaemon.unopened
  have hjobs := loop_jobs hdaemon.ordered hevent hreaction
  have hshows : daemon.loop.ShowsExpiry →
      daemon.loop.Expired ∧ daemon.loop.phase.isUnderway = false := by
    intro hshows
    obtain ⟨output, houtput, hexpired⟩ := hshows
    exact ⟨hdaemon.departed ((hdaemon.slot output houtput).lifetime hexpired),
      hdaemon.shows ⟨output, houtput, hexpired⟩⟩
  have hstarted := hdaemon.loop_started htraffic
  have hslot : ∀ output, next.exchange.output = some output →
      output.ready.Standing daemon.worker.departure := hdaemon.loop_slot hevent htraffic
  constructor
  · exact loop_ordered hdaemon.ordered hevent hreaction
  · rw [send_loop]
    exact hunopened
  · rw [send_loop, send_worker]
    exact fun expires hworker => hexpires expires (hdaemon.worker expires hworker)
  · rw [send_loop, hjobs]
    intro job hmem expires hfound
    rcases List.mem_append.mp hmem with hbefore | hnew
    · exact hexpires expires (hdaemon.jobs job hbefore expires hfound)
    · exact hsent job (Option.mem_toList.mp hnew) expires hfound
  · rw [send_loop, hjobs]
    intro active hactive job hmem hserial
    exact hstarted active hactive job hmem hserial
  · rw [send_worker]
    exact hdaemon.waiting
  · rw [send_loop, send_worker]
    exact hdaemon.loop_informed htraffic
  · rw [send_loop, send_worker]
    intro hleft
    obtain ⟨expires, hfound, hpassed⟩ := hdaemon.departed hleft
    exact ⟨expires, hexpires expires hfound, hreaction.clock ▸ hpassed⟩
  · rw [send_answers, send_worker]
    exact hdaemon.answers
  · rw [send_loop, send_worker]
    exact hslot
  · rw [send_loop]
    exact hreaction.shows hshows
  · rw [send_loop]
    exact hdaemon.loop_delivered hreaction

theorem Lifetime.after {daemon : Daemon wire} (hdaemon : daemon.Lifetime) (move : Move wire) :
    (daemon.after move).Lifetime := by
  have hadvanced := hdaemon.advance move
  have hstep := (daemon.advance move).perform_stepping move.action
  cases hevent : (daemon.advance move).event move.action with
  | none => exact hstep.lifetime_worker hadvanced rfl hevent
  | some event =>
      have hreaction := Loop.react_reaction (daemon.advance move).loop event
      have hafter : daemon.after move = send ((daemon.advance move).loop.react event).2
          { daemon.advance move with loop := ((daemon.advance move).loop.react event).1 } := by
        simp only [Daemon.after, perform, hevent]
      rw [hafter]
      exact Stepping.lifetime_loop hadvanced hevent hreaction

theorem lifetime_run (clock : Instant) (moves : List (Move wire)) :
    (run clock moves).Lifetime :=
  Runs.run_invariant (lifetime_start clock) (fun _ move hdaemon => hdaemon.after move) moves

end Daemon

end EliotSearch.Session
