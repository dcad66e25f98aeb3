import EliotSearch.Library.Lists
import EliotSearch.Session.Traffic

/-!
# The order of jobs

Jobs are numbered in the order they are sent, and the worker takes them in that
order.  Every job is in one place: its reply channel is answered or closed, the
worker performs it, or it waits in the queue.  While nothing is active, none of
them is with the worker.
-/

namespace EliotSearch.Session

open EliotSearch.Library

variable {wire : Wire}

/-- The cursor update of a command. -/
def Loop.updated : Option (Command wire) → Option (UInt8 × UInt8)
  | some (.commit expected next) => some (expected, next)
  | _ => none

theorem jobsOf_append (first second : List (Command wire)) :
    jobsOf (first ++ second) = jobsOf first ++ jobsOf second :=
  List.filterMap_append

theorem commitsOf_append (first second : List (Command wire)) :
    commitsOf (first ++ second) = commitsOf first ++ commitsOf second :=
  List.filterMap_append

theorem jobsOf_toList (command : Option (Command wire)) :
    jobsOf command.toList = (Loop.dispatched command).toList := by
  cases command with
  | none => rfl
  | some command => cases command <;> rfl

theorem commitsOf_toList (command : Option (Command wire)) :
    commitsOf command.toList = (Loop.updated command).toList := by
  cases command with
  | none => rfl
  | some command => cases command <;> rfl

namespace Daemon

theorem send_jobs (command : Option (Command wire)) (daemon : Daemon wire)
    (halive : (Loop.dispatched command).isSome = true → daemon.worker.alive = true) :
    jobsOf (send command daemon).queue =
      jobsOf daemon.queue ++ (Loop.dispatched command).toList := by
  unfold send
  split
  · rw [jobsOf_append, jobsOf_toList]
  · rename_i hgone
    have hnone : Loop.dispatched command = none := by
      cases hjob : Loop.dispatched command with
      | none => rfl
      | some job => exact absurd (halive (by rw [hjob]; rfl)) hgone
    rw [hnone, Option.toList_none, List.append_nil]

theorem send_commits (command : Option (Command wire)) (daemon : Daemon wire)
    (halive : (Loop.updated command).isSome = true → daemon.worker.alive = true) :
    commitsOf (send command daemon).queue =
      commitsOf daemon.queue ++ (Loop.updated command).toList := by
  unfold send
  split
  · rw [commitsOf_append, commitsOf_toList]
  · rename_i hgone
    have hnone : Loop.updated command = none := by
      cases hupdate : Loop.updated command with
      | none => rfl
      | some update => exact absurd (halive (by rw [hupdate]; rfl)) hgone
    rw [hnone, Option.toList_none, List.append_nil]

/-- What the loop is told about the receiving end of the queue is so. -/
theorem event_alive {daemon : Daemon wire} {action : Action wire} {event : Event wire}
    {alive : Bool} (hevent : daemon.event action = some event)
    (hsees : event.alive = some alive) : daemon.worker.alive = alive := by
  cases action with
  | frame =>
      obtain rfl := Option.some.inj hevent
      exact Option.some.inj hsees
  | commit =>
      obtain rfl := Option.some.inj hevent
      exact Option.some.inj hsees
  | resume =>
      obtain rfl := Option.some.inj hevent
      exact Option.some.inj hsees
  | reply =>
      obtain ⟨answer, -, rfl⟩ := Option.map_eq_some_iff.mp hevent
      cases hsees
  | done =>
      simp only [Daemon.event] at hevent
      split at hevent
      · obtain rfl := Option.some.inj hevent
        cases hsees
      · cases hevent
  | joined =>
      simp only [Daemon.event] at hevent
      split at hevent
      · obtain rfl := Option.some.inj hevent
        cases hsees
      · cases hevent
  | _ => cases hevent <;> cases hsees

/-- A reply that the loop takes is in the channel of the active operation. -/
theorem event_reply {daemon : Daemon wire} {action : Action wire} {answer : Answer wire}
    (hevent : daemon.event action = some (.reply answer)) :
    ∃ active job, daemon.loop.exchange.active = some active ∧ (job, answer) ∈ daemon.answers ∧
      job.serial = active.serial := by
  have hanswer : daemon.answer = some answer := by
    cases action with
    | reply =>
        obtain ⟨found, hfound, hreply⟩ := Option.map_eq_some_iff.mp hevent
        rw [hfound, Event.reply.inj hreply]
    | done =>
        simp only [Daemon.event] at hevent
        split at hevent <;> cases hevent
    | joined =>
        simp only [Daemon.event] at hevent
        split at hevent <;> cases hevent
    | _ => cases hevent
  simp only [Daemon.answer, Option.bind_eq_bind, Option.bind_eq_some_iff] at hanswer
  obtain ⟨active, hactive, ⟨job, found⟩, hfind, hfound⟩ := hanswer
  obtain rfl := Option.some.inj hfound
  refine ⟨active, job, hactive, List.mem_of_find?_eq_some hfind, ?_⟩
  have hmatches := List.find?_some hfind
  exact eq_of_beq hmatches

/-! ## Serial numbers -/

/-- All jobs: answered, performed and queued. -/
def jobs (daemon : Daemon wire) : List (Job wire) :=
  daemon.answers.map Prod.fst ++ daemon.worker.job.toList ++ jobsOf daemon.queue

/-- Every job sent is in one place, in order, and the active operation is that of
the last one. -/
structure Ordered (daemon : Daemon wire) : Prop where
  integral : daemon.loop.Integral
  serials : daemon.jobs.map Job.serial = List.range daemon.loop.exchange.issued
  active : ∀ active, daemon.loop.exchange.active = some active →
    active.serial + 1 = daemon.loop.exchange.issued
  idle : daemon.loop.exchange.active = none →
    daemon.worker.job = none ∧ jobsOf daemon.queue = []

theorem ordered_start (clock : Instant) : (start clock : Daemon wire).Ordered where
  integral := Loop.integral_start clock
  serials := rfl
  active _ hactive := by cases hactive
  idle _ := ⟨rfl, rfl⟩

theorem answered_mem_jobs {daemon : Daemon wire} {job : Job wire} {answer : Answer wire}
    (hmem : (job, answer) ∈ daemon.answers) : job ∈ daemon.jobs :=
  List.mem_append_left _ (List.mem_append_left _ (List.mem_map.mpr ⟨_, hmem, rfl⟩))

theorem Ordered.serial_lt {daemon : Daemon wire} (hdaemon : daemon.Ordered) {job : Job wire}
    (hmem : job ∈ daemon.jobs) : job.serial < daemon.loop.exchange.issued := by
  have hserial : job.serial ∈ daemon.jobs.map Job.serial := List.mem_map.mpr ⟨_, hmem, rfl⟩
  rw [hdaemon.serials] at hserial
  exact List.mem_range.mp hserial

/-- Nothing comes after the answer to the last job. -/
theorem Ordered.answered_last {daemon : Daemon wire} (hdaemon : daemon.Ordered) {job : Job wire}
    {answer : Answer wire} (hmem : (job, answer) ∈ daemon.answers)
    (hlast : job.serial + 1 = daemon.loop.exchange.issued) :
    daemon.worker.job = none ∧ jobsOf daemon.queue = [] := by
  have hsplit := hdaemon.serials
  rw [jobs, List.append_assoc, List.map_append] at hsplit
  have hnodup : (List.range daemon.loop.exchange.issued).Nodup := List.nodup_range
  rw [← hsplit] at hnodup
  have hanswered : job.serial ∈ (daemon.answers.map Prod.fst).map Job.serial :=
    List.mem_map.mpr ⟨_, List.mem_map.mpr ⟨_, hmem, rfl⟩, rfl⟩
  rw [← hlast, List.range_succ] at hsplit
  -- the last number cannot also stand behind the answers
  have hrest : daemon.worker.job.toList ++ jobsOf daemon.queue = [] := by
    rw [← @List.map_eq_nil_iff _ _ Job.serial]
    by_contra hne
    have hmemRest : job.serial ∈
        (daemon.worker.job.toList ++ jobsOf daemon.queue).map Job.serial := by
      have hgetLast := congrArg List.getLast? hsplit
      rw [List.getLast?_append_of_ne_nil _ hne, List.getLast?_concat] at hgetLast
      exact List.mem_of_getLast? hgetLast
    exact (List.nodup_append.mp hnodup).2.2 _ hanswered _ hmemRest rfl
  obtain ⟨hjob, hqueue⟩ := List.append_eq_nil_iff.mp hrest
  exact ⟨Option.toList_eq_nil_iff.mp hjob, hqueue⟩

/-! ## Steps -/

theorem jobsOf_cons (command : Command wire) (queue : List (Command wire)) :
    jobsOf (command :: queue) = (Loop.dispatched (some command)).toList ++ jobsOf queue := by
  cases command <;> rfl

/-- The job that a command hands to the worker: it is performed or answered. -/
theorem take_places (now : Instant) (command : Command wire) (worker : Worker wire) :
    ((worker.take now command).2.toList.map Prod.fst) ++
        (worker.take now command).1.job.toList = (Loop.dispatched (some command)).toList := by
  cases command with
  | shutdown => rfl
  | commit expected next =>
      simp only [Worker.take]
      split
      · rfl
      · split
        · rfl
        · split <;> rfl
  | execute job =>
      simp only [Worker.take]
      split <;> rfl

theorem finishing_job {now : Instant} {job : Job wire} {worker next : Worker wire}
    {result : Except Bytes (Ready wire)}
    (hfinishing : Worker.Finishing now job worker next result) : next.job = none := by
  cases hfinishing <;> rfl

/-- A reaction of the loop adds the job that it sends. -/
theorem loop_jobs {daemon : Daemon wire} (hdaemon : daemon.Ordered) {action : Action wire}
    {event : Event wire} {next : Loop wire} {command : Option (Command wire)}
    (hevent : daemon.event action = some event)
    (hreaction : Loop.Reaction daemon.loop event next command) :
    (send command { daemon with loop := next }).jobs =
      daemon.jobs ++ (Loop.dispatched command).toList := by
  have halive : (Loop.dispatched command).isSome = true → daemon.worker.alive = true := by
    intro hsome
    cases hreaction.traffic hdaemon.integral with
    | quiet htrading hdelivered hcommand => rcases hcommand with rfl | rfl <;> cases hsome
    | sent hsends halive hdelivered => exact event_alive hevent halive
    | answered => cases hsome
    | @flushed alive _ output =>
        cases hcommit : output.ready.commit with
        | none => rw [hcommit] at hsome; cases hsome
        | some update => rw [hcommit] at hsome; cases hsome
  have hjobs := send_jobs command { daemon with loop := next } halive
  simp only [jobs, send_answers, send_worker, hjobs, List.append_assoc]

/-- Where the worker and the queue put a job does not change the order. -/
theorem Stepping.jobs_eq {daemon next : Daemon wire} {action : Action wire}
    (hstep : Stepping daemon action next) (hworker : daemon.event action = none) :
    next.jobs = daemon.jobs := by
  cases hstep with
  | idle => rfl
  | loop hevent =>
      rw [hworker] at hevent
      cases hevent
  | @taken limit command queue hstage hqueue =>
      have hjob : daemon.worker.job = none := by rw [Worker.job, hstage]
      have hplaces := take_places daemon.loop.clock command daemon.worker
      simp only [jobs, hjob, hqueue, jobsOf_cons, ← hplaces]
      simp [List.map_map, Function.comp_def]
  | @finished job verdict worker result hstage hsound hfinishing =>
      have hjob : daemon.worker.job = some job := by rw [Worker.job, hstage]
      have hnext := finishing_job hfinishing
      simp [jobs, hjob, hnext]
  | timedOut hstage hlimit =>
      have hjob : daemon.worker.job = none := by rw [Worker.job, hstage]
      rw [jobs, jobs, hjob]
      rfl
  | signalled hstage =>
      have hjob : daemon.worker.job = none := by rw [Worker.job, hstage]
      rw [jobs, jobs, hjob]
      rfl
  | dropped hstage =>
      have hjob : daemon.worker.job = none := by rw [Worker.job, hstage]
      rw [jobs, jobs, hjob]
      simp [Worker.job, jobsOf, Function.comp_def]

theorem Stepping.loop_ordered {daemon : Daemon wire} (hdaemon : daemon.Ordered)
    {action : Action wire} {event : Event wire} {next : Loop wire}
    {command : Option (Command wire)} (hevent : daemon.event action = some event)
    (hreaction : Loop.Reaction daemon.loop event next command) :
    (send command { daemon with loop := next }).Ordered := by
  have hintegral : (send command { daemon with loop := next }).loop.Integral := by
    rw [send_loop]
    exact hreaction.integral hdaemon.integral
  have hjobs := loop_jobs hdaemon hevent hreaction
  have hkept (hnone : Loop.dispatched command = none)
      (hissued : next.exchange.issued = daemon.loop.exchange.issued) :
      (send command { daemon with loop := next }).jobs.map Job.serial =
        List.range (send command { daemon with loop := next }).loop.exchange.issued := by
    rw [hjobs, hnone, Option.toList_none, List.append_nil, send_loop, hissued, hdaemon.serials]
  have hidles (hnone : Loop.dispatched command = none) (hjob : daemon.worker.job = none)
      (hqueue : jobsOf daemon.queue = []) :
      (send command { daemon with loop := next }).worker.job = none ∧
        jobsOf (send command { daemon with loop := next }).queue = [] := by
    rw [send_worker, send_jobs _ _ (by simp [hnone]), hnone, hqueue]
    exact ⟨hjob, rfl⟩
  cases hreaction.traffic hdaemon.integral with
  | quiet htrading hdelivered hcommand =>
      have hnone : Loop.dispatched command = none := by
        rcases hcommand with rfl | rfl <;> rfl
      cases htrading with
      | quiet hactive houtput hissued hopened hexpires =>
          refine ⟨hintegral, hkept hnone hissued, ?_, ?_⟩
          · rw [send_loop, hissued]
            intro active hnext
            obtain ⟨before, hbefore, hsame⟩ := hactive.active active hnext
            rw [← hsame.serial_eq]
            exact hdaemon.active before hbefore
          · rw [send_loop]
            intro hnext
            obtain ⟨hjob, hqueue⟩ := hdaemon.idle (hactive.idle hnext)
            exact hidles hnone hjob hqueue
  | sent hsends halive hdelivered =>
      obtain ⟨active, hactive, hstarts⟩ := hsends.active
      refine ⟨hintegral, ?_, ?_, ?_⟩
      · rw [hjobs, List.map_append, hdaemon.serials, send_loop, hsends.issued, List.range_succ,
          ← hsends.serial]
        rfl
      · rw [send_loop, hsends.issued]
        intro found hfound
        obtain rfl := Option.some.inj (hactive.symm.trans hfound)
        rw [← hstarts.serial_eq, hsends.serial]
      · rw [send_loop, hactive]
        rintro ⟨⟩
  | answered hactive hanswer hidle houtput hready hissued hopened hexpires hdelivered =>
      obtain ⟨found, job, hfound, hmem, hserial⟩ := event_reply hevent
      obtain ⟨hjob, hqueue⟩ :=
        hdaemon.answered_last hmem (hserial ▸ hdaemon.active found hfound)
      refine ⟨hintegral, hkept rfl hissued, ?_, fun _ => hidles rfl hjob hqueue⟩
      rw [send_loop, hidle]
      rintro _ ⟨⟩
  | @flushed alive _ output hlive houtput halive hactive hnone hissued hopened hexpires
      hdelivered =>
      have hquiet : Loop.dispatched (output.ready.commit.map fun update =>
          (Command.commit update.1 update.2 : Command wire)) = none := by
        cases output.ready.commit <;> rfl
      obtain ⟨hjob, hqueue⟩ := hdaemon.idle hactive.1
      refine ⟨hintegral, hkept hquiet hissued, ?_, fun _ => hidles hquiet hjob hqueue⟩
      rw [send_loop, hactive.2]
      rintro _ ⟨⟩

theorem Stepping.ordered {daemon next : Daemon wire} {action : Action wire}
    (hstep : Stepping daemon action next) (hdaemon : daemon.Ordered) : next.Ordered := by
  have hserials (hworker : daemon.event action = none) (hloop : next.loop = daemon.loop) :
      next.jobs.map Job.serial = List.range next.loop.exchange.issued := by
    rw [hstep.jobs_eq hworker, hloop, hdaemon.serials]
  cases hstep with
  | idle => exact hdaemon
  | loop hevent hreaction => exact loop_ordered hdaemon hevent hreaction
  | @taken limit command queue hstage hqueue =>
      refine ⟨hdaemon.integral, hserials rfl rfl, hdaemon.active, fun hidle => ?_⟩
      obtain ⟨-, hjobs⟩ := hdaemon.idle hidle
      rw [hqueue, jobsOf_cons, List.append_eq_nil_iff] at hjobs
      obtain ⟨hcommand, hrest⟩ := hjobs
      have hnone := take_places daemon.loop.clock command daemon.worker
      rw [hcommand, List.append_eq_nil_iff] at hnone
      exact ⟨Option.toList_eq_nil_iff.mp hnone.2, hrest⟩
  | @finished job verdict worker result hstage hsound hfinishing =>
      have hjob : daemon.worker.job = some job := by rw [Worker.job, hstage]
      refine ⟨hdaemon.integral, hserials rfl rfl, hdaemon.active, fun hidle => ?_⟩
      obtain ⟨hnone, -⟩ := hdaemon.idle hidle
      rw [hjob] at hnone
      cases hnone
  | timedOut hstage hlimit =>
      exact ⟨hdaemon.integral, hserials rfl rfl, hdaemon.active,
        fun hidle => ⟨rfl, (hdaemon.idle hidle).2⟩⟩
  | signalled hstage =>
      exact ⟨hdaemon.integral, hserials rfl rfl, hdaemon.active,
        fun hidle => ⟨rfl, (hdaemon.idle hidle).2⟩⟩
  | dropped hstage =>
      exact ⟨hdaemon.integral, hserials rfl rfl, hdaemon.active, fun _ => ⟨rfl, rfl⟩⟩

theorem Ordered.advance {daemon : Daemon wire} (hdaemon : daemon.Ordered) (move : Move wire) :
    (daemon.advance move).Ordered :=
  ⟨hdaemon.integral.advance ⟨move.elapsed, .look⟩, hdaemon.serials, hdaemon.active, hdaemon.idle⟩

end Daemon

end EliotSearch.Session
