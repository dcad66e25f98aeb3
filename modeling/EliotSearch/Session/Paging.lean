import EliotSearch.Session.Jobs

/-!
# Paging

The pages of a session.  The cursor of the window is advanced by a message that
is sent when a page is flushed, while the worker may already have more to do.
The invariant below relates the flushed pages, the updates under way and the
cursor; it gives that flushed pages are an initial part of the result vector.
-/

namespace EliotSearch.Session

open EliotSearch.Library

variable {wire : Wire}

/-- Every cursor update comes before the jobs. -/
def CommitsFirst : List (Command wire) → Prop
  | [] => True
  | .execute _ :: rest => commitsOf rest = []
  | _ :: rest => CommitsFirst rest

theorem commitsFirst_append {queue : List (Command wire)} {command : Command wire}
    (hqueue : CommitsFirst queue)
    (hcommand : Loop.updated (some command) = none ∨ jobsOf queue = []) :
    CommitsFirst (queue ++ [command]) := by
  induction queue with
  | nil => cases command <;> trivial
  | cons head rest ih =>
      cases head with
      | execute job =>
          have hnone : Loop.updated (some command) = none :=
            hcommand.resolve_right fun hempty => by cases hempty
          change commitsOf (rest ++ [command]) = []
          have hlast := commitsOf_toList (some command)
          rw [hnone] at hlast
          have hrest : commitsOf rest = [] := hqueue
          rw [commitsOf_append, hrest]
          exact hlast
      | commit expected next => exact ih hqueue hcommand
      | shutdown => exact ih hqueue hcommand

theorem commitsFirst_tail {command : Command wire} {rest : List (Command wire)}
    (hqueue : CommitsFirst (command :: rest)) : CommitsFirst rest := by
  have hempty (hnone : commitsOf rest = []) : CommitsFirst rest := by
    clear hqueue
    induction rest with
    | nil => trivial
    | cons head rest ih =>
        cases head with
        | execute job => exact hnone
        | commit expected next => cases hnone
        | shutdown => exact ih hnone
  cases command with
  | execute job => exact hempty hqueue
  | commit expected next => exact hqueue
  | shutdown => exact hqueue

theorem commitsOf_tail {command : Command wire} {rest : List (Command wire)}
    (hnone : commitsOf (command :: rest) = []) : commitsOf rest = [] := by
  cases command with
  | execute job => exact hnone
  | commit expected next => cases hnone
  | shutdown => exact hnone

/-! ## Pages in flight -/

/-- A reply carries the entries after those flushed, or none. -/
structure Ready.Extends (items : List wire.Item) (flushed : List (WindowEntry wire.Item))
    (ready : Ready wire) : Prop where
  page : ∀ expected next, ready.commit = some (expected, next) →
    expected.toNat = flushed.length ∧ next.toNat = flushed.length + ready.entries.length
  entries : flushed ++ ready.entries <+: entriesOf items
  bare : ready.commit = none → ready.entries = []

theorem Ready.extends_of_bare {items : List wire.Item} {flushed : List (WindowEntry wire.Item)}
    {ready : Ready wire} (hflushed : flushed <+: entriesOf items) (hcommit : ready.commit = none)
    (hentries : ready.entries = []) : ready.Extends items flushed where
  page expected next hsome := by
    rw [hcommit] at hsome
    cases hsome
  entries := by
    rw [hentries, List.append_nil]
    exact hflushed
  bare _ := hentries

theorem Ready.IsFailure.entries {ready : Ready wire} (hfailed : ready.IsFailure) :
    ready.entries = [] := by
  have hfailure := hfailed.1
  unfold Ready.entries
  cases houtcome : ready.reply.outcome with
  | page page =>
      rw [houtcome] at hfailure
      cases hfailure
  | _ => rfl

theorem Window.Slice.extends {items : List wire.Item} {cursor : UInt8} {ready : Ready wire}
    {flushed : List (WindowEntry wire.Item)} (hslice : Window.Slice items cursor ready)
    (hflushed : flushed <+: entriesOf items) (hcursor : cursor.toNat = flushed.length) :
    ready.Extends items flushed := by
  obtain ⟨next, hcommit, hnext, hentries⟩ := hslice.entries
  have htake : (entriesOf items).take cursor.toNat = flushed := by
    rw [hcursor]
    exact (List.prefix_iff_eq_take.mp hflushed).symm
  refine ⟨?_, htake ▸ hentries, ?_⟩
  · intro expected found hfound
    rw [hcommit] at hfound
    obtain ⟨rfl, rfl⟩ := Prod.mk.inj (Option.some.inj hfound)
    exact ⟨hcursor, hcursor ▸ hnext⟩
  · intro hnone
    rw [hcommit] at hnone
    cases hnone

namespace Daemon

/-- The entries of the pages flushed so far. -/
def flushed (daemon : Daemon wire) : List (WindowEntry wire.Item) :=
  daemon.loop.delivered.flatMap fun output => output.ready.entries

/-- A reply that the loop may still flush: it carries the next entries, and while
it carries any, no cursor update is under way and the window is open. -/
structure Current (daemon : Daemon wire) (ready : Ready wire) : Prop where
  follows : ready.Extends daemon.worker.vector daemon.flushed
  settled : ready.commit.isSome = true → commitsOf daemon.queue = []
  windowed : ready.commit.isSome = true → daemon.worker.departure = none →
    daemon.worker.window.isSome = true

/-- The cursor is behind the flushed entries by the update under way. -/
inductive CursorAt (daemon : Daemon wire) (cursor : UInt8) : Prop where
  | settled (hnone : commitsOf daemon.queue = []) (hcursor : cursor.toNat = daemon.flushed.length)
  | behind {next : UInt8} {output : Output wire}
      (hupdate : commitsOf daemon.queue = [(cursor, next)])
      (hnext : next.toNat = daemon.flushed.length) (hle : cursor.toNat ≤ next.toNat)
      (houtput : output ∈ daemon.loop.delivered)
      (hcommit : output.ready.commit = some (cursor, next))

/-- The jobs that ask for a window and are not performed yet. -/
def openings (daemon : Daemon wire) : List (Job wire) :=
  (daemon.worker.job.toList ++ jobsOf daemon.queue).filter fun job => job.message.isOpen

/-- The invariant of paging. -/
structure Paging (daemon : Daemon wire) : Prop where
  ordered : daemon.Ordered
  first : CommitsFirst daemon.queue
  performing : daemon.worker.job.isSome = true → commitsOf daemon.queue = []
  fits : daemon.worker.vector.length < 256
  flushed : daemon.flushed <+: entriesOf daemon.worker.vector
  output : daemon.loop.Live →
    ∀ output, daemon.loop.exchange.output = some output → daemon.Current output.ready
  answered : ∀ active job ready, daemon.loop.exchange.active = some active →
    (job, some (.ok ready)) ∈ daemon.answers → job.serial = active.serial → daemon.Current ready
  window : ∀ window, daemon.worker.window = some window →
    window.items = daemon.worker.vector ∧ daemon.CursorAt window.cursor
  missing : daemon.worker.window = none → daemon.worker.departure = none →
    commitsOf daemon.queue = []
  departed : daemon.worker.departure.isSome = true → daemon.worker.window = none
  single : daemon.openings.length ≤ 1
  opening : daemon.openings ≠ [] → daemon.worker.window = none ∧ daemon.worker.vector = []
  unopened : daemon.loop.exchange.opened = false →
    daemon.openings = [] ∧ daemon.worker.window = none ∧ daemon.worker.vector = []
  expanded : ∀ job ready expansion, (job, some (.ok ready)) ∈ daemon.answers →
    ready.reply.outcome = .expanded expansion →
      ∃ requestId remainingMs windowId itemIndex beforeBytes afterBytes,
        job.message = .expand requestId remainingMs windowId itemIndex beforeBytes afterBytes ∧
          itemIndex.toNat < daemon.flushed.length

theorem paging_start (clock : Instant) : (start clock : Daemon wire).Paging where
  ordered := ordered_start clock
  first := trivial
  performing := by rintro ⟨⟩
  fits := Nat.zero_lt_succ _
  flushed := List.nil_prefix
  output _ _ houtput := by cases houtput
  answered _ _ _ hactive := by cases hactive
  window _ hwindow := by cases hwindow
  missing _ _ := rfl
  departed := by rintro ⟨⟩
  single := Nat.zero_le _
  opening hne := absurd rfl hne
  unopened _ := ⟨rfl, rfl, rfl⟩
  expanded _ _ _ hmem := absurd hmem List.not_mem_nil

theorem Paging.advance {daemon : Daemon wire} (hdaemon : daemon.Paging) (move : Move wire) :
    (daemon.advance move).Paging where
  ordered := hdaemon.ordered.advance move
  first := hdaemon.first
  performing := hdaemon.performing
  fits := hdaemon.fits
  flushed := hdaemon.flushed
  output hlive output houtput := by
    obtain ⟨hfollows, hsettled, hwindowed⟩ := hdaemon.output hlive output houtput
    exact ⟨hfollows, hsettled, hwindowed⟩
  answered active job ready hactive hmem hserial := by
    obtain ⟨hfollows, hsettled, hwindowed⟩ := hdaemon.answered active job ready hactive hmem hserial
    exact ⟨hfollows, hsettled, hwindowed⟩
  window window hwindow := by
    obtain ⟨hitems, hcursor⟩ := hdaemon.window window hwindow
    refine ⟨hitems, ?_⟩
    cases hcursor with
    | settled hnone hcursor => exact .settled hnone hcursor
    | behind hupdate hnext hle houtput hcommit => exact .behind hupdate hnext hle houtput hcommit
  missing := hdaemon.missing
  departed := hdaemon.departed
  single := hdaemon.single
  opening := hdaemon.opening
  unopened := hdaemon.unopened
  expanded := hdaemon.expanded

/-! ## Steps of the loop -/

theorem Current.of_same {daemon next : Daemon wire} {ready : Ready wire}
    (hready : daemon.Current ready) (hworker : next.worker = daemon.worker)
    (hflushed : next.flushed = daemon.flushed)
    (hqueue : commitsOf next.queue = commitsOf daemon.queue) : next.Current ready where
  follows := by
    rw [hworker, hflushed]
    exact hready.follows
  settled hsome := hqueue.trans (hready.settled hsome)
  windowed := by
    rw [hworker]
    exact hready.windowed

theorem CursorAt.of_same {daemon next : Daemon wire} {cursor : UInt8}
    (hcursor : daemon.CursorAt cursor) (hdelivered : next.loop.delivered = daemon.loop.delivered)
    (hqueue : commitsOf next.queue = commitsOf daemon.queue) : next.CursorAt cursor := by
  have hflushed : next.flushed = daemon.flushed := by rw [Daemon.flushed, hdelivered]; rfl
  cases hcursor with
  | settled hnone hcursor => exact .settled (hqueue.trans hnone) (hflushed ▸ hcursor)
  | behind hupdate hnext hle houtput hcommit =>
      exact .behind (hqueue.trans hupdate) (hflushed ▸ hnext) hle (hdelivered ▸ houtput) hcommit

/-- A failure is always current. -/
theorem Paging.failed {daemon : Daemon wire} (hdaemon : daemon.Paging) {ready : Ready wire}
    (hfailed : ready.IsFailure) : daemon.Current ready where
  follows := Ready.extends_of_bare hdaemon.flushed hfailed.2.1 hfailed.entries
  settled hsome := by
    rw [hfailed.2.1] at hsome
    cases hsome
  windowed hsome := by
    rw [hfailed.2.1] at hsome
    cases hsome

theorem send_first {command : Option (Command wire)} {daemon : Daemon wire}
    (hfirst : CommitsFirst daemon.queue)
    (hcommand : Loop.updated command = none ∨ jobsOf daemon.queue = []) :
    CommitsFirst (send command daemon).queue := by
  unfold send
  split
  · cases command with
    | none =>
        rw [Option.toList_none, List.append_nil]
        exact hfirst
    | some command => exact commitsFirst_append hfirst hcommand
  · exact hfirst

theorem send_openings (command : Option (Command wire)) (daemon : Daemon wire)
    (halive : (Loop.dispatched command).isSome = true → daemon.worker.alive = true) :
    (send command daemon).openings =
      daemon.openings ++ (Loop.dispatched command).toList.filter fun job => job.message.isOpen := by
  rw [openings, openings, send_worker, send_jobs _ _ halive, ← List.append_assoc,
    List.filter_append]

/-- A reaction that sends nothing but a shutdown. -/
theorem Paging.quiet {daemon : Daemon wire} (hdaemon : daemon.Paging) {next : Loop wire}
    {command : Option (Command wire)}
    (hordered : (send command { daemon with loop := next }).Ordered)
    (hlives : next.Live → daemon.loop.Live)
    (htrading : Exchange.Trading daemon.loop.exchange next.exchange none)
    (hdelivered : next.delivered = daemon.loop.delivered)
    (hcommand : command = none ∨ command = some .shutdown) :
    (send command { daemon with loop := next }).Paging := by
  have hupdated : Loop.updated command = none := by rcases hcommand with rfl | rfl <;> rfl
  have hdispatched : Loop.dispatched command = none := by rcases hcommand with rfl | rfl <;> rfl
  have hcommits : commitsOf (send command { daemon with loop := next }).queue =
      commitsOf daemon.queue := by
    rw [send_commits _ _ (by simp [hupdated]), hupdated]
    exact List.append_nil _
  have hopenings : (send command { daemon with loop := next }).openings = daemon.openings := by
    rw [send_openings _ _ (by simp [hdispatched]), hdispatched]
    exact List.append_nil _
  have hflushed : (send command { daemon with loop := next }).flushed = daemon.flushed := by
    rw [Daemon.flushed, send_loop, hdelivered]
    rfl
  have hworker : (send command { daemon with loop := next }).worker = daemon.worker := by
    rw [send_worker]
  have hcurrent {ready : Ready wire} (hready : daemon.Current ready) :
      (send command { daemon with loop := next }).Current ready :=
    hready.of_same hworker hflushed hcommits
  cases htrading with
  | quiet hactive houtput hissued hopened hexpires =>
      constructor
      · exact hordered
      · exact send_first hdaemon.first (Or.inl hupdated)
      · rw [hworker, hcommits]
        exact hdaemon.performing
      · rw [hworker]
        exact hdaemon.fits
      · rw [hworker, hflushed]
        exact hdaemon.flushed
      · rw [send_loop]
        intro hlive output hnext
        rcases houtput output hnext with ⟨before, hbefore, hcontinues⟩ | ⟨-, hfailed⟩
        · rcases hcontinues.ready with hsame | ⟨-, hfailed, -⟩
          · rw [hsame]
            exact hcurrent (hdaemon.output (hlives hlive) before hbefore)
          · exact hcurrent (hdaemon.failed hfailed)
        · exact hcurrent (hdaemon.failed hfailed)
      · rw [send_loop, send_answers]
        intro active job ready hnext hmem hserial
        obtain ⟨before, hbefore, hsame⟩ := hactive.active active hnext
        exact hcurrent
          (hdaemon.answered before job ready hbefore hmem (hserial.trans hsame.serial_eq.symm))
      · rw [hworker]
        intro window hwindow
        obtain ⟨hitems, hcursor⟩ := hdaemon.window window hwindow
        exact ⟨hitems, hcursor.of_same (by rw [send_loop, hdelivered]) hcommits⟩
      · rw [hworker, hcommits]
        exact hdaemon.missing
      · rw [hworker]
        exact hdaemon.departed
      · rw [hopenings]
        exact hdaemon.single
      · rw [hopenings, hworker]
        exact hdaemon.opening
      · rw [hopenings, hworker, send_loop, hopened]
        exact hdaemon.unopened
      · rw [send_answers, hflushed]
        exact hdaemon.expanded

/-- A reaction that sends a job. -/
theorem Paging.sent {daemon : Daemon wire} (hdaemon : daemon.Paging) {next : Loop wire}
    {job : Job wire}
    (hordered : (send (some (.execute job)) { daemon with loop := next }).Ordered)
    (hsends : daemon.loop.exchange.Sends next.exchange job) (halive : daemon.worker.alive = true)
    (hdelivered : next.delivered = daemon.loop.delivered) :
    (send (some (.execute job)) { daemon with loop := next }).Paging := by
  have hcommits : commitsOf (send (some (.execute job)) { daemon with loop := next }).queue =
      commitsOf daemon.queue := by
    rw [send_commits _ _ (by simp [Loop.updated])]
    exact List.append_nil _
  have hopenings : (send (some (.execute job)) { daemon with loop := next }).openings =
      daemon.openings ++ [job].filter fun job => job.message.isOpen := by
    rw [send_openings _ { daemon with loop := next } fun _ => halive]
    rfl
  have hflushed : (send (some (.execute job)) { daemon with loop := next }).flushed =
      daemon.flushed := by
    rw [Daemon.flushed, send_loop, hdelivered]
    rfl
  have hopens (hopen : job.message.isOpen = true) : daemon.openings = [] ∧
      daemon.worker.window = none ∧ daemon.worker.vector = [] :=
    hdaemon.unopened (hsends.fresh hopen)
  constructor
  · exact hordered
  · exact send_first hdaemon.first (Or.inl rfl)
  · rw [send_worker, hcommits]
    exact hdaemon.performing
  · rw [send_worker]
    exact hdaemon.fits
  · rw [send_worker, hflushed]
    exact hdaemon.flushed
  · rw [send_loop]
    intro _ output houtput
    rw [hsends.output] at houtput
    cases houtput
  · rw [send_loop, send_answers]
    intro active answered ready hactive hmem hserial
    -- no answer carries the number of the job just sent
    obtain ⟨found, hfound, hstarts⟩ := hsends.active
    obtain rfl := Option.some.inj (hactive.symm.trans hfound)
    have hlt := hdaemon.ordered.serial_lt (answered_mem_jobs hmem)
    rw [hserial, ← hstarts.serial_eq, hsends.serial] at hlt
    exact absurd hlt (lt_irrefl _)
  · rw [send_worker]
    intro window hwindow
    obtain ⟨hitems, hcursor⟩ := hdaemon.window window hwindow
    exact ⟨hitems, hcursor.of_same (by rw [send_loop, hdelivered]) hcommits⟩
  · rw [send_worker, hcommits]
    exact hdaemon.missing
  · rw [send_worker]
    exact hdaemon.departed
  · rw [hopenings]
    cases hopen : job.message.isOpen with
    | true => simp [(hopens hopen).1, hopen]
    | false => simpa [hopen] using hdaemon.single
  · rw [hopenings, send_worker]
    cases hopen : job.message.isOpen with
    | true => exact fun _ => (hopens hopen).2
    | false => simpa [hopen] using hdaemon.opening
  · rw [send_loop, hsends.opened, hopenings, send_worker]
    intro hclosed
    obtain ⟨hbefore, hopen⟩ := Bool.or_eq_false_iff.mp hclosed
    simpa [hopen] using hdaemon.unopened hbefore
  · rw [send_answers, hflushed]
    exact hdaemon.expanded

/-- The reply of the worker takes the slot. -/
theorem Paging.replied {daemon : Daemon wire} (hdaemon : daemon.Paging) {next : Loop wire}
    {active : Active} {job : Job wire} {ready answer : Ready wire} {output : Output wire}
    (hordered : (send none { daemon with loop := next }).Ordered)
    (hactive : daemon.loop.exchange.active = some active)
    (hmem : (job, some (.ok ready)) ∈ daemon.answers) (hserial : job.serial = active.serial)
    (hanswer : Exchange.Answering active ready answer) (hidle : next.exchange.active = none)
    (houtput : next.exchange.output = some output) (hready : output.ready = answer)
    (hopened : next.exchange.opened = daemon.loop.exchange.opened)
    (hdelivered : next.delivered = daemon.loop.delivered) :
    (send none { daemon with loop := next }).Paging := by
  have hcommits : commitsOf (send none { daemon with loop := next }).queue =
      commitsOf daemon.queue := by
    rw [send_commits _ _ (by simp [Loop.updated])]
    exact List.append_nil _
  have hopenings : (send none { daemon with loop := next }).openings = daemon.openings := by
    rw [send_openings _ _ (by simp [Loop.dispatched])]
    exact List.append_nil _
  have hflushed : (send none { daemon with loop := next }).flushed = daemon.flushed := by
    rw [Daemon.flushed, send_loop, hdelivered]
    rfl
  have hworker : (send none { daemon with loop := next }).worker = daemon.worker := by
    rw [send_worker]
  constructor
  · exact hordered
  · exact send_first hdaemon.first (Or.inl rfl)
  · rw [hworker, hcommits]
    exact hdaemon.performing
  · rw [hworker]
    exact hdaemon.fits
  · rw [hworker, hflushed]
    exact hdaemon.flushed
  · rw [send_loop]
    intro _ found hfound
    obtain rfl := Option.some.inj (houtput.symm.trans hfound)
    rw [hready]
    cases hanswer with
    | kept hkept =>
        exact (hdaemon.answered active job ready hactive hmem hserial).of_same hworker hflushed
          hcommits
    | stopped hstopped hends hfailed hreply =>
        exact (hdaemon.failed hfailed).of_same hworker hflushed hcommits
  · rw [send_loop, hidle]
    intro _ _ _ hcontra
    cases hcontra
  · rw [hworker]
    intro window hwindow
    obtain ⟨hitems, hcursor⟩ := hdaemon.window window hwindow
    exact ⟨hitems, hcursor.of_same (by rw [send_loop, hdelivered]) hcommits⟩
  · rw [hworker, hcommits]
    exact hdaemon.missing
  · rw [hworker]
    exact hdaemon.departed
  · rw [hopenings]
    exact hdaemon.single
  · rw [hopenings, hworker]
    exact hdaemon.opening
  · rw [hopenings, hworker, send_loop, hopened]
    exact hdaemon.unopened
  · rw [send_answers, hflushed]
    exact hdaemon.expanded

/-- A reply is flushed, and the cursor update of its page is sent. -/
theorem Paging.delivers {daemon : Daemon wire} (hdaemon : daemon.Paging) {next : Loop wire}
    {command : Option (Command wire)} {output : Output wire}
    (hordered : (send command { daemon with loop := next }).Ordered)
    (hlive : daemon.loop.Live) (houtput : daemon.loop.exchange.output = some output)
    (hcommand : command = output.ready.commit.map fun (expected, next) => .commit expected next)
    (halive : output.ready.commit.isSome = true → daemon.worker.alive = true)
    (hactive : daemon.loop.exchange.active = none ∧ next.exchange.active = none)
    (hnone : next.exchange.output = none)
    (hopened : next.exchange.opened = daemon.loop.exchange.opened)
    (hdelivered : next.delivered = daemon.loop.delivered ++ [output]) :
    (send command { daemon with loop := next }).Paging := by
  obtain ⟨hjob, hjobs⟩ := hdaemon.ordered.idle hactive.1
  obtain ⟨hfollows, hsettled, hwindowed⟩ := hdaemon.output hlive output houtput
  have hdispatched : Loop.dispatched command = none := by
    rw [hcommand]
    cases output.ready.commit <;> rfl
  have hupdated : Loop.updated command = output.ready.commit := by
    rw [hcommand]
    cases output.ready.commit <;> rfl
  have hcommits : commitsOf (send command { daemon with loop := next }).queue =
      commitsOf daemon.queue ++ output.ready.commit.toList := by
    rw [send_commits _ _ (by rw [hupdated]; exact halive), hupdated]
  have hopenings : (send command { daemon with loop := next }).openings = daemon.openings := by
    rw [send_openings _ _ (by simp [hdispatched]), hdispatched]
    exact List.append_nil _
  have hflushed : (send command { daemon with loop := next }).flushed =
      daemon.flushed ++ output.ready.entries := by
    rw [Daemon.flushed, send_loop, hdelivered, List.flatMap_append, List.flatMap_singleton]
    rfl
  constructor
  · exact hordered
  · exact send_first hdaemon.first (Or.inr hjobs)
  · rw [send_worker, hjob]
    rintro ⟨⟩
  · rw [send_worker]
    exact hdaemon.fits
  · rw [send_worker, hflushed]
    exact hfollows.entries
  · rw [send_loop, hnone]
    intro _ _ hcontra
    cases hcontra
  · rw [send_loop, hactive.2]
    intro _ _ _ hcontra
    cases hcontra
  · rw [send_worker]
    intro window hwindow
    obtain ⟨hitems, hcursor⟩ := hdaemon.window window hwindow
    refine ⟨hitems, ?_⟩
    cases hcommit : output.ready.commit with
    | none =>
        rw [hcommit, Option.toList_none, List.append_nil] at hcommits
        have hsame : (send command { daemon with loop := next }).flushed = daemon.flushed := by
          rw [hflushed, hfollows.bare hcommit, List.append_nil]
        cases hcursor with
        | settled hempty hcursor => exact .settled (hcommits.trans hempty) (hsame ▸ hcursor)
        | behind hupdate hnext hle hfound hsent =>
            refine .behind (hcommits.trans hupdate) (hsame ▸ hnext) hle ?_ hsent
            rw [send_loop, hdelivered]
            exact List.mem_append_left _ hfound
    | some update =>
        obtain ⟨expected, stop⟩ := update
        have hempty := hsettled (by rw [hcommit]; rfl)
        obtain ⟨hexpected, hstop⟩ := hfollows.page expected stop hcommit
        rw [hcommit, hempty] at hcommits
        cases hcursor with
        | settled _ hcursor =>
            -- the page was prepared at this cursor
            obtain rfl : expected = window.cursor :=
              UInt8.toNat_inj.mp (hexpected.trans hcursor.symm)
            refine .behind hcommits ?_ ?_ ?_ hcommit
            · rw [hflushed, List.length_append, hstop]
            · rw [hcursor, hstop]
              exact Nat.le_add_right _ _
            · rw [send_loop, hdelivered]
              exact List.mem_append_right _ (List.mem_singleton_self output)
        | behind hupdate =>
            rw [hempty] at hupdate
            cases hupdate
  · rw [send_worker, hcommits]
    intro hwindow hstays
    rw [hdaemon.missing hwindow hstays]
    cases hcommit : output.ready.commit with
    | none => rfl
    | some update =>
        have hsome := hwindowed (by rw [hcommit]; rfl) hstays
        rw [hwindow] at hsome
        cases hsome
  · rw [send_worker]
    exact hdaemon.departed
  · rw [hopenings]
    exact hdaemon.single
  · rw [hopenings, send_worker]
    exact hdaemon.opening
  · rw [hopenings, send_worker, send_loop, hopened]
    exact hdaemon.unopened
  · rw [send_answers, hflushed]
    intro job ready expansion hmem hexpanded
    obtain ⟨requestId, remainingMs, windowId, itemIndex, beforeBytes, afterBytes, hjob, hbelow⟩ :=
      hdaemon.expanded job ready expansion hmem hexpanded
    refine ⟨requestId, remainingMs, windowId, itemIndex, beforeBytes, afterBytes, hjob, ?_⟩
    rw [List.length_append]
    exact Nat.lt_add_right _ hbelow

/-- Every reaction of the loop keeps the invariant. -/
theorem Paging.loop {daemon : Daemon wire} (hdaemon : daemon.Paging) {action : Action wire}
    {event : Event wire} {next : Loop wire} {command : Option (Command wire)}
    (hevent : daemon.event action = some event)
    (hreaction : Loop.Reaction daemon.loop event next command) :
    (send command { daemon with loop := next }).Paging := by
  have hordered := Stepping.loop_ordered hdaemon.ordered hevent hreaction
  cases hreaction.traffic hdaemon.ordered.integral with
  | quiet htrading hdelivered hcommand =>
      exact hdaemon.quiet hordered hreaction.live htrading hdelivered hcommand
  | sent hsends halive hdelivered =>
      exact hdaemon.sent hordered hsends (event_alive hevent halive) hdelivered
  | answered hactive hanswer hidle houtput hready hissued hopened hexpires hdelivered =>
      obtain ⟨found, job, hfound, hmem, hserial⟩ := event_reply hevent
      obtain rfl := Option.some.inj (hactive.symm.trans hfound)
      exact hdaemon.replied hordered hactive hmem hserial hanswer hidle houtput hready hopened
        hdelivered
  | flushed hlive houtput halive hactive hnone hissued hopened hexpires hdelivered =>
      exact hdaemon.delivers hordered hlive houtput rfl
        (fun hsome => (event_alive hevent rfl).trans (halive hsome)) hactive hnone hopened hdelivered

end Daemon

end EliotSearch.Session
