import EliotSearch.Session.Loop
import EliotSearch.Session.Window

/-!
# The worker of a session

The thread that owns the root, the snapshot and the result vector of a session.
It takes commands in order, performs one job at a time and leaves its loop when
the window is closed or its lifetime has passed.  What a job finds outside the
session is told by a `Verdict`.
-/

namespace EliotSearch.Session

open EliotSearch.Library
open EliotSearch.Library.Json
open EliotSearch.Library.Results

variable {wire : Wire}

/-- What a job finds outside the session: what its checks say before it begins
and while a page is prepared, the results of a query, and an expansion. -/
structure Verdict (wire : Wire) where
  entry : Except QueryFailure Unit
  retrieved : Except QueryFailure (WindowSummary × List wire.Item)
  prepared : Except QueryFailure Unit
  expanded : Except QueryFailure wire.Expansion

/-- A check reports a Cancel only when the flag of the job is set, and a deadline
only when it has passed. -/
def QueryFailure.Sound (cancelled : Bool) (late : Prop) : QueryFailure → Prop
  | .cancelled => cancelled = true
  | .deadline => late
  | .code _ => True

instance (cancelled : Bool) (late : Prop) [Decidable late] (failure : QueryFailure) :
    Decidable (failure.Sound cancelled late) :=
  match failure with
  | .cancelled => inferInstanceAs (Decidable (_ = _))
  | .deadline => inferInstanceAs (Decidable late)
  | .code _ => inferInstanceAs (Decidable True)

/-- The failure of a result. -/
def failureOf {α : Type} : Except QueryFailure α → Option QueryFailure
  | .ok _ => none
  | .error failure => some failure

def Verdict.Sound (cancelled : Bool) (late : Prop) (verdict : Verdict wire) : Prop :=
  (∀ failure ∈ failureOf verdict.entry, failure.Sound cancelled late) ∧
  (∀ failure ∈ failureOf verdict.retrieved, failure.Sound cancelled late) ∧
  (∀ failure ∈ failureOf verdict.prepared, failure.Sound cancelled late) ∧
  ∀ failure ∈ failureOf verdict.expanded, failure.Sound cancelled late

instance (cancelled : Bool) (late : Prop) [Decidable late] (verdict : Verdict wire) :
    Decidable (verdict.Sound cancelled late) :=
  inferInstanceAs (Decidable ((∀ _ ∈ _, _) ∧ (∀ _ ∈ _, _) ∧ (∀ _ ∈ _, _) ∧ ∀ _ ∈ _, _))

/-! ## Jobs -/

namespace Job

/-- The page at the cursor of the window, as the reply to a job. -/
def page (window : Option (Window wire)) (job : Job wire) (verdict : Verdict wire)
    (pageSize : UInt8) : Except QueryFailure (Ready wire) := do
  let window ← okOr window (.code (ascii "WINDOW_NOT_OPEN"))
  verdict.prepared
  window.page job.message.requestId pageSize

/-- Retrieve the results of the query of a job. -/
def openWindow (job : Job wire) (verdict : Verdict wire) : Except QueryFailure (Window wire) := do
  let _ ← okOr job.expires (.code (ascii "WINDOW_NOT_OPEN"))
  let (summary, items) ← verdict.retrieved
  Window.ofResults summary items

def expand (window : Option (Window wire)) (job : Job wire) (verdict : Verdict wire)
    (itemIndex : UInt8) : Except QueryFailure (Ready wire) := do
  let window ← okOr window (.code (ascii "WINDOW_NOT_OPEN"))
  let _ ← window.emitted itemIndex
  let expansion ← verdict.expanded
  (outcome job.message.requestId (.expanded expansion) false).mapError .code

/-- Perform a job on the window: the window it leaves and its reply. -/
def execute (window : Option (Window wire)) (job : Job wire) (verdict : Verdict wire) :
    Option (Window wire) × Except QueryFailure (Ready wire) :=
  match verdict.entry with
  | .error failure => (window, .error failure)
  | .ok _ =>
      match job.message with
      | .openWindow _ _ _ pageSize _ =>
          match job.openWindow verdict with
          | .ok opened => (some opened, job.page (some opened) verdict pageSize)
          | .error failure => (window, .error failure)
      | .continuePage _ _ _ pageSize => (window, job.page window verdict pageSize)
      | .expand _ _ _ itemIndex _ _ => (window, job.expand window verdict itemIndex)
      | .close requestId => (none, (outcome requestId .closed true).mapError .code)
      | .cancel _ => (window, .error (.code (ascii "SESSION_CONTROL_INVALID")))

end Job

/-- The code of a failure that could not be reported as a reply. -/
def QueryFailure.text : QueryFailure → Bytes
  | .cancelled => ascii "QUERY_CANCELLED"
  | .deadline => ascii "QUERY_DEADLINE"
  | .code text => text

/-- Report the failure of a job as a reply, or its code when that fails. -/
def report (requestId : UInt64) (result : Except QueryFailure (Ready wire)) :
    Except Bytes (Ready wire) :=
  match result with
  | .ok ready => .ok ready
  | .error reason => failure requestId reason

/-! ## The worker -/

/-- Why the worker left its loop. -/
inductive Departure where
  /-- The lifetime of the window has passed. -/
  | lifetime
  /-- No command came before a window was opened. -/
  | idle
  /-- Its reply ended the session. -/
  | ending
  | shutdown
  /-- A commit could not be applied. -/
  | uncommitted
  deriving DecidableEq, Repr

/-- Where the worker is: it waits for a command until an instant, performs a
job, has left its loop, has said so, or has dropped its end of the queue. -/
inductive Stage (wire : Wire) where
  | waiting (limit : Instant)
  | running (job : Job wire)
  | left (departure : Departure)
  | signalled (departure : Departure)
  | gone (departure : Departure)

/-- The worker with its window.  `vector` is the result vector of the session,
kept when the window is dropped. -/
structure Worker (wire : Wire) where
  stage : Stage wire
  window : Option (Window wire)
  expires : Option Instant
  vector : List wire.Item

namespace Worker

def start (clock : Instant) : Worker wire where
  stage := .waiting (clock + millis 120000)
  window := none
  expires := none
  vector := []

/-- The worker still owns the receiving end of the command channel. -/
def alive (worker : Worker wire) : Bool :=
  match worker.stage with
  | .gone _ => false
  | _ => true

/-- The worker has said that it is done. -/
def done (worker : Worker wire) : Bool :=
  match worker.stage with
  | .signalled _ => true
  | .gone _ => true
  | _ => false

/-- The job being performed. -/
def job (worker : Worker wire) : Option (Job wire) :=
  match worker.stage with
  | .running job => some job
  | _ => none

/-- Why the worker left its loop, when it did. -/
def departure (worker : Worker wire) : Option Departure :=
  match worker.stage with
  | .left departure => some departure
  | .signalled departure => some departure
  | .gone departure => some departure
  | _ => none

/-- The lifetime of the window has passed. -/
def Expired (now : Instant) (worker : Worker wire) : Prop :=
  ∃ expires ∈ worker.expires, expires ≤ now

instance (now : Instant) (worker : Worker wire) : Decidable (worker.Expired now) :=
  inferInstanceAs (Decidable (∃ _ ∈ _, _))

/-- Leave the loop and drop the window. -/
def leave (departure : Departure) (worker : Worker wire) : Worker wire :=
  { worker with stage := .left departure, window := none }

/-- Wait for the next command, for the rest of the lifetime of the window. -/
def wait (now : Instant) (worker : Worker wire) : Worker wire :=
  { worker with stage := .waiting (worker.expires.getD (now + millis 120000)) }

/-- Take a command: the worker and the reply it gives at once. -/
def take (now : Instant) (command : Command wire) (worker : Worker wire) :
    Worker wire × Option (Job wire × Except Bytes (Ready wire)) :=
  match command with
  | .shutdown => (worker.leave .shutdown, none)
  | .commit expected next =>
      if worker.Expired now then (worker.leave .lifetime, none)
      else
        match worker.window with
        | none => (worker.leave .uncommitted, none)
        | some window =>
            match window.commitPage expected next with
            | .ok moved => ({ worker with window := some moved }.wait now, none)
            | .error _ => (worker.leave .uncommitted, none)
  | .execute job =>
      if worker.Expired now then
        (worker.leave .lifetime, some (job, outcome job.message.requestId .expired true))
      else
        ({ worker with
            stage := .running job
            expires := match job.expires with
              | some expires => some expires
              | none => worker.expires },
          none)

/-- Finish a job: the worker and the reply it sends. -/
def finish (now : Instant) (cancelled : Bool) (job : Job wire) (verdict : Verdict wire)
    (worker : Worker wire) : Worker wire × Except Bytes (Ready wire) :=
  let (window, result) := job.execute worker.window verdict
  let vector := match window with
    | some window => window.items
    | none => worker.vector
  let worker := { worker with window, vector }
  let requestId := job.message.requestId
  if worker.Expired now then
    (worker.leave .lifetime,
      report requestId ((outcome requestId .expired true).mapError .code))
  else
    let result :=
      if cancelled = true ∧ job.message.isClose = false then .error .cancelled else result
    match report requestId result with
    | .ok ready =>
        if ready.ends then (worker.leave .ending, .ok ready) else (worker.wait now, .ok ready)
    | .error code => (worker.wait now, .error code)

/-- Give up waiting for a command. -/
def timeOut (worker : Worker wire) : Worker wire :=
  worker.leave (if worker.expires.isSome then .lifetime else .idle)

end Worker

/-! ## What a job does -/

/-- What performing a job does to the window. -/
inductive Windowing (job : Job wire) (before : Option (Window wire)) :
    Option (Window wire) → Prop where
  | kept : Windowing job before before
  | opened {window : Window wire} (hopen : job.message.isOpen = true) (hcursor : window.cursor = 0) :
      Windowing job before (some window)
  | closed (hclose : job.message.isClose = true) : Windowing job before none

/-- What the reply of a performed job can be. -/
inductive Reporting (job : Job wire) (window : Option (Window wire)) (ready : Ready wire) :
    Prop where
  | failed (hfailed : ready.IsFailure)
  | page {found : Window wire} (hwindow : window = some found)
      (hslice : Window.Slice found.items found.cursor ready)
  | expanded {found : Window wire} {expansion : wire.Expansion}
      {requestId remainingMs windowId beforeBytes afterBytes : UInt64} {itemIndex : UInt8}
      (hwindow : window = some found) (hbelow : itemIndex.toNat < found.cursor.toNat)
      (hjob : job.message = .expand requestId remainingMs windowId itemIndex beforeBytes afterBytes)
      (hexpanded : ready.reply.outcome = .expanded expansion) (hcommit : ready.commit = none)
      (hends : ready.ends = false)
  | closed (hjob : job.message.isClose = true) (hclosed : ready.reply.outcome = .closed)
      (hcommit : ready.commit = none) (hends : ready.ends = true)

namespace Job

theorem openWindow_eq_ok {job : Job wire} {verdict : Verdict wire} {window : Window wire}
    (hopen : job.openWindow verdict = .ok window) : window.cursor = 0 := by
  simp only [openWindow, bind_eq_ok] at hopen
  obtain ⟨_, -, ⟨summary, items⟩, -, hopen⟩ := hopen
  unfold Window.ofResults at hopen
  split at hopen
  · obtain rfl := Except.ok.inj hopen
    rfl
  · cases hopen

theorem page_eq_ok {window : Option (Window wire)} {job : Job wire} {verdict : Verdict wire}
    {pageSize : UInt8} {ready : Ready wire}
    (hpage : job.page window verdict pageSize = .ok ready) :
    ready.reply.requestId = job.message.requestId ∧ Reporting job window ready := by
  simp only [page, bind_eq_ok, okOr_eq_ok] at hpage
  obtain ⟨found, hwindow, _, -, hpage⟩ := hpage
  obtain ⟨hslice, hid⟩ := Window.page_slice hpage
  exact ⟨hid, .page hwindow hslice⟩

theorem expand_eq_ok {window : Option (Window wire)} {job : Job wire} {verdict : Verdict wire}
    {requestId remainingMs windowId beforeBytes afterBytes : UInt64} {itemIndex : UInt8}
    {ready : Ready wire}
    (hjob : job.message = .expand requestId remainingMs windowId itemIndex beforeBytes afterBytes)
    (hexpand : job.expand window verdict itemIndex = .ok ready) :
    ready.reply.requestId = job.message.requestId ∧ Reporting job window ready := by
  simp only [expand, bind_eq_ok, okOr_eq_ok, mapError_eq_ok] at hexpand
  obtain ⟨found, hwindow, item, hemitted, expansion, -, houtcome⟩ := hexpand
  obtain ⟨hreply, hcommit, hends⟩ := outcome_eq_ok houtcome
  refine ⟨congrArg SessionReply.requestId hreply, ?_⟩
  exact .expanded hwindow (Window.emitted_eq_ok hemitted) hjob
    (congrArg SessionReply.outcome hreply) hcommit hends

theorem execute_window (window : Option (Window wire)) (job : Job wire) (verdict : Verdict wire) :
    Windowing job window (job.execute window verdict).1 := by
  unfold execute
  split
  · exact .kept
  · split
    · rename_i hmessage
      split
      · rename_i opened hopen
        exact .opened (by rw [hmessage]; rfl) (openWindow_eq_ok hopen)
      · exact .kept
    · exact .kept
    · exact .kept
    · rename_i hmessage
      exact .closed (by rw [hmessage]; rfl)
    · exact .kept

theorem execute_reply {window : Option (Window wire)} {job : Job wire} {verdict : Verdict wire}
    {ready : Ready wire} (hready : (job.execute window verdict).2 = .ok ready) :
    ready.reply.requestId = job.message.requestId ∧
      Reporting job (job.execute window verdict).1 ready := by
  unfold execute at hready ⊢
  split at hready
  · cases hready
  · split at hready
    · rename_i hmessage
      split at hready
      · exact page_eq_ok hready
      · cases hready
    · exact page_eq_ok hready
    · rename_i hmessage
      exact expand_eq_ok hmessage hready
    · rename_i requestId hmessage
      obtain ⟨hreply, hcommit, hends⟩ := outcome_eq_ok (mapError_eq_ok.mp hready)
      refine ⟨?_, .closed (by rw [hmessage]; rfl) (congrArg SessionReply.outcome hreply) hcommit
        hends⟩
      rw [hreply, hmessage]
      rfl
    · cases hready

end Job

namespace Worker

/-- The worker after performing a job, before it looks at the clock. -/
def performed (job : Job wire) (verdict : Verdict wire) (worker : Worker wire) : Worker wire :=
  { worker with
    window := (job.execute worker.window verdict).1
    vector := match (job.execute worker.window verdict).1 with
      | some window => window.items
      | none => worker.vector }

/-- What finishing a job can do: the worker it leaves and its reply. -/
inductive Finishing (now : Instant) (job : Job wire) (worker : Worker wire) :
    Worker wire → Except Bytes (Ready wire) → Prop where
  | lifetime {ready : Ready wire} (hexpired : worker.Expired now)
      (hreply : ready.reply = ⟨job.message.requestId, .expired⟩) (hcommit : ready.commit = none)
      (hends : ready.ends = true) :
      Finishing now job worker (worker.leave .lifetime) (.ok ready)
  | ending {ready : Ready wire} (hlasting : ¬ worker.Expired now)
      (hid : ready.reply.requestId = job.message.requestId)
      (hreport : Reporting job worker.window ready) (hends : ready.ends = true) :
      Finishing now job worker (worker.leave .ending) (.ok ready)
  | replied {ready : Ready wire} (hlasting : ¬ worker.Expired now)
      (hid : ready.reply.requestId = job.message.requestId)
      (hreport : Reporting job worker.window ready) (hends : ready.ends = false) :
      Finishing now job worker (worker.wait now) (.ok ready)
  | unreported {code : Bytes} (hlasting : ¬ worker.Expired now) :
      Finishing now job worker (worker.wait now) (.error code)

theorem report_eq_ok {requestId : UInt64} {result : Except QueryFailure (Ready wire)}
    {ready : Ready wire} (hreport : report requestId result = .ok ready) :
    result = .ok ready ∨ (ready.IsFailure ∧ ready.reply.requestId = requestId) := by
  unfold report at hreport
  split at hreport
  · exact Or.inl (by rw [Except.ok.inj hreport])
  · exact Or.inr (failure_eq_ok hreport)

theorem finish_finishing (now : Instant) (cancelled : Bool) (job : Job wire)
    (verdict : Verdict wire) (worker : Worker wire) :
    Finishing now job (worker.performed job verdict)
      (worker.finish now cancelled job verdict).1 (worker.finish now cancelled job verdict).2 := by
  have hperformed : worker.finish now cancelled job verdict =
      if (worker.performed job verdict).Expired now then
        ((worker.performed job verdict).leave .lifetime,
          report job.message.requestId
            ((outcome job.message.requestId .expired true).mapError .code))
      else
        match report job.message.requestId
          (if cancelled = true ∧ job.message.isClose = false then .error .cancelled
            else (job.execute worker.window verdict).2) with
        | .ok ready =>
            if ready.ends then ((worker.performed job verdict).leave .ending, .ok ready)
            else ((worker.performed job verdict).wait now, .ok ready)
        | .error code => ((worker.performed job verdict).wait now, .error code) :=
    rfl
  rw [hperformed]
  split
  · rename_i hexpired
    have hencodes : ∃ ready : Ready wire, outcome job.message.requestId .expired true = .ok ready :=
      outcome_ok .expired true (Or.inr rfl) rfl
    obtain ⟨ready, hready⟩ := hencodes
    obtain ⟨hreply, hcommit, hends⟩ := outcome_eq_ok hready
    rw [hready]
    exact .lifetime hexpired hreply hcommit hends
  · rename_i hlasting
    split
    · rename_i ready hreport
      have hready : ready.reply.requestId = job.message.requestId ∧
          Reporting job (worker.performed job verdict).window ready := by
        rcases report_eq_ok hreport with hresult | ⟨hfailed, hid⟩
        · split at hresult
          · cases hresult
          · exact Job.execute_reply hresult
        · exact ⟨hid, .failed hfailed⟩
      split
      · rename_i hends
        exact .ending hlasting hready.1 hready.2 hends
      · rename_i hends
        exact .replied hlasting hready.1 hready.2 (Bool.eq_false_of_not_eq_true hends)
    · exact .unreported hlasting

end Worker

end EliotSearch.Session
