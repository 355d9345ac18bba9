import Ferrofin.Lib.Machine
import Ferrofin.Scan.Sections

/-!
# The scan worker

The machine of all interleavings of the callers, the queue's worker, the scans and
the shutdown (`scanWorker`).  The worker's task is cut where it waits for its scan
and between its locked sections; a scan's task where it serves the lane, whose
`next` comes after a look at the cancel token of its own.

A worker dies only while it waits for its scan, its one await.  Its scan is told to
abort then, and goes on until its next await: an aborted scan is one whose worker
is gone and which still executes.
-/

namespace Ferrofin.Scan

open Lib

/-- Where the worker's task stands: before its next turn, waiting for its scan, or
with the result of it. -/
inductive WorkerState (Search : Type) where
  | idle
  | awaiting (scan : Nat) (request : ScanRequest Search)
  | ended (request : ScanRequest Search) (result : ScanResult)

/-- Where a scan stands: in its walk, past the look at its token (`is_cancelled`),
or serving a refresh of the lane. -/
inductive TaskPhase where
  | walking
  | checked
  | serving (key : Nat)
deriving DecidableEq

structure ScanTask where
  scan : Nat
  cancel : Nat
  aborted : Bool := false
  phase : TaskPhase := .walking
deriving DecidableEq

/-- How a scan ends: with an outcome, stopped early or not, an error or a panic, or
because it was aborted. -/
inductive ScanEnding where
  | outcome (stopped : Bool)
  | error (message : String)
  | panicked (message : String)
  | aborted

/-- What `ScanWorker::finish` makes of it. -/
def finishResult : ScanEnding → ScanResult
  | .outcome true | .aborted => .stopped
  | .outcome false => .completed
  | .error message => .failed message
  | .panicked message => .failed ("library scan panicked: " ++ message)

/-- The queue with its tasks and callers.  `leaving` has the callers that were
answered and have their ticket still to withdraw; `died` is history. -/
structure World (Search : Type) where
  queue : ScanQueue Search := {}
  workers : List (WorkerState Search) := []
  tasks : List ScanTask := []
  callers : List Nat := []
  leaving : List Nat := []
  scans : Nat := 0
  died : Bool := false

/-- A step; workers and scans are named by their place. -/
inductive ScanEvent (Search : Type) where
  | submit (request : ScanRequest Search) (waiting : Bool) (progress : Option Nat)
  | check (ticket : Nat)
  | withdraw (ticket : Nat)
  | pop (i : Nat)
  | finish (i : Nat)
  | die (i : Nat)
  | laneCheck (j : Nat)
  | laneNext (j : Nat)
  | laneDone (j : Nat) (ending : ScanEnding)
  | scanEnd (j : Nat) (ending : ScanEnding)
  | shutdown

variable {Search : Type}

namespace WorkerState

def isBusy : WorkerState Search → Bool
  | .idle => false
  | .awaiting _ _ | .ended _ _ => true

def scanEnded (scan : Nat) (ending : ScanEnding) : WorkerState Search → WorkerState Search
  | .awaiting s request =>
    if s = scan then .ended request (finishResult ending) else .awaiting s request
  | worker => worker

def dying : WorkerState Search → Option (ScanRequest Search × Option Nat)
  | .idle => none
  | .awaiting scan request => some (request, some scan)
  | .ended request _ => some (request, none)

end WorkerState

def ScanTask.abort (scan : Option Nat) (task : ScanTask) : ScanTask :=
  if scan = some task.scan then { task with aborted := true } else task

namespace World

def startWorker (start : Bool) (workers : List (WorkerState Search)) :
    List (WorkerState Search) := if start then workers ++ [.idle] else workers

variable [DecidableEq Search]

def step (w : World Search) : ScanEvent Search → Option (World Search)
  | .submit request waiting progress =>
    match w.queue.submit request waiting progress with
    | none => some w
    | some (ticket, start, q) => some { w with
        queue := q
        workers := startWorker start w.workers
        callers := w.callers ++ ticket.toList }
  | .check ticket =>
    if ticket ∈ w.callers then
      let (c, q) := w.queue.check ticket
      let answered := c.result.isSome || c.lost
      some { w with
        queue := q
        workers := startWorker c.restart w.workers
        callers := if answered then w.callers.erase ticket else w.callers
        leaving := if answered then w.leaving ++ [ticket] else w.leaving }
    else none
  | .withdraw ticket =>
    if ticket ∈ w.callers ∨ ticket ∈ w.leaving then some { w with
      queue := w.queue.withdraw ticket
      callers := w.callers.erase ticket
      leaving := w.leaving.erase ticket }
    else none
  | .pop i =>
    match w.workers[i]? with
    | some .idle =>
      match w.queue.pop with
      | (none, q) => some { w with queue := q, workers := w.workers.eraseIdx i }
      | (some p, q) => some { w with
          queue := q
          workers := w.workers.set i (.awaiting w.scans p.request)
          tasks := w.tasks ++ [{ scan := w.scans, cancel := w.queue.tokens }]
          scans := w.scans + 1 }
    | _ => none
  | .finish i =>
    match w.workers[i]? with
    | some (.ended _ result) => some { w with
        queue := (w.queue.finishRunning result).failServing
        workers := w.workers.set i .idle }
    | _ => none
  | .die i =>
    match w.workers[i]?.bind WorkerState.dying with
    | some (request, scan) => some { w with
        queue := w.queue.releaseWorker (some request)
        workers := w.workers.eraseIdx i
        tasks := w.tasks.map (ScanTask.abort scan)
        died := true }
    | none => none
  | .laneCheck j =>
    match w.tasks[j]? with
    | some task =>
      if task.phase = .walking ∧ task.cancel ∉ w.queue.cancelled then
        some { w with tasks := w.tasks.set j { task with phase := .checked } }
      else none
    | none => none
  | .laneNext j =>
    match w.tasks[j]? with
    | some task =>
      if task.phase = .checked then
        match w.queue.laneNext with
        | (none, q) => some { w with
            queue := q
            tasks := w.tasks.set j { task with phase := .walking } }
        | (some _, q) => some { w with
            queue := q
            tasks := w.tasks.set j { task with phase := .serving w.queue.nextLaneKey } }
      else none
    | none => none
  | .laneDone j ending =>
    match w.tasks[j]? with
    | some task =>
      match task.phase with
      | .serving key => some { w with
          queue := w.queue.laneDone key (finishResult ending)
          tasks := w.tasks.set j { task with phase := .walking } }
      | _ => none
    | none => none
  | .scanEnd j ending =>
    match w.tasks[j]? with
    | some task => some { w with
        workers := w.workers.map (WorkerState.scanEnded task.scan ending)
        tasks := w.tasks.eraseIdx j }
    | none => none
  | .shutdown => some { w with queue := w.queue.shutdown }

end World

def scanWorker (Search : Type) [DecidableEq Search] :
    Machine (World Search) (ScanEvent Search) where
  init := {}
  step := World.step

namespace World

/-! ### What one step can do -/

variable [DecidableEq Search]

/-- Everything a step can do, with the guards it passed. -/
inductive Stepped (w : World Search) : ScanEvent Search → World Search → Prop
  | refused {request : ScanRequest Search} {waiting : Bool} {progress : Option Nat}
      (hclosed : w.queue.closed = true) : Stepped w (.submit request waiting progress) w
  | submitted {request : ScanRequest Search} {waiting : Bool} {progress : Option Nat}
      {sinks : KeyedMap Nat Nat} (hclosed : w.queue.closed = false) :
      Stepped w (.submit request waiting progress) { w with
        queue := { w.queue.enqueue request waiting with sinks := sinks, worker := true }
        workers := startWorker (!w.queue.worker) w.workers
        callers := w.callers ++ (w.queue.asking request waiting).ticket.toList }
  | answered {ticket : Nat} {result : ScanResult} (hmem : ticket ∈ w.callers)
      (hresult : w.queue.finished.lookup ticket = some result) :
      Stepped w (.check ticket) { w with
        queue := { w.queue with finished := w.queue.finished.erase ticket }
        callers := w.callers.erase ticket
        leaving := w.leaving ++ [ticket] }
  | lost {ticket : Nat} (hmem : ticket ∈ w.callers)
      (hresult : w.queue.finished.lookup ticket = none) (hworker : w.queue.worker = false)
      (hclosed : w.queue.closed = false) (hqueued : w.queue.isQueued ticket = false) :
      Stepped w (.check ticket) { w with
        queue := { w.queue with finished := w.queue.finished.erase ticket }
        callers := w.callers.erase ticket
        leaving := w.leaving ++ [ticket] }
  | restarted {ticket : Nat} (hmem : ticket ∈ w.callers)
      (hresult : w.queue.finished.lookup ticket = none) (hworker : w.queue.worker = false)
      (hclosed : w.queue.closed = false) (hqueued : w.queue.isQueued ticket = true) :
      Stepped w (.check ticket) { w with
        queue := { w.queue with finished := w.queue.finished.erase ticket, worker := true }
        workers := w.workers ++ [.idle] }
  | unanswered {ticket : Nat} (hmem : ticket ∈ w.callers)
      (hresult : w.queue.finished.lookup ticket = none) :
      Stepped w (.check ticket) { w with
        queue := { w.queue with finished := w.queue.finished.erase ticket } }
  | withdrawn {ticket : Nat} (hmem : ticket ∈ w.callers ∨ ticket ∈ w.leaving) :
      Stepped w (.withdraw ticket) { w with
        queue := w.queue.withdraw ticket
        callers := w.callers.erase ticket
        leaving := w.leaving.erase ticket }
  | stoodDown {i : Nat} (hi : w.workers[i]? = some .idle) (hempty : w.queue.entries = []) :
      Stepped w (.pop i) { w with
        queue := { w.queue with worker := false, running := none }
        workers := w.workers.eraseIdx i }
  | popped {i : Nat} {p : PendingScan Search} {pending lane : List (PendingScan Search)}
      (hi : w.workers[i]? = some .idle)
      (hperm : w.queue.entries.Perm (p :: (pending ++ lane))) :
      Stepped w (.pop i) { w with
        queue := { w.queue with pending := pending, lane := lane }.start p
        workers := w.workers.set i (.awaiting w.scans p.request)
        tasks := w.tasks ++ [{ scan := w.scans, cancel := w.queue.tokens }]
        scans := w.scans + 1 }
  | finished {i : Nat} {request : ScanRequest Search} {result : ScanResult}
      (hi : w.workers[i]? = some (.ended request result)) :
      Stepped w (.finish i) { w with
        queue := (w.queue.finishRunning result).failServing
        workers := w.workers.set i .idle }
  | died {i : Nat} {worker : WorkerState Search} {request : ScanRequest Search}
      {scan : Option Nat} (hi : w.workers[i]? = some worker)
      (hdying : worker.dying = some (request, scan)) :
      Stepped w (.die i) { w with
        queue := w.queue.releaseWorker (some request)
        workers := w.workers.eraseIdx i
        tasks := w.tasks.map (ScanTask.abort scan)
        died := true }
  | checked {j : Nat} {task : ScanTask} (hj : w.tasks[j]? = some task)
      (hphase : task.phase = .walking) (hcancel : task.cancel ∉ w.queue.cancelled) :
      Stepped w (.laneCheck j) { w with tasks := w.tasks.set j { task with phase := .checked } }
  | passed {j : Nat} {task : ScanTask} (hj : w.tasks[j]? = some task)
      (hphase : task.phase = .checked) :
      Stepped w (.laneNext j) { w with tasks := w.tasks.set j { task with phase := .walking } }
  | served {j : Nat} {task : ScanTask} {p : PendingScan Search}
      {lane : List (PendingScan Search)} (hj : w.tasks[j]? = some task)
      (hphase : task.phase = .checked) (hclosed : w.queue.closed = false)
      (hlane : w.queue.lane = p :: lane) :
      Stepped w (.laneNext j) { w with
        queue := { w.queue with
          lane := lane
          serving := w.queue.serving.insert w.queue.nextLaneKey
            { request := p.request, waiters := p.waiters, cancel := w.queue.tokens }
          nextLaneKey := w.queue.nextLaneKey + 1
          tokens := w.queue.tokens + 1 }
        tasks := w.tasks.set j { task with phase := .serving w.queue.nextLaneKey } }
  | handedBack {j : Nat} {task : ScanTask} {key : Nat} {ending : ScanEnding}
      (hj : w.tasks[j]? = some task) (hphase : task.phase = .serving key) :
      Stepped w (.laneDone j ending) { w with
        queue := w.queue.laneDone key (finishResult ending)
        tasks := w.tasks.set j { task with phase := .walking } }
  | scanEnded {j : Nat} {task : ScanTask} {ending : ScanEnding}
      (hj : w.tasks[j]? = some task) :
      Stepped w (.scanEnd j ending) { w with
        workers := w.workers.map (WorkerState.scanEnded task.scan ending)
        tasks := w.tasks.eraseIdx j }
  | shutdown : Stepped w .shutdown { w with queue := w.queue.shutdown }

variable {w w' : World Search} {e : ScanEvent Search}

/-- **What one step can do.** -/
theorem step_cases (h : w.step e = some w') : Stepped w e w' := by
  cases e with
  | submit request waiting progress =>
    rcases w.queue.submit_cases request waiting progress with ⟨hc, he⟩ | ⟨hc, sinks, he⟩ <;>
      simp only [step, he, Option.some.injEq] at h <;> subst h
    · exact .refused hc
    · exact .submitted hc
  | check ticket =>
    rw [step] at h
    split at h
    · next hmem =>
      rcases w.queue.check_cases ticket with ⟨result, hr, he⟩ | ⟨hr, hcase⟩
      · simp only [he, Option.some.injEq] at h
        subst h
        exact .answered hmem hr
      · rcases hcase with ⟨hw, hc, hq, he⟩ | ⟨hw, hc, hq, he⟩ | ⟨-, he⟩ <;>
          simp only [he, Option.some.injEq] at h <;> subst h
        · exact .restarted hmem hr hw hc hq
        · exact .lost hmem hr hw hc hq
        · exact .unanswered hmem hr
    · cases h
  | withdraw ticket =>
    rw [step] at h
    split at h
    · next hmem => cases h; exact .withdrawn hmem
    · cases h
  | pop i =>
    rw [step] at h
    split at h
    · next hi =>
      rcases w.queue.pop_cases with ⟨hempty, he⟩ | ⟨p, q', he, hperm, pending, lane, rfl⟩ <;>
        simp only [he, Option.some.injEq] at h <;> subst h
      · exact .stoodDown hi hempty
      · exact .popped hi hperm
    · cases h
  | finish i =>
    rw [step] at h
    split at h
    · next request result hi => cases h; exact .finished hi
    · cases h
  | die i =>
    rw [step] at h
    split at h
    · next request scan hd =>
      obtain ⟨worker, hi, hdying⟩ := Option.bind_eq_some_iff.mp hd
      cases h
      exact .died hi hdying
    · cases h
  | laneCheck j =>
    rw [step] at h
    split at h
    · next task hj =>
      split at h
      · next hc => cases h; exact .checked hj hc.1 hc.2
      · cases h
    · cases h
  | laneNext j =>
    rw [step] at h
    split at h
    · next task hj =>
      split at h
      · next hphase =>
        rcases w.queue.laneNext_cases with he | ⟨p, lane, hclosed, hlane, he⟩ <;>
          simp only [he, Option.some.injEq] at h <;> subst h
        · exact .passed hj hphase
        · exact .served hj hphase hclosed hlane
      · cases h
    · cases h
  | laneDone j ending =>
    rw [step] at h
    split at h
    · next task hj =>
      split at h
      · next key hphase => cases h; exact .handedBack hj hphase
      · cases h
    · cases h
  | scanEnd j ending =>
    rw [step] at h
    split at h
    · next task hj => cases h; exact .scanEnded hj
    · cases h
  | shutdown => cases h; exact .shutdown

end World

end Ferrofin.Scan
