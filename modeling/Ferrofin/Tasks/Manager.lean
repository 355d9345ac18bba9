import Ferrofin.Lib.Machine
import Ferrofin.Lib.KeyedLock

/-!
# Scheduled tasks

`FerrofinTaskManager`: the registrations, the runs of their tasks, and the requests that were made
while a task was busy.  A thread is a caller, or the tokio task of a run; what it does next is cut
at every lock it takes (`Work.next`).  A claim, the spawn and the storing of the abort handle are
steps of their own, an abort takes effect when the body next waits, and `busy_queue` is locked over
a whole request and a whole drain.  `taskManager` is the machine of all interleavings.

A sweep of the scheduler is its stops and its requests, which come at any time here; what makes a
trigger due, the trigger's tag and its time limit are left out.  The store of results is
configured.  History: which run has a registration and of which run a result is; in a run, how
many results were recorded for it and during which run the request was made that started it; in a
request, during which run it was made and the first run that was claimed since.
-/

namespace Ferrofin.Tasks

open Lib

inductive TaskState where
  | idle
  | running
deriving DecidableEq

inductive TaskCompletionStatus where
  | completed
  | failed
  | cancelled
  | aborted
deriving DecidableEq

/-- `TaskResult`; one without a run is from before a restart. -/
structure TaskResult where
  status : TaskCompletionStatus
  run : Option Nat

structure Registration where
  state : TaskState := .idle
  abort : Option Nat := none
  lastResult : Option TaskResult := none
  run : Option Nat := none

/-- A run that was claimed; `aborted` is the flag that its handle sets. -/
structure Run where
  key : String
  aborted : Bool := false
  results : Nat := 0
  starter : Option Nat := none

/-- An entry of `busy_queue`, with the request it is of. -/
structure QueuedRun where
  key : String
  request : Nat
deriving DecidableEq

/-- A request that `queue_scheduled` accepts. -/
structure Request where
  key : String
  during : Option Nat := none
  servedBy : Option Nat := none

/-- What follows a claim: the body itself (`run_now`), nothing, the end of an accepted request, or
the rest of a drain. -/
inductive After where
  | foreground
  | nothing
  | accept
  | drain (request : Nat) (rest : List QueuedRun)

/-- What a thread does next: `queue_scheduled` takes the lock (`locking`), looks at the task
(`asking`) and remembers the request (`pushing`); `queue_with_trigger` claims, spawns and stores
the handle; a run executes its body, stores its result and records it; one that was stopped has
its result stored by who stopped it (`stopping`); both then drain the queue. -/
inductive Work where
  | locking (key : String)
  | asking (key : String)
  | pushing (key : String) (request : Nat)
  | claiming (key : String) (after : After)
  | spawning (key : String) (run : Nat) (after : After)
  | storing (key : String) (run : Nat) (after : After)
  | executing (key : String) (run : Nat)
  | persisting (key : String) (run : Nat) (status : TaskCompletionStatus)
  | recording (key : String) (run : Nat) (status : TaskCompletionStatus)
  | stopping (key : String) (result : TaskResult)
  | waiting
  | draining (requests : List QueuedRun)
  | gone

/-- What a claim does under the lock of `busy_queue`. -/
def After.holds : After → Option Unit
  | .accept | .drain _ _ => some ()
  | _ => none

/-- The lock of `busy_queue`. -/
def Work.holds : Work → Option Unit
  | .asking _ | .pushing _ _ | .draining _ => some ()
  | .claiming _ after | .spawning _ _ after | .storing _ _ after => after.holds
  | _ => none

/-- The claim is that of a request, which is accepted with it. -/
def After.accepts : After → Bool
  | .accept => true
  | _ => false

/-- Where a thread goes on that has queued a run, or not. -/
def After.resume : After → Work
  | .drain _ rest => .draining rest
  | _ => .gone

/-- The manager and its threads; runs and requests are counted. -/
structure Manager where
  tasks : KeyedMap String Registration := ∅
  busyQueue : List QueuedRun := []
  stored : KeyedMap String TaskResult := ∅
  threads : KeyedMap Nat Work := ∅
  runs : KeyedMap Nat Run := ∅
  runCount : Nat := 0
  requests : KeyedMap Nat Request := ∅
  requestCount : Nat := 0

inductive Answer where
  | nothing
  | spawned (j : Nat)
  | ended (status : TaskCompletionStatus)
  | dropped

/-- The first request for each task, as `drain_busy_queue` keeps it. -/
def keepFirst (requests : List QueuedRun) (request : QueuedRun) : List QueuedRun :=
  if requests.all (·.key ≠ request.key) then requests ++ [request] else requests

def firsts (queue : List QueuedRun) : List QueuedRun := queue.foldl keepFirst []

namespace Manager

variable (m : Manager)

def isIdle (key : String) : Bool := (m.tasks.lookup key).any (·.state == .idle)

/-- During which run the request was made that starts a run. -/
def starter : After → Option Nat
  | .drain request _ => (m.requests.lookup request).bind Request.during
  | _ => none

def serve (key : String) (run : Nat) (request : Request) : Request :=
  if request.key = key ∧ request.servedBy = none then { request with servedBy := some run }
  else request

def claimRequests (key : String) (after : After) : KeyedMap Nat Request :=
  let requests := KeyedMap.mapValues (fun _ request => serve key m.runCount request) m.requests
  if after.accepts then
    requests.insert m.requestCount { key := key, servedBy := some m.runCount }
  else requests

def claim (key : String) (reg : Registration) (after : After) : Manager :=
  { m with
    tasks := m.tasks.insert key { reg with state := .running, run := some m.runCount }
    runs := m.runs.insert m.runCount { key := key, starter := m.starter after }
    runCount := m.runCount + 1
    requests := m.claimRequests key after
    requestCount := if after.accepts then m.requestCount + 1 else m.requestCount }

def storeAbort (key : String) (run : Nat) : Manager :=
  match m.tasks.lookup key with
  | some reg =>
    if reg.state = .running then
      { m with tasks := m.tasks.insert key { reg with abort := some run } }
    else m
  | none => m

/-- `persist_result`. -/
def persist (key : String) (result : TaskResult) : Manager :=
  { m with stored := m.stored.insert key result }

def countResult (run : Option Nat) : KeyedMap Nat Run :=
  KeyedMap.mapValues (fun id r => if run = some id then { r with results := r.results + 1 } else r)
    m.runs

/-- What `record_result` does under the lock of the registrations. -/
def recordResult (key : String) (result : TaskResult) : Manager :=
  match m.tasks.lookup key with
  | some reg =>
    { m with
      tasks := m.tasks.insert key
        { reg with state := .idle, lastResult := some result, abort := none }
      runs := m.countResult result.run }
  | none => m

def abortRuns (runs : KeyedMap Nat Run) (handle : Option Nat) : KeyedMap Nat Run :=
  KeyedMap.mapValues (fun id r => if handle = some id then { r with aborted := true } else r) runs

def stopRun (i : Nat) (key : String) (reg : Registration) (status : TaskCompletionStatus) :
    Manager :=
  let result : TaskResult := { status := status, run := reg.run }
  { m with
    tasks :=
      m.tasks.insert key { reg with state := .idle, lastResult := some result, abort := none }
    runs := abortRuns (m.countResult reg.run) reg.abort
    threads := m.threads.insert i (.stopping key result) }

def request (key : String) (reg : Registration) : Manager :=
  { m with
    requests := m.requests.insert m.requestCount { key := key, during := reg.run }
    requestCount := m.requestCount + 1 }

end Manager

def Work.next (m : Manager) : Work → Answer → Option (Manager × Work)
  -- `queue_scheduled`
  | .locking key, .nothing =>
    if lockFree Work.holds () m.threads then some (m, .asking key) else none
  | .asking key, .nothing =>
    match m.tasks.lookup key with
    | some reg => some (
      if reg.state = .idle then (m, .claiming key .accept)
      else (m.request key reg, .pushing key m.requestCount))
    | none => some (m, .gone)
  | .pushing key request, .nothing =>
    some ({ m with busyQueue := m.busyQueue ++ [{ key := key, request := request }] }, .gone)
  -- `run_now` and `queue_with_trigger`
  | .claiming key after, .nothing =>
    match m.tasks.lookup key with
    | some reg => some (
      if reg.state = .running then (m, after.resume)
      else (m.claim key reg after, match after with
        | .foreground => .executing key m.runCount
        | _ => .spawning key m.runCount after))
    | none => some (m, after.resume)
  | .spawning key run after, .spawned j =>
    if (m.threads.lookup j).isSome then none
    else some ({ m with threads := m.threads.insert j (.executing key run) },
      .storing key run after)
  | .storing key run after, .nothing => some (m.storeAbort key run, after.resume)
  -- the run, `finish` and `record_result`
  | .executing key run, .ended status => some (m, .persisting key run status)
  | .executing _ run, .dropped =>
    if (m.runs.lookup run).any Run.aborted then some (m, .gone) else none
  | .persisting key run status, .nothing =>
    some (m.persist key { status := status, run := some run }, .recording key run status)
  | .recording key run status, .nothing =>
    some (m.recordResult key { status := status, run := some run }, .waiting)
  -- `stop_run` after its lock
  | .stopping key result, .nothing => some (m.persist key result, .waiting)
  -- `drain_busy_queue`
  | .waiting, .nothing =>
    if lockFree Work.holds () m.threads then
      some ({ m with busyQueue := [] }, .draining (firsts m.busyQueue))
    else none
  | .draining [], .nothing => some (m, .gone)
  | .draining (request :: rest), .nothing =>
    some (m, if m.isIdle request.key then .claiming request.key (.drain request.request rest)
      else .draining rest)
  | _, _ => none

inductive Event where
  | register (key : String)
  | runNow (i : Nat) (key : String)
  | queue (i : Nat) (key : String)
  | queueScheduled (i : Nat) (key : String)
  | stop (i : Nat) (key : String) (status : TaskCompletionStatus)
  | step (i : Nat) (answer : Answer)

namespace Manager

variable (m : Manager)

def goOn (i : Nat) (work : Work) : Manager := { m with threads := m.threads.insert i work }

def start (i : Nat) (work : Work) : Option Manager :=
  if (m.threads.lookup i).isSome then none else some (m.goOn i work)

def step : Event → Option Manager
  | .register key =>
    if (m.tasks.lookup key).isSome then none
    else some { m with tasks := m.tasks.insert key { lastResult := m.stored.lookup key } }
  | .runNow i key => m.start i (.claiming key .foreground)
  | .queue i key => m.start i (.claiming key .nothing)
  | .queueScheduled i key => m.start i (.locking key)
  | .stop i key status =>
    if (m.threads.lookup i).isSome then none
    else match m.tasks.lookup key with
      | some reg => some (if reg.state = .running then m.stopRun i key reg status else m)
      | none => some m
  | .step i answer =>
    (m.threads.lookup i).bind fun work =>
      (work.next m answer).map fun (m', work') => m'.goOn i work'

end Manager

def taskManager : Machine Manager Event where
  init := {}
  step := Manager.step

end Ferrofin.Tasks
