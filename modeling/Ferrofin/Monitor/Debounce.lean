import Mathlib.Data.Finset.Card
import Ferrofin.Lib.Machine
import Ferrofin.Lib.KeyedMap
import Ferrofin.Lib.ModifyFirst
import Ferrofin.Util.Paths

/-!
# The library monitor's debounce

A change that the library monitor accepts (`library_monitor.rs`) joins the settle group of a
related path, or opens one, and a worker dispatches a group's scan once its deadline has
passed.  `debounce` is the machine of all interleavings of accepted reports, of the
worker's passes and of its dispatches.

`enqueue` is what a report does under the lock.  The worker is spawned right after, with no
await between, so it is there from that step on; it wakes when its sleep ends, when it is
flushed, or for nothing.

The numbers of the groups, `World.taken` and `World.reports` are history: the groups that
were taken, in order, and the reports with the group each joined.
-/

namespace Ferrofin.Monitor

open Lib Util

inductive ScanTrigger where
  | api
  | schedule
  | startup
  | watcher
  | webhook
deriving DecidableEq

def maxSettleWindows : Nat := 10

def maxPendingPaths : Nat := 20000

structure PendingGroup where
  number : Nat
  anchor : Path
  paths : Finset Path
  trigger : ScanTrigger
  deadline : Nat
  hardDeadline : Nat

namespace PendingGroup

variable (g : PendingGroup) (path : Path)

/-- A reported path is the group's, under it, above it, or beside it. -/
def related : Bool :=
  startsWith path g.anchor || startsWith g.anchor path ||
    ((parent path).isSome && (parent g.anchor).map components == (parent path).map components)

/-- The group's path, moved up to one that holds the reported path too. -/
def rebase : PendingGroup :=
  if startsWith path g.anchor then g
  else if startsWith g.anchor path then { g with anchor := path }
  else match parent path with
    | some folder => { g with anchor := folder }
    | none => g

/-- A report joins the group: its window is armed again. -/
def join (now delay : Nat) : PendingGroup :=
  { g with
    paths := insert path g.paths
    deadline := if maxPendingPaths ≤ (insert path g.paths).card then now
      else min (now + delay) g.hardDeadline }

end PendingGroup

structure PendingChanges where
  groups : List PendingGroup := []
  workerRunning : Bool := false
  opened : Nat := 0

namespace PendingChanges

variable (c : PendingChanges)

def nextDeadline : Option Nat := (c.groups.map PendingGroup.deadline).min?

def newGroup (path : Path) (trigger : ScanTrigger) (now delay : Nat) : PendingGroup where
  number := c.opened
  anchor := path
  paths := ∅
  trigger := trigger
  deadline := now
  hardDeadline := now + delay * maxSettleWindows

def groupOf (path : Path) : Option PendingGroup := c.groups.find? (·.related path)

/-- `group_for`, and what is done to the group it answers. -/
def groupFor (path : Path) (trigger : ScanTrigger) (now delay : Nat)
    (change : PendingGroup → PendingGroup) : PendingChanges :=
  match c.groupOf path with
  | some _ => { c with
      groups := modifyFirst (·.related path) (fun g => change (g.rebase path)) c.groups }
  | none => { c with
      groups := c.groups ++ [change (c.newGroup path trigger now delay)]
      opened := c.opened + 1 }

def enqueue (path : Path) (trigger : ScanTrigger) (now delay : Nat) : PendingChanges :=
  { c.groupFor path trigger now delay fun g => g.join path now delay with workerRunning := true }

def groupNumber (path : Path) : Nat := ((c.groupOf path).map PendingGroup.number).getD c.opened

/-- A deadline was lowered: a sleeping worker has to be told. -/
def lowers (c' : PendingChanges) : Bool :=
  match c'.nextDeadline, c.nextDeadline with
  | some d', some d => d' < d
  | none, some _ => true
  | _, none => false

end PendingChanges

/-- Where a worker stands: before it reads the next deadline, asleep until then, and with
the groups it has taken still to dispatch; it ends then if it took all (`done`). -/
inductive WorkerPhase where
  | starting
  | sleeping (deadline : Nat)
  | dispatching (groups : List PendingGroup) (done : Bool)

def WorkerPhase.attends : WorkerPhase → Bool
  | .starting | .sleeping _ | .dispatching _ false => true
  | .dispatching _ true => false

/-- A report that was accepted: its path, its group, when it was, and how many groups had
been taken before. -/
structure AcceptedReport where
  path : Path
  group : Nat
  time : Nat
  before : Nat

/-- The clock, what is pending, the permit of the flush, the workers, the scans queued, and
the history. -/
structure World where
  now : Nat := 0
  pending : PendingChanges := {}
  flush : Bool := false
  workers : KeyedMap Nat WorkerPhase := ∅
  scans : List (Finset Path × ScanTrigger) := []
  taken : List PendingGroup := []
  reports : List AcceptedReport := []

/-- What happens.  Workers have numbers; a report is told that of the worker it may spawn,
and a wake whether it is by the flush. -/
inductive Event where
  | tick
  | report (worker : Nat) (path : Path) (trigger : ScanTrigger)
  | advance (worker : Nat)
  | wake (worker : Nat) (flushed : Bool)

namespace World

variable (delay : Nat) (w : World)

def accept (path : Path) (trigger : ScanTrigger) : World :=
  let pending := w.pending.enqueue path trigger w.now delay
  { w with
    pending := pending
    flush := w.flush || (w.pending.workerRunning && w.pending.lowers pending)
    reports := w.reports ++ [{
      path := path
      group := w.pending.groupNumber path
      time := w.now
      before := w.taken.length }] }

def goOn (worker : Nat) (phase : WorkerPhase) : World :=
  { w with workers := w.workers.insert worker phase }

/-- The end of `report_change`: it spawns a worker if none is running. -/
def report (worker : Nat) (path : Path) (trigger : ScanTrigger) : Option World :=
  if w.pending.workerRunning then some (w.accept delay path trigger)
  else if (w.workers.lookup worker).isSome then none
  else some ((w.accept delay path trigger).goOn worker .starting)

def endWorker (worker : Nat) : World := { w with workers := w.workers.erase worker }

def pass (worker : Nat) : World :=
  let lapsed := w.pending.groups.filter fun g => g.deadline ≤ w.now
  let kept := w.pending.groups.filter fun g => !decide (g.deadline ≤ w.now)
  { w.goOn worker (.dispatching lapsed kept.isEmpty) with
    pending := { w.pending with
      groups := kept
      workerRunning := if kept.isEmpty then false else w.pending.workerRunning }
    taken := w.taken ++ lapsed }

def advance (worker : Nat) : WorkerPhase → Option World
  | .starting => some (match w.pending.nextDeadline with
    | some deadline => w.goOn worker (.sleeping deadline)
    | none => { w.endWorker worker with pending := { w.pending with workerRunning := false } })
  | .sleeping _ => none
  | .dispatching (g :: groups) done => some
    { w.goOn worker (.dispatching groups done) with
      scans := w.scans ++ [(g.paths, g.trigger)] }
  | .dispatching [] false => some (w.goOn worker .starting)
  | .dispatching [] true => some (w.endWorker worker)

def wake (worker : Nat) (flushed : Bool) : WorkerPhase → Option World
  | .sleeping _ =>
    if flushed then if w.flush then some { w.pass worker with flush := false } else none
    else some (w.pass worker)
  | .starting | .dispatching _ _ => none

def step : Event → Option World
  | .tick => some { w with now := w.now + 1 }
  | .report worker path trigger => w.report delay worker path trigger
  | .advance worker => (w.workers.lookup worker).bind (w.advance worker)
  | .wake worker flushed => (w.workers.lookup worker).bind (w.wake worker flushed)

end World

def debounce (delay : Nat) : Machine World Event where
  init := {}
  step w := w.step delay

end Ferrofin.Monitor
