import Ferrofin.Lib.Machine
import Ferrofin.Changes.Batch

/-!
# The notifier of library changes

Changes are added to the open batch under a lock (`add`); a batch goes out when the timer of
its window fires (`close_window_after`), at once when it is full, or when it is flushed, in a
task that awaits the event bus and the audience (`publish`).  `notifier` is the machine of all
interleavings of such tasks, cut at every await, over a clock that goes on between any two
steps.

The configuration and the audience are told from outside.  A task runs for the first time at
any moment after it was spawned, so that tasks stand there as soon as the lock is let go.
History: `recorded`, the changes by window; `published`, the batches as they were published;
`delivered`, the payloads by user.
-/

namespace Ferrofin.Changes

open Lib

/-- Where the timer of a window stands: it reads the length, or sleeps. -/
inductive Timer where
  | reading
  | sleeping (due : Nat)

/-- Where the publication of a batch stands: with the event bus, with the users, and for one
user, before others, with the libraries, their top parents, the items, and the payload. -/
inductive Phase where
  | announcing
  | broadcasting
  | listing
  | libraries (user : Uuid) (users : List Uuid)
  | topParents (user : Uuid) (users : List Uuid) (visible : List Uuid)
  | items (user : Uuid) (users : List Uuid) (visible tops : List Uuid) (lists : Lists)
    (foldersMoved : Bool) (candidates : List Uuid)
  | delivering (users : List Uuid)

/-- A task that publishes batches, one after another. -/
structure Publisher where
  current : Option (Pending × Phase) := none
  queue : List Pending := []

/-- A payload pushed to a user, with what the audience has answered. -/
structure Delivery where
  user : Uuid
  batch : Pending
  visible : List Uuid
  tops : List Uuid
  seen : List Uuid
  info : LibraryUpdateInfo

/-- `LibraryChangedNotifier`. -/
structure Notifier where
  now : Nat := 0
  pending : Pending := {}
  nextWindow : Nat := 0
  audience : Bool := false
  timers : KeyedMap Nat Timer := ∅
  publishers : KeyedMap Nat Publisher := ∅
  recorded : List (Nat × Kind × Changed) := []
  published : List (Pending × LibraryUpdateInfo) := []
  broadcasts : List LibraryUpdateInfo := []
  delivered : List Delivery := []

/-- What happens.  Windows and publishing tasks have numbers; `publish` is told what the call
that the task awaits has answered, `none` when it failed. -/
inductive Event where
  | tick (elapsed : Nat)
  | setAudience
  | add (i : Nat) (changed : List Changed) (kind : Kind)
  | readLength (window : Nat) (configuration : Option Int)
  | fire (i : Nat) (window : Nat)
  | flush (i : Nat)
  | publish (i : Nat) (answer : Option (List Uuid))

/-- `window_length`, in milliseconds; the debounce counts when there is no configuration to
read. -/
def windowLength (debounce : Nat) : Option Int → Nat
  | some seconds => seconds.toNat * 1000
  | none => debounce

namespace Notifier

variable (debounce : Nat) (m : Notifier)

def spawn (i : Nat) (batches : List Pending) : Notifier :=
  { m with publishers := m.publishers.insert i { queue := batches } }

def openWindow : Notifier :=
  match m.pending.window with
  | some _ => m
  | none => { m with
    pending := { m.pending with window := some m.nextWindow }
    nextWindow := m.nextWindow + 1
    timers := m.timers.insert m.nextWindow .reading }

def insert (kind : Kind) (changed : Changed) : Notifier :=
  { m with
    pending := m.pending.insert changed kind
    recorded := m.recorded ++ (m.pending.window.map (·, kind, changed)).toList }

def addOne (kind : Kind) : Notifier × List Pending → Changed → Notifier × List Pending
  | (m, full), changed =>
    let m := m.openWindow.insert kind changed
    if maxBatchSize ≤ m.pending.len then ({ m with pending := {} }, full ++ [m.pending])
    else (m, full)

def add (i : Nat) (changed : List Changed) (kind : Kind) : Notifier :=
  match changed.foldl (addOne kind) (m, []) with
  | (m, []) => m
  | (m, full) => m.spawn i full

/-- `take`: the batch, when its window is the one open, or any for `none`. -/
def take (window : Option Nat) : Notifier × Option Pending :=
  if window.any fun w => m.pending.window ≠ some w then (m, none)
  else ({ m with pending := {} }, if m.pending.isEmpty then none else some m.pending)

/-- `take`, and the task that publishes what was taken. -/
def takeAndPublish (i : Nat) (window : Option Nat) : Notifier :=
  match m.take window with
  | (m, some batch) => m.spawn i [batch]
  | (m, none) => m

def readLength (window : Nat) (configuration : Option Int) : Timer → Option Notifier
  | .reading => some { m with
      timers := m.timers.insert window (.sleeping (m.now + windowLength debounce configuration)) }
  | .sleeping _ => none

def fire (i : Nat) (window : Nat) : Timer → Option Notifier
  | .sleeping due =>
    if due ≤ m.now then
      some (takeAndPublish { m with timers := m.timers.erase window } i (some window))
    else none
  | .reading => none

def goOn (i : Nat) (p : Publisher) (batch : Pending) (phase : Phase) : Notifier :=
  { m with publishers := m.publishers.insert i { p with current := some (batch, phase) } }

def goneOut (i : Nat) (p : Publisher) : Notifier :=
  { m with publishers := m.publishers.insert i { p with current := none } }

def visit (i : Nat) (p : Publisher) (batch : Pending) : List Uuid → Notifier
  | [] => m.goneOut i p
  | user :: users => m.goOn i p batch (.libraries user users)

/-- `publish`, from one await to the next. -/
def publishOn (i : Nat) (p : Publisher) (answer : Option (List Uuid)) (batch : Pending) :
    Phase → Notifier
  | .announcing =>
    if m.audience then m.goOn i p batch .listing
    else { m.goOn i p batch .broadcasting with
      broadcasts := m.broadcasts ++ [(fold batch).info] }
  | .broadcasting => m.goneOut i p
  | .listing => match answer with
    | some users => m.visit i p batch users
    | none => m.goneOut i p
  | .libraries user users => match answer with
    | some visible => m.goOn i p batch (.topParents user users visible)
    | none => m.visit i p batch users
  | .topParents user users visible =>
    let tops := answer.getD visible
    let lists := (fold batch).forLibraries tops
    m.goOn i p batch (.items user users visible tops lists (foldersMoved (fold batch) lists)
      lists.announcedIds)
  | .items user users visible tops lists foldersMoved _ =>
    let seen := answer.getD []
    let info := build (lists.retainVisible seen) (some (visible, foldersMoved))
    if info.isEmpty then m.visit i p batch users
    else { m.goOn i p batch (.delivering users) with
      delivered := m.delivered ++ [⟨user, batch, visible, tops, seen, info⟩] }
  | .delivering users => m.visit i p batch users

def publish (i : Nat) (answer : Option (List Uuid)) (p : Publisher) : Option Notifier :=
  match p.current, p.queue with
  | some (batch, phase), _ => some (m.publishOn i p answer batch phase)
  | none, batch :: queue =>
    let info := (fold batch).info
    if info.isEmpty then some (m.goneOut i { p with queue := queue })
    else some { m.goOn i { p with queue := queue } batch .announcing with
      published := m.published ++ [(batch, info)] }
  | none, [] => none

def step : Event → Option Notifier
  | .tick elapsed => some { m with now := m.now + elapsed }
  | .setAudience => some { m with audience := true }
  | .add i changed kind =>
    if (m.publishers.lookup i).isSome then none else some (m.add i changed kind)
  | .readLength window configuration =>
    (m.timers.lookup window).bind (m.readLength debounce window configuration)
  | .fire i window =>
    if (m.publishers.lookup i).isSome then none
    else (m.timers.lookup window).bind (m.fire i window)
  | .flush i =>
    if (m.publishers.lookup i).isSome then none else some (m.takeAndPublish i none)
  | .publish i answer => (m.publishers.lookup i).bind (m.publish i answer)

end Notifier

def notifier (debounce : Nat) : Machine Notifier Event where
  init := {}
  step m := m.step debounce

end Ferrofin.Changes
