import Ferrofin.Lib.KeyedMap
import Ferrofin.Lib.ModifyFirst

/-!
# Scan requests and their queue

What a library scan is asked to do (`ScanRequest`): its scope, the options its
items and their ancestors refresh with, its closing passes, its lane.  Two tests
decide whether a queued request may run for another one: `ScanRequest.covers` and
`ScanRequest.refreshesLike`.

A remote search result is only ever compared, so its type is a parameter
(`Search`).

`ScanQueue` and what is done to it while its lock is held: the methods of
`ScanQueue`, and the locked sections of the worker, of the priority lane and of
the callers.

A `ScanCancel` is a number, and `cancelled` has the numbers of those that were
cancelled: the queue and the scan share the token.  A progress sink is a number
too.  `Waiters.asked` and `ScanQueue.requests` are history: which requests an
entry runs for, and how many were queued so far.
-/

namespace Ferrofin.Scan

abbrev Uuid := Nat

inductive MetadataRefreshMode where
  | none | validationOnly | default | fullRefresh
deriving DecidableEq

structure MetadataRefreshOptions (Search : Type) where
  metadataRefreshMode : MetadataRefreshMode := .default
  imageRefreshMode : MetadataRefreshMode := .default
  replaceAllMetadata : Bool := false
  replaceAllImages : Bool := false
  searchResult : Option Search := none
  removeOldMetadata : Bool := false
  forceSave : Bool := false
  regenerateTrickplay : Bool := false
  enableRemoteContentProbe : Bool := false
  isAutomated : Bool := true
deriving DecidableEq

inductive ScanTarget where
  | all
  | library (id : Uuid)
  | paths (paths : List String)
  | changed (paths : List String)
  | items (paths : List String)
  | artist (id : Uuid) (path : Option String) (folders : List String)
deriving DecidableEq

inductive ScanTrigger where
  | api | schedule | startup | watcher | webhook
deriving DecidableEq

inductive ScanPasses where
  | library | touched
deriving DecidableEq

structure ScanRequest (Search : Type) where
  scope : ScanTarget
  options : MetadataRefreshOptions Search
  ancestors : MetadataRefreshOptions Search
  trigger : ScanTrigger
  passes : ScanPasses
  priority : Bool
deriving DecidableEq

section Requests

variable {Search : Type}

def contextOnly : MetadataRefreshOptions Search :=
  { metadataRefreshMode := .none, imageRefreshMode := .none }

namespace ScanTarget

/-- The match of `covers` on the two scopes. -/
def coversScope : ScanTarget → ScanTarget → Bool
  | .all, _ => true
  | .library queued, .library new => queued == new
  | .artist id path folders, .artist id' path' folders' =>
    id == id' && path == path' && folders == folders'
  | _, _ => false

/-- `matches!(scope, ScanTarget::All | ScanTarget::Library(_))`. -/
def isWholeLibraries : ScanTarget → Bool
  | .all | .library _ => true
  | _ => false

end ScanTarget

namespace ScanRequest

def defaults (trigger : ScanTrigger) (scope : ScanTarget) : ScanRequest Search where
  scope := scope
  options := {}
  ancestors := {}
  trigger := trigger
  passes := .library
  priority := false

def folderRefresh (scope : ScanTarget) (options : MetadataRefreshOptions Search) :
    ScanRequest Search where
  scope := scope
  options := options
  ancestors := contextOnly
  trigger := .api
  passes := .touched
  priority := false

def itemRefresh (scope : ScanTarget) (options : MetadataRefreshOptions Search) :
    ScanRequest Search :=
  { folderRefresh scope options with priority := true }

def changed (paths : List String) (trigger : ScanTrigger) : ScanRequest Search where
  scope := .changed paths
  options := {}
  ancestors := contextOnly
  trigger := trigger
  passes := .touched
  priority := false

variable [DecidableEq Search]

def covers (self other : ScanRequest Search) : Bool :=
  self.scope.coversScope other.scope
    && self.options == other.options
    && self.priority == other.priority
    && (self.passes == other.passes || self.passes == .library)
    && (self.scope.isWholeLibraries || self.ancestors == other.ancestors)

def isLibraryValidation (self : ScanRequest Search) : Bool :=
  self.scope == .all && self.passes == .library

def refreshesLike (self other : ScanRequest Search) : Bool :=
  self.options == other.options
    && self.ancestors == other.ancestors
    && self.passes == other.passes
    && self.priority == other.priority

end ScanRequest

/-! ### What a queued request does for another -/

namespace ScanTarget

/-- Every path of a scan is scanned by the other, a path scan of the same kind;
or the other is a full scan; or they are the same. -/
def Includes (stored scope : ScanTarget) : Prop :=
  match stored, scope with
  | .all, _ => True
  | .paths queued, .paths new => new ⊆ queued
  | .changed queued, .changed new => new ⊆ queued
  | stored, scope => stored = scope

theorem Includes.refl (scope : ScanTarget) : scope.Includes scope := by
  cases scope <;> simp [Includes]

theorem includes_of_coversScope {stored scope : ScanTarget} (h : stored.coversScope scope = true) :
    stored.Includes scope := by
  cases stored <;> cases scope <;> simp_all [coversScope, Includes]

end ScanTarget

/-- **What a stored request must do for one it runs for**: the same options in the
same lane, the closing passes, the scope, and, unless it refreshes whole
libraries, the same options for the ancestors. -/
structure ScanRequest.Represents (stored r : ScanRequest Search) : Prop where
  options : stored.options = r.options
  priority : stored.priority = r.priority
  passes : stored.passes = r.passes ∨ stored.passes = .library
  scope : stored.scope.Includes r.scope
  ancestors : stored.scope.isWholeLibraries = true ∨ stored.ancestors = r.ancestors

namespace ScanRequest

variable {stored new r : ScanRequest Search}

theorem Represents.refl (r : ScanRequest Search) : r.Represents r where
  options := rfl
  priority := rfl
  passes := .inl rfl
  scope := .refl _
  ancestors := .inr rfl

section Tests

variable [DecidableEq Search]

theorem covers_iff : stored.covers r = true ↔ stored.scope.coversScope r.scope = true ∧
    stored.options = r.options ∧ stored.priority = r.priority ∧
    (stored.passes = r.passes ∨ stored.passes = .library) ∧
    (stored.scope.isWholeLibraries = true ∨ stored.ancestors = r.ancestors) := by
  simp only [covers, Bool.and_eq_true, Bool.or_eq_true, beq_iff_eq, and_assoc]

theorem refreshesLike_iff : stored.refreshesLike r = true ↔ stored.options = r.options ∧
    stored.ancestors = r.ancestors ∧ stored.passes = r.passes ∧ stored.priority = r.priority := by
  simp only [refreshesLike, Bool.and_eq_true, beq_iff_eq, and_assoc]

theorem represents_of_covers (h : stored.covers r = true) : stored.Represents r := by
  obtain ⟨hscope, hoptions, hpriority, hpasses, hancestors⟩ := covers_iff.mp h
  exact ⟨hoptions, hpriority, hpasses, ScanTarget.includes_of_coversScope hscope, hancestors⟩

/-- **A full scan that takes a queued one's place runs for all that one ran for.** -/
theorem Represents.absorb (h : stored.Represents r) (hall : new.scope = .all)
    (hc : new.covers stored = true) : new.Represents r := by
  obtain ⟨-, hoptions, hpriority, hpasses, -⟩ := covers_iff.mp hc
  refine ⟨hoptions.trans h.options, hpriority.trans h.priority, ?_, ?_, ?_⟩
  · rcases hpasses with hp | hp
    · exact h.passes.imp (hp.trans ·) (hp.trans ·)
    · exact .inr hp
  · rw [hall]; trivial
  · rw [hall]; exact .inl rfl

end Tests

/-- **A path scan that grows still runs for all it ran for.** -/
theorem Represents.grow (h : stored.Represents r) {scope : ScanTarget}
    (hscope : ∀ t : ScanTarget, stored.scope.Includes t → scope.Includes t)
    (hwhole : stored.scope.isWholeLibraries = false) :
    Represents { stored with scope := scope } r where
  options := h.options
  priority := h.priority
  passes := h.passes
  scope := hscope _ h.scope
  ancestors := .inr (h.ancestors.resolve_left (by rw [hwhole]; exact Bool.false_ne_true))

end ScanRequest

end Requests

open Lib

/-- A request as it was queued: its number, and its caller's ticket when one waits. -/
structure Asked (Search : Type) where
  id : Nat
  ticket : Option Nat
  request : ScanRequest Search
deriving DecidableEq

structure Waiters (Search : Type) where
  tickets : List Nat := []
  detached : Nat := 0
  asked : List (Asked Search) := []

structure PendingScan (Search : Type) where
  request : ScanRequest Search
  waiters : Waiters Search

structure ServingRefresh (Search : Type) where
  request : ScanRequest Search
  waiters : Waiters Search
  cancel : Nat

structure RunningScan (Search : Type) where
  waiters : Waiters Search
  cancel : Nat
  validation : Bool

inductive ScanResult where
  | completed
  | stopped
  | failed (message : String)
deriving DecidableEq

structure ScanQueue (Search : Type) where
  worker : Bool := false
  closed : Bool := false
  running : Option (RunningScan Search) := none
  pending : List (PendingScan Search) := []
  lane : List (PendingScan Search) := []
  serving : KeyedMap Nat (ServingRefresh Search) := ∅
  nextLaneKey : Nat := 0
  nextTicket : Nat := 0
  finished : KeyedMap Nat ScanResult := ∅
  sinks : KeyedMap Nat Nat := ∅
  requests : Nat := 0
  tokens : Nat := 0
  cancelled : List Nat := []

variable {Search : Type}

/-! ### Waiters -/

namespace Waiters

def add (w : Waiters Search) (a : Asked Search) : Waiters Search :=
  match a.ticket with
  | some ticket => { w with tickets := w.tickets ++ [ticket], asked := w.asked ++ [a] }
  | none => { w with detached := w.detached + 1, asked := w.asked ++ [a] }

def absorb (w other : Waiters Search) : Waiters Search where
  tickets := w.tickets ++ other.tickets
  detached := w.detached + other.detached
  asked := w.asked ++ other.asked

def isEmpty (w : Waiters Search) : Bool := w.tickets.isEmpty && w.detached == 0

def retain (w : Waiters Search) (ticket : Nat) : Waiters Search :=
  { w with
    tickets := w.tickets.filter (· != ticket)
    asked := w.asked.filter fun a => a.ticket != some ticket }

/-- The token a withdrawal cancels: that of a scan whose last waiter it was. -/
def abandoned (w : Waiters Search) (ticket cancel : Nat) : List Nat :=
  if ticket ∈ w.tickets ∧ (w.retain ticket).isEmpty = true then [cancel] else []

end Waiters

/-! ### Queueing -/

/-- `let mut known = queued; for path in paths { if known.insert(path) { queued.push(path) } }`. -/
def unionPaths (queued paths : List String) : List String :=
  paths.foldl (fun queued path => if path ∈ queued then queued else queued ++ [path]) queued

namespace ScanTarget

def samePathKind : ScanTarget → ScanTarget → Bool
  | .paths _, .paths _ | .changed _, .changed _ => true
  | _, _ => false

def union : ScanTarget → ScanTarget → ScanTarget
  | .paths queued, .paths new => .paths (unionPaths queued new)
  | .changed queued, .changed new => .changed (unionPaths queued new)
  | queued, _ => queued

end ScanTarget

namespace PendingScan

def join (p : PendingScan Search) (a : Asked Search) : PendingScan Search :=
  { p with waiters := p.waiters.add a }

/-- A path request joins the scan, which takes its paths. -/
def unite (p : PendingScan Search) (a : Asked Search) : PendingScan Search where
  request := { p.request with scope := p.request.scope.union a.request.scope }
  waiters := p.waiters.absorb (Waiters.add {} a)

def single (a : Asked Search) : PendingScan Search where
  request := a.request
  waiters := Waiters.add {} a

def retain (ticket : Nat) (p : PendingScan Search) : PendingScan Search :=
  { p with waiters := p.waiters.retain ticket }

end PendingScan

def ServingRefresh.retain (ticket : Nat) (s : ServingRefresh Search) : ServingRefresh Search :=
  { s with waiters := s.waiters.retain ticket }

def RunningScan.retain (ticket : Nat) (r : RunningScan Search) : RunningScan Search :=
  { r with waiters := r.waiters.retain ticket }

variable [DecidableEq Search]

/-- The loop of `enqueue` over the queued scans, for a full scan: the place of the
first one covered, the ones kept, and the waiters of those covered. -/
def absorbCovered (request : ScanRequest Search) :
    List (PendingScan Search) → Option Nat → List (PendingScan Search) → Waiters Search →
      Option Nat × List (PendingScan Search) × Waiters Search
  | [], at', kept, waiters => (at', kept, waiters)
  | p :: rest, at', kept, waiters =>
    if request.covers p.request then
      absorbCovered request rest (some (at'.getD kept.length)) kept (waiters.absorb p.waiters)
    else absorbCovered request rest at' (kept ++ [p]) waiters

def enqueueLane (a : Asked Search) (lane : List (PendingScan Search)) :
    List (PendingScan Search) :=
  if lane.any fun p => p.request == a.request then
    modifyFirst (fun p => p.request == a.request) (·.join a) lane
  else lane ++ [PendingScan.single a]

/-- `enqueue` of a full scan no queued one covers: it takes the place of the
earliest one it covers, and the waiters of all of them. -/
def enqueueAll (a : Asked Search) (pending : List (PendingScan Search)) :
    List (PendingScan Search) :=
  let (at', kept, waiters) := absorbCovered a.request pending none [] (Waiters.add {} a)
  kept.insertIdx (at'.getD kept.length) { request := a.request, waiters := waiters }

def unites (a : Asked Search) (p : PendingScan Search) : Bool :=
  p.request.refreshesLike a.request && p.request.scope.samePathKind a.request.scope

/-- `enqueue` of a path or changed-path scan no queued one covers. -/
def enqueuePaths (a : Asked Search) (pending : List (PendingScan Search)) :
    List (PendingScan Search) :=
  if pending.any (unites a) then modifyFirst (unites a) (·.unite a) pending
  else pending ++ [PendingScan.single a]

def enqueuePending (a : Asked Search) (pending : List (PendingScan Search)) :
    List (PendingScan Search) :=
  if pending.any fun p => p.request.covers a.request then
    modifyFirst (fun p => p.request.covers a.request) (·.join a) pending
  else match a.request.scope with
    | .all => enqueueAll a pending
    | .paths _ | .changed _ => enqueuePaths a pending
    | .library _ | .artist _ _ _ | .items _ => pending ++ [PendingScan.single a]

namespace ScanQueue

def asking (q : ScanQueue Search) (request : ScanRequest Search) (waiting : Bool) :
    Asked Search where
  id := q.requests
  ticket := if waiting then some q.nextTicket else none
  request := request

/-- `enqueue`; the ticket it gives is that of `asking`. -/
def enqueue (q : ScanQueue Search) (request : ScanRequest Search) (waiting : Bool) :
    ScanQueue Search :=
  let a := q.asking request waiting
  { q with
    nextTicket := if waiting then q.nextTicket + 1 else q.nextTicket
    requests := q.requests + 1
    lane := if request.priority then enqueueLane a q.lane else q.lane
    pending := if request.priority then q.pending else enqueuePending a q.pending }

omit [DecidableEq Search]

/-- A queue without a caller that withdrew, and without the scans nobody wants. -/
def withdrawFrom (ticket : Nat) (scans : List (PendingScan Search)) : List (PendingScan Search) :=
  (scans.map (PendingScan.retain ticket)).filter fun p => !p.waiters.isEmpty

@[simps]
def withdraw (q : ScanQueue Search) (ticket : Nat) : ScanQueue Search :=
  { q with
    finished := q.finished.erase ticket
    sinks := q.sinks.erase ticket
    pending := withdrawFrom ticket q.pending
    lane := withdrawFrom ticket q.lane
    serving := KeyedMap.mapValues (fun _ s => s.retain ticket) q.serving
    running := q.running.map (RunningScan.retain ticket)
    cancelled := q.cancelled ++
      (KeyedMap.values q.serving).flatMap (fun s => s.waiters.abandoned ticket s.cancel) ++
      (q.running.elim [] fun r => r.waiters.abandoned ticket r.cancel) }

def isQueued (q : ScanQueue Search) (ticket : Nat) : Bool :=
  (q.pending ++ q.lane).any fun p => ticket ∈ p.waiters.tickets

@[simps]
def settle (q : ScanQueue Search) (tickets : List Nat) (result : ScanResult) : ScanQueue Search :=
  { q with
    sinks := tickets.foldl (fun sinks ticket => sinks.erase ticket) q.sinks
    finished := tickets.foldl (fun finished ticket => finished.insert ticket result) q.finished }

@[simps]
def start (q : ScanQueue Search) (p : PendingScan Search) : ScanQueue Search :=
  { q with
    running := some {
      waiters := p.waiters
      cancel := q.tokens
      validation := p.request.isLibraryValidation }
    tokens := q.tokens + 1 }

/-- The worker's turn in `drain`: the next scan, the lane first; without one the
worker stands down. -/
def pop (q : ScanQueue Search) : Option (PendingScan Search) × ScanQueue Search :=
  match q.lane, q.pending with
  | p :: lane, _ => (some p, { q with lane := lane }.start p)
  | [], p :: pending => (some p, { q with pending := pending }.start p)
  | [], [] => (none, { q with worker := false, running := none })

/-- `QueueLane::next`: the first refresh of the lane is being served. -/
def laneNext (q : ScanQueue Search) : Option (PendingScan Search) × ScanQueue Search :=
  match q.closed, q.lane with
  | true, _ | false, [] => (none, q)
  | false, p :: lane => (some p, { q with
      lane := lane
      serving := q.serving.insert q.nextLaneKey
        { request := p.request, waiters := p.waiters, cancel := q.tokens }
      nextLaneKey := q.nextLaneKey + 1
      tokens := q.tokens + 1 })

/-! ### The worker and the lane -/

def servingTickets (q : ScanQueue Search) : List Nat :=
  (KeyedMap.values q.serving).flatMap fun s => s.waiters.tickets

def servingTokens (q : ScanQueue Search) : List Nat :=
  (KeyedMap.values q.serving).map ServingRefresh.cancel

def finishRunning (q : ScanQueue Search) (result : ScanResult) : ScanQueue Search :=
  match q.running with
  | none => q
  | some done => { q with running := none }.settle done.waiters.tickets result

def failServing (q : ScanQueue Search) : ScanQueue Search :=
  { q with serving := ∅, cancelled := q.cancelled ++ q.servingTokens }.settle q.servingTickets
    (.failed "the scan serving this item refresh ended before it finished")

def laneDone (q : ScanQueue Search) (key : Nat) (result : ScanResult) : ScanQueue Search :=
  match q.serving.lookup key with
  | none => q
  | some s => { q with serving := q.serving.erase key }.settle s.waiters.tickets result

/-- `WorkerRelease::drop`, its first part: the worker is gone, and the scan it ran
goes back to the head of its queue, unless the host is shutting down. -/
def requeueRunning (q : ScanQueue Search) (request : Option (ScanRequest Search)) :
    ScanQueue Search :=
  match q.running, request with
  | some running, some request =>
    let pending := { request := request, waiters := running.waiters : PendingScan Search }
    { q with
      worker := false
      running := none
      cancelled := q.cancelled ++ [running.cancel]
      lane := if !q.closed && request.priority then pending :: q.lane else q.lane
      pending := if !q.closed && !request.priority then pending :: q.pending else q.pending }
  | _, _ => { q with worker := false, running := none }

/-- `WorkerRelease::drop`, its second part: so do the refreshes the scan served. -/
@[simps]
def requeueServing (q : ScanQueue Search) : ScanQueue Search :=
  { q with
    serving := ∅
    cancelled := q.cancelled ++ q.servingTokens
    lane :=
      if q.closed then q.lane
      else ((KeyedMap.values q.serving).map fun s =>
        { request := s.request, waiters := s.waiters : PendingScan Search }).reverse ++ q.lane }

/-- `WorkerRelease::drop`. -/
def releaseWorker (q : ScanQueue Search) (request : Option (ScanRequest Search)) :
    ScanQueue Search := (q.requeueRunning request).requeueServing

def queuedTickets (q : ScanQueue Search) : List Nat :=
  (q.pending ++ q.lane).flatMap fun p => p.waiters.tickets

/-- The locked section of `shutdown_scans`. -/
def shutdown (q : ScanQueue Search) : ScanQueue Search :=
  { q with
    closed := true
    pending := []
    lane := []
    cancelled := q.cancelled ++ q.servingTokens ++
      q.running.elim [] fun r => [r.cancel] }.settle q.queuedTickets .stopped

/-! ### The callers -/

/-- What the locked section of `run_scan`'s loop finds. -/
structure Check where
  result : Option ScanResult
  restart : Bool
  lost : Bool

/-- The locked section of `run_scan`'s loop: a caller looks for its result. -/
def check (q : ScanQueue Search) (ticket : Nat) : Check × ScanQueue Search :=
  let result := q.finished.lookup ticket
  let orphaned := result.isNone && !q.worker && !q.closed
  let restart := orphaned && q.isQueued ticket
  ({ result := result, restart := restart, lost := orphaned && !q.isQueued ticket },
    { q with finished := q.finished.erase ticket, worker := q.worker || restart })

/-- The locked section of `submit`: nothing once the host is shutting down, else the
ticket, whether a worker must be started, and the queue. -/
def submit (q : ScanQueue Search) (request : ScanRequest Search)
    (waiting : Bool) (progress : Option Nat) : Option (Option Nat × Bool × ScanQueue Search) :=
  if q.closed then none
  else
    let ticket := (q.asking request waiting).ticket
    let sinks := match ticket, progress with
      | some ticket, some sink => q.sinks.insert ticket sink
      | _, _ => q.sinks
    some (ticket, !q.worker, { q.enqueue request waiting with sinks := sinks, worker := true })

end ScanQueue

end Ferrofin.Scan
