import Ferrofin.Lib.Machine
import Ferrofin.Lib.Generations
import Ferrofin.Util.Text

/-!
# The cached library set

`RowCache` (`row_cache.rs`) keeps the library set, under a generation of its own and
with a count of the loads under way.  `librarySets` is the machine of all interleavings
of loads (`begin_library_load`, the reads, `store`, the drop) and of writers, who commit
and then call `note_items_written` or `invalidate_libraries`.

A step is one access to a field that the tasks share.  `put_libraries` holds the write
lock from its check to its store, and whoever needs the lock waits.  `enabled` is set
once, so it may be read together with what is read next.

`StampedSet.readAt` is history: how many writes had been committed when the first of
the set's rows was read.
-/

namespace Ferrofin.Libraries

open Lib Util

variable {Columns Options : Type}

structure BaseItemEntity (Columns : Type) where
  id : String
  columns : Columns

structure LibrarySet (Columns Options : Type) where
  rows : List (BaseItemEntity Columns)
  ancestors : List (BaseItemEntity Columns)
  options : KeyedMap String Options

structure StampedSet (Columns Options : Type) where
  value : LibrarySet Columns Options
  readAt : Nat

/-- `Stamped<LibrarySet>`.  The tag is history: the generation it was stored under. -/
structure CachedSet (Columns Options : Type) where
  set : StampedSet Columns Options
  storedAt : Nat
  tag : Nat

/-- `RowCache`, the library set.  An invalidation covers all of it. -/
structure RowCache (Columns Options : Type) where
  enabled : Bool := false
  ttl : Nat := 0
  generations : Generations Unit := {}
  libraryLoads : Nat := 0
  libraries : Option (CachedSet Columns Options) := none

def LibrarySet.holds (set : LibrarySet Columns Options) (ids : List String) : Bool :=
  ids.any fun id => (set.rows ++ set.ancestors).any fun row => eqIgnoreAsciiCase row.id id

namespace RowCache

variable (c : RowCache Columns Options)

/-- `libraries`. -/
def live (now : Nat) : Option (StampedSet Columns Options) :=
  if c.enabled then
    c.libraries.bind fun hit => if now - hit.storedAt < c.ttl then some hit.set else none
  else none

/-- `put_libraries`, its check. -/
def mayPut (generation : Nat) : Bool := c.enabled && c.generations.current == generation

def put (now generation : Nat) (set : StampedSet Columns Options) : RowCache Columns Options :=
  { c with libraries := some { set := set, storedAt := now, tag := generation } }

/-- `invalidate_libraries`, up to the new generation. -/
def beginInvalidation (wrote : Nat) : RowCache Columns Options :=
  { c with generations := c.generations.begin () wrote }

/-- The rest of `invalidate_libraries`. -/
def clear (i : Nat) : Option (RowCache Columns Options) :=
  (c.generations.invalidations.lookup i).map fun v =>
    { c with generations := c.generations.advance i v, libraries := none }

end RowCache

/-- Where a load stands: counted, with the generation taken, with the first row read, with
all it stores, through the check and with the lock held, and with the lock released. -/
inductive LoadPhase (Columns Options : Type) where
  | counted
  | begun (generation : Nat)
  | reading (generation readAt : Nat)
  | found (generation : Nat) (set : StampedSet Columns Options)
  | storing (generation : Nat) (set : StampedSet Columns Options)
  | ended

inductive Call where
  | noteItemsWritten (ids : List String)
  | invalidateLibraries

/-- Where a writer stands: `missed` has found no live set, `kept` has found one without
its rows and `quiet` no load under way, and both have returned; `hit` invalidates, with
`clearing` under the generation it began, and with `cleared` it has returned. -/
inductive WriteStage where
  | committed
  | missed
  | kept
  | quiet
  | hit
  | clearing (generation : Nat)
  | cleared (generation : Nat)
deriving DecidableEq

structure Write where
  wrote : Nat
  call : Call
  stage : WriteStage := .committed

/-- The number of writes committed, the clock, the cache with the load that holds its
lock, the loads and the writes. -/
structure World (Columns Options : Type) where
  commits : Nat := 0
  now : Nat := 0
  cache : RowCache Columns Options := {}
  holder : Option Nat := none
  loads : KeyedMap Nat (LoadPhase Columns Options) := ∅
  writes : KeyedMap Nat Write := ∅

/-- What happens.  Loads and writes have numbers of their own; a load reads what it is
given, and may be dropped at any of its awaits. -/
inductive Event (Columns Options : Type) where
  | tick
  | enable (ttl : Nat)
  | commit (i : Nat) (call : Call)
  | advanceWrite (i : Nat)
  | beginLoad (i : Nat)
  | advanceLoad (i : Nat)
  | finishReading (i : Nat) (set : LibrarySet Columns Options)
  | dropLoad (i : Nat)

namespace World

variable (w : World Columns Options)

def toStage (i : Nat) (x : Write) (stage : WriteStage) : World Columns Options :=
  { w with writes := w.writes.insert i { x with stage := stage } }

/-- `note_items_written`, its look at the stored set. -/
def lookAtSet (ids : List String) : WriteStage :=
  match w.cache.live w.now with
  | none => .missed
  | some set => if set.value.holds ids then .hit else .kept

/-- `note_items_written`, its look at the loads. -/
def lookAtLoads : WriteStage := if 0 < w.cache.libraryLoads then .hit else .quiet

/-- The next step of a writer; `none` while it waits for the lock, and when it has
returned. -/
def advanceWrite (i : Nat) (x : Write) : Option (World Columns Options) :=
  match x.stage, x.call with
  | .committed, .noteItemsWritten ids =>
    if w.holder.isSome then none else some (w.toStage i x (w.lookAtSet ids))
  | .missed, _ => some (w.toStage i x w.lookAtLoads)
  | .committed, .invalidateLibraries | .hit, _ => some
    { w.toStage i x (.clearing (w.cache.generations.current + 1)) with
      cache := w.cache.beginInvalidation x.wrote }
  | .clearing generation, _ =>
    if w.holder.isSome then none
    else (w.cache.clear generation).map fun cache =>
      { w.toStage i x (.cleared generation) with cache := cache }
  | .kept, _ | .quiet, _ | .cleared _, _ => none

def toPhase (i : Nat) (phase : LoadPhase Columns Options) : World Columns Options :=
  { w with loads := w.loads.insert i phase }

/-- The next step of a load; `none` while it waits for the lock, and when it has to be
told what it read. -/
def advanceLoad (i : Nat) : LoadPhase Columns Options → Option (World Columns Options)
  | .counted => some (w.toPhase i (.begun w.cache.generations.current))
  | .begun generation => some (w.toPhase i (.reading generation w.commits))
  | .reading _ _ | .ended => none
  | .found generation set =>
    if w.holder.isSome then none
    else if w.cache.mayPut generation then
      some { w.toPhase i (.storing generation set) with holder := some i }
    else some (w.toPhase i .ended)
  | .storing generation set => some { w.toPhase i .ended with
      cache := w.cache.put w.now generation set, holder := none }

def step : Event Columns Options → Option (World Columns Options)
  | .tick => some { w with now := w.now + 1 }
  | .enable ttl =>
    if w.cache.enabled then none
    else some { w with cache := { w.cache with enabled := true, ttl := ttl } }
  | .commit i call =>
    if (w.writes.lookup i).isSome then none
    else some { w with
      commits := w.commits + 1
      writes := w.writes.insert i { wrote := w.commits + 1, call := call } }
  | .advanceWrite i => (w.writes.lookup i).bind (w.advanceWrite i)
  | .beginLoad i =>
    if (w.loads.lookup i).isSome then none
    else some { w.toPhase i .counted with
      cache := { w.cache with libraryLoads := w.cache.libraryLoads + 1 } }
  | .advanceLoad i => (w.loads.lookup i).bind (w.advanceLoad i)
  | .finishReading i set =>
    match w.loads.lookup i with
    | some (.reading generation readAt) =>
      some (w.toPhase i (.found generation { value := set, readAt := readAt }))
    | some _ | none => none
  | .dropLoad i =>
    match w.loads.lookup i with
    | some (.begun _) | some (.reading _ _) | some (.found _ _) | some .ended => some { w with
        loads := w.loads.erase i
        cache := { w.cache with libraryLoads := w.cache.libraryLoads - 1 } }
    | some .counted | some (.storing _ _) | none => none

end World

/-- The machine of all interleavings, over an empty cache that is still off. -/
def librarySets (Columns Options : Type) :
    Machine (World Columns Options) (Event Columns Options) where
  init := {}
  step w := w.step

end Ferrofin.Libraries
