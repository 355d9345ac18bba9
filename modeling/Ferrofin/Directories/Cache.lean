import Ferrofin.Lib.Machine
import Ferrofin.Directories.Memo

/-!
# The directory cache

`directoryCache` is the machine of all interleavings of calls of a `DirectoryCache`:
lookups of a folder's entries (`try_shared`) and of what the image providers read of
them (`file_system_entries`), `relist`, `invalidate` and `clear`.  A step is what a call
does under the lock, which first makes the state current, or a read of the file system,
which is told what it finds.

Every step has a time of its own, `World.clock`; `now` is the clock the idle timeout
looks at.  `World.operations` is history: the calls that forget, with the times of their
first step and of their return.
-/

namespace Ferrofin.Directories

open Lib Util

/-- Where `try_shared` stands: before its probe, after a miss, and with the listing read. -/
inductive SharedPhase where
  | probing
  | reading (generation : Nat)
  | keeping (generation : Nat) (listing : Listing FileSystemEntryInfo)

/-- Where `file_system_entries` stands: before its probe, in `try_shared`, with the
listing, which is empty when the folder could not be listed, and with all it stores. -/
inductive MetadataPhase where
  | probing
  | sharing (generation : Nat) (phase : SharedPhase)
  | mapping (generation : Nat) (listing : Listing FileSystemEntryInfo)
  | storing (generation : Nat) (metadata : Listing FileSystemMetadata)

/-- Where `relist` stands; it forgot the folder at the time `began`. -/
inductive RelistPhase where
  | forgetting
  | reading (generation began : Nat)
  | keeping (generation began : Nat) (listing : Listing FileSystemEntryInfo)

/-- A call, since it started.  One that has returned stays with what it returned. -/
inductive Task where
  | entries (path : Path) (started : Nat) (phase : SharedPhase)
  | metadata (path : Path) (started : Nat) (phase : MetadataPhase)
  | relist (path : Path) (started : Nat) (phase : RelistPhase)
  | invalidate (path : Path)
  | clear
  | returnedEntries (path : Path) (started : Nat) (listing : Option (Listing FileSystemEntryInfo))
  | returnedMetadata (path : Path) (started : Nat) (metadata : Listing FileSystemMetadata)
  | returned

inductive Scope where
  | relist (path : Path)
  | invalidate (path : Path)
  | clear
deriving DecidableEq

def Scope.covers (folder : Path) : Scope → Bool
  | .relist path => folder = path
  | .invalidate path => folder = path ∨ parent path = some folder
  | .clear => true

structure Operation where
  scope : Scope
  began : Nat
  completed : Nat

/-- The clock of the idle timeout, the time of the next step, what the cache holds, the
calls, and the operations that have returned. -/
structure World where
  now : Nat := 0
  clock : Nat := 0
  state : State := {}
  tasks : KeyedMap Nat Task := ∅
  operations : List Operation := []

inductive Call where
  | entries (path : Path)
  | metadata (path : Path)
  | relist (path : Path)
  | invalidate (path : Path)
  | clear

/-- What happens.  Calls have numbers of their own; `read` is told the folder's listing, or
that there is none, and `stat` the lengths of files. -/
inductive Event where
  | tick
  | call (i : Nat) (call : Call)
  | advance (i : Nat)
  | read (i : Nat) (result : Option (List FileSystemEntryInfo))
  | stat (i : Nat) (length : Path → Nat)

def Call.task (started : Nat) : Call → Task
  | .entries path => .entries path started .probing
  | .metadata path => .metadata path started .probing
  | .relist path => .relist path started .forgetting
  | .invalidate path => .invalidate path
  | .clear => .clear

/-- The next step of `try_shared` under the lock, which returns a listing in the end. -/
def advanceShared (s : State) (path : Path) :
    SharedPhase → Option (State × (Listing FileSystemEntryInfo ⊕ SharedPhase))
  | .probing => some (s, match s.entries.lookup path with
    | some hit => .inl hit
    | none => .inr (.reading s.generation))
  | .reading _ => none
  | .keeping generation listing => some (s.keep path listing generation, .inl listing)

/-- The next step of `file_system_entries` under the lock. -/
def advanceMetadata (s : State) (path : Path) (started : Nat) :
    MetadataPhase → Option (State × Task)
  | .probing => some (s, match s.metadata.lookup path with
    | some hit => .returnedMetadata path started hit
    | none => .metadata path started (.sharing s.generation .probing))
  | .sharing generation phase => (advanceShared s path phase).map fun
    | (s, .inl listing) => (s, .metadata path started (.mapping generation listing))
    | (s, .inr phase) => (s, .metadata path started (.sharing generation phase))
  | .mapping _ _ => none
  | .storing generation metadata => some
    (s.keepMetadata path metadata generation, .returnedMetadata path started metadata)

/-- The next step of a call under the lock, with the state made current, and the operation
that returns with it. -/
def Task.advance (clock : Nat) (s : State) : Task → Option (State × Task × Option Operation)
  | .entries path started phase => (advanceShared s path phase).map fun
    | (s, .inl listing) => (s, .returnedEntries path started (some listing), none)
    | (s, .inr phase) => (s, .entries path started phase, none)
  | .metadata path started phase =>
    (advanceMetadata s path started phase).map fun (s, task) => (s, task, none)
  | .relist path started .forgetting => some
    (s.forget path, .relist path started (.reading s.generation clock), none)
  | .relist _ _ (.reading _ _) => none
  | .relist path started (.keeping generation began listing) => some
    (s.keep path listing generation, .returnedEntries path started (some listing),
      some { scope := .relist path, began := began, completed := clock })
  | .invalidate path => some
    (s.invalidate path, .returned,
      some { scope := .invalidate path, began := clock, completed := clock })
  | .clear => some
    (s.reset, .returned, some { scope := .clear, began := clock, completed := clock })
  | .returnedEntries _ _ _ | .returnedMetadata _ _ _ | .returned => none

/-- A read of the file system by a call.  A listing that fails is an empty folder to the
image providers. -/
def Task.read (clock : Nat) (result : Option (List FileSystemEntryInfo)) :
    Task → Option (Task × Option Operation)
  | .entries path started (.reading generation) => some (match result with
    | some value => .entries path started
        (.keeping generation { value := value, readAt := clock })
    | none => .returnedEntries path started none, none)
  | .metadata path started (.sharing generation (.reading inner)) => some (match result with
    | some value => .metadata path started
        (.sharing generation (.keeping inner { value := value, readAt := clock }))
    | none => .metadata path started
        (.mapping generation { value := [], readAt := clock }), none)
  | .relist path started (.reading generation began) => some (match result with
    | some value => (.relist path started
        (.keeping generation began { value := value, readAt := clock }), none)
    | none => (.returnedEntries path started none,
        some { scope := .relist path, began := began, completed := clock }))
  | _ => none

def Task.stat (length : Path → Nat) : Task → Option Task
  | .metadata path started (.mapping generation listing) => some (.metadata path started
      (.storing generation {
        value := listing.value.map (imageMetadata length)
        readAt := listing.readAt }))
  | _ => none

namespace World

variable (w : World) (limits : DirectoryCacheLimits)

def opened : State := w.state.dropIfIdleOrFull w.now limits

def goOn (i : Nat) (s : State) (task : Task) (operation : Option Operation) : World :=
  { w with
    clock := w.clock + 1
    state := s
    tasks := w.tasks.insert i task
    operations := w.operations ++ operation.toList }

def step : Event → Option World
  | .tick => some { w with now := w.now + 1, clock := w.clock + 1 }
  | .call i call =>
    if (w.tasks.lookup i).isSome then none else some (w.goOn i w.state (call.task w.clock) none)
  | .advance i => (w.tasks.lookup i).bind fun task =>
      (task.advance w.clock (w.opened limits)).map fun (s, task, operation) =>
        w.goOn i s task operation
  | .read i result => (w.tasks.lookup i).bind fun task =>
      (task.read w.clock result).map fun (task, operation) => w.goOn i w.state task operation
  | .stat i length => (w.tasks.lookup i).bind fun task =>
      (task.stat length).map fun task => w.goOn i w.state task none

end World

/-- The machine of all interleavings, over an empty cache. -/
def directoryCache (limits : DirectoryCacheLimits) : Machine World Event where
  init := {}
  step w := w.step limits

end Ferrofin.Directories
