import Ferrofin.Lib.Machine
import Ferrofin.Lib.KeyedMap
import Ferrofin.UserData.Updates

/-!
# The user-data manager

`userData` is the machine of all interleavings of requests on the rows.  A request reads
a row, and saves its edit of it later, in one transaction; a played state it then gives
the other versions of the item, one after another, each read and saved the same way.
`clear_own_play_state` and `reset_playback_stream_selections` are one statement each.
A request may fail at any point (the database, a client that went away).

The keys of an item and its versions come from the metadata, which may change at any
time: a step is told what it finds of them.

`journal` and `last` are history: what was run so far on the rows, and what the last
completed save of a user's data of an item left in them.
-/

namespace Ferrofin.UserData

open Lib

abbrev Place := String × String

/-- Where a read and save of a row stands: before the read, and with an edit to be saved
of what was read. -/
inductive Stage (Rating : Type) where
  | reading
  | saving (keys : List String) (now : Int) (before : UserDataEntity Rating)
      (values : UserDataValues Rating) (propagates : Option Bool)

/-- Where a request stands: in its own save, before it looks for the versions to give
their played state, in the save of one, and at its end. -/
inductive Phase (Rating : Type) where
  | own (stage : Stage Rating)
  | versions (played : Bool)
  | version (played : Bool) (item : String) (rest : List String) (stage : Stage Rating)
  | returned
  | failed

structure Call (Rating : Type) where
  user : String
  item : String
  update : Update Rating
  phase : Phase Rating

/-- A read and save that was done, with the keys each of the two was under. -/
structure Save (Rating : Type) where
  call : Nat
  place : Place
  update : Update Rating
  now : Int
  readKeys : List String
  saveKeys : List String

inductive Write (Rating : Type) where
  | save (s : Save Rating)
  | clear (place : Place)
  | reset (place : Place)

/-- The rows of every user on every item, the requests, and the history. -/
structure World (Rating : Type) where
  tables : KeyedMap Place (List (UserDataEntity Rating)) := ∅
  calls : KeyedMap Nat (Call Rating) := ∅
  journal : List (Write Rating) := []
  last : KeyedMap Place (UserDataValues Rating) := ∅

/-- What happens; requests have numbers of their own. -/
inductive Event (Rating : Type) where
  | begin (i : Nat) (user item : String) (update : Update Rating)
  | read (i : Nat) (keys : List String) (now : Int)
  | save (i : Nat) (keys : List String)
  | propagate (i : Nat) (versions : List String)
  | fail (i : Nat)
  | clear (place : Place)
  | reset (place : Place)

variable {Rating : Type}

namespace Call

variable (c : Call Rating)

/-- The item whose row is read and saved, the edit, and where this stands. -/
def current : Option (String × Update Rating × Stage Rating) :=
  match c.phase with
  | .own stage => some (c.item, c.update, stage)
  | .version played item _ stage => some (item, .version played true, stage)
  | .versions _ | .returned | .failed => none

def withStage (stage : Stage Rating) : Call Rating :=
  match c.phase with
  | .own _ => { c with phase := .own stage }
  | .version played item rest _ => { c with phase := .version played item rest stage }
  | .versions _ | .returned | .failed => c

def toVersions (played : Bool) : List String → Call Rating
  | [] => { c with phase := .returned }
  | item :: rest => { c with phase := .version played item rest .reading }

def afterSave (propagates : Option Bool) : Call Rating :=
  match c.phase with
  | .own _ => match propagates with
    | none => { c with phase := .returned }
    | some played => { c with phase := .versions played }
  | .version played _ rest _ => c.toVersions played rest
  | .versions _ | .returned | .failed => c

end Call

namespace World

variable (R : Ratings Rating) (w : World Rating)

def table (p : Place) : List (UserDataEntity Rating) := (w.tables.lookup p).getD []

def setCall (i : Nat) (c : Call Rating) : World Rating := { w with calls := w.calls.insert i c }

def begin (i : Nat) (user item : String) (update : Update Rating) : Option (World Rating) :=
  if (w.calls.lookup i).isSome then none
  else some (w.setCall i {
    user := user
    item := item
    update := update
    phase := if update.isRefused R then .failed else .own .reading })

def read (i : Nat) (keys : List String) (now : Int) : Option (World Rating) :=
  (w.calls.lookup i).bind fun c =>
    match c.current with
    | some (item, update, .reading) =>
      let p : Place := (c.user, item)
      let before := readOrUnwrittenRow item (w.table p) keys
      let outcome := update.apply R now before.values
      match outcome.saves with
      | some values =>
        some (w.setCall i (c.withStage (.saving keys now before values outcome.propagates)))
      | none =>
        let s : Save Rating := {
          call := i, place := p, update := update, now := now, readKeys := keys, saveKeys := [] }
        some { w.setCall i (c.afterSave outcome.propagates) with journal := w.journal ++ [.save s] }
    | _ => none

def save (i : Nat) (keys : List String) : Option (World Rating) :=
  (w.calls.lookup i).bind fun c =>
    match c.current with
    | some (item, update, .saving readKeys now _ values propagates) =>
      let p : Place := (c.user, item)
      let s : Save Rating := {
        call := i, place := p, update := update, now := now, readKeys := readKeys,
        saveKeys := keys }
      some { w.setCall i (c.afterSave propagates) with
        tables := w.tables.insert p (upsertRow (values.saved R) keys (w.table p))
        journal := w.journal ++ [.save s]
        last := w.last.insert p (values.saved R) }
    | _ => none

def propagate (i : Nat) (versions : List String) : Option (World Rating) :=
  (w.calls.lookup i).bind fun c =>
    match c.phase with
    | .versions played =>
      some (w.setCall i (c.toVersions played (versions.filter fun v => v ≠ c.item)))
    | _ => none

def fail (i : Nat) : Option (World Rating) :=
  (w.calls.lookup i).map fun c => w.setCall i { c with phase := .failed }

def statement (p : Place) (write : Write Rating)
    (rows : List (UserDataEntity Rating) → List (UserDataEntity Rating))
    (values : UserDataValues Rating → UserDataValues Rating) : World Rating :=
  { w with
    tables := w.tables.insert p (rows (w.table p))
    journal := w.journal ++ [write]
    last := match w.last.lookup p with
      | none => w.last
      | some v => w.last.insert p (values v) }

def step : Event Rating → Option (World Rating)
  | .begin i user item update => w.begin R i user item update
  | .read i keys now => w.read R i keys now
  | .save i keys => w.save R i keys
  | .propagate i versions => w.propagate i versions
  | .fail i => w.fail i
  | .clear p => some (w.statement p (.clear p) clearOwnPlayState UserDataValues.unplayed)
  | .reset p =>
    some (w.statement p (.reset p) resetPlaybackStreamSelections UserDataValues.withoutTracks)

end World

/-- The machine of all interleavings, over the rows a database holds. -/
def userData (R : Ratings Rating) (tables : KeyedMap Place (List (UserDataEntity Rating))) :
    Machine (World Rating) (Event Rating) where
  init := { tables := tables }
  step w := w.step R

end Ferrofin.UserData
