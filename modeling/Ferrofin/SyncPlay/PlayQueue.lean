import Mathlib.Data.List.Perm.Basic

/-!
# The SyncPlay play queue

`PlayQueue` of `sync_play_manager.rs` with its operations.  It keeps the queue
twice: `sorted` in the order it was built and `shuffled`, the same items in
shuffled order while `shuffle` is `Shuffle`.  `playingIndex` points into
whichever of the two is active (`PlayQueue.playlist`); `-1` is "nothing
playing".

What the code draws at random is an argument here: `fresh i` is the
`PlaylistItemId` minted for the `i`-th new item and `pick` the numbers the
shuffle draws.  Queue indices (`i32`) are integers.

The queue is shuffled by `shuffle_with` (`shuffle_extensions.rs`), the Fisher-Yates loop: a position
below the number of items left is drawn, and its item changes places with the last of them.
-/

namespace Ferrofin.Util

variable {α : Type*}

/-- The loop of `shuffle_with`, with `n` items left. -/
def shuffleLoop (pick : Nat → Nat) : Nat → Array α → Array α
  | 0, list => list
  | n + 1, list =>
    if n = 0 then list
    else shuffleLoop pick n (list.swapIfInBounds (pick (n + 1) % (n + 1)) n)

def shuffleWith (pick : Nat → Nat) (list : Array α) : Array α :=
  shuffleLoop pick list.size list

/-- `shuffle`, on a list. -/
def shuffle (pick : Nat → Nat) (list : List α) : List α :=
  (shuffleWith pick list.toArray).toList

theorem swapIfInBounds_perm (list : Array α) (i j : Nat) :
    (list.swapIfInBounds i j).toList.Perm list.toList := by
  rw [Array.swapIfInBounds_def]
  by_cases hi : i < list.size <;> by_cases hj : j < list.size <;> simp only [hi, hj, dite_true,
    dite_false, List.Perm.refl]
  exact (Array.swap_perm hi hj).toList

theorem shuffleLoop_perm (pick : Nat → Nat) (n : Nat) (list : Array α) :
    (shuffleLoop pick n list).toList.Perm list.toList := by
  induction n generalizing list with
  | zero => exact .refl _
  | succ n ih =>
    rw [shuffleLoop]
    split
    · exact .refl _
    · exact (ih _).trans (swapIfInBounds_perm list _ _)

/-- **A shuffle only reorders.** -/
theorem shuffle_perm (pick : Nat → Nat) (list : List α) : (shuffle pick list).Perm list :=
  shuffleLoop_perm pick _ list.toArray

@[simp] theorem length_shuffle (pick : Nat → Nat) (list : List α) :
    (shuffle pick list).length = list.length := (shuffle_perm pick list).length_eq

end Ferrofin.Util

namespace Ferrofin.SyncPlay

open Util

/-- A 128 bit id (`Uuid`), as its number. -/
abbrev Uuid := Nat

/-- `Uuid::nil()`. -/
def Uuid.nil : Uuid := 0

inductive GroupQueueMode
  | queue
  | queueNext
  | unrecognized (value : Int)
  deriving DecidableEq

inductive GroupRepeatMode
  | repeatOne
  | repeatAll
  | repeatNone
  | unrecognized (value : Int)
  deriving DecidableEq

inductive GroupShuffleMode
  | sorted
  | shuffle
  | unrecognized (value : Int)
  deriving DecidableEq

structure SyncPlayQueueItem where
  itemId : Uuid
  playlistItemId : Uuid
  deriving DecidableEq

def noPlayingItemIndex : Int := -1

/-- `PlayQueue`; the defaults are those of its `Default`. -/
structure PlayQueue where
  sorted : List SyncPlayQueueItem := []
  shuffled : List SyncPlayQueueItem := []
  playingIndex : Int := noPlayingItemIndex
  shuffle : GroupShuffleMode := .sorted
  repeatMode : GroupRepeatMode := .repeatNone
  deriving DecidableEq

def newQueueItems (fresh : Nat → Uuid) (itemIds : List Uuid) : List SyncPlayQueueItem :=
  itemIds.mapIdx fun i itemId => ⟨itemId, fresh i⟩

/-- `index_of`: the position of `playlistItemId`, `-1` when absent. -/
def indexOf (list : List SyncPlayQueueItem) (playlistItemId : Uuid) : Int :=
  match list.findIdx? fun i => i.playlistItemId == playlistItemId with
  | some i => i
  | none => noPlayingItemIndex

def after (list : List SyncPlayQueueItem) (index : Int) : Nat :=
  min (index + 1).toNat list.length

def splice (list : List SyncPlayQueueItem) (at' : Nat) (items : List SyncPlayQueueItem) :
    List SyncPlayQueueItem :=
  list.take at' ++ items ++ list.drop at'

namespace PlayQueue

def set (q : PlayQueue) (fresh : Nat → Uuid) (itemIds : List Uuid) (position : Int) :
    PlayQueue :=
  let sorted := newQueueItems fresh itemIds
  let maxIndex : Int := (sorted.length - 1 : Nat)
  { q with
    shuffle := .sorted
    repeatMode := .repeatNone
    shuffled := []
    sorted
    playingIndex := max 0 (min position maxIndex) }

/-- `PlayQueue::playlist`: the active list. -/
def playlist (q : PlayQueue) : List SyncPlayQueueItem :=
  if q.shuffle = .shuffle then q.shuffled else q.sorted

def playlistLen (q : PlayQueue) : Int := q.playlist.length

def itemIds (q : PlayQueue) : List Uuid := q.sorted.map (·.itemId)

def current (q : PlayQueue) : Option SyncPlayQueueItem :=
  if q.playingIndex < 0 then none else q.playlist[q.playingIndex.toNat]?

def playingItemId (q : PlayQueue) : Uuid := (q.current.map (·.playlistItemId)).getD .nil

def isItemPlaying (q : PlayQueue) : Bool := q.playingIndex != noPlayingItemIndex

def reanchor (q : PlayQueue) (current : Uuid) : PlayQueue :=
  { q with playingIndex := indexOf q.playlist current }

/-- `PlayQueue::set_playing`; the flag says whether the item was found. -/
def setPlaying (q : PlayQueue) (playlistItemId : Uuid) : PlayQueue × Bool :=
  let q := { q with playingIndex := indexOf q.playlist playlistItemId }
  (q, q.isItemPlaying)

/-- `PlayQueue::next`; the flag says whether the playing item changed. -/
def next (q : PlayQueue) : PlayQueue × Bool :=
  if q.playlist.isEmpty then (q, false)
  else if q.repeatMode = .repeatOne then (q, true)
  else if q.playlistLen ≤ q.playingIndex + 1 then
    if q.repeatMode = .repeatAll then ({ q with playingIndex := 0 }, true)
    else ({ q with playingIndex := q.playlistLen - 1 }, false)
  else ({ q with playingIndex := q.playingIndex + 1 }, true)

def previous (q : PlayQueue) : PlayQueue × Bool :=
  if q.playlist.isEmpty then (q, false)
  else if q.repeatMode = .repeatOne then (q, true)
  else if q.playingIndex - 1 < 0 then
    if q.repeatMode = .repeatAll then ({ q with playingIndex := q.playlistLen - 1 }, true)
    else ({ q with playingIndex := 0 }, false)
  else ({ q with playingIndex := q.playingIndex - 1 }, true)

def enqueue (q : PlayQueue) (fresh : Nat → Uuid) (itemIds : List Uuid) (mode : GroupQueueMode) :
    PlayQueue :=
  let newItems := newQueueItems fresh itemIds
  match mode with
  | .queue | .unrecognized _ =>
    { q with
      shuffled := if q.shuffle = .shuffle then q.shuffled ++ newItems else q.shuffled
      sorted := q.sorted ++ newItems }
  | .queueNext =>
    if q.shuffle = .shuffle then
      let sortedPlaying := indexOf q.sorted q.playingItemId
      { q with
        shuffled := splice q.shuffled (after q.shuffled q.playingIndex) newItems
        sorted := splice q.sorted (after q.sorted sortedPlaying) newItems }
    else
      { q with sorted := splice q.sorted (after q.sorted q.playingIndex) newItems }

/-- `PlayQueue::clear`: the playing item is kept unless the flag says otherwise. -/
def clear (q : PlayQueue) (clearPlayingItem : Bool) : PlayQueue :=
  match clearPlayingItem, q.current with
  | false, some item =>
    { q with
      sorted := [item]
      shuffled := if q.shuffle = .shuffle then [item] else []
      playingIndex := 0 }
  | _, _ => { q with sorted := [], shuffled := [], playingIndex := noPlayingItemIndex }

/-- The two `retain` calls of `PlayQueue::remove`. -/
def retain (q : PlayQueue) (ids : List Uuid) : PlayQueue :=
  { q with
    sorted := q.sorted.filter fun i => i.playlistItemId ∉ ids
    shuffled := q.shuffled.filter fun i => i.playlistItemId ∉ ids }

/-- `PlayQueue::remove`; the flag says whether the playing item was removed. -/
def remove (q : PlayQueue) (ids : List Uuid) : PlayQueue × Bool :=
  match q.current with
  | none => (q.retain ids, false)
  | some playing =>
    let removedBeforePlaying :=
      ((q.playlist.take q.playingIndex.toNat).filter fun i => i.playlistItemId ∈ ids).length
    let r := q.retain ids
    if playing.playlistItemId ∉ ids then (r.reanchor playing.playlistItemId, false)
    else
      -- step back past the removed items, to the item before the playing one
      let index := r.playingIndex - (removedBeforePlaying + 1)
      let index :=
        if index < 0 then (if r.playlist.isEmpty then noPlayingItemIndex else 0) else index
      ({ r with playingIndex := index }, true)

def setPlaylist (q : PlayQueue) (list : List SyncPlayQueueItem) : PlayQueue :=
  if q.shuffle = .shuffle then { q with shuffled := list } else { q with sorted := list }

/-- `PlayQueue::move_item`, in the active list only; the flag says whether the
item was in the queue. -/
def moveItem (q : PlayQueue) (playlistItemId : Uuid) (newIndex : Int) : PlayQueue × Bool :=
  let source := indexOf q.playlist playlistItemId
  if source < 0 then (q, false)
  else
    let current := q.playingItemId
    let list := q.playlist
    let rest := list.eraseIdx source.toNat
    -- the bound is the length of the list with the item lifted out
    let target := min newIndex.toNat rest.length
    let list := match list[source.toNat]? with
      | some item => rest.insertIdx target item
      | none => rest
    ((q.setPlaylist list).reanchor current, true)

def shufflePlaylist (q : PlayQueue) (pick : Nat → Nat) : PlayQueue :=
  match q.current with
  | none => { q with shuffled := Util.shuffle pick q.sorted, shuffle := .shuffle }
  | some playing =>
    let rest := q.playlist.eraseIdx q.playingIndex.toNat
    { q with
      shuffled := playing :: Util.shuffle pick rest
      playingIndex := 0
      shuffle := .shuffle }

def restoreSortedPlaylist (q : PlayQueue) : PlayQueue :=
  let playing : Option SyncPlayQueueItem :=
    if q.playingIndex < 0 then none else q.shuffled[q.playingIndex.toNat]?
  { q with
    playingIndex :=
      if q.isItemPlaying && !q.shuffled.isEmpty then
        indexOf q.sorted ((playing.map (·.playlistItemId)).getD .nil)
      else q.playingIndex
    shuffled := []
    shuffle := .sorted }

def setShuffleMode (q : PlayQueue) (pick : Nat → Nat) (mode : GroupShuffleMode) : PlayQueue :=
  if mode = .shuffle then q.shufflePlaylist pick else q.restoreSortedPlaylist

end PlayQueue

end Ferrofin.SyncPlay
