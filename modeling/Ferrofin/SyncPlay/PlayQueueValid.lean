import Mathlib.Data.List.Nodup
import Mathlib.Order.Lattice
import Ferrofin.Lib.Machine
import Ferrofin.SyncPlay.PlayQueue

/-!
# The representation invariant of the play queue

`PlayQueue.Valid q`: the `PlaylistItemId`s are pairwise distinct in `sorted`,
`shuffled` reorders `sorted` in Shuffle mode and is empty otherwise, and
`playingIndex` is `-1` or an index of the active list.  `PlayQueue.ListsOk` is
the part about the two lists.

`queueMachine` is the queue under its nine operations with any arguments, any
shuffle and fresh ids; `valid_of_reachable` says that every queue it reaches
from the default one is valid.
-/

namespace Ferrofin.SyncPlay

open Lib

/-! ### Positions -/

theorem indexOf_ge (list : List SyncPlayQueueItem) (id : Uuid) : -1 ≤ indexOf list id := by
  rw [indexOf]
  split
  · exact_mod_cast Int.le_trans (by decide) (Int.natCast_nonneg _)
  · exact le_rfl

theorem indexOf_lt (list : List SyncPlayQueueItem) (id : Uuid) : indexOf list id < list.length := by
  rw [indexOf]
  split
  · next i h =>
    have := (List.findIdx?_eq_some_iff_findIdx_eq.mp h).1
    exact_mod_cast this
  · simp only [noPlayingItemIndex]; omega

theorem splice_perm (list items : List SyncPlayQueueItem) (at' : Nat) :
    (splice list at' items).Perm (list ++ items) := by
  have h : (splice list at' items).Perm (list.take at' ++ list.drop at' ++ items) := by
    rw [splice, List.append_assoc, List.append_assoc]
    exact (List.perm_append_comm).append_left _
  rwa [List.take_append_drop] at h

namespace PlayQueue

/-! ### The invariant -/

def playlistItemIds (q : PlayQueue) : List Uuid := q.sorted.map (·.playlistItemId)

structure ListsOk (q : PlayQueue) : Prop where
  nodup : q.playlistItemIds.Nodup
  shuffled_perm : q.shuffle = .shuffle → q.shuffled.Perm q.sorted
  shuffled_nil : q.shuffle ≠ .shuffle → q.shuffled = []

/-- The representation invariant of the queue. -/
structure Valid (q : PlayQueue) : Prop extends ListsOk q where
  index_ge : -1 ≤ q.playingIndex
  index_lt : q.playingIndex < q.playlist.length

/-- The index is `-1` or points into the active list. -/
structure InRange (q : PlayQueue) : Prop where
  index_ge : -1 ≤ q.playingIndex
  index_lt : q.playingIndex < q.playlist.length

theorem Valid.inRange {q : PlayQueue} (h : q.Valid) : q.InRange := ⟨h.index_ge, h.index_lt⟩

theorem ListsOk.valid {q : PlayQueue} (h : q.ListsOk) (hr : q.InRange) : q.Valid :=
  ⟨h, hr.index_ge, hr.index_lt⟩

theorem valid_default : Valid {} where
  nodup := by simp [playlistItemIds]
  shuffled_perm := by intro h; cases h
  shuffled_nil := fun _ => rfl
  index_ge := by simp [noPlayingItemIndex]
  index_lt := by simp [noPlayingItemIndex, playlist]

theorem playlist_of_shuffle {q : PlayQueue} (h : q.shuffle = .shuffle) :
    q.playlist = q.shuffled := if_pos h

theorem playlist_of_ne {q : PlayQueue} (h : q.shuffle ≠ .shuffle) : q.playlist = q.sorted :=
  if_neg h

/-- The active list has the entries of `sorted`. -/
theorem ListsOk.playlist_perm {q : PlayQueue} (h : q.ListsOk) : q.playlist.Perm q.sorted := by
  by_cases hs : q.shuffle = .shuffle
  · rw [playlist_of_shuffle hs]; exact h.shuffled_perm hs
  · rw [playlist_of_ne hs]

theorem current_eq_some {q : PlayQueue} {item : SyncPlayQueueItem} (h : q.current = some item) :
    0 ≤ q.playingIndex ∧ q.playlist[q.playingIndex.toNat]? = some item := by
  rw [current] at h
  split at h
  · cases h
  · exact ⟨by omega, h⟩

theorem mem_of_current {q : PlayQueue} {item : SyncPlayQueueItem} (h : q.current = some item) :
    item ∈ q.playlist := List.mem_of_getElem? (current_eq_some h).2

theorem InRange.current_eq_none_iff {q : PlayQueue} (h : q.InRange) :
    q.current = none ↔ q.playingIndex = -1 := by
  have h1 := h.index_ge
  have h2 := h.index_lt
  rw [current]
  split
  · simp; omega
  · next hn =>
    rw [List.getElem?_eq_none_iff]
    constructor <;> intro _ <;> omega

theorem inRange_reanchor (q : PlayQueue) (id : Uuid) : (q.reanchor id).InRange :=
  ⟨indexOf_ge _ _, indexOf_lt _ _⟩

theorem ListsOk.index {q : PlayQueue} (h : q.ListsOk) (i : Int) :
    ({ q with playingIndex := i } : PlayQueue).ListsOk := ⟨h.nodup, h.shuffled_perm, h.shuffled_nil⟩

theorem ListsOk.valid_reanchor {q : PlayQueue} (h : q.ListsOk) (id : Uuid) :
    (q.reanchor id).Valid := (h.index _).valid (q.inRange_reanchor id)

/-! ### Replacing, stepping -/

theorem newQueueItems_ids (fresh : Nat → Uuid) (itemIds : List Uuid) :
    (newQueueItems fresh itemIds).map (·.playlistItemId)
      = (List.range itemIds.length).map fresh := by
  apply List.ext_getElem
  · simp [newQueueItems]
  · intro i h1 h2
    simp [newQueueItems]

@[simp] theorem length_newQueueItems (fresh : Nat → Uuid) (itemIds : List Uuid) :
    (newQueueItems fresh itemIds).length = itemIds.length := by simp [newQueueItems]

theorem inRange_set (q : PlayQueue) (fresh : Nat → Uuid) {itemIds : List Uuid} (position : Int)
    (hne : itemIds ≠ []) : (q.set fresh itemIds position).InRange where
  index_ge := by simp only [set]; omega
  index_lt := by
    have := List.length_pos_iff.mpr hne
    simp only [set, playlist, reduceCtorEq, if_false, length_newQueueItems]
    omega

theorem valid_set (q : PlayQueue) {fresh : Nat → Uuid} {itemIds : List Uuid} (position : Int)
    (hne : itemIds ≠ []) (hfresh : ((List.range itemIds.length).map fresh).Nodup) :
    (q.set fresh itemIds position).Valid := by
  refine ListsOk.valid ⟨?_, fun h => (by cases h), fun _ => rfl⟩ (q.inRange_set fresh position hne)
  rw [playlistItemIds, set, newQueueItems_ids]
  exact hfresh

theorem Valid.setPlaying {q : PlayQueue} (h : q.Valid) (id : Uuid) : (q.setPlaying id).1.Valid :=
  h.toListsOk.valid_reanchor id

theorem next_eq (q : PlayQueue) : ∃ i, q.next.1 = { q with playingIndex := i } := by
  unfold PlayQueue.next
  split_ifs <;> exact ⟨_, rfl⟩

theorem previous_eq (q : PlayQueue) : ∃ i, q.previous.1 = { q with playingIndex := i } := by
  unfold PlayQueue.previous
  split_ifs <;> exact ⟨_, rfl⟩

theorem InRange.next {q : PlayQueue} (h : q.InRange) : q.next.1.InRange := by
  have h1 := h.index_ge
  rw [PlayQueue.next]
  split
  · exact h
  · next he =>
    have hpos : 0 < q.playlist.length := List.length_pos_iff.mpr (by simpa using he)
    have hlen : q.playlistLen = q.playlist.length := rfl
    split_ifs
    · exact h
    · exact ⟨by dsimp only; omega, Int.natCast_pos.mpr hpos⟩
    · exact ⟨by dsimp only; omega, show q.playlistLen - 1 < q.playlist.length by omega⟩
    · exact ⟨by dsimp only; omega, show q.playingIndex + 1 < q.playlist.length by omega⟩

theorem InRange.previous {q : PlayQueue} (h : q.InRange) : q.previous.1.InRange := by
  have h1 := h.index_ge
  have h2 := h.index_lt
  rw [PlayQueue.previous]
  split
  · exact h
  · next he =>
    have hpos : 0 < q.playlist.length := List.length_pos_iff.mpr (by simpa using he)
    have hlen : q.playlistLen = q.playlist.length := rfl
    split_ifs
    · exact h
    · exact ⟨by dsimp only; omega, show q.playlistLen - 1 < q.playlist.length by omega⟩
    · exact ⟨by dsimp only; omega, Int.natCast_pos.mpr hpos⟩
    · exact ⟨by dsimp only; omega, show q.playingIndex - 1 < q.playlist.length by omega⟩

theorem Valid.next {q : PlayQueue} (h : q.Valid) : q.next.1.Valid := by
  have hr := h.inRange.next
  obtain ⟨i, he⟩ := q.next_eq
  rw [he] at hr ⊢
  exact (h.toListsOk.index i).valid hr

theorem Valid.previous {q : PlayQueue} (h : q.Valid) : q.previous.1.Valid := by
  have hr := h.inRange.previous
  obtain ⟨i, he⟩ := q.previous_eq
  rw [he] at hr ⊢
  exact (h.toListsOk.index i).valid hr

/-! ### Adding -/

theorem length_splice (list items : List SyncPlayQueueItem) (at' : Nat) :
    (splice list at' items).length = list.length + items.length := by
  rw [(splice_perm list items at').length_eq, List.length_append]

theorem playingIndex_enqueue (q : PlayQueue) (fresh : Nat → Uuid) (itemIds : List Uuid)
    (mode : GroupQueueMode) : (q.enqueue fresh itemIds mode).playingIndex = q.playingIndex := by
  cases mode with
  | queue => rfl
  | unrecognized value => rfl
  | queueNext =>
    simp only [PlayQueue.enqueue]
    split <;> rfl

theorem length_playlist_enqueue (q : PlayQueue) (fresh : Nat → Uuid) (itemIds : List Uuid)
    (mode : GroupQueueMode) :
    (q.enqueue fresh itemIds mode).playlist.length = q.playlist.length + itemIds.length := by
  by_cases hs : q.shuffle = .shuffle
  · cases mode <;> simp [PlayQueue.enqueue, playlist, hs, length_splice]
  · cases mode <;> simp [PlayQueue.enqueue, playlist, hs, length_splice]

theorem InRange.enqueue {q : PlayQueue} (h : q.InRange) (fresh : Nat → Uuid)
    (itemIds : List Uuid) (mode : GroupQueueMode) : (q.enqueue fresh itemIds mode).InRange := by
  have hlt := h.index_lt
  refine ⟨?_, ?_⟩
  · rw [playingIndex_enqueue]
    exact h.index_ge
  · rw [playingIndex_enqueue, length_playlist_enqueue]
    omega

theorem Valid.enqueue {q : PlayQueue} (h : q.Valid) {fresh : Nat → Uuid} {itemIds : List Uuid}
    (mode : GroupQueueMode) (hfresh : ((List.range itemIds.length).map fresh).Nodup)
    (hdisj : ∀ i < itemIds.length, fresh i ∉ q.playlistItemIds) :
    (q.enqueue fresh itemIds mode).Valid := by
  have hlists := h.toListsOk
  have hids : ((q.sorted ++ newQueueItems fresh itemIds).map (·.playlistItemId)).Nodup := by
    rw [List.map_append, newQueueItems_ids]
    refine List.nodup_append.mpr ⟨hlists.nodup, hfresh, ?_⟩
    rintro id hid _ hnew rfl
    obtain ⟨i, hi, rfl⟩ := List.mem_map.mp hnew
    exact hdisj i (List.mem_range.mp hi) hid
  -- both modes put the same items into the lists, at some place each
  have key : ∀ (sorted shuffled : List SyncPlayQueueItem),
      sorted.Perm (q.sorted ++ newQueueItems fresh itemIds) →
      (q.shuffle = .shuffle → shuffled.Perm (q.shuffled ++ newQueueItems fresh itemIds)) →
      (q.shuffle ≠ .shuffle → shuffled = q.shuffled) →
      ({ q with sorted, shuffled } : PlayQueue).ListsOk := by
    intro sorted shuffled h1 h2 h3
    refine ⟨(h1.map _).nodup_iff.mpr hids, fun hs => ?_, fun hs => ?_⟩
    · exact (h2 hs).trans (((hlists.shuffled_perm hs).append_right _).trans h1.symm)
    · exact (h3 hs).trans (hlists.shuffled_nil hs)
  have append : ({ q with
      shuffled := if q.shuffle = .shuffle then q.shuffled ++ newQueueItems fresh itemIds
        else q.shuffled
      sorted := q.sorted ++ newQueueItems fresh itemIds } : PlayQueue).ListsOk :=
    key _ _ (.refl _) (fun hs => by rw [if_pos hs]) (fun hs => if_neg hs)
  refine ListsOk.valid ?_ (h.inRange.enqueue fresh itemIds mode)
  cases mode with
  | queue => exact append
  | unrecognized value => exact append
  | queueNext =>
    simp only [PlayQueue.enqueue]
    split
    · next hs => exact key _ _ (splice_perm _ _ _) (fun _ => splice_perm _ _ _) (absurd hs)
    · next hs => exact key _ _ (splice_perm _ _ _) (fun h => absurd h hs) (fun _ => rfl)

/-! ### Removing -/

theorem valid_clear (q : PlayQueue) (clearPlayingItem : Bool) :
    (q.clear clearPlayingItem).Valid := by
  have empty : ({ q with sorted := [], shuffled := [], playingIndex := noPlayingItemIndex } :
      PlayQueue).Valid :=
    ⟨⟨by simp [playlistItemIds], fun _ => .refl _, fun _ => rfl⟩, le_rfl, by
      simp only [noPlayingItemIndex]; omega⟩
  unfold PlayQueue.clear
  split
  · refine ⟨⟨by simp [playlistItemIds], fun hs => ?_, fun hs => if_neg hs⟩, by simp, ?_⟩
    · rw [if_pos hs]
    · by_cases hs : q.shuffle = .shuffle <;> simp [playlist, hs]
  · exact empty

theorem ListsOk.retain {q : PlayQueue} (h : q.ListsOk) (ids : List Uuid) :
    (q.retain ids).ListsOk where
  nodup := h.nodup.sublist (List.filter_sublist.map _)
  shuffled_perm := fun hs => (h.shuffled_perm hs).filter _
  shuffled_nil := fun hs => by
    show q.shuffled.filter _ = []
    rw [h.shuffled_nil hs, List.filter_nil]

theorem playlist_retain (q : PlayQueue) (ids : List Uuid) :
    (q.retain ids).playlist = q.playlist.filter fun i => i.playlistItemId ∉ ids := by
  by_cases hs : q.shuffle = .shuffle
  · rw [playlist_of_shuffle hs, playlist_of_shuffle (by exact hs)]; rfl
  · rw [playlist_of_ne hs, playlist_of_ne (by exact hs)]; rfl

/-- What survives in front of an index is what is in front of it, less the
removed ones. -/
theorem take_sub_removed_le (list : List SyncPlayQueueItem) (n : Nat) (hn : n ≤ list.length)
    (p : SyncPlayQueueItem → Prop) [DecidablePred p] :
    n - ((list.take n).filter fun i => p i).length ≤ (list.filter fun i => ¬ p i).length := by
  have hsplit := List.length_eq_length_filter_add (l := list.take n) (fun i => decide (p i))
  have hsub : ((list.take n).filter fun i => ¬ p i).length ≤ (list.filter fun i => ¬ p i).length :=
    ((List.take_sublist n list).filter _).length_le
  rw [List.length_take, Nat.min_eq_left hn] at hsplit
  simp only [decide_not] at hsub ⊢
  omega

theorem InRange.remove {q : PlayQueue} (h : q.InRange) (ids : List Uuid) :
    (q.remove ids).1.InRange := by
  have hlt := h.index_lt
  rw [PlayQueue.remove]
  split
  · next hnone =>
    have hidx : (q.retain ids).playingIndex = -1 := h.current_eq_none_iff.mp hnone
    refine ⟨hidx.ge, ?_⟩
    rw [hidx]
    omega
  · next playing hcur =>
    obtain ⟨h0, hget⟩ := current_eq_some hcur
    have hle : q.playingIndex.toNat ≤ q.playlist.length := by omega
    have hsurv := take_sub_removed_le q.playlist _ hle fun i => i.playlistItemId ∈ ids
    rw [← playlist_retain] at hsurv
    simp only
    split
    · exact inRange_reanchor _ _
    · refine ⟨?_, ?_⟩
      · simp only [noPlayingItemIndex]
        split_ifs <;> omega
      · show (if q.playingIndex - _ < 0 then _ else q.playingIndex - _) < _
        split
        · split
          · simp only [noPlayingItemIndex]; omega
          · next hne =>
            have hpos := List.length_pos_iff.mpr (by simpa using hne : (q.retain ids).playlist ≠ [])
            exact Int.natCast_pos.mpr hpos
        · show _ < ((q.retain ids).playlist.length : Int)
          omega

theorem remove_eq (q : PlayQueue) (ids : List Uuid) :
    ∃ i, (q.remove ids).1 = { q.retain ids with playingIndex := i } := by
  unfold PlayQueue.remove
  split
  · exact ⟨_, rfl⟩
  · dsimp only
    split <;> exact ⟨_, rfl⟩

theorem Valid.remove {q : PlayQueue} (h : q.Valid) (ids : List Uuid) :
    (q.remove ids).1.Valid := by
  have hr := h.inRange.remove ids
  obtain ⟨i, he⟩ := q.remove_eq ids
  rw [he] at hr ⊢
  exact ((h.toListsOk.retain ids).index i).valid hr

/-! ### Reordering -/

theorem eraseIdx_insertIdx_perm {list : List SyncPlayQueueItem} {i : Nat}
    {item : SyncPlayQueueItem} (h : list[i]? = some item) (target : Nat) :
    ((list.eraseIdx i).insertIdx (min target (list.eraseIdx i).length) item).Perm list := by
  obtain ⟨hi, rfl⟩ := List.getElem?_eq_some_iff.mp h
  exact (List.perm_insertIdx _ _ (Nat.min_le_right _ _)).trans (List.getElem_cons_eraseIdx_perm hi)

theorem ListsOk.setPlaylist {q : PlayQueue} (h : q.ListsOk) {list : List SyncPlayQueueItem}
    (hp : list.Perm q.playlist) : (q.setPlaylist list).ListsOk := by
  unfold PlayQueue.setPlaylist
  by_cases hs : q.shuffle = .shuffle
  · rw [if_pos hs]
    rw [playlist_of_shuffle hs] at hp
    exact ⟨h.nodup, fun _ => hp.trans (h.shuffled_perm hs), fun hn => absurd hs hn⟩
  · rw [if_neg hs]
    rw [playlist_of_ne hs] at hp
    exact ⟨(hp.map _).nodup_iff.mpr h.nodup, fun hn => absurd hn hs, h.shuffled_nil⟩

theorem InRange.moveItem {q : PlayQueue} (h : q.InRange) (id : Uuid) (newIndex : Int) :
    (q.moveItem id newIndex).1.InRange := by
  unfold PlayQueue.moveItem
  simp only
  split
  · exact h
  · exact inRange_reanchor _ _

theorem Valid.moveItem {q : PlayQueue} (h : q.Valid) (id : Uuid) (newIndex : Int) :
    (q.moveItem id newIndex).1.Valid := by
  unfold PlayQueue.moveItem
  simp only
  split
  · exact h
  · next h0 =>
    have hlt : (indexOf q.playlist id).toNat < q.playlist.length := by
      have := indexOf_lt q.playlist id
      omega
    rw [List.getElem?_eq_getElem hlt]
    exact (h.toListsOk.setPlaylist
      (eraseIdx_insertIdx_perm (List.getElem?_eq_getElem hlt) _)).valid_reanchor _

theorem InRange.shufflePlaylist {q : PlayQueue} (h : q.InRange) (pick : Nat → Nat) :
    (q.shufflePlaylist pick).InRange := by
  unfold PlayQueue.shufflePlaylist
  split
  · next hnone =>
    have hidx := h.current_eq_none_iff.mp hnone
    refine ⟨h.index_ge, ?_⟩
    show q.playingIndex < _
    rw [hidx]
    omega
  · exact ⟨by simp, by simp [playlist]⟩

theorem Valid.shufflePlaylist {q : PlayQueue} (h : q.Valid) (pick : Nat → Nat) :
    (q.shufflePlaylist pick).Valid := by
  refine ListsOk.valid ?_ (h.inRange.shufflePlaylist pick)
  unfold PlayQueue.shufflePlaylist
  split
  · exact ⟨h.nodup, fun _ => Util.shuffle_perm _ _, fun hn => absurd rfl hn⟩
  · next playing hcur =>
    obtain ⟨hi, hitem⟩ := List.getElem?_eq_some_iff.mp (current_eq_some hcur).2
    refine ⟨h.nodup, fun _ => ?_, fun hn => absurd rfl hn⟩
    refine (((Util.shuffle_perm pick _).cons playing).trans ?_).trans h.playlist_perm
    rw [← hitem]
    exact List.getElem_cons_eraseIdx_perm hi

theorem InRange.restoreSortedPlaylist {q : PlayQueue} (h : q.InRange) :
    q.restoreSortedPlaylist.InRange := by
  have hlt := h.index_lt
  refine ⟨?_, ?_⟩
  · simp only [PlayQueue.restoreSortedPlaylist]
    split
    · exact indexOf_ge _ _
    · exact h.index_ge
  · show _ < ((q.sorted.length : Nat) : Int)
    simp only [PlayQueue.restoreSortedPlaylist]
    split
    · exact indexOf_lt _ _
    · next hn =>
      -- nothing is playing, or there is no shuffled list to leave
      simp only [isItemPlaying, noPlayingItemIndex, Bool.and_eq_true, bne_iff_ne, ne_eq,
        Bool.not_eq_eq_eq_not, Bool.not_true, List.isEmpty_eq_false_iff, not_and, not_not] at hn
      by_cases hs : q.shuffle = .shuffle
      · rw [playlist_of_shuffle hs] at hlt
        by_cases hidx : q.playingIndex = -1
        · rw [hidx]; omega
        · rw [hn hidx, List.length_nil] at hlt
          have := h.index_ge
          omega
      · rwa [playlist_of_ne hs] at hlt

theorem Valid.restoreSortedPlaylist {q : PlayQueue} (h : q.Valid) :
    q.restoreSortedPlaylist.Valid :=
  ListsOk.valid ⟨h.nodup, fun hs => (by cases hs), fun _ => rfl⟩ h.inRange.restoreSortedPlaylist

theorem InRange.setShuffleMode {q : PlayQueue} (h : q.InRange) (pick : Nat → Nat)
    (mode : GroupShuffleMode) : (q.setShuffleMode pick mode).InRange := by
  unfold PlayQueue.setShuffleMode
  split
  · exact h.shufflePlaylist pick
  · exact h.restoreSortedPlaylist

theorem Valid.setShuffleMode {q : PlayQueue} (h : q.Valid) (pick : Nat → Nat)
    (mode : GroupShuffleMode) : (q.setShuffleMode pick mode).Valid := by
  unfold PlayQueue.setShuffleMode
  split
  · exact h.shufflePlaylist pick
  · exact h.restoreSortedPlaylist

end PlayQueue

/-! ### Runs of queue operations -/

/-- The operations on a play queue, with what they draw. -/
inductive QueueOp
  | set (fresh : Nat → Uuid) (itemIds : List Uuid) (position : Int)
  | setPlaying (playlistItemId : Uuid)
  | next
  | previous
  | enqueue (fresh : Nat → Uuid) (itemIds : List Uuid) (mode : GroupQueueMode)
  | clear (clearPlayingItem : Bool)
  | remove (ids : List Uuid)
  | moveItem (playlistItemId : Uuid) (newIndex : Int)
  | setShuffleMode (pick : Nat → Nat) (mode : GroupShuffleMode)
  | setRepeatMode (mode : GroupRepeatMode)

/-- The minted ids differ from each other and from the ids in use. -/
def FreshIds (used : List Uuid) (fresh : Nat → Uuid) (count : Nat) : Prop :=
  ((List.range count).map fresh).Nodup ∧ ∀ i < count, fresh i ∉ used

instance (used : List Uuid) (fresh : Nat → Uuid) (count : Nat) :
    Decidable (FreshIds used fresh count) := inferInstanceAs (Decidable (_ ∧ _))

def PlayQueue.apply (q : PlayQueue) : QueueOp → PlayQueue
  | .set fresh itemIds position => q.set fresh itemIds position
  | .setPlaying id => (q.setPlaying id).1
  | .next => q.next.1
  | .previous => q.previous.1
  | .enqueue fresh itemIds mode => q.enqueue fresh itemIds mode
  | .clear clearPlayingItem => q.clear clearPlayingItem
  | .remove ids => (q.remove ids).1
  | .moveItem id newIndex => (q.moveItem id newIndex).1
  | .setShuffleMode pick mode => q.setShuffleMode pick mode
  | .setRepeatMode mode => { q with repeatMode := mode }

theorem PlayQueue.InRange.apply {q : PlayQueue} (h : q.InRange) {op : QueueOp}
    (hset : ∀ fresh position, op ≠ .set fresh [] position) : (q.apply op).InRange := by
  cases op with
  | set fresh itemIds position =>
    exact inRange_set q fresh position fun hnil => hset fresh position (by rw [hnil])
  | setPlaying id => exact inRange_reanchor q id
  | next => exact h.next
  | previous => exact h.previous
  | enqueue fresh itemIds mode => exact h.enqueue fresh itemIds mode
  | clear b => exact (valid_clear q b).inRange
  | remove ids => exact h.remove ids
  | moveItem id newIndex => exact h.moveItem id newIndex
  | setShuffleMode pick mode => exact h.setShuffleMode pick mode
  | setRepeatMode mode => exact ⟨h.index_ge, h.index_lt⟩

/-- What an operation asks for: `set` takes a nonempty list, and minted ids are fresh. -/
def QueueOp.Allowed (q : PlayQueue) : QueueOp → Prop
  | .set fresh itemIds _ => itemIds ≠ [] ∧ FreshIds q.playlistItemIds fresh itemIds.length
  | .enqueue fresh itemIds _ => FreshIds q.playlistItemIds fresh itemIds.length
  | _ => True

instance (q : PlayQueue) (op : QueueOp) : Decidable (op.Allowed q) := by
  unfold QueueOp.Allowed
  split <;> infer_instance

def queueMachine : Machine PlayQueue QueueOp where
  init := {}
  step q op := if op.Allowed q then some (q.apply op) else none

theorem PlayQueue.Valid.apply {q : PlayQueue} (h : q.Valid) {op : QueueOp} (ha : op.Allowed q) :
    (q.apply op).Valid := by
  cases op with
  | set fresh itemIds position => exact valid_set q position ha.1 ha.2.1
  | setPlaying id => exact h.setPlaying id
  | next => exact h.next
  | previous => exact h.previous
  | enqueue fresh itemIds mode => exact h.enqueue mode ha.1 ha.2
  | clear b => exact valid_clear q b
  | remove ids => exact h.remove ids
  | moveItem id newIndex => exact h.moveItem id newIndex
  | setShuffleMode pick mode => exact h.setShuffleMode pick mode
  | setRepeatMode mode => exact { h with }

/-- **Every reachable queue is valid.** -/
theorem valid_of_reachable {q : PlayQueue} (h : queueMachine.Reachable q) : q.Valid :=
  h.invariant PlayQueue.valid_default fun q op q' hv _ hs => by
    obtain ⟨ha, he⟩ := Option.ite_none_right_eq_some.mp hs
    cases he
    exact hv.apply ha

/-- Three items, shuffled; the second is played and a fourth is queued after it. -/
def shuffledRun : List QueueOp :=
  [.set (fun i => 10 + i) [1, 2, 3] 1, .setShuffleMode (fun _ => 0) .shuffle, .next,
    .enqueue (fun i => 20 + i) [4] .queueNext, .remove [11], .previous]

theorem valid_of_shuffledRun :
    ∃ q, queueMachine.run {} shuffledRun = some q ∧ q.shuffled.length = 3 ∧ q.Valid :=
  ⟨_, rfl, by decide, valid_of_reachable (Machine.reachable_of_run (M := queueMachine)
    shuffledRun rfl)⟩

end Ferrofin.SyncPlay
