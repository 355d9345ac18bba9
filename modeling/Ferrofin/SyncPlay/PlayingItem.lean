import Mathlib.Data.List.TakeDrop
import Ferrofin.SyncPlay.PlayQueueValid

/-!
# What keeps playing, and what the sorted queue keeps

Which item plays after an operation on the queue, and what an operation does to
`sorted`.  An operation that does not name the playing item leaves it playing
(`current_apply`); when it is removed, the queue steps back to the item in
front of it that survives, else to the first one left (`current_remove`).
`sorted` keeps its survivors in order, and neither a shuffle nor a move made
while shuffled touches it, so that going back to Sorted brings it back whole
(`restored_of_path`).
-/

namespace Ferrofin.SyncPlay

open Lib

/-! ### Looking an entry up again -/

theorem getElem?_indexOf {list : List SyncPlayQueueItem}
    (hn : (list.map (·.playlistItemId)).Nodup) {p : SyncPlayQueueItem} (hp : p ∈ list) :
    0 ≤ indexOf list p.playlistItemId ∧
      list[(indexOf list p.playlistItemId).toNat]? = some p := by
  unfold indexOf
  cases hf : list.findIdx? fun i => i.playlistItemId == p.playlistItemId with
  | none => simpa using List.findIdx?_eq_none_iff.mp hf p hp
  | some i =>
    obtain ⟨hi, hid, -⟩ := List.findIdx?_eq_some_iff_getElem.mp hf
    have heq : list[i] = p :=
      List.inj_on_of_nodup_map hn (List.getElem_mem hi) hp (by simpa using hid)
    exact ⟨Int.natCast_nonneg i, by simp [List.getElem?_eq_getElem hi, heq]⟩

theorem getElem?_splice {list : List SyncPlayQueueItem} {i : Nat} {p : SyncPlayQueueItem}
    (h : list[i]? = some p) (items : List SyncPlayQueueItem) {at' : Nat} (hat : i < at') :
    (splice list at' items)[i]? = some p := by
  have hi : i < list.length := (List.getElem?_eq_some_iff.mp h).1
  have htake : i < (list.take at').length := by rw [List.length_take]; omega
  rw [splice, List.append_assoc, List.getElem?_append_left htake, List.getElem?_take_of_lt hat]
  exact h

theorem lt_after {list : List SyncPlayQueueItem} {index : Int} (h0 : 0 ≤ index)
    (hlt : index < list.length) : index.toNat < after list index := by
  unfold after
  omega

namespace PlayQueue

variable {q : PlayQueue} {p : SyncPlayQueueItem}

theorem current_of_getElem? (h0 : 0 ≤ q.playingIndex)
    (h : q.playlist[q.playingIndex.toNat]? = some p) : q.current = some p := by
  rw [current, if_neg (by omega)]
  exact h

theorem current_index (q : PlayQueue) (i : Int) :
    ({ q with playingIndex := i } : PlayQueue).current =
      if i < 0 then none else q.playlist[i.toNat]? := rfl

theorem ListsOk.playlist_nodup (h : q.ListsOk) :
    (q.playlist.map (·.playlistItemId)).Nodup :=
  (h.playlist_perm.map _).nodup_iff.mpr h.nodup

theorem ListsOk.current_reanchor (h : q.ListsOk) (hp : p ∈ q.playlist) :
    (q.reanchor p.playlistItemId).current = some p :=
  have hi := getElem?_indexOf h.playlist_nodup hp
  current_of_getElem? (q := q.reanchor p.playlistItemId) hi.1 hi.2

/-! ### The playing item -/

theorem current_enqueue (hp : q.current = some p) (fresh : Nat → Uuid) (itemIds : List Uuid)
    (mode : GroupQueueMode) : (q.enqueue fresh itemIds mode).current = some p := by
  obtain ⟨h0, hget⟩ := current_eq_some hp
  have hi : q.playingIndex.toNat < q.playlist.length := (List.getElem?_eq_some_iff.mp hget).1
  -- behind the end or behind the playing item, its place is the same
  have happend : ∀ items, (q.playlist ++ items)[q.playingIndex.toNat]? = some p := fun items => by
    rw [List.getElem?_append_left hi, hget]
  have hsplice : ∀ items, (splice q.playlist (after q.playlist q.playingIndex) items)[
      q.playingIndex.toNat]? = some p :=
    fun items => getElem?_splice hget items (lt_after h0 (by omega))
  have hidx := q.playingIndex_enqueue fresh itemIds mode
  refine current_of_getElem? (by rw [hidx]; exact h0) ?_
  rw [hidx]
  by_cases hs : q.shuffle = .shuffle
  · rw [playlist_of_shuffle hs] at happend hsplice
    cases mode <;> simp only [enqueue, playlist, hs, if_true, happend, hsplice]
  · rw [playlist_of_ne hs] at happend hsplice
    cases mode <;> simp only [enqueue, playlist, hs, if_false, happend, hsplice]

theorem current_clear (hp : q.current = some p) : (q.clear false).current = some p := by
  unfold PlayQueue.clear
  rw [hp]
  by_cases hs : q.shuffle = .shuffle <;> simp [current, playlist, hs]

theorem Valid.current_moveItem (h : q.Valid) (hp : q.current = some p) (id : Uuid)
    (newIndex : Int) : (q.moveItem id newIndex).1.current = some p := by
  have hid : q.playingItemId = p.playlistItemId := by simp [playingItemId, hp]
  unfold PlayQueue.moveItem
  simp only
  split
  · exact hp
  · next h0 =>
    have hlt : (indexOf q.playlist id).toNat < q.playlist.length := by
      have := indexOf_lt q.playlist id
      omega
    rw [List.getElem?_eq_getElem hlt, hid]
    have hperm := eraseIdx_insertIdx_perm (List.getElem?_eq_getElem hlt) newIndex.toNat
    refine (h.toListsOk.setPlaylist hperm).current_reanchor ?_
    have hmem := hperm.mem_iff.mpr (mem_of_current hp)
    unfold PlayQueue.setPlaylist
    split
    · next hs => rwa [playlist_of_shuffle (by exact hs)]
    · next hs => rwa [playlist_of_ne (by exact hs)]

theorem current_shufflePlaylist (hp : q.current = some p) (pick : Nat → Nat) :
    (q.shufflePlaylist pick).current = some p := by
  unfold PlayQueue.shufflePlaylist
  rw [hp]
  rfl

theorem Valid.current_restoreSortedPlaylist (h : q.Valid) (hp : q.current = some p) :
    q.restoreSortedPlaylist.current = some p := by
  obtain ⟨h0, hget⟩ := current_eq_some hp
  by_cases hs : q.shuffle = .shuffle
  · rw [playlist_of_shuffle hs] at hget
    have hmem : p ∈ q.sorted := h.playlist_perm.mem_iff.mp (mem_of_current hp)
    have hi := getElem?_indexOf h.nodup hmem
    have hne : q.shuffled ≠ [] := by rintro he; simp [he] at hget
    have hplaying : (q.isItemPlaying && !q.shuffled.isEmpty) = true := by
      simp only [isItemPlaying, noPlayingItemIndex, Bool.and_eq_true, bne_iff_ne, ne_eq,
        Bool.not_eq_true', List.isEmpty_eq_false_iff]
      exact ⟨by omega, hne⟩
    have hidx : q.restoreSortedPlaylist.playingIndex = indexOf q.sorted p.playlistItemId := by
      simp only [PlayQueue.restoreSortedPlaylist, hplaying, if_true,
        if_neg (Int.not_lt.mpr h0), hget, Option.map_some, Option.getD_some]
    refine current_of_getElem? (by rw [hidx]; exact hi.1) ?_
    rw [hidx]
    exact hi.2
  · -- in Sorted mode there is no shuffled list, and nothing moves
    have hnil := h.shuffled_nil hs
    rw [playlist_of_ne hs] at hget
    refine current_of_getElem? ?_ ?_
    · simpa [PlayQueue.restoreSortedPlaylist, hnil] using h0
    · simpa [PlayQueue.restoreSortedPlaylist, hnil, playlist] using hget

theorem Valid.current_setShuffleMode (h : q.Valid) (hp : q.current = some p) (pick : Nat → Nat)
    (mode : GroupShuffleMode) : (q.setShuffleMode pick mode).current = some p := by
  unfold PlayQueue.setShuffleMode
  split
  · exact current_shufflePlaylist hp pick
  · exact h.current_restoreSortedPlaylist hp

theorem Valid.current_remove_of_not_mem (h : q.Valid) (hp : q.current = some p) {ids : List Uuid}
    (hids : p.playlistItemId ∉ ids) : (q.remove ids).1.current = some p := by
  unfold PlayQueue.remove
  rw [hp]
  simp only [if_pos hids]
  refine (h.toListsOk.retain ids).current_reanchor ?_
  rw [playlist_retain]
  exact List.mem_filter.mpr ⟨mem_of_current hp, by simpa using hids⟩

/-! ### Removing the playing item -/

/-- What `remove` leaves of a list. -/
def survivors (list : List SyncPlayQueueItem) (ids : List Uuid) : List SyncPlayQueueItem :=
  list.filter fun i => i.playlistItemId ∉ ids

/-- A list cut at an entry that is removed: what survives is in front of it or
behind it. -/
theorem survivors_cut {list : List SyncPlayQueueItem} {i : Nat} {ids : List Uuid}
    (h : list[i]? = some p) (hids : p.playlistItemId ∈ ids) :
    survivors list ids = survivors (list.take i) ids ++ survivors (list.drop (i + 1)) ids := by
  obtain ⟨hi, rfl⟩ := List.getElem?_eq_some_iff.mp h
  have hcut : list = list.take i ++ list[i] :: list.drop (i + 1) := by
    rw [List.getElem_cons_drop, List.take_append_drop]
  conv_lhs =>
    rw [hcut, survivors, List.filter_append, List.filter_cons_of_neg (by simpa using hids)]
  rfl

/-- When the playing item is removed, the nearest survivor in front of it plays,
else the first survivor. -/
theorem current_remove (hp : q.current = some p) {ids : List Uuid}
    (hids : p.playlistItemId ∈ ids) :
    (q.remove ids).1.current =
      (survivors (q.playlist.take q.playingIndex.toNat) ids).getLast?.or
        (survivors q.playlist ids).head? := by
  obtain ⟨h0, hget⟩ := current_eq_some hp
  have hi : q.playingIndex.toNat < q.playlist.length := (List.getElem?_eq_some_iff.mp hget).1
  -- the entries in front of the playing one, removed and surviving
  have hcount := List.length_eq_length_filter_add (l := q.playlist.take q.playingIndex.toNat)
    (fun i => decide (i.playlistItemId ∈ ids))
  rw [List.length_take, Nat.min_eq_left hi.le] at hcount
  have hfront : ((q.playlist.take q.playingIndex.toNat).filter
      fun i => !decide (i.playlistItemId ∈ ids)) =
        survivors (q.playlist.take q.playingIndex.toNat) ids := by
    simp only [survivors, decide_not]
  rw [hfront] at hcount
  have hcut := survivors_cut hget hids
  have hlist : (q.retain ids).playlist = survivors q.playlist ids := playlist_retain q ids
  unfold PlayQueue.remove
  rw [hp]
  simp only [if_neg (not_not_intro hids)]
  generalize survivors (q.playlist.take q.playingIndex.toNat) ids = front at *
  generalize ((q.playlist.take q.playingIndex.toNat).filter
    fun i => decide (i.playlistItemId ∈ ids)).length = removed at *
  have hidx : (q.retain ids).playingIndex - (removed + 1) = front.length - 1 := by
    show q.playingIndex - _ = _
    omega
  rw [hidx, current_index, hlist]
  by_cases hfront0 : front = []
  · -- nothing in front survives: forward to the first survivor, if there is one
    subst hfront0
    cases survivors q.playlist ids with
    | nil => simp [noPlayingItemIndex]
    | cons item rest => simp
  · have hpos : 0 < front.length := List.length_pos_iff.mpr hfront0
    have hlast : (survivors q.playlist ids)[front.length - 1]? = front.getLast? := by
      rw [hcut, List.getElem?_append_left (by omega), List.getLast?_eq_getElem?]
    have hnat : ((front.length : Int) - 1).toNat = front.length - 1 := by omega
    rw [if_neg (by omega), if_neg (by omega), hnat, hlast]
    cases hget : front.getLast? with
    | none => exact absurd (List.getLast?_eq_none_iff.mp hget) hfront0
    | some item => rfl

/-! ### The sorted queue -/

theorem sublist_splice (list items : List SyncPlayQueueItem) (at' : Nat) :
    list.Sublist (splice list at' items) := by
  have h : (list.take at' ++ list.drop at').Sublist (splice list at' items) :=
    (List.sublist_append_left _ _).append (.refl _)
  rwa [List.take_append_drop] at h

theorem sorted_enqueue (q : PlayQueue) (fresh : Nat → Uuid) (itemIds : List Uuid)
    (mode : GroupQueueMode) : q.sorted.Sublist (q.enqueue fresh itemIds mode).sorted := by
  cases mode with
  | queue => exact List.sublist_append_left _ _
  | unrecognized value => exact List.sublist_append_left _ _
  | queueNext =>
    simp only [PlayQueue.enqueue]
    split
    · exact sublist_splice _ _ _
    · exact sublist_splice _ _ _

theorem sorted_remove (q : PlayQueue) (ids : List Uuid) :
    (q.remove ids).1.sorted = survivors q.sorted ids := by
  unfold PlayQueue.remove
  split
  · rfl
  · simp only
    split
    · rfl
    · rfl

theorem Valid.sorted_clear (h : q.Valid) (clearPlayingItem : Bool) :
    (q.clear clearPlayingItem).sorted.Sublist q.sorted := by
  unfold PlayQueue.clear
  split
  · next item hcur =>
    exact List.singleton_sublist.mpr (h.playlist_perm.mem_iff.mp (mem_of_current hcur))
  · exact List.nil_sublist _

theorem sorted_setShuffleMode (q : PlayQueue) (pick : Nat → Nat) (mode : GroupShuffleMode) :
    (q.setShuffleMode pick mode).sorted = q.sorted := by
  unfold PlayQueue.setShuffleMode
  split
  · unfold PlayQueue.shufflePlaylist
    split <;> rfl
  · rfl

theorem shuffle_moveItem (q : PlayQueue) (id : Uuid) (newIndex : Int) :
    (q.moveItem id newIndex).1.shuffle = q.shuffle := by
  simp only [PlayQueue.moveItem]
  split
  · rfl
  · simp only [reanchor, PlayQueue.setPlaylist]
    split <;> rfl

/-- A move while shuffled is a move in `shuffled` alone. -/
theorem sorted_moveItem (hs : q.shuffle = .shuffle) (id : Uuid) (newIndex : Int) :
    (q.moveItem id newIndex).1.sorted = q.sorted := by
  simp only [PlayQueue.moveItem, PlayQueue.setPlaylist, if_pos hs, reanchor]
  split <;> rfl

theorem shuffle_shufflePlaylist (q : PlayQueue) (pick : Nat → Nat) :
    (q.shufflePlaylist pick).shuffle = .shuffle := by
  unfold PlayQueue.shufflePlaylist
  split <;> rfl

end PlayQueue

/-! ### Operations that keep the playing item -/

/-- The operations that do not name the entry `id` as one to leave. -/
def QueueOp.Keeps (id : Uuid) : QueueOp → Prop
  | .enqueue _ _ _ | .moveItem _ _ | .setShuffleMode _ _ => True
  | .clear clearPlayingItem => clearPlayingItem = false
  | .remove ids => id ∉ ids
  | .set _ _ _ | .setPlaying _ | .next | .previous | .setRepeatMode _ => False

instance (id : Uuid) : DecidablePred (QueueOp.Keeps id) := fun op => by
  apply op.casesOn (motive := fun op => Decidable (QueueOp.Keeps id op)) <;>
    intros <;> dsimp only [QueueOp.Keeps] <;> infer_instance

theorem PlayQueue.Valid.current_apply {q : PlayQueue} {p : SyncPlayQueueItem} (h : q.Valid)
    (hp : q.current = some p) {op : QueueOp} (hop : op.Keeps p.playlistItemId) :
    (q.apply op).current = some p := by
  cases op with
  | enqueue fresh itemIds mode => exact PlayQueue.current_enqueue hp fresh itemIds mode
  | clear clearPlayingItem =>
    obtain rfl : clearPlayingItem = false := hop
    exact PlayQueue.current_clear hp
  | remove ids => exact h.current_remove_of_not_mem hp hop
  | moveItem id newIndex => exact h.current_moveItem hp id newIndex
  | setShuffleMode pick mode => exact h.current_setShuffleMode hp pick mode
  | set fresh itemIds position => exact hop.elim
  | setPlaying id => exact hop.elim
  | next => exact hop.elim
  | previous => exact hop.elim
  | setRepeatMode mode => exact hop.elim

theorem PlayQueue.Valid.current_of_path {q s : PlayQueue} {p : SyncPlayQueueItem} (h : q.Valid)
    (hp : q.current = some p)
    (hrun : queueMachine.Path (fun _ op => op.Keeps p.playlistItemId) q s) :
    s.Valid ∧ s.current = some p :=
  hrun.invariant (I := fun t => t.Valid ∧ t.current = some p) ⟨h, hp⟩
      fun t op t' ⟨hv, hc⟩ hok hs => by
    obtain ⟨ha, he⟩ := Option.ite_none_right_eq_some.mp hs
    cases he
    exact ⟨hv.apply ha, hv.current_apply hc hok⟩

def QueueOp.Reorders : QueueOp → Prop
  | .moveItem _ _ => True
  | .setShuffleMode _ mode => mode = .shuffle
  | _ => False

theorem QueueOp.Reorders.keeps {op : QueueOp} (h : op.Reorders) (id : Uuid) : op.Keeps id := by
  cases op <;> first | exact trivial | exact h.elim

/-- Reordering a shuffled queue leaves it shuffled, and `sorted` alone. -/
theorem PlayQueue.sorted_of_path {q s : PlayQueue} (hs : q.shuffle = .shuffle)
    (hrun : queueMachine.Path (fun _ op => op.Reorders) q s) :
    s.shuffle = .shuffle ∧ s.sorted = q.sorted :=
  hrun.invariant (I := fun t => t.shuffle = .shuffle ∧ t.sorted = q.sorted) ⟨hs, rfl⟩
      fun t op t' ⟨ht, he⟩ hok hstep => by
    obtain ⟨-, hap⟩ := Option.ite_none_right_eq_some.mp hstep
    cases hap
    cases op with
    | moveItem id newIndex =>
      exact ⟨(PlayQueue.shuffle_moveItem t id newIndex).trans ht,
        (PlayQueue.sorted_moveItem ht id newIndex).trans he⟩
    | setShuffleMode pick mode =>
      obtain rfl : mode = .shuffle := hok
      exact ⟨PlayQueue.shuffle_shufflePlaylist t pick,
        (PlayQueue.sorted_setShuffleMode t pick .shuffle).trans he⟩
    | set fresh itemIds position => exact hok.elim
    | setPlaying id => exact hok.elim
    | next => exact hok.elim
    | previous => exact hok.elim
    | enqueue fresh itemIds mode => exact hok.elim
    | clear clearPlayingItem => exact hok.elim
    | remove ids => exact hok.elim
    | setRepeatMode mode => exact hok.elim

theorem PlayQueue.playlist_restore (q : PlayQueue) (pick : Nat → Nat) {mode : GroupShuffleMode}
    (hm : mode ≠ .shuffle) : (q.setShuffleMode pick mode).playlist = q.sorted := by
  rw [PlayQueue.setShuffleMode, if_neg hm]
  rfl

/-- A queue that is shuffled, and then shuffled and moved about in any way, comes
back from Sorted as it was, with the same item playing. -/
theorem PlayQueue.Valid.restored_of_path {q s : PlayQueue} {p : SyncPlayQueueItem} (h : q.Valid)
    (hp : q.current = some p) (pick : Nat → Nat)
    (hrun : queueMachine.Path (fun _ op => op.Reorders) (q.setShuffleMode pick .shuffle) s)
    (pick' : Nat → Nat) {mode : GroupShuffleMode} (hm : mode ≠ .shuffle) :
    (s.setShuffleMode pick' mode).playlist = q.sorted ∧
      (s.setShuffleMode pick' mode).current = some p := by
  have hshuffled : (q.setShuffleMode pick .shuffle).shuffle = .shuffle :=
    PlayQueue.shuffle_shufflePlaylist q pick
  have hkept : s.Valid ∧ s.current = some p :=
    (h.setShuffleMode pick .shuffle).current_of_path (h.current_setShuffleMode hp pick .shuffle)
      (hrun.mono fun _ _ hop => hop.keeps _)
  obtain ⟨-, hsorted⟩ := PlayQueue.sorted_of_path hshuffled hrun
  refine ⟨?_, hkept.1.current_setShuffleMode hkept.2 pick' mode⟩
  rw [PlayQueue.playlist_restore s pick' hm, hsorted, PlayQueue.sorted_setShuffleMode]

/-- **What plays and what is kept.**  An operation that does not remove the
playing item leaves it playing; removing it makes the nearest survivor in front
of it play, else the first one left, else nothing.  `sorted` keeps its survivors
in order; shuffling does not touch it, nor does a move while shuffled, and a
later Sorted request restores it. -/
theorem playing_item_kept {q : PlayQueue} (h : q.Valid) {p : SyncPlayQueueItem}
    (hp : q.current = some p) :
    (∀ op : QueueOp, op.Keeps p.playlistItemId → (q.apply op).current = some p) ∧
    (∀ ids, p.playlistItemId ∈ ids → (q.apply (.remove ids)).current =
      (PlayQueue.survivors (q.playlist.take q.playingIndex.toNat) ids).getLast?.or
        (PlayQueue.survivors q.playlist ids).head?) ∧
    (∀ ids, (q.apply (.remove ids)).sorted = PlayQueue.survivors q.sorted ids) ∧
    (∀ fresh itemIds mode, q.sorted.Sublist (q.apply (.enqueue fresh itemIds mode)).sorted) ∧
    (∀ clearPlayingItem, (q.apply (.clear clearPlayingItem)).sorted.Sublist q.sorted) ∧
    (∀ pick mode, (q.apply (.setShuffleMode pick mode)).sorted = q.sorted) ∧
    (q.shuffle = .shuffle → ∀ id newIndex,
      (q.apply (.moveItem id newIndex)).sorted = q.sorted) ∧
    ∀ pick s, queueMachine.Path (fun _ op => op.Reorders)
        (q.apply (.setShuffleMode pick .shuffle)) s →
      ∀ pick' mode, mode ≠ .shuffle →
        (s.apply (.setShuffleMode pick' mode)).playlist = q.sorted ∧
          (s.apply (.setShuffleMode pick' mode)).current = some p :=
  ⟨fun _ hop => h.current_apply hp hop,
    fun _ hids => PlayQueue.current_remove hp hids,
    fun ids => q.sorted_remove ids,
    fun fresh itemIds mode => q.sorted_enqueue fresh itemIds mode,
    fun clearPlayingItem => h.sorted_clear clearPlayingItem,
    fun pick mode => q.sorted_setShuffleMode pick mode,
    fun hs id newIndex => PlayQueue.sorted_moveItem hs id newIndex,
    fun pick _ hrun pick' _ hm => h.restored_of_path hp pick hrun pick' hm⟩

/-- Five items, shuffled, with the third of the shuffled list playing. -/
def playingShuffled : PlayQueue where
  sorted := [⟨1, 11⟩, ⟨2, 12⟩, ⟨3, 13⟩, ⟨4, 14⟩, ⟨5, 15⟩]
  shuffled := [⟨4, 14⟩, ⟨2, 12⟩, ⟨5, 15⟩, ⟨1, 11⟩, ⟨3, 13⟩]
  playingIndex := 2
  shuffle := .shuffle

theorem valid_playingShuffled : playingShuffled.Valid where
  nodup := by decide
  shuffled_perm := fun _ => by decide
  shuffled_nil := fun hn => absurd rfl hn
  index_ge := by decide
  index_lt := by decide

/-- Removing the playing item, the one in front of it and one behind steps back
over the removed one. -/
theorem playing_item_kept_shuffled :
    playingShuffled.current = some ⟨5, 15⟩ ∧
    (playingShuffled.apply (.moveItem 13 0)).current = some ⟨5, 15⟩ ∧
    (playingShuffled.apply (.remove [12, 15, 11])).current = some ⟨4, 14⟩ ∧
    (((playingShuffled.apply (.setShuffleMode (fun _ => 0) .shuffle)).apply
      (.setShuffleMode (fun _ => 0) .sorted)).playlist = playingShuffled.sorted) :=
  have hall := playing_item_kept valid_playingShuffled (p := ⟨5, 15⟩) rfl
  ⟨rfl, hall.1 (.moveItem 13 0) trivial, hall.2.1 [12, 15, 11] (by decide),
    (hall.2.2.2.2.2.2.2 (fun _ => 0) _ .refl (fun _ => 0) .sorted (by decide)).1⟩

end Ferrofin.SyncPlay
