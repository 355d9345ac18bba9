import Ferrofin.SyncPlay.GroupQueue

/-!
# What the members are told of the queue

Every request that changes the queue is answered with a `PlayQueue` update for the
whole group, which shows the queue the request left.  There is one exception: a
PreviousItem that comes while nothing plays moves the index of a queue that does
not repeat from `-1` to `0` before it fails, and a failed step sends nothing.
-/

namespace Ferrofin.SyncPlay

open Lib

namespace Group

variable {g : Group}

/-! ### The index -/

theorem queue_handlePlay_nil (fresh : Nat → Uuid) (prev : GroupStateType) (position start : Int)
    (now : Clock) : (g.handlePlay fresh prev [] position start now).1.queue = g.queue := by
  simp [handlePlay]

theorem inRange_apply (h : g.queue.InRange) (s : GroupStep) : (g.apply s).queue.InRange := by
  rcases g.queue_apply s with he | ⟨op, hop, he⟩
  · rw [he]; exact h
  · by_cases hset : ∃ fresh position, op = .set fresh [] position
    · -- only Play sets the queue, and it refuses to without items
      obtain ⟨fresh, position, rfl⟩ := hset
      obtain ⟨sessionId, start, runtimes, draws, now, rfl⟩ : ∃ sessionId start runtimes draws now,
          s = .request sessionId (.play [] position start) runtimes draws now := by
        cases s with
        | request sessionId request runtimes draws now =>
          cases request <;> simp [GroupStep.queueOps, PlaybackRequest.queueOps] at hop
          obtain ⟨-, rfl, rfl⟩ := hop
          exact ⟨_, _, _, _, _, rfl⟩
        | join => cases hop
        | leave => cases hop
        | sweep => cases hop
      have hnil : (g.apply (.request sessionId (.play [] position start) runtimes draws now)).queue
          = g.queue := queue_handlePlay_nil ..
      rw [hnil]
      exact h
    · rw [he]
      exact h.apply fun fresh position hop => hset ⟨fresh, position, hop⟩

theorem inRange_seedFromNowPlaying (g : Group) (fresh : Nat → Uuid)
    (nowPlaying : SyncPlayNowPlaying) : (g.seedFromNowPlaying fresh nowPlaying).queue.InRange := by
  unfold seedFromNowPlaying
  dsimp only
  cases hi : nowPlaying.queue.findIdx? (· == nowPlaying.itemId) with
  | some i =>
    refine PlayQueue.inRange_set g.queue fresh _ ?_
    intro hnil
    have hnil : nowPlaying.queue = [] := hnil
    simp [hnil] at hi
  | none => exact PlayQueue.inRange_set g.queue fresh _ (List.cons_ne_nil _ _)

theorem inRange_founded (m : Manager) (groupId : Uuid) (session : SyncPlaySession) (name : String)
    (nowPlaying : Option (SyncPlayNowPlaying × List (Uuid × Int))) (fresh : Nat → Uuid)
    (now : Clock) : (founded m groupId session name nowPlaying fresh now).queue.InRange := by
  rw [founded, queue_sessionJoined]
  unfold create
  dsimp only
  split
  · exact inRange_seedFromNowPlaying ..
  · unfold addMember
    split <;> exact PlayQueue.valid_default.inRange

end Group

theorem World.inRange_of_reachable {m : Manager} {userOf : String → Uuid} {w : World}
    (h : (syncPlay m userOf).Reachable w) {gid : Uuid} {g : Group}
    (hg : w.registry.groups.lookup gid = some g) : g.queue.InRange :=
  World.forall_groups_of_reaches (P := fun g => g.queue.InRange) h
    (fun _ _ _ _ _ _ => Group.inRange_founded ..)
    (fun _ _ _ _ s _ _ _ _ hP => Group.inRange_apply hP s) gid g hg

/-! ### Announcing the queue -/

def PlayQueueUpdate.Shows (data : PlayQueueUpdate) (q : PlayQueue) : Prop :=
  data.playlist = q.playlist ∧ data.playingItemIndex = q.playingIndex ∧
    data.shuffleMode = q.shuffle ∧ data.repeatMode = q.repeatMode

namespace Group

variable {g : Group}

/-- The messages tell the whole group of the queue the group has. -/
def Announced (g : Group) (out : List Outbound) : Prop :=
  ∃ data, Outbound.all (.groupUpdate (.playQueue g.id data)) ∈ out ∧ data.Shows g.queue

theorem announced_of_mem {g' : Group} {out : List Outbound} {reason : PlayQueueUpdateReason}
    {now : Clock} (hmem : Outbound.all (g.playQueueEnv reason now) ∈ out) (hid : g'.id = g.id)
    (hq : g'.queue = g.queue) : g'.Announced out := by
  refine ⟨_, by rw [hid]; exact hmem, ?_⟩
  rw [hq]
  exact ⟨rfl, rfl, rfl, rfl⟩

@[simp]
theorem id_updateGroupWaitDeadline (start : Bool) (now : Clock) :
    (g.updateGroupWaitDeadline start now).id = g.id := by
  unfold updateGroupWaitDeadline
  split_ifs <;> rfl

@[simp]
theorem id_setAllBuffering (buffering : Bool) (now : Clock) :
    (g.setAllBuffering buffering now).id = g.id := id_updateGroupWaitDeadline _ _

end Group

/-! ### Operations that fail -/

namespace PlayQueue

theorem indexOf_ne_iff {list : List SyncPlayQueueItem} {id : Uuid} :
    indexOf list id ≠ noPlayingItemIndex ↔ id ∈ list.map (·.playlistItemId) := by
  unfold indexOf noPlayingItemIndex
  cases hf : list.findIdx? fun i => i.playlistItemId == id with
  | none =>
    have hnone := List.findIdx?_eq_none_iff.mp hf
    simpa using fun item hmem => by simpa using hnone item hmem
  | some i =>
    obtain ⟨hi, hid, -⟩ := List.findIdx?_eq_some_iff_getElem.mp hf
    refine iff_of_true (by simp only; omega) (List.mem_map.mpr ⟨_, List.getElem_mem hi, ?_⟩)
    simpa using hid

theorem setPlaying_found {q : PlayQueue} {id : Uuid}
    (h : id ∈ q.playlist.map (·.playlistItemId)) : (q.setPlaying id).2 = true := by
  simpa [setPlaying, isItemPlaying] using indexOf_ne_iff.mpr h

theorem moveItem_of_not_moved {q : PlayQueue} {id : Uuid} {newIndex : Int}
    (h : (q.moveItem id newIndex).2 = false) : (q.moveItem id newIndex).1 = q := by
  unfold moveItem at h ⊢
  dsimp only at h ⊢
  split
  · rfl
  · next hn =>
    rw [if_neg hn] at h
    cases h

theorem InRange.next_of_not_moved {q : PlayQueue} (hr : q.InRange) (h : q.next.2 = false) :
    q.next.1 = q := by
  have hlt := hr.index_lt
  have hlen : q.playlistLen = q.playlist.length := rfl
  unfold PlayQueue.next at h ⊢
  split_ifs at h ⊢ with he h1 hle h2
  · rfl
  · have hidx : q.playlistLen - 1 = q.playingIndex := by omega
    simp only [hidx]

/-- The Previous that fails and moves the index all the same: nothing plays, in a
queue with items that does not repeat. -/
def SlipsBack (q : PlayQueue) : Prop :=
  q.playingIndex = noPlayingItemIndex ∧ q.playlist ≠ [] ∧ q.repeatMode ≠ .repeatOne ∧
    q.repeatMode ≠ .repeatAll

instance (q : PlayQueue) : Decidable q.SlipsBack := inferInstanceAs (Decidable (_ ∧ _))

theorem previous_of_slipsBack {q : PlayQueue} (h : q.SlipsBack) :
    q.previous = ({ q with playingIndex := 0 }, false) := by
  obtain ⟨hidx, hne, h1, h2⟩ := h
  rw [previous, if_neg (by simpa using hne), if_neg h1, hidx, if_pos (by decide), if_neg h2]

theorem InRange.previous_of_not_moved {q : PlayQueue} (hr : q.InRange) (hs : ¬ q.SlipsBack)
    (h : q.previous.2 = false) : q.previous.1 = q := by
  have hge := hr.index_ge
  unfold PlayQueue.previous at h ⊢
  split_ifs at h ⊢ with he h1 hle h2
  · rfl
  · have hidx : q.playingIndex ≠ -1 := fun hidx => hs ⟨hidx, by simpa using he, h1, h2⟩
    have hzero : (0 : Int) = q.playingIndex := by omega
    simp only [hzero]

end PlayQueue

namespace Group

variable {g : Group}

/-- The request for which the queue changes behind the members' backs. -/
def SlipsBack (g : Group) (request : PlaybackRequest) : Prop :=
  match request with
  | .previousItem id => id = .nil ∧ g.queue.SlipsBack
  | _ => False

instance (g : Group) (request : PlaybackRequest) : Decidable (g.SlipsBack request) := by
  apply request.casesOn (motive := fun request => Decidable (g.SlipsBack request)) <;>
    intros <;> dsimp only [SlipsBack] <;> infer_instance

/-! ### The handlers -/

/-- The messages of a request announce the queue it leaves, or it leaves the queue
as it was. -/
def KeepsPosted (g : Group) (r : Group × List Outbound) : Prop :=
  r.1.queue = g.queue ∨ r.1.Announced r.2

theorem keepsPosted_handlePlay (fresh : Nat → Uuid) (prev : GroupStateType) (queue : List Uuid)
    (position start : Int) (now : Clock) :
    g.KeepsPosted (g.handlePlay fresh prev queue position start now) := by
  unfold handlePlay
  dsimp only
  split
  · exact .inl (by simp)
  · exact .inr (announced_of_mem (List.mem_singleton.mpr rfl) (id_setAllBuffering ..)
      (queue_setAllBuffering ..))

theorem keepsPosted_handleSetPlaylistItem (prev : GroupStateType) {id : Uuid} (now : Clock)
    (hid : id ∈ g.queue.playlist.map (·.playlistItemId)) :
    g.KeepsPosted (g.handleSetPlaylistItem prev id now) := by
  have hfound : (g.queue.setPlaying id).2 = true := PlayQueue.setPlaying_found hid
  unfold handleSetPlaylistItem
  dsimp only
  simp only [setResumePlaying_queue, enterWaiting_queue, hfound]
  exact .inr (announced_of_mem (List.mem_singleton.mpr rfl) (id_setAllBuffering ..)
    (queue_setAllBuffering ..))

theorem keepsPosted_handleRemoveFromPlaylist (prev : GroupStateType) (ids : List Uuid)
    (clearPlaylist clearPlayingItem : Bool) (now : Clock) :
    g.KeepsPosted (g.handleRemoveFromPlaylist prev ids clearPlaylist clearPlayingItem now) := by
  -- the group is stopped, or not, after it has announced the queue
  have hkeep : ∀ (g' : Group) (removed : Bool),
      let out := [Outbound.all (g'.playQueueEnv .removeItems now)]
      let r := if removed && !g'.queue.isItemPlaying then
          ((g'.sendStopCommand prev now).1, out ++ (g'.sendStopCommand prev now).2)
        else (g', out)
      r.1.Announced r.2 := by
    intro g' removed
    dsimp only
    split
    · exact announced_of_mem (List.mem_append_left _ (List.mem_singleton.mpr rfl)) rfl rfl
    · exact announced_of_mem (List.mem_singleton.mpr rfl) rfl rfl
  unfold handleRemoveFromPlaylist
  dsimp only
  split
  · exact .inr (hkeep _ _)
  · exact .inr (hkeep _ _)

theorem keepsPosted_handleMovePlaylistItem (id : Uuid) (newIndex : Int) (now : Clock) :
    g.KeepsPosted (g.handleMovePlaylistItem id newIndex now) := by
  unfold handleMovePlaylistItem
  dsimp only
  cases hmoved : (g.queue.moveItem id newIndex).2 with
  | true => exact .inr (announced_of_mem (List.mem_singleton.mpr rfl) rfl rfl)
  | false => exact .inl (PlayQueue.moveItem_of_not_moved hmoved)

theorem keepsPosted_handleQueue (fresh : Nat → Uuid) (itemIds : List Uuid) (mode : GroupQueueMode)
    (now : Clock) : g.KeepsPosted (g.handleQueue fresh itemIds mode now) := by
  unfold handleQueue
  split
  · exact .inl rfl
  · exact .inr (announced_of_mem (List.mem_singleton.mpr rfl) rfl rfl)

theorem keepsPosted_handleQueueStep (hr : g.queue.InRange) (prev : GroupStateType) (id : Uuid)
    (forward : Bool) (hslip : forward = false → id = g.queue.playingItemId → ¬ g.queue.SlipsBack)
    (now : Clock) : g.KeepsPosted (g.handleQueueStep prev id forward now) := by
  unfold handleQueueStep
  dsimp only
  simp only [setResumePlaying_queue, enterWaiting_queue]
  split
  · exact .inl rfl
  · next hid =>
    cases hmoved : (if forward then g.queue.next else g.queue.previous).2 with
    | true =>
      exact .inr (announced_of_mem (List.mem_singleton.mpr rfl) (id_setAllBuffering ..)
        (queue_setAllBuffering ..))
    | false =>
      refine .inl ?_
      show (if forward then g.queue.next else g.queue.previous).1 = g.queue
      cases forward with
      | true => exact hr.next_of_not_moved hmoved
      | false => exact hr.previous_of_not_moved (hslip rfl (not_not.mp hid)) hmoved

/-- **A request announces the queue it leaves, or leaves it as it was.** -/
theorem keepsPosted_handle (hr : g.queue.InRange) (sessionId : String) {request : PlaybackRequest}
    (hset : ∀ id, request = .setPlaylistItem id → id ∈ g.queue.playlist.map (·.playlistItemId))
    (hslip : ¬ g.SlipsBack request) (draws : Draws) (now : Clock) :
    g.KeepsPosted (g.handle sessionId request draws now) := by
  cases request with
  | play playingQueue position start => exact keepsPosted_handlePlay ..
  | setPlaylistItem id => exact keepsPosted_handleSetPlaylistItem g.state now (hset id rfl)
  | removeFromPlaylist ids clearPlaylist clearPlayingItem =>
    exact keepsPosted_handleRemoveFromPlaylist ..
  | movePlaylistItem id newIndex => exact keepsPosted_handleMovePlaylistItem ..
  | queue itemIds mode => exact keepsPosted_handleQueue ..
  | nextItem id =>
    exact keepsPosted_handleQueueStep hr g.state id true (fun hf => by cases hf) now
  | previousItem id =>
    refine keepsPosted_handleQueueStep hr g.state id false (fun _ hid hs => hslip ⟨?_, hs⟩) now
    -- with nothing playing the playing item's id is nil
    rw [hid, PlayQueue.playingItemId, hr.current_eq_none_iff.mpr hs.1]
    rfl
  | setRepeatMode mode => exact .inr (announced_of_mem (List.mem_singleton.mpr rfl) rfl rfl)
  | setShuffleMode mode => exact .inr (announced_of_mem (List.mem_singleton.mpr rfl) rfl rfl)
  | unpause => exact .inl (g.queue_handleUnpause g.state now)
  | pause => exact .inl (g.queue_handlePause g.state now)
  | stop => exact .inl rfl
  | seek positionTicks => exact .inl (g.queue_handleSeek g.state positionTicks now)
  | buffer report =>
    exact .inl (g.queue_handleBuffer g.state sessionId report.playlistItemId now)
  | ready report => exact .inl (g.queue_handleReady g.state sessionId report now)
  | ping => exact .inl rfl
  | ignoreWait ignoreWait =>
    rcases g.queue_handle sessionId (.ignoreWait ignoreWait) draws now with he | ⟨_, hop, _⟩
    · exact .inl he
    · cases hop

theorem handle_of_slipsBack (hr : g.queue.InRange) {request : PlaybackRequest}
    (hslip : g.SlipsBack request) (sessionId : String) (draws : Draws) (now : Clock) :
    (g.handle sessionId request draws now).1.queue = { g.queue with playingIndex := 0 } ∧
      (g.handle sessionId request draws now).2 = [] := by
  cases request with
  | previousItem id =>
    obtain ⟨rfl, hs⟩ := hslip
    have hid : g.queue.playingItemId = .nil := by
      rw [PlayQueue.playingItemId, hr.current_eq_none_iff.mpr hs.1]
      rfl
    simp only [handle, handleQueueStep, setResumePlaying_queue, enterWaiting_queue, hid, ne_eq,
      not_true_eq_false, if_false, Bool.false_eq_true, PlayQueue.previous_of_slipsBack hs,
      Bool.not_false, if_true]
    exact ⟨rfl, trivial⟩
  | _ => exact hslip.elim

theorem slipsBack_applyToMember (sessionId : String) (request : PlaybackRequest)
    (runtimes : List (Uuid × Int)) (now : Clock) :
    ((g.applyToMember sessionId request now).extendItemRuntimes runtimes).SlipsBack request ↔
      g.SlipsBack request := by
  cases request <;> exact Iff.rfl

end Group

/-! ### Every reachable group -/

def PlayQueue.SameView (q q' : PlayQueue) : Prop :=
  q.playlist = q'.playlist ∧ q.playingIndex = q'.playingIndex ∧ q.shuffle = q'.shuffle ∧
    q.repeatMode = q'.repeatMode

instance (q q' : PlayQueue) : Decidable (q.SameView q') := inferInstanceAs (Decidable (_ ∧ _))

def BroadcastsQueue (out : List Outbound) : Prop :=
  ∃ gid data, Outbound.all (.groupUpdate (.playQueue gid data)) ∈ out

/-- **No silent change of the queue, but for one slip.**  A request to a reachable
group, other than SetPlaylistItem of an item that is not queued, announces the
queue it leaves when the members see another one than before, and leaves the
queue as it was when it announces none, exactly when it does not slip back. -/
theorem queue_changes_announced {m : Manager} {userOf : String → Uuid} {w : World}
    (h : (syncPlay m userOf).Reachable w) {gid : Uuid} {g : Group}
    (hg : w.registry.groups.lookup gid = some g) (sessionId : String) (request : PlaybackRequest)
    (hset : ∀ id, request = .setPlaylistItem id → id ∈ g.queue.playlist.map (·.playlistItemId))
    (runtimes : List (Uuid × Int)) (draws : Draws) (now : Clock) :
    let r := g.applyRequest sessionId request runtimes draws now
    ((¬ g.queue.SameView r.1.queue → r.1.Announced r.2) ↔ ¬ g.SlipsBack request) ∧
      ((¬ BroadcastsQueue r.2 → r.1.queue = g.queue) ↔ ¬ g.SlipsBack request) := by
  have hr := World.inRange_of_reachable h hg
  have hslip := Group.slipsBack_applyToMember (g := g) sessionId request runtimes now
  have hqueue : ((g.applyToMember sessionId request now).extendItemRuntimes runtimes).queue =
      g.queue := Group.queue_applyToMember sessionId request now
  rw [← hqueue] at hr hset
  rw [← hslip]
  simp only [Group.applyRequest]
  rw [← hqueue]
  generalize (g.applyToMember sessionId request now).extendItemRuntimes runtimes = g' at *
  by_cases hs : g'.SlipsBack request
  · obtain ⟨hq, hout⟩ := Group.handle_of_slipsBack hr hs sessionId draws now
    have hidx : g'.queue.playingIndex = -1 := by
      cases request with
      | previousItem id => exact hs.2.1
      | _ => exact hs.elim
    refine ⟨iff_of_false (fun hannounced => ?_) (not_not_intro hs),
      iff_of_false (fun hsame => ?_) (not_not_intro hs)⟩
    · obtain ⟨data, hmem, -⟩ := hannounced fun hview => by
        have := hview.2.1
        rw [hq, hidx] at this
        cases this
      rw [hout] at hmem
      cases hmem
    · have hkept := hsame fun ⟨_, _, hmem⟩ => by
        rw [hout] at hmem
        cases hmem
      rw [hq] at hkept
      have := congrArg PlayQueue.playingIndex hkept
      rw [hidx] at this
      cases this
  · have hposted := Group.keepsPosted_handle hr sessionId hset hs draws now
    refine ⟨iff_of_true (fun hview => ?_) hs, iff_of_true (fun hquiet => ?_) hs⟩
    · rcases hposted with hq | hannounced
      · exact absurd (by rw [hq]; exact ⟨rfl, rfl, rfl, rfl⟩) hview
      · exact hannounced
    · rcases hposted with hq | ⟨data, hmem, -⟩
      · exact hq
      · exact absurd ⟨_, data, hmem⟩ hquiet

def idleQueueRun : List Event :=
  [.newGroup ⟨"tv", 1, "alice"⟩ "film" none 7 (fun _ => 0) ⟨0, 0⟩,
    .handleRequest ⟨"tv", 1, "alice"⟩ (.queue [5] .queue),
    .requestResume 0 (fun _ => false) [] ⟨fun i => 100 + i, fun _ => 0⟩ ⟨0, 0⟩]

theorem queue_changes_announced_previous :
    ∃ w g, (syncPlay {} fun _ => 1).run {} idleQueueRun = some w ∧
      w.registry.groups.lookup 7 = some g ∧
      let r := g.applyRequest "tv" (.previousItem 100) [] ⟨fun _ => 0, fun _ => 0⟩ ⟨0, 0⟩
      ((¬ g.queue.SameView r.1.queue → r.1.Announced r.2) ∧
        (¬ BroadcastsQueue r.2 → r.1.queue = g.queue)) :=
  ⟨_, _, rfl, rfl,
    have hall := queue_changes_announced (Machine.reachable_of_run
      (M := syncPlay {} fun _ => 1) idleQueueRun rfl) (rfl : AList.lookup 7 _ = _) "tv"
      (.previousItem 100) (fun _ h => by cases h) [] ⟨fun _ => 0, fun _ => 0⟩ ⟨0, 0⟩
    ⟨hall.1.mpr (by decide), hall.2.mpr (by decide)⟩⟩

/-- **A silent change**: with nothing playing, PreviousItem for the nil item moves
the index to the first item and sends nothing. -/
theorem queue_changes_silently :
    ¬ ∀ w, (syncPlay {} fun _ => 1).Reachable w →
      ∀ gid g, w.registry.groups.lookup gid = some g →
      ∀ sessionId request,
        (∀ id, request = .setPlaylistItem id → id ∈ g.queue.playlist.map (·.playlistItemId)) →
      ∀ runtimes draws now,
        ¬ g.queue.SameView (g.applyRequest sessionId request runtimes draws now).1.queue →
        (g.applyRequest sessionId request runtimes draws now).1.Announced
          (g.applyRequest sessionId request runtimes draws now).2 := by
  intro h
  obtain ⟨w, hw⟩ : ∃ w, (syncPlay {} fun _ => 1).run {} idleQueueRun = some w :=
      Option.isSome_iff_exists.mp (by decide +kernel)
  have hreach := Machine.reachable_of_run idleQueueRun hw
  cases hw
  obtain ⟨_, hmem, _⟩ := h _ hreach 7 _ rfl "tv" (.previousItem .nil) (fun _ h => by cases h) []
    ⟨fun _ => 0, fun _ => 0⟩ ⟨0, 0⟩ (by decide)
  cases hmem

end Ferrofin.SyncPlay
