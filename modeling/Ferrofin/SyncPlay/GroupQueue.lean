import Ferrofin.SyncPlay.GroupStep
import Ferrofin.SyncPlay.PlayQueueValid

/-!
# What a group does to its play queue

A group changes its queue by one operation of `PlayQueue` at a time, and only for
a request that asks for it (`PlaybackRequest.queueOps`).
-/

namespace Ferrofin.SyncPlay

open Lib

def PlaybackRequest.queueOps (request : PlaybackRequest) (draws : Draws) : List QueueOp :=
  match request with
  | .play playingQueue position _ => [.set draws.fresh playingQueue position]
  | .setPlaylistItem id => [.setPlaying id]
  | .removeFromPlaylist ids _ clearPlayingItem => [.clear clearPlayingItem, .remove ids]
  | .movePlaylistItem id newIndex => [.moveItem id newIndex]
  | .queue itemIds mode => [.enqueue draws.fresh itemIds mode]
  | .nextItem _ => [.next]
  | .previousItem _ => [.previous]
  | .setRepeatMode mode => [.setRepeatMode mode]
  | .setShuffleMode mode => [.setShuffleMode draws.pick mode]
  | _ => []

def GroupStep.queueOps : GroupStep → List QueueOp
  | .request _ playback _ draws _ => playback.queueOps draws
  | _ => []

namespace Group

variable {g : Group}

/-! ### The methods -/

@[simp]
theorem queue_updateGroupWaitDeadline (start : Bool) (now : Clock) :
    (g.updateGroupWaitDeadline start now).queue = g.queue := by
  unfold updateGroupWaitDeadline
  split_ifs <;> rfl

@[simp]
theorem queue_setBuffering (sessionId : String) (buffering : Bool) (now : Clock) :
    (g.setBuffering sessionId buffering now).queue = g.queue :=
  queue_updateGroupWaitDeadline _ _

@[simp]
theorem queue_setAllBuffering (buffering : Bool) (now : Clock) :
    (g.setAllBuffering buffering now).queue = g.queue :=
  queue_updateGroupWaitDeadline _ _

@[simp]
theorem queue_resumePlayingFrom (prev : GroupStateType) :
    (g.resumePlayingFrom prev).queue = g.queue := by
  cases prev <;> rfl

@[simp]
theorem queue_restoreAfterFailedQueueChange (prev : GroupStateType) :
    (g.restoreAfterFailedQueueChange prev).queue = g.queue := rfl

@[simp]
theorem queue_releaseWait (now : Clock) : (g.releaseWait now).1.queue = g.queue := by
  unfold releaseWait
  split_ifs <;> rfl

/-! ### The handlers -/

theorem queue_handleUnpause (prev : GroupStateType) (now : Clock) :
    (g.handleUnpause prev now).1.queue = g.queue := by
  cases prev with
  | idle => simp [handleUnpause]
  | waiting =>
    unfold handleUnpause
    dsimp only
    split <;> simp
  | paused => rfl
  | playing => rfl

theorem queue_handlePause (prev : GroupStateType) (now : Clock) :
    (g.handlePause prev now).1.queue = g.queue := by
  cases prev <;> rfl

theorem queue_handleSeek (prev : GroupStateType) (positionTicks : Int) (now : Clock) :
    (g.handleSeek prev positionTicks now).1.queue = g.queue := by
  unfold handleSeek
  split
  · rfl
  · simp

theorem queue_handleBuffer (prev : GroupStateType) (sessionId : String) (id : Uuid)
    (now : Clock) : (g.handleBuffer prev sessionId id now).1.queue = g.queue := by
  have hmatched : ∀ g : Group, (g.handleBufferMatched prev sessionId now).1.queue = g.queue := by
    intro g
    cases prev <;> simp [handleBufferMatched]
  unfold handleBuffer
  dsimp only
  split_ifs
  · rfl
  · rfl
  · simp
  · rw [hmatched, enterWaiting_queue]

theorem queue_handleReady (prev : GroupStateType) (sessionId : String) (report : ReadyReport)
    (now : Clock) : (g.handleReady prev sessionId report now).1.queue = g.queue := by
  cases prev with
  | idle => rfl
  | waiting =>
    unfold handleReady
    dsimp only
    split_ifs
    · simp
    · unfold handleReadyResuming
      dsimp only
      split_ifs <;> simp [correctClient]
    · unfold handleReadySettling
      dsimp only
      split_ifs
      · simp [correctClient]
      · simp
      · split <;> simp
  | paused => rfl
  | playing => rfl

theorem queue_handlePlay (fresh : Nat → Uuid) (prev : GroupStateType) (queue : List Uuid)
    (position start : Int) (now : Clock) :
    (g.handlePlay fresh prev queue position start now).1.queue = g.queue ∨
      (g.handlePlay fresh prev queue position start now).1.queue =
        g.queue.set fresh queue position := by
  unfold handlePlay
  dsimp only
  split
  · exact .inl (by simp)
  · exact .inr (by simp)

theorem queue_handleSetPlaylistItem (prev : GroupStateType) (id : Uuid) (now : Clock) :
    (g.handleSetPlaylistItem prev id now).1.queue = (g.queue.setPlaying id).1 := by
  unfold handleSetPlaylistItem
  dsimp only
  split <;> simp

theorem queue_handleQueueStep (prev : GroupStateType) (id : Uuid) (forward : Bool) (now : Clock) :
    (g.handleQueueStep prev id forward now).1.queue = g.queue ∨
      (g.handleQueueStep prev id forward now).1.queue =
        (if forward then g.queue.next else g.queue.previous).1 := by
  unfold handleQueueStep
  dsimp only
  split
  · exact .inl rfl
  · refine .inr ?_
    simp only [setResumePlaying_queue, enterWaiting_queue]
    generalize (if forward then g.queue.next else g.queue.previous : PlayQueue × Bool) = moved
    split <;> simp

theorem queue_handleRemoveFromPlaylist (prev : GroupStateType) (ids : List Uuid)
    (clearPlaylist clearPlayingItem : Bool) (now : Clock) :
    (g.handleRemoveFromPlaylist prev ids clearPlaylist clearPlayingItem now).1.queue =
      if clearPlaylist then g.queue.clear clearPlayingItem else (g.queue.remove ids).1 := by
  have hstop : ∀ g' : Group, (g'.sendStopCommand prev now).1.queue = g'.queue := fun _ => rfl
  unfold handleRemoveFromPlaylist
  dsimp only
  split_ifs <;> simp [hstop]

/-- **A request leaves the queue alone or applies its operation.** -/
theorem queue_handle (g : Group) (sessionId : String) (request : PlaybackRequest) (draws : Draws)
    (now : Clock) : (g.handle sessionId request draws now).1.queue = g.queue ∨
      ∃ op ∈ request.queueOps draws,
        (g.handle sessionId request draws now).1.queue = g.queue.apply op := by
  cases request with
  | play playingQueue position start =>
    exact (g.queue_handlePlay draws.fresh g.state playingQueue position start now).imp_right
      fun h => ⟨_, List.mem_singleton.mpr rfl, h⟩
  | setPlaylistItem id =>
    exact .inr ⟨_, List.mem_singleton.mpr rfl, g.queue_handleSetPlaylistItem g.state id now⟩
  | removeFromPlaylist ids clearPlaylist clearPlayingItem =>
    have h := g.queue_handleRemoveFromPlaylist g.state ids clearPlaylist clearPlayingItem now
    cases clearPlaylist with
    | true => exact .inr ⟨.clear clearPlayingItem, by simp [PlaybackRequest.queueOps], h⟩
    | false => exact .inr ⟨.remove ids, by simp [PlaybackRequest.queueOps], h⟩
  | movePlaylistItem id newIndex =>
    refine .inr ⟨_, List.mem_singleton.mpr rfl, ?_⟩
    show (g.handleMovePlaylistItem id newIndex now).1.queue = (g.queue.moveItem id newIndex).1
    unfold handleMovePlaylistItem
    dsimp only
    split <;> rfl
  | queue itemIds mode =>
    show (g.handleQueue draws.fresh itemIds mode now).1.queue = g.queue ∨ _
    unfold handleQueue
    split
    · exact .inl rfl
    · next hne =>
      refine .inr ⟨_, List.mem_singleton.mpr rfl, ?_⟩
      show (g.handleQueue draws.fresh itemIds mode now).1.queue = _
      unfold handleQueue
      rw [if_neg hne]
      rfl
  | nextItem id =>
    exact (g.queue_handleQueueStep g.state id true now).imp_right
      fun h => ⟨_, List.mem_singleton.mpr rfl, h⟩
  | previousItem id =>
    exact (g.queue_handleQueueStep g.state id false now).imp_right
      fun h => ⟨_, List.mem_singleton.mpr rfl, h⟩
  | setRepeatMode mode => exact .inr ⟨_, List.mem_singleton.mpr rfl, rfl⟩
  | setShuffleMode mode => exact .inr ⟨_, List.mem_singleton.mpr rfl, rfl⟩
  | unpause => exact .inl (g.queue_handleUnpause g.state now)
  | pause => exact .inl (g.queue_handlePause g.state now)
  | stop => exact .inl rfl
  | seek positionTicks => exact .inl (g.queue_handleSeek g.state positionTicks now)
  | buffer report =>
    exact .inl (g.queue_handleBuffer g.state sessionId report.playlistItemId now)
  | ready report => exact .inl (g.queue_handleReady g.state sessionId report now)
  | ping => exact .inl rfl
  | ignoreWait =>
    refine .inl ?_
    show (g.handleIgnoreWait g.state now).1.queue = g.queue
    unfold handleIgnoreWait
    split
    · rfl
    · exact queue_releaseWait now

/-! ### The steps -/

theorem queue_applyToMember (sessionId : String) (request : PlaybackRequest) (now : Clock) :
    (g.applyToMember sessionId request now).queue = g.queue := by
  unfold applyToMember
  split
  · rfl
  · exact queue_updateGroupWaitDeadline _ _
  · rfl

theorem queue_sessionJoined (sessionId : String) (now : Clock) :
    (g.sessionJoined sessionId now).1.queue = g.queue := by
  unfold sessionJoined
  dsimp only
  split
  · rfl
  · rw [queue_setBuffering, enterWaiting_queue, queue_resumePlayingFrom]
    split <;> rfl

theorem queue_join (session : SyncPlaySession) (now : Clock) :
    (g.join session now).1.queue = g.queue := by
  unfold join
  rw [queue_sessionJoined]
  unfold addMember
  split <;> rfl

theorem queue_leave (sessionId : String) (now : Clock) :
    (g.leave sessionId now).queue = g.queue := by
  unfold leave removeMember
  rw [queue_updateGroupWaitDeadline]
  show (g.sessionLeaving sessionId now).1.queue = g.queue
  unfold sessionLeaving
  split <;> simp

theorem queue_handleGroupWaitTimeout (now : Clock) :
    (g.handleGroupWaitTimeout now).1.queue = g.queue := by
  unfold handleGroupWaitTimeout
  split
  · rfl
  · dsimp only
    split
    · rfl
    split
    · rfl
    split
    · rfl
    · split
      · exact queue_handleUnpause _ _
      · simp

/-- **A step leaves the queue alone or applies its operation.** -/
theorem queue_apply (g : Group) (s : GroupStep) :
    (g.apply s).queue = g.queue ∨ ∃ op ∈ s.queueOps, (g.apply s).queue = g.queue.apply op := by
  cases s with
  | request sessionId request runtimes draws now =>
    have h := queue_handle ((g.applyToMember sessionId request now).extendItemRuntimes runtimes)
      sessionId request draws now
    rw [extendItemRuntimes_queue, queue_applyToMember] at h
    exact h
  | join session now => exact .inl (queue_join session now)
  | leave sessionId now => exact .inl (queue_leave sessionId now)
  | sweep now => exact .inl (queue_handleGroupWaitTimeout now)

end Group

end Ferrofin.SyncPlay
