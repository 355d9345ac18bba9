import Ferrofin.SyncPlay.Registry

/-!
# The roster of a group

Who is in a group, in order: the session and the user of each member.  Only
`add_member` and `remove_member` change it; every request, state hook and timeout
keeps it, and changes no more of a member than its buffering flag, but for the
flag or the ping that the member itself sets.
-/

namespace Ferrofin.SyncPlay

open Lib

def GroupMember.entry (m : GroupMember) : String × Uuid := (m.sessionId, m.userId)

def GroupMember.settled (m : GroupMember) : GroupMember := { m with isBuffering := false }

namespace Group

variable (g : Group)

/-- The members, each by its session and user. -/
@[simp] abbrev roster : List (String × Uuid) := g.members.map GroupMember.entry

/-- The members without their buffering flags. -/
@[simp] abbrev settled : List GroupMember := g.members.map GroupMember.settled

theorem roster_of_settled {g g' : Group} (h : g'.settled = g.settled) : g'.roster = g.roster := by
  have hmap : ∀ g : Group, g.roster = g.settled.map GroupMember.entry := fun g => by
    simp [Function.comp_def, GroupMember.entry, GroupMember.settled]
  rw [hmap, hmap, h]

/-! ### The methods -/

@[simp]
theorem members_updateGroupWaitDeadline (start : Bool) (now : Clock) :
    (g.updateGroupWaitDeadline start now).members = g.members := by
  unfold updateGroupWaitDeadline
  split_ifs <;> rfl

@[simp]
theorem members_resumePlayingFrom (prev : GroupStateType) :
    (g.resumePlayingFrom prev).members = g.members := by
  cases prev <;> rfl

@[simp]
theorem members_restoreAfterFailedQueueChange (prev : GroupStateType) :
    (g.restoreAfterFailedQueueChange prev).members = g.members := rfl

theorem settled_updateMember (sessionId : String) {f : GroupMember → GroupMember}
    (hf : ∀ m, (f m).settled = m.settled) : (g.updateMember sessionId f).settled = g.settled :=
  map_modifyFirst (fun m _ => hf m) g.members

@[simp]
theorem settled_setBuffering (sessionId : String) (buffering : Bool) (now : Clock) :
    (g.setBuffering sessionId buffering now).members.map GroupMember.settled = g.settled := by
  unfold setBuffering
  rw [members_updateGroupWaitDeadline]
  exact g.settled_updateMember sessionId fun _ => rfl

@[simp]
theorem settled_setAllBuffering (buffering : Bool) (now : Clock) :
    (g.setAllBuffering buffering now).members.map GroupMember.settled = g.settled := by
  simp [setAllBuffering, Function.comp_def, GroupMember.settled]

/-! ### The handlers -/

@[simp]
theorem members_sendStopCommand (prev : GroupStateType) (now : Clock) :
    (g.sendStopCommand prev now).1.members = g.members := rfl

@[simp]
theorem members_startPlaying (now : Clock) : (g.startPlaying now).1.members = g.members := rfl

@[simp]
theorem settled_correctClient (sessionId : String) (now : Clock) :
    (g.correctClient sessionId now).1.members.map GroupMember.settled = g.settled :=
  g.settled_setBuffering sessionId true now

theorem settled_handleQueue (fresh : Nat → Uuid) (itemIds : List Uuid) (mode : GroupQueueMode)
    (now : Clock) : (g.handleQueue fresh itemIds mode now).1.settled = g.settled := by
  unfold handleQueue
  split <;> rfl

theorem settled_handleMovePlaylistItem (id : Uuid) (newIndex : Int) (now : Clock) :
    (g.handleMovePlaylistItem id newIndex now).1.settled = g.settled := by
  unfold handleMovePlaylistItem
  dsimp only
  split <;> rfl

theorem settled_handleRemoveFromPlaylist (prev : GroupStateType) (ids : List Uuid)
    (clearPlaylist clearPlayingItem : Bool) (now : Clock) :
    (g.handleRemoveFromPlaylist prev ids clearPlaylist clearPlayingItem now).1.settled =
      g.settled := by
  unfold handleRemoveFromPlaylist
  dsimp only
  split_ifs <;> simp

theorem settled_handlePlay (fresh : Nat → Uuid) (prev : GroupStateType) (queue : List Uuid)
    (position start : Int) (now : Clock) :
    (g.handlePlay fresh prev queue position start now).1.settled = g.settled := by
  unfold handlePlay
  dsimp only
  split_ifs <;> simp

theorem settled_handleSetPlaylistItem (prev : GroupStateType) (id : Uuid) (now : Clock) :
    (g.handleSetPlaylistItem prev id now).1.settled = g.settled := by
  unfold handleSetPlaylistItem
  dsimp only
  split_ifs <;> simp

theorem settled_handleQueueStep (prev : GroupStateType) (id : Uuid) (forward : Bool) (now : Clock) :
    (g.handleQueueStep prev id forward now).1.settled = g.settled := by
  unfold handleQueueStep
  dsimp only
  split_ifs <;> simp

theorem settled_handleUnpause (prev : GroupStateType) (now : Clock) :
    (g.handleUnpause prev now).1.settled = g.settled := by
  cases prev with
  | idle => simp [handleUnpause]
  | waiting =>
    unfold handleUnpause
    dsimp only
    split <;> simp
  | paused => simp [handleUnpause]
  | playing => rfl

theorem settled_handlePause (prev : GroupStateType) (now : Clock) :
    (g.handlePause prev now).1.settled = g.settled := by
  cases prev <;> simp [handlePause]

theorem settled_handleSeek (prev : GroupStateType) (positionTicks : Int) (now : Clock) :
    (g.handleSeek prev positionTicks now).1.settled = g.settled := by
  unfold handleSeek
  split <;> simp

@[simp]
theorem settled_handleBufferMatched (prev : GroupStateType) (sessionId : String) (now : Clock) :
    (g.handleBufferMatched prev sessionId now).1.members.map GroupMember.settled = g.settled := by
  cases prev <;> simp [handleBufferMatched]

theorem settled_handleBuffer (prev : GroupStateType) (sessionId : String) (id : Uuid)
    (now : Clock) : (g.handleBuffer prev sessionId id now).1.settled = g.settled := by
  unfold handleBuffer
  split_ifs with hidle
  · simp
  · rfl
  · dsimp only
    split_ifs <;> simp

theorem settled_handleReadyResuming (sessionId : String) (report : ReadyReport) (delay : Int)
    (now : Clock) :
    (g.handleReadyResuming sessionId report delay now).1.settled = g.settled := by
  unfold handleReadyResuming
  dsimp only
  split_ifs <;> simp

theorem settled_handleReadySettling (sessionId : String) (requestTicks : Int) (now : Clock) :
    (g.handleReadySettling sessionId requestTicks now).1.settled = g.settled := by
  unfold handleReadySettling
  dsimp only
  split_ifs
  · simp
  · simp
  · split <;> simp

theorem settled_handleReady (prev : GroupStateType) (sessionId : String) (report : ReadyReport)
    (now : Clock) : (g.handleReady prev sessionId report now).1.settled = g.settled := by
  cases prev with
  | idle => simp [handleReady]
  | waiting =>
    unfold handleReady
    dsimp only
    split_ifs
    · simp
    · exact g.settled_handleReadyResuming ..
    · exact g.settled_handleReadySettling ..
  | paused => rfl
  | playing => rfl

@[simp]
theorem members_releaseWait (now : Clock) : (g.releaseWait now).1.members = g.members := by
  unfold releaseWait
  split_ifs <;> simp

theorem settled_handleIgnoreWait (prev : GroupStateType) (now : Clock) :
    (g.handleIgnoreWait prev now).1.settled = g.settled := by
  unfold handleIgnoreWait
  split <;> simp

/-- **A playback request keeps the members, but for their buffering flags.** -/
theorem settled_handle (sessionId : String) (request : PlaybackRequest) (draws : Draws)
    (now : Clock) : (g.handle sessionId request draws now).1.settled = g.settled := by
  cases request with
  | play => exact g.settled_handlePlay ..
  | setPlaylistItem => exact g.settled_handleSetPlaylistItem ..
  | removeFromPlaylist => exact g.settled_handleRemoveFromPlaylist ..
  | movePlaylistItem => exact g.settled_handleMovePlaylistItem ..
  | queue => exact g.settled_handleQueue ..
  | unpause => exact g.settled_handleUnpause ..
  | pause => exact g.settled_handlePause ..
  | stop => rfl
  | seek => exact g.settled_handleSeek ..
  | buffer => exact g.settled_handleBuffer ..
  | ready => exact g.settled_handleReady ..
  | nextItem => exact g.settled_handleQueueStep ..
  | previousItem => exact g.settled_handleQueueStep ..
  | setRepeatMode => rfl
  | setShuffleMode => rfl
  | ping => rfl
  | ignoreWait => exact g.settled_handleIgnoreWait ..

/-! ### The steps -/

theorem roster_updateMember (sessionId : String) {f : GroupMember → GroupMember}
    (hf : ∀ m, (f m).entry = m.entry) : (g.updateMember sessionId f).roster = g.roster :=
  map_modifyFirst (fun m _ => hf m) g.members

theorem roster_applyToMember (sessionId : String) (request : PlaybackRequest) (now : Clock) :
    (g.applyToMember sessionId request now).roster = g.roster := by
  unfold applyToMember
  split
  · exact g.roster_updateMember sessionId fun _ => rfl
  · rw [roster, members_updateGroupWaitDeadline]
    exact g.roster_updateMember sessionId fun _ => rfl
  · rfl

theorem roster_applyRequest (sessionId : String) (request : PlaybackRequest)
    (runtimes : List (Uuid × Int)) (draws : Draws) (now : Clock) :
    (g.applyRequest sessionId request runtimes draws now).1.roster = g.roster :=
  (roster_of_settled (settled_handle _ sessionId request draws now)).trans
    (g.roster_applyToMember sessionId request now)

theorem settled_sessionJoined (sessionId : String) (now : Clock) :
    (g.sessionJoined sessionId now).1.settled = g.settled := by
  unfold sessionJoined
  dsimp only
  split
  · simp
  · split <;> simp

theorem roster_sessionJoined (sessionId : String) (now : Clock) :
    (g.sessionJoined sessionId now).1.roster = g.roster :=
  roster_of_settled (g.settled_sessionJoined sessionId now)

theorem settled_sessionLeaving (sessionId : String) (now : Clock) :
    (g.sessionLeaving sessionId now).1.settled = g.settled := by
  unfold sessionLeaving
  split <;> simp

theorem settled_handleGroupWaitTimeout (now : Clock) :
    (g.handleGroupWaitTimeout now).1.settled = g.settled := by
  unfold handleGroupWaitTimeout
  split
  · rfl
  · dsimp only
    split_ifs
    · rfl
    · rfl
    · split
      · rfl
      · exact settled_handleUnpause ..
    · split
      · rfl
      · simp

theorem roster_handleGroupWaitTimeout (now : Clock) :
    (g.handleGroupWaitTimeout now).1.roster = g.roster :=
  roster_of_settled (g.settled_handleGroupWaitTimeout now)

/-- Who is in a group after a join: a session that is a member stays as it is. -/
theorem roster_join (session : SyncPlaySession) (now : Clock) :
    (g.join session now).1.roster =
      if session.sessionId ∈ g.roster.map Prod.fst then g.roster
      else g.roster ++ [(session.sessionId, session.userId)] := by
  unfold join
  rw [roster_sessionJoined]
  have hmem : g.hasMember session.sessionId =
      decide (session.sessionId ∈ g.roster.map Prod.fst) := by
    rw [hasMember, Bool.eq_iff_iff]
    simp [GroupMember.entry]
  unfold addMember
  rw [hmem]
  by_cases h : session.sessionId ∈ g.roster.map Prod.fst
  · rw [if_pos (decide_eq_true h), if_pos h]
  · rw [if_neg (by simpa using h), if_neg h]
    simp [GroupMember.entry]

theorem roster_leave (sessionId : String) (now : Clock) :
    (g.leave sessionId now).roster = g.roster.filter fun e => e.1 != sessionId := by
  unfold leave removeMember
  rw [roster, members_updateGroupWaitDeadline,
    ← roster_of_settled (g.settled_sessionLeaving sessionId now), List.filter_map]
  rfl

theorem roster_seedFromNowPlaying (fresh : Nat → Uuid) (np : SyncPlayNowPlaying) :
    (g.seedFromNowPlaying fresh np).roster = g.roster := by
  unfold seedFromNowPlaying
  rfl

theorem roster_create (id : Uuid) (name : String) (waitTimeout : Int) (session : SyncPlaySession)
    (nowPlaying : Option (SyncPlayNowPlaying × List (Uuid × Int))) (fresh : Nat → Uuid)
    (now : Clock) :
    (create id name waitTimeout session nowPlaying fresh now).roster =
      [(session.sessionId, session.userId)] := by
  unfold create
  dsimp only
  split
  · rw [roster_seedFromNowPlaying]
    rfl
  · rfl

end Group

end Ferrofin.SyncPlay
