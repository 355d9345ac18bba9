import Ferrofin.SyncPlay.Group

/-!
# The state machine of a SyncPlay group

`Group.handle` is the table of every state against every `PlaybackRequest`;
`sessionJoined`, `sessionLeaving` and `handleGroupWaitTimeout` are the other
entries of the state machine.  Each returns the group it leaves and the messages
it addresses.  `prev` is the state the group was in when the request came.
-/

namespace Ferrofin.SyncPlay

open Lib

namespace Group

def sendStopCommand (g : Group) (prev : GroupStateType) (now : Clock) : Group × List Outbound :=
  let g := g.setState .idle
  let cmd := g.commandEnv .stop g.lastActivity now
  (g, [⟨if prev = .idle then .currentSession else .allGroup, cmd⟩])

/-! ### The queue -/

def handleQueue (g : Group) (fresh : Nat → Uuid) (itemIds : List Uuid) (mode : GroupQueueMode)
    (now : Clock) : Group × List Outbound :=
  if itemIds.isEmpty then (g, [])
  else
    let g := g.setQueue (g.queue.enqueue fresh itemIds mode)
    let reason : PlayQueueUpdateReason := match mode with
      | .queue | .unrecognized _ => .queue
      | .queueNext => .queueNext
    (g, [.all (g.playQueueEnv reason now)])

def handleMovePlaylistItem (g : Group) (playlistItemId : Uuid) (newIndex : Int) (now : Clock) :
    Group × List Outbound :=
  let (queue, moved) := g.queue.moveItem playlistItemId newIndex
  let g := g.setQueue queue
  if !moved then (g, []) else (g, [.all (g.playQueueEnv .moveItem now)])

def handleRemoveFromPlaylist (g : Group) (prev : GroupStateType) (playlistItemIds : List Uuid)
    (clearPlaylist clearPlayingItem : Bool) (now : Clock) : Group × List Outbound :=
  let (g, playingItemRemoved) :=
    if clearPlaylist then
      let g := g.setQueue (g.queue.clear clearPlayingItem)
      (if clearPlayingItem then g.restartCurrentItem now else g, clearPlayingItem)
    else
      let (queue, removed) := g.queue.remove playlistItemIds
      let g := g.setQueue queue
      (if removed then g.restartCurrentItem now else g, removed)
  let out := [.all (g.playQueueEnv .removeItems now)]
  if playingItemRemoved && !g.queue.isItemPlaying then
    let (g, stop) := g.sendStopCommand prev now
    (g, out ++ stop)
  else (g, out)

def handlePlay (g : Group) (fresh : Nat → Uuid) (prev : GroupStateType) (queue : List Uuid)
    (position startPositionTicks : Int) (now : Clock) : Group × List Outbound :=
  let outOfRange := decide (position < 0) || queue.isEmpty || decide (queue.length ≤ position.toNat)
  let g := ((g.enterWaiting prev).setResumePlaying true).setPositionJumped (!outOfRange)
  if outOfRange then (g.restoreAfterFailedQueueChange prev, [])
  else
    let g := ((g.setQueue (g.queue.set fresh queue position)).setPositionTicks
      startPositionTicks).setLastActivity now.utc
    let out := [.all (g.playQueueEnv .newPlaylist now)]
    (g.setAllBuffering true now, out)

def handleSetPlaylistItem (g : Group) (prev : GroupStateType) (playlistItemId : Uuid)
    (now : Clock) : Group × List Outbound :=
  let g := (g.enterWaiting prev).setResumePlaying true
  let (queue, found) := g.queue.setPlaying playlistItemId
  let g := (((g.setQueue queue).setPositionJumped found).setPositionTicks 0).setLastActivity
    now.utc
  if !found then (g.restoreAfterFailedQueueChange prev, [])
  else
    let out := [.all (g.playQueueEnv .setCurrentItem now)]
    (g.setAllBuffering true now, out)

/-- `Group::handle_queue_step`: a request that names another item than the one
playing is dropped once the group has entered `Waiting`. -/
def handleQueueStep (g : Group) (prev : GroupStateType) (playlistItemId : Uuid) (forward : Bool)
    (now : Clock) : Group × List Outbound :=
  let g := (g.enterWaiting prev).setResumePlaying true
  if playlistItemId ≠ g.queue.playingItemId then (g, [])
  else
    let (queue, moved) := if forward then g.queue.next else g.queue.previous
    let g := (g.setQueue queue).setPositionJumped moved
    if !moved then (g.restoreAfterFailedQueueChange prev, [])
    else
      let g := (g.setPositionTicks 0).setLastActivity now.utc
      let reason : PlayQueueUpdateReason := if forward then .nextItem else .previousItem
      let out := [.all (g.playQueueEnv reason now)]
      (g.setAllBuffering true now, out)

/-- The `SetRepeatMode` arm of `Group::handle`. -/
def handleSetRepeatMode (g : Group) (mode : GroupRepeatMode) (now : Clock) :
    Group × List Outbound :=
  let g := g.setQueue { g.queue with repeatMode := mode }
  (g, [.all (g.playQueueEnv .repeatMode now)])

/-- The `SetShuffleMode` arm of `Group::handle`. -/
def handleSetShuffleMode (g : Group) (pick : Nat → Nat) (mode : GroupShuffleMode) (now : Clock) :
    Group × List Outbound :=
  let g := g.setQueue (g.queue.setShuffleMode pick mode)
  (g, [.all (g.playQueueEnv .shuffleMode now)])

/-! ### Playback -/

/-- The exit from `Waiting` into `Playing` that `handle_ignore_wait`,
`session_leaving` and a `Paused` group's Unpause share. -/
def startPlaying (g : Group) (now : Clock) : Group × List Outbound :=
  let g := g.setState .playing
  let g := g.setLastActivity (g.unpauseWhen now)
  (g, [.all (g.commandEnv .unpause g.lastActivity now), .all (g.stateUpdateEnv .unpause)])

def handleUnpause (g : Group) (prev : GroupStateType) (now : Clock) : Group × List Outbound :=
  match prev with
  | .idle =>
    let g := ((g.enterWaiting prev).setResumePlaying true).restartCurrentItem now
    let g := g.setPositionJumped true
    let out := [.all (g.playQueueEnv .newPlaylist now)]
    (g.setAllBuffering true now, out)
  | .waiting =>
    if g.resumePlaying then
      -- forced: group-wait stays off until the group next starts playing
      let g := (g.setAllBuffering false now).setState .playing
      let g := g.setIgnoreBuffering true
      let g := g.setLastActivity (g.unpauseWhen now)
      (g, [.all (g.commandEnv .unpause g.lastActivity now), .all (g.stateUpdateEnv .unpause)])
    else
      let g := g.setResumePlaying true
      (g, [.all (g.stateUpdateEnv .unpause)])
  | .playing => (g, [⟨.currentSession, g.commandEnv .unpause g.lastActivity now⟩])
  | .paused => g.startPlaying now

def handlePause (g : Group) (prev : GroupStateType) (now : Clock) : Group × List Outbound :=
  match prev with
  | .idle => g.sendStopCommand prev now
  | .playing =>
    let g := ((g.advancePosition now).setLastActivity now.utc).setState .paused
    (g, [.all (g.commandEnv .pause g.lastActivity now), .all (g.stateUpdateEnv .pause)])
  | .paused => (g, [⟨.currentSession, g.commandEnv .pause g.lastActivity now⟩])
  | .waiting =>
    let g := g.setResumePlaying false
    (g, [.all (g.stateUpdateEnv .pause)])

def handleSeek (g : Group) (prev : GroupStateType) (positionTicks : Int) (now : Clock) :
    Group × List Outbound :=
  if prev = .idle then g.sendStopCommand prev now
  else
    let g := (g.enterWaiting prev).resumePlayingFrom prev
    let g := ((g.setPositionTicks (g.sanitizePositionTicks positionTicks)).setLastActivity
      now.utc).setPositionJumped true
    let seek : Outbound := .all (g.commandEnv .seek g.lastActivity now)
    let g := g.setAllBuffering true now
    (g, [seek, .all (g.stateUpdateEnv .seek)])

/-! ### Buffering and Ready -/

/-- The arms of `handle_buffer` for a client that is on the playing item. -/
def handleBufferMatched (g : Group) (prev : GroupStateType) (sessionId : String) (now : Clock) :
    Group × List Outbound :=
  match prev with
  | .playing =>
    let g := (g.setResumePlaying true).setBuffering sessionId true now
    let g := (g.advancePosition now).setLastActivity now.utc
    (g, [⟨.allReady, g.commandEnv .pause g.lastActivity now⟩, .all (g.stateUpdateEnv .buffer)])
  | .paused =>
    let g := (g.setResumePlaying false).setBuffering sessionId true now
    (g, [⟨.currentSession, g.commandEnv .pause g.lastActivity now⟩,
      .all (g.stateUpdateEnv .buffer)])
  | .waiting =>
    let g := g.setBuffering sessionId true now
    let out : List Outbound :=
      if !g.resumePlaying then [⟨.currentSession, g.commandEnv .pause g.lastActivity now⟩] else []
    (g, out ++ [Outbound.all (g.stateUpdateEnv .buffer)])
  | .idle => (g, [.all (g.stateUpdateEnv .buffer)])

def handleBuffer (g : Group) (prev : GroupStateType) (sessionId : String) (playlistItemId : Uuid)
    (now : Clock) : Group × List Outbound :=
  if prev = .idle then g.sendStopCommand prev now
  else if prev = .playing ∧ g.ignoreBuffering then (g, [])
  else
    let g := g.enterWaiting prev
    if playlistItemId ≠ g.queue.playingItemId then
      -- the wrong item: the caller is sent the queue, and `resumePlaying` stays as it is
      let g := g.setBuffering sessionId true now
      (g, [⟨.currentSession, g.playQueueEnv .setCurrentItem now⟩])
    else g.handleBufferMatched prev sessionId now

def correctClient (g : Group) (sessionId : String) (now : Clock) : Group × List Outbound :=
  let g := g.setBuffering sessionId true now
  (g, [⟨.currentSession, g.commandEnv .seek g.lastActivity now⟩, .all (g.stateUpdateEnv .ready)])

/-- How far from the group a client may report Ready while the group resumes. -/
def maxOffsetTicks (g : Group) (report : ReadyReport) : Int :=
  (if report.isPlaying && !g.positionJumped then maxCatchUpOffsetMs else maxPlaybackOffsetMs)
    * ticksPerMs

/-- Whom a Ready that starts playback tells to go on, and when: later when the
reporting client still has to catch up. -/
def resumeTarget (g : Group) (report : ReadyReport) (delayTicks : Int) (now : Clock) :
    Target × Int :=
  let pingTicks := 2 * g.highestPingMs * ticksPerMs
  if delayTicks > pingTicks then
    (if report.isPlaying then .allExceptCurrentSession else .allGroup, now.utc + ticks delayTicks)
  else (.allGroup, now.utc + ticks (max pingTicks (defaultPingMs * ticksPerMs)))

/-- The `resume_playing` arm of `handle_ready`: playback starts once everybody is
ready. -/
def handleReadyResuming (g : Group) (sessionId : String) (report : ReadyReport)
    (delayTicks : Int) (now : Clock) : Group × List Outbound :=
  if absI64 delayTicks > g.maxOffsetTicks report then g.correctClient sessionId now
  else
    let g := g.setBuffering sessionId false now
    if g.isBuffering then
      (g, [⟨.currentSession, g.commandEnv .pause (now.utc + ticks delayTicks) now⟩])
    else
      let (target, when) := g.resumeTarget report delayTicks now
      let g := g.setLastActivity when
      let unpause := g.commandEnv .unpause g.lastActivity now
      let g := g.setState .playing
      (g, [⟨target, unpause⟩, .all (g.stateUpdateEnv .ready)])

/-- The other arm of `handle_ready`: the group settles into `Paused` and replays
the state it started to wait in. -/
def handleReadySettling (g : Group) (sessionId : String) (requestTicks : Int) (now : Clock) :
    Group × List Outbound :=
  if absI64 (i64 (g.positionTicks - requestTicks)) > maxPlaybackOffsetMs * ticksPerMs then
    g.correctClient sessionId now
  else
    let g := g.setBuffering sessionId false now
    if g.isBuffering then (g, [])
    else
      let initial := g.initialState
      let g := g.setState .paused
      match initial with
      | some .playing =>
        let g := (g.advancePosition now).setLastActivity now.utc
        (g, [.all (g.commandEnv .pause g.lastActivity now), .all (g.stateUpdateEnv .pause)])
      | some .paused =>
        (g, [.all (g.commandEnv .pause g.lastActivity now), .all (g.stateUpdateEnv .ready)])
      | _ => (g, [])

/-- The elapsed ticks a Ready report vouches for: its clock is trusted within the
time sync offset, and only while it plays. -/
def reportElapsedTicks (report : ReadyReport) (now : Clock) : Int :=
  let elapsedTicks := durationTicks (now.utc - report.when)
  if absI64 elapsedTicks > timeSyncOffsetMs * ticksPerMs ∨ !report.isPlaying then 0
  else elapsedTicks

def handleReady (g : Group) (prev : GroupStateType) (sessionId : String) (report : ReadyReport)
    (now : Clock) : Group × List Outbound :=
  match prev with
  | .idle => g.sendStopCommand prev now
  | .playing => (g, [⟨.currentSession, g.commandEnv .unpause g.lastActivity now⟩])
  | .paused => (g, [⟨.currentSession, g.commandEnv .pause g.lastActivity now⟩])
  | .waiting =>
    if report.playlistItemId ≠ g.queue.playingItemId then
      let g := g.setBuffering sessionId true now
      (g, [⟨.currentSession, g.playQueueEnv .setCurrentItem now⟩])
    else
      let requestTicks := g.sanitizePositionTicks report.positionTicks
      let delayTicks := i64 (g.positionTicks - i64 (requestTicks + reportElapsedTicks report now))
      if g.resumePlaying then g.handleReadyResuming sessionId report delayTicks now
      else g.handleReadySettling sessionId requestTicks now

/-- What `handle_ignore_wait` and `session_leaving` do once the group waits on
nobody: it resumes, or settles into `Paused` silently. -/
def releaseWait (g : Group) (now : Clock) : Group × List Outbound :=
  if g.isBuffering then (g, [])
  else if g.resumePlaying then g.startPlaying now
  else (g.setState .paused, [])

def handleIgnoreWait (g : Group) (prev : GroupStateType) (now : Clock) : Group × List Outbound :=
  if prev ≠ .waiting then (g, []) else g.releaseWait now

/-! ### The entries -/

def handle (g : Group) (sessionId : String) (request : PlaybackRequest) (draws : Draws)
    (now : Clock) : Group × List Outbound :=
  let prev := g.state
  match request with
  | .play playingQueue position startPositionTicks =>
    g.handlePlay draws.fresh prev playingQueue position startPositionTicks now
  | .setPlaylistItem playlistItemId => g.handleSetPlaylistItem prev playlistItemId now
  | .removeFromPlaylist ids clearPlaylist clearPlayingItem =>
    g.handleRemoveFromPlaylist prev ids clearPlaylist clearPlayingItem now
  | .movePlaylistItem playlistItemId newIndex =>
    g.handleMovePlaylistItem playlistItemId newIndex now
  | .queue itemIds mode => g.handleQueue draws.fresh itemIds mode now
  | .unpause => g.handleUnpause prev now
  | .pause => g.handlePause prev now
  | .stop => g.sendStopCommand prev now
  | .seek positionTicks => g.handleSeek prev positionTicks now
  | .buffer report => g.handleBuffer prev sessionId report.playlistItemId now
  | .ready report => g.handleReady prev sessionId report now
  | .nextItem playlistItemId => g.handleQueueStep prev playlistItemId true now
  | .previousItem playlistItemId => g.handleQueueStep prev playlistItemId false now
  | .setRepeatMode mode => g.handleSetRepeatMode mode now
  | .setShuffleMode mode => g.handleSetShuffleMode draws.pick mode now
  | .ping _ => (g, [])
  | .ignoreWait _ => g.handleIgnoreWait prev now

def sessionJoined (g : Group) (sessionId : String) (now : Clock) : Group × List Outbound :=
  let prev := g.state
  if prev = .idle then g.sendStopCommand prev now
  else
    let g :=
      if prev = .playing then (g.advancePosition now).setLastActivity now.utc else g
    let g := (g.resumePlayingFrom prev).enterWaiting prev
    let queue := g.playQueueEnv .newPlaylist now
    -- the joiner buffers before the command is addressed, so it is not told to pause
    let g := g.setBuffering sessionId true now
    (g, [⟨.currentSession, queue⟩, ⟨.allReady, g.commandEnv .pause now.utc now⟩])

/-- `Group::session_leaving`, run while the leaver is still a member. -/
def sessionLeaving (g : Group) (sessionId : String) (now : Clock) : Group × List Outbound :=
  if g.state ≠ .waiting then (g, [])
  else (g.setBuffering sessionId false now).releaseWait now

/-- `Group::handle_group_wait_timeout`: the group it leaves, and the session that
acts for it with its messages when the wait ran out. -/
def handleGroupWaitTimeout (g : Group) (now : Clock) :
    Group × Option (String × List Outbound) :=
  match g.waitDeadline with
  | none => (g, none)
  | some deadline =>
    if deadline > now.instant then (g, none)
    else
      let g := g.setWaitDeadline none
      if g.state ≠ .waiting then (g, none)
      else
        match g.members.filter (·.blocks) with
        | [] => (g, none)
        | m :: _ =>
          if g.resumePlaying then
            let (g, outbound) := g.handleUnpause .waiting now
            (g, some (m.sessionId, outbound))
          else
            let g := (g.setAllBuffering false now).setState .paused
            (g, some (m.sessionId, [.all (g.commandEnv .pause g.lastActivity now),
              .all (g.stateUpdateEnv .pause)]))

/-- The member-scoped part of a request (in `handle_request`): `Ping` and
`IgnoreWait` change the requesting member before the state machine runs. -/
def applyToMember (g : Group) (sessionId : String) (request : PlaybackRequest) (now : Clock) :
    Group :=
  match request with
  | .ping ping => g.updateMember sessionId fun m => { m with pingMs := max 0 (min ping maxPingMs) }
  | .ignoreWait ignoreWait =>
    (g.updateMember sessionId fun m => { m with ignoreWait }).updateGroupWaitDeadline false now
  | _ => g

/-- What `handle_request` does to the group under the lock: the member's own
change, the run times of the new items, and the state machine. -/
def applyRequest (g : Group) (sessionId : String) (request : PlaybackRequest)
    (runtimes : List (Uuid × Int)) (draws : Draws) (now : Clock) : Group × List Outbound :=
  let g := g.applyToMember sessionId request now
  (g.extendItemRuntimes runtimes).handle sessionId request draws now

/-- What `new_group` builds before the state hook: the creator's group. -/
def create (id : Uuid) (name : String) (waitTimeout : Int) (session : SyncPlaySession)
    (nowPlaying : Option (SyncPlayNowPlaying × List (Uuid × Int))) (fresh : Nat → Uuid)
    (now : Clock) : Group :=
  let g : Group := { Group.new id (Util.trim name) now with waitTimeout }
  let g := g.addMember session
  match nowPlaying with
  | some (np, runtimes) =>
    (g.extendItemRuntimes runtimes).seedFromNowPlaying fresh np
  | none => g

/-- What `join_group` does to the group under the lock, past the checks: the
session joins and the state hook runs. -/
def join (g : Group) (session : SyncPlaySession) (now : Clock) : Group × List Outbound :=
  (g.addMember session).sessionJoined session.sessionId now

/-- What a leave does to the group: the state hook, then the removal. -/
def leave (g : Group) (sessionId : String) (now : Clock) : Group :=
  (g.sessionLeaving sessionId now).1.removeMember sessionId now

end Group

end Ferrofin.SyncPlay
