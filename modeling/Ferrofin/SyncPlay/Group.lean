import Mathlib.Data.List.Sort
import Ferrofin.Lib.ModifyFirst
import Ferrofin.SyncPlay.Message

/-!
# The SyncPlay group

`Group` of `sync_play_manager.rs`: the member sessions, the play queue, the
state and the memory of a group wait, with the methods the request handlers
are built from.  The handlers are in `Ferrofin.SyncPlay.Handle`.

A method that changes the group returns the group it leaves.  Each step reads
the clocks once (`Clock`).
-/

namespace Ferrofin.SyncPlay

open Lib

structure GroupMember where
  sessionId : String
  userId : Uuid
  userName : String
  pingMs : Int
  isBuffering : Bool
  ignoreWait : Bool
  deriving DecidableEq

/-- The member holds the group: it buffers and does not ask to be ignored. -/
def GroupMember.blocks (m : GroupMember) : Bool := m.isBuffering && !m.ignoreWait

structure Group where
  id : Uuid
  name : String
  state : GroupStateType
  members : List GroupMember
  queue : PlayQueue
  positionTicks : Int
  lastActivity : Int
  resumePlaying : Bool
  initialState : Option GroupStateType
  positionJumped : Bool
  ignoreBuffering : Bool
  itemRuntimes : KeyedMap Uuid Int
  waitTimeout : Int
  waitDeadline : Option Int

namespace Group

def new (id : Uuid) (name : String) (now : Clock) : Group where
  id
  name
  state := .idle
  members := []
  queue := {}
  positionTicks := 0
  lastActivity := now.utc
  resumePlaying := false
  initialState := none
  positionJumped := false
  ignoreBuffering := false
  itemRuntimes := ∅
  waitTimeout := defaultGroupWaitTimeout
  waitDeadline := none

/-! ### Fields -/

@[simps] def setQueue (g : Group) (queue : PlayQueue) : Group := { g with queue }

@[simps] def setPositionTicks (g : Group) (ticks : Int) : Group := { g with positionTicks := ticks }

@[simps] def setLastActivity (g : Group) (when : Int) : Group := { g with lastActivity := when }

@[simps] def setResumePlaying (g : Group) (flag : Bool) : Group := { g with resumePlaying := flag }

@[simps] def setPositionJumped (g : Group) (flag : Bool) : Group :=
  { g with positionJumped := flag }

@[simps] def setIgnoreBuffering (g : Group) (flag : Bool) : Group :=
  { g with ignoreBuffering := flag }

@[simps] def setWaitDeadline (g : Group) (deadline : Option Int) : Group :=
  { g with waitDeadline := deadline }

@[simps] def extendItemRuntimes (g : Group) (runtimes : List (Uuid × Int)) : Group :=
  { g with itemRuntimes := KeyedMap.extend g.itemRuntimes runtimes }

/-- `Group::info`: the participants in the order they came, each once. -/
def info (g : Group) (now : Clock) : GroupInfoDto where
  groupId := g.id
  groupName := g.name
  state := g.state
  participants := (g.members.map (·.userName)).eraseDups
  lastUpdatedAt := now.utc

/-! ### Members -/

def isEmpty (g : Group) : Bool := g.members.isEmpty

def highestPingMs (g : Group) : Int := ((g.members.map (·.pingMs)).max?).getD defaultPingMs

def memberUserIds (g : Group) : List Uuid :=
  ((g.members.map (·.userId)).insertionSort (· ≤ ·)).dedup

/-- Whether `sessionId` is a member (`member_mut(..).is_some()`). -/
def hasMember (g : Group) (sessionId : String) : Bool :=
  g.members.any fun m => m.sessionId == sessionId

/-- Changes the first member that is `sessionId` (`member_mut`). -/
def updateMember (g : Group) (sessionId : String) (f : GroupMember → GroupMember) : Group :=
  { g with members := modifyFirst (fun m => m.sessionId == sessionId) f g.members }

def addMember (g : Group) (session : SyncPlaySession) : Group :=
  if g.hasMember session.sessionId then g
  else
    { g with
      members := g.members ++ [{
        sessionId := session.sessionId
        userId := session.userId
        userName := session.userName
        pingMs := defaultPingMs
        isBuffering := false
        ignoreWait := false }] }

def isBuffering (g : Group) : Bool := g.members.any (·.blocks)

def updateGroupWaitDeadline (g : Group) (startNewWaitingPeriod : Bool) (now : Clock) : Group :=
  if g.state ≠ .waiting ∨ !g.isBuffering then { g with waitDeadline := none }
  else if g.waitDeadline.isNone || startNewWaitingPeriod then
    { g with waitDeadline := some (now.instant + g.waitTimeout) }
  else g

def removeMember (g : Group) (sessionId : String) (now : Clock) : Group :=
  let g : Group := { g with members := g.members.filter fun m => m.sessionId != sessionId }
  g.updateGroupWaitDeadline false now

def setBuffering (g : Group) (sessionId : String) (buffering : Bool) (now : Clock) : Group :=
  (g.updateMember sessionId fun m => { m with isBuffering := buffering }).updateGroupWaitDeadline
    false now

def setAllBuffering (g : Group) (buffering : Bool) (now : Clock) : Group :=
  let g : Group := { g with members := g.members.map fun m => { m with isBuffering := buffering } }
  g.updateGroupWaitDeadline buffering now

/-! ### States -/

def resumePlayingFrom (g : Group) (prevState : GroupStateType) : Group :=
  match prevState with
  | .playing => g.setResumePlaying true
  | .paused => g.setResumePlaying false
  | .waiting | .idle => g

@[simps] def enterWaiting (g : Group) (prev : GroupStateType) : Group :=
  { g with
    positionJumped := if g.state ≠ .waiting then false else g.positionJumped
    initialState :=
      if g.state ≠ .waiting ∨ g.initialState.isNone then some prev else g.initialState
    state := .waiting }

/-- `Group::set_state`: leaving `Waiting` drops the memory of the wait. -/
@[simps] def setState (g : Group) (newState : GroupStateType) : Group :=
  let left := newState ≠ .waiting
  { g with
    initialState := if left then none else g.initialState
    positionJumped := if left then false else g.positionJumped
    waitDeadline := if left then none else g.waitDeadline
    ignoreBuffering := if newState = .playing then false else g.ignoreBuffering
    state := newState }

def restoreAfterFailedQueueChange (g : Group) (prev : GroupStateType) : Group :=
  g.setState (match prev with
    | .playing => .playing
    | .paused => .paused
    | .waiting | .idle => .idle)

def seedFromNowPlaying (g : Group) (fresh : Nat → Uuid) (nowPlaying : SyncPlayNowPlaying) :
    Group :=
  let item := nowPlaying.itemId
  let (ids, position) :=
    match nowPlaying.queue.findIdx? (· == item) with
    | some i => (nowPlaying.queue, (i : Int))
    | none => ([item], 0)
  (((g.setQueue (g.queue.set fresh ids position)).setPositionTicks
    (nowPlaying.positionTicks.getD 0)).setResumePlaying (!nowPlaying.isPaused)).setState .waiting

@[simps!] def restartCurrentItem (g : Group) (now : Clock) : Group :=
  (g.setPositionTicks 0).setLastActivity now.utc

/-! ### Positions -/

def unpauseWhen (g : Group) (now : Clock) : Int :=
  now.utc + max (2 * g.highestPingMs) defaultPingMs * nanosPerMs

def elapsedTicks (g : Group) (now : Clock) : Int :=
  max (durationTicks (now.utc - g.lastActivity)) 0

@[simps!] def advancePosition (g : Group) (now : Clock) : Group :=
  g.setPositionTicks (i64 (g.positionTicks + g.elapsedTicks now))

def runTimeTicks (g : Group) : Option Int :=
  g.queue.current.bind fun i => g.itemRuntimes.lookup i.itemId

def sanitizePositionTicks (g : Group) (ticks : Int) : Int :=
  match g.runTimeTicks with
  | some runTime => max 0 (min ticks (max runTime 0))
  | none => max ticks 0

/-! ### Messages -/

def commandEnv (g : Group) (command : SendCommandType) (when : Int) (now : Clock) : Envelope :=
  .command {
    groupId := g.id
    playlistItemId := g.queue.playingItemId
    when
    positionTicks := some g.positionTicks
    command
    emittedAt := now.utc }

def stateUpdateEnv (g : Group) (reason : PlaybackRequestType) : Envelope :=
  .groupUpdate (.stateUpdate g.id { state := g.state, reason })

def playQueueEnv (g : Group) (reason : PlayQueueUpdateReason) (now : Clock) : Envelope :=
  let isPlaying := g.state == .playing
  .groupUpdate (.playQueue g.id {
    reason
    lastUpdate := now.utc
    playlist := g.queue.playlist
    playingItemIndex := g.queue.playingIndex
    startPositionTicks :=
      if isPlaying then i64 (g.positionTicks + g.elapsedTicks now) else g.positionTicks
    isPlaying
    shuffleMode := g.queue.shuffle
    repeatMode := g.queue.repeatMode })

end Group

end Ferrofin.SyncPlay
