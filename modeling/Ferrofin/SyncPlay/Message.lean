import Ferrofin.Lib.KeyedMap
import Ferrofin.SyncPlay.PlayQueue
import Ferrofin.Util.Text
import Mathlib.Algebra.Group.Int.Defs

/-!
# SyncPlay requests, messages and ticks

The data a group exchanges with its clients: the playback requests
(`PlaybackRequest`), the commands and updates a group sends (`Outbound`), and
the tick arithmetic they carry.  A message is kept as the value the code
serializes; its JSON text and its random `MessageId` are not modelled.

Instants (`DateTime<Utc>`, `Instant`) and durations are nanoseconds.  Ticks are
100 ns units in an `i64`, whose arithmetic wraps around (`i64`).
-/

namespace Ferrofin.SyncPlay

/-! ### Ticks -/

/-- The value an `i64` operation leaves. -/
def i64 (x : Int) : Int := x.bmod (2 ^ 64)

/-- Whether `x` is an `i64`. -/
def FitsI64 (x : Int) : Prop := -(2 ^ 63) ≤ x ∧ x < 2 ^ 63

instance (x : Int) : Decidable (FitsI64 x) := inferInstanceAs (Decidable (_ ∧ _))

/-- `i64::abs`. -/
def absI64 (x : Int) : Int := i64 x.natAbs

/-- The nearest `i64` (`saturating_mul`). -/
def saturateI64 (x : Int) : Int := max (-(2 ^ 63)) (min x (2 ^ 63 - 1))

def ticksPerMs : Int := 10000

def defaultPingMs : Int := 500

def maxPingMs : Int := 10000

def timeSyncOffsetMs : Int := 2000

def maxPlaybackOffsetMs : Int := 500

def maxCatchUpOffsetMs : Int := 60000

def nanosPerMs : Int := 1000000

/-- `DEFAULT_GROUP_WAIT_TIMEOUT`, 30 s. -/
def defaultGroupWaitTimeout : Int := 30000 * nanosPerMs

/-- `ticks`: a tick count as a duration, in whole microseconds. -/
def ticks (count : Int) : Int := count.tdiv 10 * 1000

def durationTicks (delta : Int) : Int :=
  if FitsI64 delta then delta.tdiv 100
  else if FitsI64 (delta.tdiv 1000) then saturateI64 (delta.tdiv 1000 * 10)
  else saturateI64 (delta.tdiv nanosPerMs * ticksPerMs)

/-- What a step reads off the clocks: `Utc::now()` and `Instant::now()`. -/
structure Clock where
  utc : Int
  instant : Int
  deriving DecidableEq

/-! ### Requests -/

inductive GroupStateType
  | idle
  | waiting
  | paused
  | playing
  deriving DecidableEq

structure SyncPlaySession where
  sessionId : String
  userId : Uuid
  userName : String
  deriving DecidableEq

structure SyncPlayNowPlaying where
  itemId : Uuid
  positionTicks : Option Int
  isPaused : Bool
  queue : List Uuid
  deriving DecidableEq

/-- The fields of a Ready report (`ReadyReport`). -/
structure ReadyReport where
  when : Int
  positionTicks : Int
  isPlaying : Bool
  playlistItemId : Uuid
  deriving DecidableEq

inductive PlaybackRequest
  | play (playingQueue : List Uuid) (playingItemPosition startPositionTicks : Int)
  | setPlaylistItem (playlistItemId : Uuid)
  | removeFromPlaylist (playlistItemIds : List Uuid) (clearPlaylist clearPlayingItem : Bool)
  | movePlaylistItem (playlistItemId : Uuid) (newIndex : Int)
  | queue (itemIds : List Uuid) (mode : GroupQueueMode)
  | unpause
  | pause
  | stop
  | seek (positionTicks : Int)
  | buffer (report : ReadyReport)
  | ready (report : ReadyReport)
  | nextItem (playlistItemId : Uuid)
  | previousItem (playlistItemId : Uuid)
  | setRepeatMode (mode : GroupRepeatMode)
  | setShuffleMode (mode : GroupShuffleMode)
  | ping (ping : Int)
  | ignoreWait (ignoreWait : Bool)
  deriving DecidableEq

/-- `PlaybackRequestType`: the reason a state update names. -/
inductive PlaybackRequestType
  | play
  | setPlaylistItem
  | removeFromPlaylist
  | movePlaylistItem
  | queue
  | unpause
  | pause
  | stop
  | seek
  | buffer
  | ready
  | nextItem
  | previousItem
  | setRepeatMode
  | setShuffleMode
  | ping
  | ignoreWait
  deriving DecidableEq

/-! ### Messages -/

/-- `Target`: who a message is addressed to. -/
inductive Target
  | allGroup
  | currentSession
  | allExceptCurrentSession
  | allReady
  deriving DecidableEq

inductive SendCommandType
  | unpause
  | pause
  | stop
  | seek
  deriving DecidableEq

inductive PlayQueueUpdateReason
  | newPlaylist
  | setCurrentItem
  | removeItems
  | moveItem
  | queue
  | queueNext
  | nextItem
  | previousItem
  | repeatMode
  | shuffleMode
  deriving DecidableEq

structure SendCommand where
  groupId : Uuid
  playlistItemId : Uuid
  when : Int
  positionTicks : Option Int
  command : SendCommandType
  emittedAt : Int
  deriving DecidableEq

structure GroupStateUpdate where
  state : GroupStateType
  reason : PlaybackRequestType
  deriving DecidableEq

structure PlayQueueUpdate where
  reason : PlayQueueUpdateReason
  lastUpdate : Int
  playlist : List SyncPlayQueueItem
  playingItemIndex : Int
  startPositionTicks : Int
  isPlaying : Bool
  shuffleMode : GroupShuffleMode
  repeatMode : GroupRepeatMode
  deriving DecidableEq

structure GroupInfoDto where
  groupId : Uuid
  groupName : String
  state : GroupStateType
  participants : List String
  lastUpdatedAt : Int
  deriving DecidableEq

/-- `GroupUpdate`, and the group id its variants carry. -/
inductive GroupUpdate
  | stateUpdate (groupId : Uuid) (data : GroupStateUpdate)
  | playQueue (groupId : Uuid) (data : PlayQueueUpdate)
  | groupJoined (groupId : Uuid) (data : GroupInfoDto)
  | userJoined (groupId : Uuid) (data : String)
  | groupLeft (groupId : Uuid) (data : Uuid)
  | userLeft (groupId : Uuid) (data : String)
  | notInGroup (groupId : Uuid)
  | groupDoesNotExist (groupId : Uuid) (data : Uuid)
  | libraryAccessDenied (groupId : Uuid)
  deriving DecidableEq

/-- The two message types: `SyncPlayCommand` and `SyncPlayGroupUpdate`. -/
inductive Envelope
  | command (data : SendCommand)
  | groupUpdate (data : GroupUpdate)
  deriving DecidableEq

/-- `Outbound`: a message and its addressing. -/
structure Outbound where
  target : Target
  body : Envelope
  deriving DecidableEq

def Outbound.all (body : Envelope) : Outbound := ⟨.allGroup, body⟩

/-- What a request draws at random: minted `PlaylistItemId`s and shuffle picks. -/
structure Draws where
  fresh : Nat → Uuid
  pick : Nat → Nat

end Ferrofin.SyncPlay
