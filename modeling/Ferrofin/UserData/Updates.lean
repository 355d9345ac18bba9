import Ferrofin.UserData.Rows

/-!
# What the requests make of a row

Each request reads one row, edits it, and saves it.  `Update` is a request with what it
was given and what it had read about the item, `Update.apply` its edit: the row it
saves, if any, and what it goes on to do with the other versions of the item.

A position is measured against the resume settings in floating point, so these
comparisons are parameters (`ResumeOptions`).
-/

namespace Ferrofin.UserData

inductive UserDataSaveReason where
  | playbackStart
  | playbackProgress
  | playbackFinished
  | togglePlayed
  | updateUserRating
  | «import»
  | updateUserData
deriving DecidableEq

/-- The kinds of an item, as far as a play state depends on them. -/
inductive ItemKind where
  | audioBook
  | book
  | other
deriving DecidableEq

structure PlayStateItem where
  runtimeTicks : Int64
  kind : ItemKind := .other
  playedStatus : Bool := true
  resume : Bool := true

/-- The comparisons with `min_resume_pct`, `max_resume_pct`, `min_resume_duration_seconds`,
`min_audiobook_resume` and `max_audiobook_resume`. -/
structure ResumeOptions where
  belowMinPct : Int64 → Int64 → Bool
  aboveMaxPct : Int64 → Int64 → Bool
  belowMinDuration : Int64 → Bool
  belowMinAudiobook : Int64 → Bool
  belowMaxAudiobook : Int64 → Bool

structure ReportedStreams where
  audioStreamIndex : Option Int32 := none
  subtitleStreamIndex : Option Int32 := none
  rememberAudio : Bool := false
  rememberSubtitles : Bool := false

/-- `UpdateUserItemDataDto`, as far as a save looks at it. -/
structure UpdateUserItemDataDto (Rating : Type) where
  rating : Option Rating := none
  playbackPositionTicks : Option Int64 := none
  playCount : Option Int32 := none
  isFavorite : Option Bool := none
  likes : Option Bool := none
  lastPlayedDate : Option Int := none
  played : Option Bool := none

def ticksPerSecond : Int64 := 10000000

/-- A request to change the user data of an item: `save_play_state`,
`save_user_data_with_reason`, `mark_item_played`, `mark_item_unplayed`, `set_likes`, and
what `propagate_played_state` does to a version. -/
inductive Update (Rating : Type) where
  | playState (options : ResumeOptions) (item : PlayStateItem) (reported : Option Int64)
      (reason : UserDataSaveReason) (streams : Option ReportedStreams)
  | userData (data : UpdateUserItemDataDto Rating)
  | markPlayed (datePlayed : Option Int)
  | markUnplayed
  | setLikes (likes : Option Bool)
  | version (played resetPosition : Bool)

variable {Rating : Type}

/-- What a request makes of the row it read: the values it saves, if any, the played state
it gives the other versions, if any, and whether it found the item played to completion. -/
structure Outcome (Rating : Type) where
  saves : Option (UserDataValues Rating) := none
  propagates : Option Bool := none
  completed : Bool := false

/-- The remembered track of one kind, in `ReportedStreams::apply_to`. -/
def rememberedTrack (remember : Bool) (reported kept : Option Int32) : Option Int32 :=
  if remember then reported.or kept else none

def ReportedStreams.applyTo (s : ReportedStreams) (v : UserDataValues Rating) :
    UserDataValues Rating :=
  { v with
    audioStreamIndex := rememberedTrack s.rememberAudio s.audioStreamIndex v.audioStreamIndex
    subtitleStreamIndex :=
      rememberedTrack s.rememberSubtitles s.subtitleStreamIndex v.subtitleStreamIndex }

def tracksChanged (v v' : UserDataValues Rating) : Bool :=
  v'.audioStreamIndex != v.audioStreamIndex || v'.subtitleStreamIndex != v.subtitleStreamIndex

/-- The resume position kept of a reported one, and whether the item was played to
completion. -/
def resumePosition (o : ResumeOptions) (item : PlayStateItem) (position : Int64) :
    Int64 × Bool :=
  if 0 < position ∧ 0 < item.runtimeTicks ∧ item.kind ≠ .audioBook ∧ item.kind ≠ .book then
    if o.belowMinPct position item.runtimeTicks then (0, false)
    else if o.aboveMaxPct position item.runtimeTicks ∨
        item.runtimeTicks - ticksPerSecond ≤ position then (0, true)
    else if o.belowMinDuration item.runtimeTicks then (0, true)
    else (position, false)
  else if 0 < position ∧ 0 < item.runtimeTicks ∧ item.kind = .audioBook then
    if o.belowMinAudiobook position then (0, false)
    else if o.belowMaxAudiobook (item.runtimeTicks - position) ∨ item.runtimeTicks ≤ position then
      (0, true)
    else (position, false)
  else if 0 < item.runtimeTicks then (position, false)
  else (0, true)

/-- After a save, a row that is played marks the other versions played. -/
def propagatesPlayed (v : UserDataValues Rating) : Option Bool :=
  if v.played then some true else none

def savePlayState (o : ResumeOptions) (item : PlayStateItem) (reported : Option Int64)
    (reason : UserDataSaveReason) (streams : Option ReportedStreams) (now : Int)
    (before : UserDataValues Rating) : Outcome Rating :=
  let v := match streams with
    | none => before
    | some streams => streams.applyTo before
  match reported with
  | none =>
    if reason = .playbackFinished then
      { saves := some { v with
          playCount := v.playCount + 1
          played := item.playedStatus
          playbackPositionTicks := 0
          lastPlayedDate := some now }
        completed := true }
    else if tracksChanged before v then
      { saves := some v, propagates := propagatesPlayed v }
    else {}
  | some position =>
    let (kept, completed) := resumePosition o item position
    let ticks := if item.playedStatus && item.resume then kept else 0
    let v := { v with
      played := item.playedStatus && (v.played || completed)
      playbackPositionTicks := ticks
      lastPlayedDate := if completed ∨ 0 < ticks then some now else v.lastPlayedDate }
    { saves := some v, propagates := propagatesPlayed v, completed := completed }

/-- The edit of `save_user_data_with_reason`: the fields that are set. -/
def UpdateUserItemDataDto.applyTo (R : Ratings Rating) (data : UpdateUserItemDataDto Rating)
    (v : UserDataValues Rating) : UserDataValues Rating :=
  { v with
    playbackPositionTicks := data.playbackPositionTicks.getD v.playbackPositionTicks
    playCount := data.playCount.getD v.playCount
    isFavorite := data.isFavorite.getD v.isFavorite
    likes := data.likes.or v.likes
    played := data.played.getD v.played
    lastPlayedDate := data.lastPlayedDate.or v.lastPlayedDate
    rating := data.rating.or ((data.likes.map fun likes =>
      if likes then R.like else R.dislike).or v.rating) }

/-- The edit of `mark_item_played`. -/
def UserDataValues.markPlayed (datePlayed : Option Int) (now : Int)
    (v : UserDataValues Rating) : UserDataValues Rating :=
  { v with
    playCount := max (if datePlayed.isSome then v.playCount + 1 else v.playCount) 1
    playbackPositionTicks := 0
    lastPlayedDate := some ((datePlayed.or v.lastPlayedDate).getD now)
    played := true }

def UserDataValues.setLikes (R : Ratings Rating) (likes : Option Bool)
    (v : UserDataValues Rating) : UserDataValues Rating :=
  { v with
    likes := likes
    rating := likes.map fun likes => if likes then R.like else R.dislike }

/-- The edit of `propagate_played_state` on a version. -/
def UserDataValues.propagated (played resetPosition : Bool) (v : UserDataValues Rating) :
    UserDataValues Rating :=
  if played then { v with
    played := true
    playbackPositionTicks := if resetPosition then 0 else v.playbackPositionTicks }
  else v.unplayed

namespace Update

def isRefused (R : Ratings Rating) : Update Rating → Bool
  | userData data => data.rating.any R.isInvalid
  | playState _ _ _ _ _ | markPlayed _ | markUnplayed | setLikes _ | version _ _ => false

def apply (R : Ratings Rating) (now : Int) (v : UserDataValues Rating) :
    Update Rating → Outcome Rating
  | playState options item reported reason streams =>
    savePlayState options item reported reason streams now v
  | userData data => { saves := some (data.applyTo R v) }
  | markPlayed datePlayed =>
    { saves := some (v.markPlayed datePlayed now), propagates := some true }
  | markUnplayed => { saves := some v.unplayed, propagates := some false }
  | setLikes likes => { saves := some (v.setLikes R likes) }
  | version played resetPosition => { saves := some (v.propagated played resetPosition) }

end Update

end Ferrofin.UserData
