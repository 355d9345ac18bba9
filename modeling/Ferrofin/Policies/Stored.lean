import Ferrofin.Lib.Words
import Ferrofin.Users.Manager
import Ferrofin.Util.Decimal
import Ferrofin.Util.Uuid
import Ferrofin.Visibility.Context

/-!
# The policy of a user, in the database

A policy is written to the row of its user, to a table of permissions, a table of access schedules
and a table of preferences, whose lists are texts with commas (`savePolicy`).  It is read from these
by a mapping of its own (`buildUserPolicy`).
-/

namespace Ferrofin.Policies

open Lib Util
open Visibility (UnratedItem)

abbrev Text := List Char

/-! ### Enumerations -/

def tryParse {T : Type} (members : List (Text × ℕ)) (fromDiscriminant : ℤ → T) (text : Text)
    (ignoreCase : Bool) : Option T :=
  let trimmed := trimChars text
  let number :=
    if trimmed.head?.any fun c => c.isDigit || c == '-' || c == '+' then parseInt 32 trimmed
    else none
  if trimmed = [] then none
  else match number with
    | some n => some (fromDiscriminant n)
    | none =>
      let values := (trimmed.splitOn ',').mapM fun name =>
        (members.find? fun m =>
          if ignoreCase then m.1.map Char.toLower == (trimChars name).map Char.toLower
          else m.1 == trimChars name).map (·.2)
      values.map fun values => fromDiscriminant (values.foldl (· ||| ·) 0 : ℕ)

inductive SyncPlayUserAccessType where
  | createAndJoinGroups | joinGroups | none
  | unrecognized (value : ℤ)
deriving DecidableEq

namespace SyncPlayUserAccessType

def jsonValue : SyncPlayUserAccessType → ℤ
  | createAndJoinGroups => 0
  | joinGroups => 1
  | none => 2
  | unrecognized value => value

def fromStored (value : ℤ) : SyncPlayUserAccessType :=
  if value = 0 then createAndJoinGroups
  else if value = 1 then joinGroups
  else if value = 2 then none
  else unrecognized value

end SyncPlayUserAccessType

inductive DynamicDayOfWeek where
  | sunday | monday | tuesday | wednesday | thursday | friday | saturday
  | everyday | weekday | weekend
  | unrecognized (value : ℤ)
deriving DecidableEq

namespace DynamicDayOfWeek

/-- `day_to_i32`. -/
def jsonValue : DynamicDayOfWeek → ℤ
  | sunday => 0
  | monday => 1
  | tuesday => 2
  | wednesday => 3
  | thursday => 4
  | friday => 5
  | saturday => 6
  | everyday => 7
  | weekday => 8
  | weekend => 9
  | unrecognized value => value

/-- The days with a name, in the order of their values. -/
def named : List DynamicDayOfWeek :=
  [sunday, monday, tuesday, wednesday, thursday, friday, saturday, everyday, weekday, weekend]

/-- `day_from_i32`. -/
def fromJsonValue (value : ℤ) : DynamicDayOfWeek :=
  (named.find? (·.jsonValue = value)).getD (unrecognized value)

end DynamicDayOfWeek

/-- The names and the values of `UnratedItem`. -/
def unratedMembers : List (Text × ℕ) :=
  [("Movie".toList, 0), ("Trailer".toList, 1), ("Series".toList, 2), ("Music".toList, 3),
    ("Book".toList, 4), ("LiveTvChannel".toList, 5), ("LiveTvProgram".toList, 6),
    ("ChannelContent".toList, 7), ("Other".toList, 8)]

/-- `UnratedItem::json_value`. -/
def unratedValue : UnratedItem → ℤ
  | .movie => 0
  | .trailer => 1
  | .series => 2
  | .music => 3
  | .book => 4
  | .liveTvChannel => 5
  | .liveTvProgram => 6
  | .channelContent => 7
  | .other => 8
  | .unrecognized value => value

/-- The items with a name, in the order of their values. -/
def unratedNamed : List UnratedItem :=
  [.movie, .trailer, .series, .music, .book, .liveTvChannel, .liveTvProgram, .channelContent,
    .other]

/-- `UnratedItem::from_json_value`. -/
def unratedFromValue (value : ℤ) : UnratedItem :=
  (unratedNamed.find? (unratedValue · = value)).getD (.unrecognized value)

/-- `UnratedItem::json_name`. -/
def unratedName : UnratedItem → Text
  | .movie => "Movie".toList
  | .trailer => "Trailer".toList
  | .series => "Series".toList
  | .music => "Music".toList
  | .book => "Book".toList
  | .liveTvChannel => "LiveTvChannel".toList
  | .liveTvProgram => "LiveTvProgram".toList
  | .channelContent => "ChannelContent".toList
  | .other => "Other".toList
  | .unrecognized value => decimal value

def parseUnratedItem (value : Text) : Option UnratedItem :=
  tryParse unratedMembers unratedFromValue value true

inductive PermissionKind where
  | isAdministrator | isHidden | isDisabled | enableSharedDeviceControl | enableRemoteAccess
  | enableLiveTvManagement | enableLiveTvAccess | enableMediaPlayback
  | enableAudioPlaybackTranscoding | enableVideoPlaybackTranscoding | enableContentDeletion
  | enableContentDownloading | enableSyncTranscoding | enableMediaConversion | enableAllDevices
  | enableAllChannels | enableAllFolders | enablePublicSharing | enableRemoteControlOfOtherUsers
  | enablePlaybackRemuxing | forceRemoteSourceTranscoding | enableCollectionManagement
  | enableSubtitleManagement | enableLyricManagement
deriving DecidableEq

def PermissionKind.value : PermissionKind → ℤ
  | isAdministrator => 0
  | isHidden => 1
  | isDisabled => 2
  | enableSharedDeviceControl => 3
  | enableRemoteAccess => 4
  | enableLiveTvManagement => 5
  | enableLiveTvAccess => 6
  | enableMediaPlayback => 7
  | enableAudioPlaybackTranscoding => 8
  | enableVideoPlaybackTranscoding => 9
  | enableContentDeletion => 10
  | enableContentDownloading => 11
  | enableSyncTranscoding => 12
  | enableMediaConversion => 13
  | enableAllDevices => 14
  | enableAllChannels => 15
  | enableAllFolders => 16
  | enablePublicSharing => 17
  | enableRemoteControlOfOtherUsers => 18
  | enablePlaybackRemuxing => 19
  | forceRemoteSourceTranscoding => 20
  | enableCollectionManagement => 21
  | enableSubtitleManagement => 22
  | enableLyricManagement => 23

/-- `PreferenceKind`, the kinds of a policy. -/
inductive PreferenceKind where
  | blockedTags | blockedChannels | blockedMediaFolders | enabledDevices | enabledChannels
  | enabledFolders | enableContentDeletionFromFolders | blockUnratedItems | allowedTags
deriving DecidableEq

def PreferenceKind.value : PreferenceKind → ℤ
  | blockedTags => 0
  | blockedChannels => 1
  | blockedMediaFolders => 2
  | enabledDevices => 3
  | enabledChannels => 4
  | enabledFolders => 5
  | enableContentDeletionFromFolders => 6
  | blockUnratedItems => 10
  | allowedTags => 12

/-! ### The policy -/

/-- `AccessSchedule`; hours are compared only. -/
structure AccessSchedule (Hour : Type) where
  id : ℤ
  userId : Uuid
  dayOfWeek : DynamicDayOfWeek
  startHour : Hour
  endHour : Hour

structure UserPolicy (Hour : Type) where
  isAdministrator : Bool := false
  isHidden : Bool := true
  enableCollectionManagement : Bool := false
  enableSubtitleManagement : Bool := false
  enableLyricManagement : Bool := false
  isDisabled : Bool := false
  maxParentalRating : Option ℤ := none
  maxParentalSubRating : Option ℤ := none
  blockedTags : List Text := []
  allowedTags : List Text := []
  enableUserPreferenceAccess : Bool := true
  accessSchedules : List (AccessSchedule Hour) := []
  blockUnratedItems : List UnratedItem := []
  enableRemoteControlOfOtherUsers : Bool := false
  enableSharedDeviceControl : Bool := true
  enableRemoteAccess : Bool := true
  enableLiveTvManagement : Bool := true
  enableLiveTvAccess : Bool := true
  enableMediaPlayback : Bool := true
  enableAudioPlaybackTranscoding : Bool := true
  enableVideoPlaybackTranscoding : Bool := true
  enablePlaybackRemuxing : Bool := true
  forceRemoteSourceTranscoding : Bool := false
  enableContentDeletion : Bool := false
  enableContentDeletionFromFolders : List Text := []
  enableContentDownloading : Bool := true
  enableSyncTranscoding : Bool := true
  enableMediaConversion : Bool := true
  enabledDevices : List Text := []
  enableAllDevices : Bool := true
  enabledChannels : List Uuid := []
  enableAllChannels : Bool := true
  enabledFolders : List Uuid := []
  enableAllFolders : Bool := true
  invalidLoginAttemptCount : ℤ := 0
  loginAttemptsBeforeLockout : ℤ := -1
  maxActiveSessions : ℤ := 0
  enablePublicSharing : Bool := true
  blockedMediaFolders : Option (List Uuid) := none
  blockedChannels : Option (List Uuid) := none
  remoteClientBitrateLimit : ℤ := 0
  authenticationProviderId : Text := []
  passwordResetProviderId : Text := []
  syncPlayAccess : SyncPlayUserAccessType := .createAndJoinGroups

def policyPermissions {Hour : Type} (policy : UserPolicy Hour) : List (PermissionKind × Bool) :=
  [(.isAdministrator, policy.isAdministrator), (.isHidden, policy.isHidden),
    (.isDisabled, policy.isDisabled),
    (.enableSharedDeviceControl, policy.enableSharedDeviceControl),
    (.enableRemoteAccess, policy.enableRemoteAccess),
    (.enableLiveTvManagement, policy.enableLiveTvManagement),
    (.enableLiveTvAccess, policy.enableLiveTvAccess),
    (.enableMediaPlayback, policy.enableMediaPlayback),
    (.enableAudioPlaybackTranscoding, policy.enableAudioPlaybackTranscoding),
    (.enableVideoPlaybackTranscoding, policy.enableVideoPlaybackTranscoding),
    (.enableContentDeletion, policy.enableContentDeletion),
    (.enableContentDownloading, policy.enableContentDownloading),
    (.enableSyncTranscoding, policy.enableSyncTranscoding),
    (.enableMediaConversion, policy.enableMediaConversion),
    (.enableAllChannels, policy.enableAllChannels), (.enableAllDevices, policy.enableAllDevices),
    (.enableAllFolders, policy.enableAllFolders),
    (.enableRemoteControlOfOtherUsers, policy.enableRemoteControlOfOtherUsers),
    (.enablePlaybackRemuxing, policy.enablePlaybackRemuxing),
    (.enableCollectionManagement, policy.enableCollectionManagement),
    (.enableSubtitleManagement, policy.enableSubtitleManagement),
    (.enableLyricManagement, policy.enableLyricManagement),
    (.forceRemoteSourceTranscoding, policy.forceRemoteSourceTranscoding),
    (.enablePublicSharing, policy.enablePublicSharing)]

/-! ### The database -/

/-- A row of `Users`, the columns of a policy. -/
structure UserRow where
  id : Uuid
  maxActiveSessions : ℤ
  maxParentalRatingScore : Option ℤ
  maxParentalRatingSubScore : Option ℤ
  loginAttemptsBeforeLockout : Option ℤ
  enableUserPreferenceAccess : Bool
  invalidLoginAttemptCount : ℤ
  remoteClientBitrateLimit : Option ℤ
  authenticationProviderId : Text
  passwordResetProviderId : Text
  syncPlayAccess : ℤ
  rowVersion : ℤ

/-- A row of `Permissions` or of `Preferences`. -/
structure KindRow (V : Type) where
  userId : Uuid
  kind : ℤ
  value : V

/-- A row of `AccessSchedules`. -/
structure ScheduleRow (Hour : Type) where
  id : ℤ
  userId : Uuid
  dayOfWeek : ℤ
  startHour : Hour
  endHour : Hour

/-- The tables of a policy; a flag is a number. -/
structure Database (Hour : Type) where
  users : List UserRow
  permissions : List (KindRow ℤ)
  preferences : List (KindRow Text)
  schedules : List (ScheduleRow Hour)

def updateKind {V : Type} (rows : List (KindRow V)) (userId : Uuid) (kind : ℤ) (value : V) :
    List (KindRow V) :=
  rows.map fun r => if r.userId = userId ∧ r.kind = kind then { r with value := value } else r

def setKind {V : Type} (rows : List (KindRow V)) (userId : Uuid) (kind : ℤ) (value : V) :
    List (KindRow V) :=
  let rows := updateKind rows userId kind value
  if rows.any fun r => r.userId = userId && r.kind = kind then rows
  else rows ++ [{ userId := userId, kind := kind, value := value }]

/-- `set_permission_tx`. -/
def setPermission (rows : List (KindRow ℤ)) (userId : Uuid) (kind : PermissionKind)
    (value : Bool) : List (KindRow ℤ) :=
  setKind rows userId kind.value (if value then 1 else 0)

def preferenceDelimiter : Char := ','

/-- `set_preference_tx`. -/
def setPreference (rows : List (KindRow Text)) (userId : Uuid) (kind : PreferenceKind)
    (values : List Text) : List (KindRow Text) :=
  setKind rows userId kind.value (List.intercalate [preferenceDelimiter] values)

def nextId {Hour : Type} (rows : List (ScheduleRow Hour)) : ℤ :=
  rows.foldl (fun n r => max n r.id) 0 + 1

/-- The `INSERT` of a schedule. -/
def addSchedule {Hour : Type} (userId : Uuid) (rows : List (ScheduleRow Hour))
    (schedule : AccessSchedule Hour) : List (ScheduleRow Hour) :=
  rows ++ [{
    id := nextId rows
    userId := userId
    dayOfWeek := schedule.dayOfWeek.jsonValue
    startHour := schedule.startHour
    endHour := schedule.endHour }]

def replaceSchedules {Hour : Type} (rows : List (ScheduleRow Hour)) (userId : Uuid)
    (schedules : List (AccessSchedule Hour)) : List (ScheduleRow Hour) :=
  schedules.foldl (addSchedule userId) (rows.filter (·.userId ≠ userId))

namespace Database

variable {Hour : Type} (db : Database Hour)

def hasPermission (userId : Uuid) (kind : PermissionKind) : Bool :=
  match db.permissions.find? fun r => r.userId = userId && r.kind = kind.value with
  | some r => r.value ≠ 0
  | none => false

def permissionStored (userId : Uuid) (kind : PermissionKind) : Bool :=
  db.permissions.any fun r => r.userId = userId && r.kind = kind.value && r.value = 1

/-- `admin_count_on`. -/
def adminCount : ℕ := db.users.countP fun u => db.permissionStored u.id .isAdministrator

def enabledCount : ℕ := db.users.countP fun u => !db.permissionStored u.id .isDisabled

def refusal (userId : Uuid) (policy : UserPolicy Hour) : Option String :=
  Users.policyUpdateRefusal
    { wasAdministrator := db.hasPermission userId .isAdministrator
      wasDisabled := db.hasPermission userId .isDisabled
      administrators := db.adminCount
      enabledUsers := db.enabledCount }
    { isAdministrator := policy.isAdministrator
      isDisabled := policy.isDisabled }

inductive SaveError where
  | notFound
  | forbidden (reason : String)

def maxLoginAttempts (policy : UserPolicy Hour) : Option ℤ :=
  if policy.loginAttemptsBeforeLockout = -1 then none
  else if policy.loginAttemptsBeforeLockout = 0 then some 3
  else some policy.loginAttemptsBeforeLockout

def updateUser (policy : UserPolicy Hour) (u : UserRow) : UserRow :=
  { u with
    maxActiveSessions := policy.maxActiveSessions
    maxParentalRatingScore := policy.maxParentalRating
    maxParentalRatingSubScore := policy.maxParentalSubRating
    loginAttemptsBeforeLockout := maxLoginAttempts policy
    enableUserPreferenceAccess := policy.enableUserPreferenceAccess
    invalidLoginAttemptCount := policy.invalidLoginAttemptCount
    remoteClientBitrateLimit := some policy.remoteClientBitrateLimit
    authenticationProviderId := policy.authenticationProviderId
    passwordResetProviderId := policy.passwordResetProviderId
    syncPlayAccess := policy.syncPlayAccess.jsonValue
    rowVersion := u.rowVersion + 1 }

def policyPreferences (policy : UserPolicy Hour) : List (PreferenceKind × List Text) :=
  [(.blockUnratedItems, policy.blockUnratedItems.map unratedName),
    (.blockedTags, policy.blockedTags), (.allowedTags, policy.allowedTags),
    (.enabledChannels, policy.enabledChannels.map Uuid.toText),
    (.enabledDevices, policy.enabledDevices),
    (.enabledFolders, policy.enabledFolders.map Uuid.toText),
    (.enableContentDeletionFromFolders, policy.enableContentDeletionFromFolders)]

def writePolicy (userId : Uuid) (policy : UserPolicy Hour) : Database Hour where
  users := db.users.map fun u => if u.id = userId then updateUser policy u else u
  permissions := (policyPermissions policy).foldl
    (fun rows e => setPermission rows userId e.1 e.2) db.permissions
  schedules := replaceSchedules db.schedules userId policy.accessSchedules
  preferences := (policyPreferences policy).foldl
    (fun rows e => setPreference rows userId e.1 e.2) db.preferences

def savePolicy (userId : Uuid) (policy : UserPolicy Hour) (guarded : Bool) :
    Except SaveError (Database Hour × Bool) :=
  if db.users.any fun u => u.id = userId then
    match if guarded then db.refusal userId policy else none with
    | some reason => .error (.forbidden reason)
    | none => .ok (db.writePolicy userId policy,
        policy.isDisabled && !db.hasPermission userId .isDisabled)
  else .error .notFound

/-! ### Reading -/

def byKind {V W : Type} (rows : List (KindRow V)) (userId : Uuid) (read : V → W) :
    KeyedMap ℤ W :=
  KeyedMap.extend ∅ ((rows.filter (·.userId = userId)).map fun r => (r.kind, read r.value))

end Database

def perm (map : KeyedMap ℤ Bool) (kind : PermissionKind) : Bool :=
  (map.lookup kind.value).getD false

def pref (map : KeyedMap ℤ Text) (kind : PreferenceKind) : List Text :=
  cells preferenceDelimiter ((map.lookup kind.value).getD [])

def guidPref (map : KeyedMap ℤ Text) (kind : PreferenceKind) : List Uuid :=
  (pref map kind).filterMap parseDotnetGuid

def castI32 (value : ℤ) : ℤ := if -2 ^ 31 ≤ value ∧ value < 2 ^ 31 then value else 2 ^ 31 - 1

namespace Database

variable {Hour : Type} (db : Database Hour)

/-- `list`. -/
def listSchedules (userId : Uuid) : List (AccessSchedule Hour) :=
  (db.schedules.filter (·.userId = userId)).map fun r =>
    { id := castI32 r.id
      userId := userId
      dayOfWeek := DynamicDayOfWeek.fromJsonValue r.dayOfWeek
      startHour := r.startHour
      endHour := r.endHour }

def buildUserPolicy (user : UserRow) : UserPolicy Hour :=
  let perms := byKind db.permissions user.id (· == 1)
  let prefs := byKind db.preferences user.id id
  { maxParentalRating := user.maxParentalRatingScore.map castI32
    maxParentalSubRating := user.maxParentalRatingSubScore.map castI32
    enableUserPreferenceAccess := user.enableUserPreferenceAccess
    remoteClientBitrateLimit := (user.remoteClientBitrateLimit.map castI32).getD 0
    authenticationProviderId := user.authenticationProviderId
    passwordResetProviderId := user.passwordResetProviderId
    invalidLoginAttemptCount := castI32 user.invalidLoginAttemptCount
    loginAttemptsBeforeLockout := (user.loginAttemptsBeforeLockout.map castI32).getD (-1)
    maxActiveSessions := castI32 user.maxActiveSessions
    isAdministrator := perm perms .isAdministrator
    isHidden := perm perms .isHidden
    isDisabled := perm perms .isDisabled
    enableSharedDeviceControl := perm perms .enableSharedDeviceControl
    enableRemoteAccess := perm perms .enableRemoteAccess
    enableLiveTvManagement := perm perms .enableLiveTvManagement
    enableLiveTvAccess := perm perms .enableLiveTvAccess
    enableMediaPlayback := perm perms .enableMediaPlayback
    enableAudioPlaybackTranscoding := perm perms .enableAudioPlaybackTranscoding
    enableVideoPlaybackTranscoding := perm perms .enableVideoPlaybackTranscoding
    enableContentDeletion := perm perms .enableContentDeletion
    enableContentDownloading := perm perms .enableContentDownloading
    enableSyncTranscoding := perm perms .enableSyncTranscoding
    enableMediaConversion := perm perms .enableMediaConversion
    enableAllChannels := perm perms .enableAllChannels
    enableAllDevices := perm perms .enableAllDevices
    enableAllFolders := perm perms .enableAllFolders
    enableRemoteControlOfOtherUsers := perm perms .enableRemoteControlOfOtherUsers
    enablePlaybackRemuxing := perm perms .enablePlaybackRemuxing
    forceRemoteSourceTranscoding := perm perms .forceRemoteSourceTranscoding
    enablePublicSharing := perm perms .enablePublicSharing
    enableCollectionManagement := perm perms .enableCollectionManagement
    enableSubtitleManagement := perm perms .enableSubtitleManagement
    enableLyricManagement := perm perms .enableLyricManagement
    accessSchedules := db.listSchedules user.id
    blockedTags := pref prefs .blockedTags
    allowedTags := pref prefs .allowedTags
    enabledChannels := guidPref prefs .enabledChannels
    enabledDevices := pref prefs .enabledDevices
    enabledFolders := guidPref prefs .enabledFolders
    enableContentDeletionFromFolders := pref prefs .enableContentDeletionFromFolders
    syncPlayAccess := SyncPlayUserAccessType.fromStored user.syncPlayAccess
    blockedChannels := some (guidPref prefs .blockedChannels)
    blockedMediaFolders := some (guidPref prefs .blockedMediaFolders)
    blockUnratedItems := (pref prefs .blockUnratedItems).filterMap parseUnratedItem }

def userPolicy (userId : Uuid) : Option (UserPolicy Hour) :=
  (db.users.find? (·.id = userId)).map db.buildUserPolicy

end Database

end Ferrofin.Policies
