import Mathlib.Data.Int.Order.Basic
import Mathlib.Algebra.Group.Nat.Defs
import Mathlib.Algebra.Group.Int.Defs

/-!
# What a refresh of an item runs

A scan decides for each item which providers run (`planItemRefresh`) from the dates of its stored
row, from what the file system says about it and from the options; and, after they ran, whether the
item is saved and with which dates (`decideSave`).  Instants are nanoseconds.
-/

namespace Ferrofin.Refresh

/-- `DateTime<Utc>`. -/
abbrev Instant := ℤ

def milliseconds (n : ℤ) : ℤ := n * 10 ^ 6

def days (n : ℤ) : ℤ := n * (86400 * 10 ^ 9)

def fileChangeToleranceMs : ℤ := 1000

def nfoSaveToleranceMs : ℤ := 60000

def xmlSaveToleranceMs : ℤ := 0

inductive MetadataRefreshMode where
  | none
  | validationOnly
  | default
  | fullRefresh
deriving DecidableEq

/-- `MetadataRefreshOptions`, what a plan reads of it. -/
structure MetadataRefreshOptions where
  metadataRefreshMode : MetadataRefreshMode
  imageRefreshMode : MetadataRefreshMode
  replaceAllMetadata : Bool := false
  replaceAllImages : Bool := false

structure RefreshRequest where
  options : MetadataRefreshOptions
  forceSave : Bool := false

/-- `LibraryOptions`, what a plan reads of it. -/
structure LibraryOptions where
  automaticRefreshIntervalDays : ℤ

structure StoredState where
  dateLastRefreshed : Option Instant := none
  dateLastSaved : Option Instant := none
  dateModified : Option Instant := none
  runTimeTicks : Option ℤ := none
  totalBitrate : Option ℤ := none
  isVirtualItem : Bool := false
  isLocked : Bool := false

inductive ProbeKind where
  | none
  | video (fileOrIso : Bool)
  | audio
deriving DecidableEq

inductive LocalMetadataFormat where
  | nfo
  | xml
  | book
deriving DecidableEq

structure LocalMetadataFile where
  mtime : Instant
  format : LocalMetadataFormat

structure FileFacts where
  mtime : Option Instant
  probe : ProbeKind
  sidecarsChanged : Bool := false
  lyricsChanged : Bool := false
  localMetadata : Option LocalMetadataFile := none
  supportsCumulativeRunTime : Bool := false
  isShortcut : Bool := false
  isFileProtocol : Bool := true
  isPlaceholder : Bool := false

inductive ImageFetch where
  | none
  | missingOnly
  | all
deriving DecidableEq

inductive RefreshReason where
  | new
  | requested
  | firstRefresh
  | interval
  | modified
  | noRuntime
  | localMetadata
  | sidecars
  | lyrics
  | missingMediaInfo
  | backfill
  | unchanged
deriving DecidableEq

structure ItemRefreshPlan where
  isFirstRefresh : Bool
  requiresRefresh : Bool
  probe : Bool
  localMetadata : Bool
  localMonitorFired : Bool
  remoteMetadata : Bool
  runAllProviders : Bool
  lockedLocal : Bool
  remoteImages : ImageFetch
  reason : RefreshReason

structure PassOutcome where
  changed : Bool
  failed : Bool

structure SaveDecision where
  save : Bool
  stampRefreshed : Bool

/-! ### Changes -/

def drifted (a b : Instant) (toleranceMs : ℤ) : Bool := milliseconds toleranceMs < (a - b).natAbs

def fileChanged (stored : Option Instant) (mtime : Instant) : Bool :=
  stored.all fun stored => drifted stored mtime fileChangeToleranceMs

def itemRequiresRefresh (stored : StoredState) (fs : FileFacts) : Option RefreshReason :=
  let changed := match stored.dateModified, fs.mtime with
    | some saved, some now => drifted saved now fileChangeToleranceMs
    | _, _ => false
  if changed then some .modified
  else if fs.supportsCumulativeRunTime && stored.runTimeTicks.isNone then some .noRuntime
  else none

def ProbeKind.checksMtime : ProbeKind → Bool
  | .none => false
  | .video fileOrIso => fileOrIso
  | .audio => true

def ProbeKind.isVideo : ProbeKind → Bool
  | .video _ => true
  | _ => false

def missingMediaInfo (stored : StoredState) (fs : FileFacts) : Bool :=
  stored.runTimeTicks.isNone && stored.totalBitrate.isNone && !stored.isVirtualItem &&
    !fs.isShortcut && fs.isFileProtocol && !(fs.probe.isVideo && fs.isPlaceholder)

def probeChanged (stored : StoredState) (fs : FileFacts) : Option RefreshReason :=
  if fs.probe = .none then none
  else if fs.probe.checksMtime && fs.mtime.any (fileChanged stored.dateModified) then
    some .modified
  else if fs.probe.isVideo && fs.isFileProtocol && !fs.isPlaceholder && fs.sidecarsChanged then
    some .sidecars
  else if !fs.probe.isVideo && fs.isFileProtocol && fs.lyricsChanged then some .lyrics
  else if missingMediaInfo stored fs then some .missingMediaInfo
  else none

def LocalMetadataFormat.toleranceMs : LocalMetadataFormat → ℤ
  | .nfo => nfoSaveToleranceMs
  | .xml | .book => xmlSaveToleranceMs

def localMetadataChanged (stored : StoredState) (fs : FileFacts) : Bool :=
  match fs.localMetadata with
  | none => false
  | some file => stored.dateLastSaved.all fun saved =>
      milliseconds file.format.toleranceMs < file.mtime - saved

/-! ### The plan -/

def MetadataRefreshMode.atLeastDefault (mode : MetadataRefreshMode) : Bool :=
  mode = .default || mode = .fullRefresh

def intervalElapsed (stored : StoredState) (library : Option LibraryOptions) (now : Instant) :
    Bool :=
  let intervalDays := library.elim 0 (·.automaticRefreshIntervalDays)
  0 < intervalDays && stored.dateLastRefreshed.all fun last => days intervalDays ≤ now - last

def remoteImages (stored : StoredState) (options : MetadataRefreshOptions) : ImageFetch :=
  let mode := options.imageRefreshMode
  if !mode.atLeastDefault || (stored.isLocked && mode ≠ .fullRefresh) ||
      !(mode = .fullRefresh || stored.dateLastRefreshed.isNone) then .none
  else if options.replaceAllImages then .all
  else .missingOnly

def planItemRefresh (stored : Option StoredState) (fs : FileFacts) (request : RefreshRequest)
    (library : Option LibraryOptions) (now : Instant) (backfill : Bool) : ItemRefreshPlan :=
  let isNew := stored.isNone
  let stored := stored.getD {}
  let options := request.options
  let mode := options.metadataRefreshMode
  let isFirstRefresh := stored.dateLastRefreshed.isNone
  let elapsed := intervalElapsed stored library now
  let itemRequired :=
    if !elapsed && mode ≠ .none then itemRequiresRefresh stored fs else none
  let requiresRefresh := elapsed || itemRequired.isSome
  let reason :=
    if isNew then .new
    else if options.replaceAllMetadata || mode = .fullRefresh then .requested
    else if isFirstRefresh then .firstRefresh
    else if elapsed then .interval
    else itemRequired.getD .unchanged
  let images := remoteImages stored options
  if mode = .none then
    { isFirstRefresh, requiresRefresh, probe := false, localMetadata := false,
      localMonitorFired := false, remoteMetadata := false, runAllProviders := false,
      lockedLocal := false, remoteImages := images, reason }
  else
    let runAll := options.replaceAllMetadata || mode = .fullRefresh ||
      (isFirstRefresh && mode.atLeastDefault) || (requiresRefresh && mode.atLeastDefault)
    let probeChange := probeChanged stored fs
    let localChanged := localMetadataChanged stored fs
    let reason :=
      if reason = .unchanged then
        if localChanged then .localMetadata
        else match probeChange with
          | some change => change
          | none =>
            if !stored.isLocked && backfill && mode.atLeastDefault then .backfill else .unchanged
      else reason
    let remote := !stored.isLocked && (runAll || (backfill && mode.atLeastDefault))
    { isFirstRefresh, requiresRefresh
      probe := fs.probe ≠ .none && (runAll || probeChange.isSome)
      localMetadata := !stored.isLocked && (runAll || localChanged || probeChange.isSome || remote)
      localMonitorFired := !stored.isLocked && (localChanged || probeChange.isSome)
      remoteMetadata := remote
      runAllProviders := runAll && !stored.isLocked
      lockedLocal := stored.isLocked && (runAll || localChanged || probeChange.isSome)
      remoteImages := images
      reason }

def decideSave (plan : ItemRefreshPlan) (request : RefreshRequest) (pass : PassOutcome) :
    SaveDecision :=
  let options := request.options
  let attemptedFetch :=
    options.metadataRefreshMode.atLeastDefault || options.imageRefreshMode.atLeastDefault
  let stampRefreshed := !pass.failed && attemptedFetch
  let stampNeedsSaving := stampRefreshed &&
    (options.metadataRefreshMode = .fullRefresh || options.imageRefreshMode = .fullRefresh)
  { save := request.forceSave || pass.changed || plan.isFirstRefresh ||
      options.replaceAllMetadata || plan.requiresRefresh || stampNeedsSaving
    stampRefreshed }

end Ferrofin.Refresh
