import Mathlib.Data.Finset.Lattice.Lemmas
import Mathlib.Data.Finset.SDiff

/-!
# Device profiles

What a client says it can play: `dlna`'s profiles, with the lists of containers and codecs that
they are matched by (`extensions.rs`), and the reasons for which a stream is transcoded.
-/

namespace Ferrofin.Dlna

abbrev Text := List Char

/-- `str::eq_ignore_ascii_case`. -/
def eqIgnoreCase (a b : Text) : Bool := a.map Char.toLower == b.map Char.toLower

/-! ### Lists of containers -/

/-- The names of a list, between commas, but for the empty ones (`split`). -/
def names (list : Text) : List Text := (list.splitOn ',').filter (· ≠ [])

def containsContainerWithNegation (profileContainers : Option Text) (isNegativeList : Bool)
    (inputContainer : Option Text) : Bool :=
  let input := inputContainer.getD []
  let profiles := profileContainers.getD []
  if input = [] then isNegativeList
  else if profiles = [] then true
  else if (names input).any fun container => (names profiles).any (eqIgnoreCase container ·) then
    !isNegativeList
  else isNegativeList

/-- `strip_negation`: a list that starts with `-` is of what is not supported. -/
def stripNegation : Option Text → Option Text × Bool
  | some ('-' :: list) => (some list, true)
  | other => (other, false)

def containsContainer (profileContainers inputContainer : Option Text) : Bool :=
  let (profileContainers, isNegativeList) := stripNegation profileContainers
  containsContainerWithNegation profileContainers isNegativeList inputContainer

/-! ### Profiles -/

inductive DlnaProfileType where
  | audio | video | photo | subtitle | lyric
  | unrecognized (value : Int)
deriving DecidableEq

inductive CodecType where
  | video | videoAudio | audio
  | unrecognized (value : Int)
deriving DecidableEq

inductive EncodingContext where
  | streaming | static
  | unrecognized (value : Int)
deriving DecidableEq

inductive ProfileConditionType where
  | equals | notEquals | lessThanEqual | greaterThanEqual | equalsAny
  | unrecognized (value : Int)
deriving DecidableEq

inductive ProfileConditionValue where
  | audioChannels | audioBitrate | audioProfile | width | height | has64BitOffsets | packetLength
  | videoBitDepth | videoBitrate | videoFramerate | videoLevel | videoProfile | videoTimestamp
  | isAnamorphic | refFrames | numAudioStreams | numVideoStreams | isSecondaryAudio
  | videoCodecTag | isAvc | isInterlaced | audioSampleRate | audioBitDepth | videoRangeType
  | numStreams | videoRotation
  | unrecognized (value : Int)
deriving DecidableEq

inductive SubtitleDeliveryMethod where
  | encode | embed | external | hls | drop
  | unrecognized (value : Int)
deriving DecidableEq

inductive MediaStreamProtocol where
  | http | hls
  | unrecognized (value : Int)
deriving DecidableEq

structure ProfileCondition where
  condition : ProfileConditionType
  property : ProfileConditionValue
  value : Text
  isRequired : Bool := false
deriving DecidableEq

structure DirectPlayProfile where
  container : Text
  audioCodec : Option Text := none
  videoCodec : Option Text := none
  profileType : DlnaProfileType
deriving DecidableEq

def DirectPlayProfile.supportsContainer (p : DirectPlayProfile) (container : Option Text) : Bool :=
  containsContainer (some p.container) container

def DirectPlayProfile.supportsVideoCodec (p : DirectPlayProfile) (codec : Option Text) : Bool :=
  p.profileType = .video && containsContainer p.videoCodec codec

def DirectPlayProfile.supportsAudioCodec (p : DirectPlayProfile) (codec : Option Text) : Bool :=
  (p.profileType = .audio || p.profileType = .video) && containsContainer p.audioCodec codec

/-- The containers a profile is for; those of a HLS stream are its segments'. -/
def containerToCheck (container subContainer : Option Text) (useSubContainer : Bool) :
    Option Text :=
  if useSubContainer && container.any (eqIgnoreCase · "hls".toList) then subContainer
  else container

structure CodecProfile where
  codecType : CodecType
  conditions : List ProfileCondition := []
  applyConditions : List ProfileCondition := []
  codec : Option Text := none
  container : Option Text := none
  subContainer : Option Text := none

def CodecProfile.containsCodec (p : CodecProfile) (codec container : Option Text)
    (useSubContainer : Bool) : Bool :=
  containsContainer (containerToCheck p.container p.subContainer useSubContainer) container &&
    containsContainerWithNegation p.codec false codec

structure ContainerProfile where
  profileType : DlnaProfileType
  conditions : List ProfileCondition := []
  container : Option Text := none
  subContainer : Option Text := none

def ContainerProfile.containsContainer (p : ContainerProfile) (container : Option Text)
    (useSubContainer : Bool) : Bool :=
  Dlna.containsContainer (containerToCheck p.container p.subContainer useSubContainer) container

structure SubtitleProfile where
  format : Option Text := none
  method : SubtitleDeliveryMethod := .encode
  language : Option Text := none
  container : Option Text := none

def SubtitleProfile.supportsLanguage (p : SubtitleProfile) (subLanguage : Option Text) : Bool :=
  match p.language.filter (· ≠ []) with
  | none => true
  | some language =>
    containsContainer (some language) (some ((subLanguage.filter (· ≠ [])).getD "und".toList))

/-- `TranscodingProfile`, the fields that choose it and that the targets come from. -/
structure TranscodingProfile where
  container : Text
  profileType : DlnaProfileType
  videoCodec : Text
  audioCodec : Text
  protocol : MediaStreamProtocol
  context : EncodingContext
  maxAudioChannels : Option Text := none
  conditions : List ProfileCondition := []

structure DeviceProfile where
  maxStreamingBitrate : Option Int := some 8000000
  maxStaticBitrate : Option Int := some 8000000
  maxStaticMusicBitrate : Option Int := some 8000000
  musicStreamingTranscodingBitrate : Option Int := some 128000
  directPlayProfiles : List DirectPlayProfile := []
  transcodingProfiles : List TranscodingProfile := []
  containerProfiles : List ContainerProfile := []
  codecProfiles : List CodecProfile := []
  subtitleProfiles : List SubtitleProfile := []

/-! ### Reasons -/

/-- A flag of `TranscodeReasons`, of those that are given here. -/
inductive TranscodeReason where
  | containerNotSupported | videoCodecNotSupported | audioCodecNotSupported
  | subtitleCodecNotSupported | audioIsExternal | secondaryAudioNotSupported
  | streamCountExceedsLimit | videoProfileNotSupported | videoRangeTypeNotSupported
  | videoCodecTagNotSupported | videoLevelNotSupported | videoResolutionNotSupported
  | videoBitDepthNotSupported | videoFramerateNotSupported | videoRotationNotSupported
  | refFramesNotSupported | anamorphicVideoNotSupported | interlacedVideoNotSupported
  | audioChannelsNotSupported | audioProfileNotSupported | audioSampleRateNotSupported
  | audioBitDepthNotSupported | containerBitrateExceedsLimit | videoBitrateNotSupported
  | audioBitrateNotSupported | directPlayError
deriving DecidableEq

abbrev TranscodeReasons := Finset TranscodeReason

def containerReasons : TranscodeReasons := {.containerNotSupported, .containerBitrateExceedsLimit}

def audioCodecReasons : TranscodeReasons :=
  {.audioBitrateNotSupported, .audioChannelsNotSupported, .audioProfileNotSupported,
    .audioSampleRateNotSupported, .secondaryAudioNotSupported, .audioBitDepthNotSupported,
    .audioIsExternal}

def audioReasons : TranscodeReasons := {.audioCodecNotSupported} ∪ audioCodecReasons

def videoCodecReasons : TranscodeReasons :=
  {.videoResolutionNotSupported, .anamorphicVideoNotSupported, .interlacedVideoNotSupported,
    .videoBitDepthNotSupported, .videoBitrateNotSupported, .videoFramerateNotSupported,
    .videoLevelNotSupported, .refFramesNotSupported, .videoRangeTypeNotSupported,
    .videoProfileNotSupported, .videoRotationNotSupported}

def videoReasons : TranscodeReasons := {.videoCodecNotSupported} ∪ videoCodecReasons

def directStreamReasons : TranscodeReasons :=
  audioReasons ∪ {.containerNotSupported, .videoCodecTagNotSupported}

def getTranscodeReasonForFailedCondition (condition : ProfileCondition) : TranscodeReasons :=
  match condition.property with
  | .audioBitrate => {.audioBitrateNotSupported}
  | .audioChannels => {.audioChannelsNotSupported}
  | .audioProfile => {.audioProfileNotSupported}
  | .audioSampleRate => {.audioSampleRateNotSupported}
  | .height | .width => {.videoResolutionNotSupported}
  | .isAnamorphic => {.anamorphicVideoNotSupported}
  | .isInterlaced => {.interlacedVideoNotSupported}
  | .isSecondaryAudio => {.secondaryAudioNotSupported}
  | .numStreams => {.streamCountExceedsLimit}
  | .refFrames => {.refFramesNotSupported}
  | .videoBitDepth => {.videoBitDepthNotSupported}
  | .audioBitDepth => {.audioBitDepthNotSupported}
  | .videoBitrate => {.videoBitrateNotSupported}
  | .videoCodecTag => {.videoCodecTagNotSupported}
  | .videoFramerate => {.videoFramerateNotSupported}
  | .videoLevel => {.videoLevelNotSupported}
  | .videoProfile => {.videoProfileNotSupported}
  | .videoRangeType => {.videoRangeTypeNotSupported}
  | .videoRotation => {.videoRotationNotSupported}
  | _ => ∅

def aggregateFailureConditions (conditions : List ProfileCondition) : TranscodeReasons :=
  conditions.foldl (fun reasons c => reasons ∪ getTranscodeReasonForFailedCondition c) ∅

theorem aggregateFailureConditions_eq_empty {conditions : List ProfileCondition} :
    aggregateFailureConditions conditions = ∅ ↔
      ∀ c ∈ conditions, getTranscodeReasonForFailedCondition c = ∅ := by
  have hfold : ∀ (reasons : TranscodeReasons),
      conditions.foldl (fun reasons c => reasons ∪ getTranscodeReasonForFailedCondition c)
        reasons = ∅ ↔
      reasons = ∅ ∧ ∀ c ∈ conditions, getTranscodeReasonForFailedCondition c = ∅ := by
    induction conditions with
    | nil => simp
    | cons c conditions ih =>
      intro reasons
      rw [List.foldl_cons, ih, Finset.union_eq_empty, List.forall_mem_cons, and_assoc]
  rw [aggregateFailureConditions, hfold]
  exact ⟨And.right, fun h => ⟨rfl, h⟩⟩

end Ferrofin.Dlna
