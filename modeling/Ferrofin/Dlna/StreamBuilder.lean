import Ferrofin.Dlna.MediaSource
import Ferrofin.Dlna.Targets
import Mathlib.Data.List.Sort
import Mathlib.Data.Prod.Lex
import Mathlib.Data.Int.ConditionallyCompleteOrder

/-!
# The stream builder

`stream_builder.rs`: how a video is played (`buildVideoItem`), by the best of the client's direct
play profiles or of its transcoding profiles.  What a stream that is remuxed or transcoded is built
of is a parameter here (`Support.buildStreamVideoItem`).
-/

namespace Ferrofin.Dlna

open Util

inductive PlayMethod where
  | transcode | directStream | directPlay
  | unrecognized (value : Int)
deriving DecidableEq

/-- `MediaOptions`, the options that are read. -/
structure MediaOptions where
  enableDirectPlay : Bool := true
  enableDirectStream : Bool := true
  forceDirectPlay : Bool := false
  forceDirectStream : Bool := false
  allowAudioStreamCopy : Bool := true
  allowVideoStreamCopy : Bool := true
  profile : DeviceProfile
  maxAudioChannels : Option Int := none
  maxBitrate : Option Int := none
  context : EncodingContext := .streaming
  audioTranscodingBitrate : Option Int := none
  audioStreamIndex : Option Int := none
  subtitleStreamIndex : Option Int := none

def MediaOptions.getMaxBitrate (options : MediaOptions) (isAudio : Bool) : Option Int :=
  if options.maxBitrate.isSome then options.maxBitrate
  else if options.context = .static then
    if isAudio && options.profile.maxStaticMusicBitrate.isSome then
      options.profile.maxStaticMusicBitrate
    else options.profile.maxStaticBitrate
  else options.profile.maxStreamingBitrate

/-- `StreamInfo`, the fields that the decision sets. -/
structure StreamInfo where
  playMethod : PlayMethod := .transcode
  container : Option Text := none
  subProtocol : MediaStreamProtocol := .http
  videoCodecs : List Text := []
  audioCodecs : List Text := []
  audioStreamIndex : Option Int := none
  subtitleStreamIndex : Option Int := none
  subtitleDeliveryMethod : SubtitleDeliveryMethod := .encode
  subtitleFormat : Option Text := none
  transcodeReasons : TranscodeReasons := ∅
  targets : Targets := {}
deriving DecidableEq

/-- What `build_stream_video_item` sets of a `StreamInfo`. -/
structure BuiltStream where
  videoCodecs : List Text
  audioCodecs : List Text
  audioStreamIndex : Option Int
  transcodeReasons : TranscodeReasons
  targets : Targets

/-- What the builder is given: how numbers are read, whether the transcoder can extract a subtitle
codec, and how a stream that is not played as it is is built. -/
structure Support where
  parseF64 : Text → Option Float
  floatText : FloatText
  canExtractSubtitles : Text → Bool
  buildStreamVideoItem : StreamInfo → MediaOptions → MediaSourceInfo → Option MediaStream →
    Option MediaStream → List MediaStream → Option Text → Option Text → Option Text →
    Except StreamBuilderError BuiltStream

structure DirectPlayInfo where
  profile : Option DirectPlayProfile
  playMethod : Option PlayMethod
  audioStreamIndex : Option Int
  transcodeReasons : TranscodeReasons

def StreamInfo.withBuilt (info : StreamInfo) (built : BuiltStream) : StreamInfo :=
  { info with
    videoCodecs := built.videoCodecs
    audioCodecs := built.audioCodecs
    audioStreamIndex := built.audioStreamIndex
    transcodeReasons := built.transcodeReasons
    targets := built.targets }

/-- `set_stream_info_options_from_transcoding_profile`, of the targets. -/
def Targets.withTranscodingProfile (t : Targets) (profile : TranscodingProfile) : Targets :=
  { t with
    transcodingMaxAudioChannels :=
      (parseI32 (profile.maxAudioChannels.getD [])).or t.transcodingMaxAudioChannels }

/-! ### Conditions -/

section Conditions

variable (isSatisfied : ProfileCondition → Except StreamBuilderError Bool)

def allSatisfied : List ProfileCondition → Except StreamBuilderError Bool
  | [] => .ok true
  | condition :: conditions => do
    if !(← isSatisfied condition) then return false
    else allSatisfied conditions

/-- `check_video_conditions`: the conditions that fail, every one evaluated. -/
def checkConditions : List ProfileCondition → Except StreamBuilderError (List ProfileCondition)
  | [] => .ok []
  | condition :: conditions => do
    let satisfied ← isSatisfied condition
    let failed ← checkConditions conditions
    return if satisfied then failed else condition :: failed

def checkCodecProfiles (applies : CodecProfile → Bool) (codecProfiles : List CodecProfile) :
    Except StreamBuilderError (List ProfileCondition) := do
  let failed ← codecProfiles.mapM fun profile =>
    if applies profile then do
      if ← allSatisfied isSatisfied profile.applyConditions then
        checkConditions isSatisfied profile.conditions
      else return []
    else return []
  return failed.flatten

end Conditions

section Compatibility

variable (support : Support) (options : MediaOptions) (item : MediaSourceInfo)
  (container : Text)

def appliesToContainer (container : Text) (profile : ContainerProfile) : Bool :=
  profile.profileType = .video && profile.containsContainer (some container) false

def appliesToCodec (codecType : CodecType) (codec : Option Text) (container : Text)
    (profile : CodecProfile) : Bool :=
  profile.codecType = codecType && profile.containsCodec codec (some container) false

def getCompatibilityContainer (video : Option MediaStream) :
    Except StreamBuilderError TranscodeReasons := do
  let failed ← options.profile.containerProfiles.mapM fun profile =>
    if appliesToContainer container profile then
      checkConditions (isVideoConditionSatisfied support.parseF64 (item.videoValues video))
        profile.conditions
    else return []
  return aggregateFailureConditions failed.flatten

def getCompatibilityVideoCodec (video : MediaStream) :
    Except StreamBuilderError TranscodeReasons := do
  let failed ← checkCodecProfiles
    (isVideoConditionSatisfied support.parseF64 (item.videoValues (some video)))
    (appliesToCodec .video video.codec container) options.profile.codecProfiles
  return aggregateFailureConditions failed

def getCompatibilityAudioCodec (audio : MediaStream) (transcodingAudioCodec : Option Text)
    (isSecondaryAudio : Bool) : Except StreamBuilderError TranscodeReasons := do
  let failed ← checkCodecProfiles
    (isVideoAudioConditionSatisfied (audio.videoAudioValues isSecondaryAudio))
    (appliesToCodec .videoAudio (transcodingAudioCodec.or audio.codec) container)
    options.profile.codecProfiles
  return aggregateFailureConditions failed

def getCompatibilityAudioCodecDirect (audio : MediaStream) :
    Except StreamBuilderError TranscodeReasons := do
  let failures ← getCompatibilityAudioCodec options container audio none
    ((item.isSecondaryAudio audio).getD false)
  return if audio.isExternal then failures ∪ {.audioIsExternal} else failures

end Compatibility

/-! ### Subtitles -/

section Subtitles

variable (support : Support) (item : MediaSourceInfo) (stream : MediaStream)
  (playMethod : PlayMethod)

def isVobSubMksDeliveryProfile (profile : SubtitleProfile) : Bool :=
  isVobSubFormat profile.format && profile.container.any (trimChars · ≠ []) &&
    containsContainer profile.container (some "mks".toList)

def isVobSubMksProfile (profile : SubtitleProfile) (stream : MediaStream) : Bool :=
  isVobSubMksDeliveryProfile profile && stream.isVobSubSubtitleStream &&
    (!stream.isExternal ||
      stream.path.any fun path => ".mks".toList.isSuffixOf (path.map Char.toLower))

def sameFormat (stream : MediaStream) (profile : SubtitleProfile) : Bool :=
  stream.codec.any fun codec => profile.format.any (eqIgnoreCase codec ·)

def isSubtitleEmbedSupported (outputContainer : Option Text) : Bool :=
  match outputContainer with
  | none => false
  | some container =>
    if container = [] || containsContainer (some "ts,mpegts,mp4".toList) (some container) then
      false
    else containsContainer (some "mkv,matroska".toList) (some container)

def canConsiderEmbedSubtitle (protocol : Option MediaStreamProtocol)
    (outputContainer : Option Text) : Bool :=
  if stream.isExternal then
    playMethod = .transcode && protocol ≠ some .hls && isSubtitleEmbedSupported outputContainer
  else playMethod ≠ .transcode || protocol ≠ some .hls

def embeds (outputContainer : Option Text) (same : Bool) (profile : SubtitleProfile) : Bool :=
  profile.supportsLanguage stream.language && profile.method = .embed &&
    containsContainer profile.container outputContainer &&
    !(playMethod = .transcode && !isSubtitleEmbedSupported outputContainer) &&
    if same then
      stream.isTextSubtitleStream = isTextFormat profile.format && sameFormat stream profile
    else
      stream.isTextSubtitleStream &&
        profile.format.any (stream.supportsSubtitleConversionTo ·)

def deliversExternally (allowConversion : Bool) (profile : SubtitleProfile) : Bool :=
  (profile.method = .external || profile.method = .hls) &&
    !(profile.method = .hls && playMethod ≠ .transcode) &&
    profile.supportsLanguage stream.language &&
    !(!stream.isExternal && playMethod = .transcode &&
      !support.canExtractSubtitles (stream.codec.getD []) && !stream.isPgsSubtitleStream &&
      !stream.isVobSubSubtitleStream) &&
    (profile.method = .external && (isVobSubMksProfile profile stream ||
        !isVobSubMksDeliveryProfile profile &&
          stream.isTextSubtitleStream = isTextFormat profile.format) ||
      profile.method = .hls && stream.isTextSubtitleStream) &&
    ((isVobSubMksProfile profile stream || sameFormat stream profile) ||
      allowConversion && !item.isInfiniteStream && stream.isTextSubtitleStream &&
        stream.supportsExternalStream &&
        profile.format.any (stream.supportsSubtitleConversionTo ·))

def getExternalSubtitleProfile (profiles : List SubtitleProfile) (allowConversion : Bool) :
    Option SubtitleProfile :=
  profiles.find? (deliversExternally support item stream playMethod allowConversion)

/-- `get_subtitle_profile`; a stream that no profile is for is burned in. -/
def getSubtitleProfile (profiles : List SubtitleProfile) (outputContainer : Option Text)
    (protocol : Option MediaStreamProtocol) : SubtitleProfile :=
  (((if canConsiderEmbedSubtitle stream playMethod protocol outputContainer then
      (profiles.find? (embeds stream playMethod outputContainer true)).or
        (profiles.find? (embeds stream playMethod outputContainer false))
    else none).or (getExternalSubtitleProfile support item stream playMethod profiles false)).or
      (getExternalSubtitleProfile support item stream playMethod profiles true)).getD
        { method := .encode, format := stream.codec }

def getDefaultSubtitleStreamIndex (item : MediaSourceInfo) (profiles : List SubtitleProfile) :
    Option Int :=
  let subtitles := item.mediaStreams.filter (·.streamType = .subtitle)
  let highestScore := (subtitles.filterMap (·.score)).foldl max (-1)
  let topStreams := subtitles.filter (·.score = some highestScore)
  let delivered := fun (stream : MediaStream) => profiles.any fun profile =>
    profile.method = .external && (isVobSubMksProfile profile stream ||
      !isVobSubMksDeliveryProfile profile && sameFormat stream profile)
  if 1 < topStreams.length then
    ((topStreams.find? delivered).map (·.index)).or item.defaultSubtitleStreamIndex
  else item.defaultSubtitleStreamIndex

end Subtitles

/-! ### Direct play -/

def playMethodOrd : Option PlayMethod → WithBot Int
  | none => ⊥
  | some .transcode => (0 : Int)
  | some .directStream => (1 : Int)
  | some .directPlay => (2 : Int)
  | some (.unrecognized value) => value

def getRank (reasons : TranscodeReasons) (rankings : List TranscodeReasons) : Nat :=
  (rankings.findIdx fun flag => reasons ∩ flag ≠ ∅) + 1

def rankings : List TranscodeReasons :=
  [{.videoCodecNotSupported}, videoCodecReasons, {.audioCodecNotSupported}, audioCodecReasons,
    containerReasons]

structure Analysis where
  profile : DirectPlayProfile
  playMethod : Option PlayMethod
  audioStreamIndex : Option Int
  transcodeReason : TranscodeReasons
  order : Nat
  rank : Nat

/-- The order of the analyses: by play method and by rank, both the highest first, then as they
come. -/
def Analysis.key (a : Analysis) : Lex ((WithBot Int)ᵒᵈ × Lex (Natᵒᵈ × Nat)) :=
  toLex (OrderDual.toDual (playMethodOrd a.playMethod),
    toLex (OrderDual.toDual a.rank, a.order))

/-- What the profiles are analyzed with: the reasons that the device's conditions give. -/
structure Compatibility where
  containerReasons : TranscodeReasons
  videoReasons : TranscodeReasons
  audioMatches : List (Int × TranscodeReasons)
  subtitleReasons : TranscodeReasons

section DirectPlay

variable (support : Support) (options : MediaOptions) (item : MediaSourceInfo)
  (video audio : Option MediaStream) (candidates : List MediaStream)
  (subtitle : Option MediaStream) (directPlay directStream : Bool)

def selectedAudioStream (profile : DirectPlayProfile) : Option MediaStream :=
  candidates.find? fun a => profile.supportsAudioCodec a.codec

def failureReasons (compat : Compatibility) (profile : DirectPlayProfile) : TranscodeReasons :=
  let selected := selectedAudioStream candidates profile
  let profileReasons : TranscodeReasons :=
    (if profile.supportsContainer (some (item.container.getD [])) then ∅
      else {.containerNotSupported}) ∪
    (if profile.supportsVideoCodec (video.bind (·.codec)) then ∅
      else {.videoCodecNotSupported}) ∪
    (if candidates.isEmpty || selected.isSome then ∅ else {.audioCodecNotSupported})
  let audioReasons := match selected with
    | some stream =>
      ((compat.audioMatches.find? (·.1 = stream.index)).map (·.2)).getD ∅
    | none => ∅
  let failures := profileReasons ∪ compat.containerReasons ∪ compat.subtitleReasons
  let failures := if .videoCodecNotSupported ∈ failures then failures
    else failures ∪ compat.videoReasons
  if .audioCodecNotSupported ∈ failures then failures else failures ∪ audioReasons

def analyze (compat : Compatibility) (profile : DirectPlayProfile) (order : Nat) : Analysis :=
  let failures := failureReasons item video candidates compat profile
  { profile
    playMethod :=
      if failures = ∅ && directPlay && item.supportsDirectPlay then some .directPlay
      else if failures \ directStreamReasons = ∅ && directStream && item.supportsDirectStream then
        some .directStream
      else none
    audioStreamIndex := (selectedAudioStream candidates profile).map (·.index)
    transcodeReason := failures
    order
    rank := getRank failures rankings }

/-- The reasons that the device's conditions give. -/
def compatibility : Except StreamBuilderError Compatibility := do
  let container := item.container.getD []
  let containerReasons ← getCompatibilityContainer support options item container video
  let videoReasons ← (match video with
    | some video => getCompatibilityVideoCodec support options item container video
    | none => .ok ∅)
  let audioMatches ← candidates.mapM fun a => do
    return (a.index, ← getCompatibilityAudioCodecDirect options item container a)
  let subtitleReasons := match subtitle with
    | some stream =>
      if (getSubtitleProfile support item stream .directPlay options.profile.subtitleProfiles
          (some container) none).method ∈ [.drop, .external, .embed] then ∅
      else {.subtitleCodecNotSupported}
    | none => ∅
  return { containerReasons, videoReasons, audioMatches, subtitleReasons }

def videoProfiles : List DirectPlayProfile :=
  options.profile.directPlayProfiles.filter (·.profileType = .video)

def analyzed (compat : Compatibility) : List Analysis :=
  ((videoProfiles options).zipIdx.map fun (profile, order) =>
    analyze item video candidates directPlay directStream compat profile order).insertionSort
      fun a b => a.key ≤ b.key

def getVideoDirectPlayProfile : Except StreamBuilderError DirectPlayInfo :=
  if options.forceDirectPlay then
    .ok ⟨none, some .directPlay, audio.map (·.index), ∅⟩
  else if options.forceDirectStream then
    .ok ⟨none, some .directStream, audio.map (·.index), ∅⟩
  else do
    let compat ← compatibility support options item video candidates subtitle
    let analyzed := analyzed options item video candidates directPlay directStream compat
    match analyzed.find? (·.playMethod.isSome) with
    | some found =>
      return ⟨some found.profile, found.playMethod, found.audioStreamIndex, found.transcodeReason⟩
    | none =>
      let containerSupported := (videoProfiles options).any
        (·.supportsContainer (some (item.container.getD [])))
      let failures := ((analyzed.find? fun a => !containerSupported ||
        .containerNotSupported ∉ a.transcodeReason).map (·.transcodeReason)).getD ∅
      return ⟨none, none, none, if failures = ∅ then {.directPlayError} else failures⟩

end DirectPlay

/-! ### Videos -/

def isBitrateLimitExceeded (item : MediaSourceInfo) (maxBitrate : Int) : Bool :=
  !item.isRemote &&
    (if 0 < maxBitrate then maxBitrate else 2 ^ 31 - 1) < item.bitrate.getD 40000000

def isManifestContainer (container : Option Text) : Bool :=
  container.any fun container => (container.splitOn ',').any fun part =>
    ["hls", "applehttp", "dash"].any (eqIgnoreCase part ·.toList)

/-- `normalize_media_source_format_into_single_container`, of a video. -/
def normalizeContainer (inputContainer : Option Text) (profile : DeviceProfile)
    (playProfile : Option DirectPlayProfile) : Option Text :=
  let input := inputContainer.getD []
  let profiles := match playProfile with
    | some playProfile => [playProfile]
    | none => profile.directPlayProfiles
  let format := if ',' ∈ input then
      (names input).find? fun format => profiles.any fun p =>
        p.profileType = .video && p.supportsContainer (some format)
    else none
  format.or (if input = [] then none else some input)

/-- The candidate audio streams of `build_video_item`: what the default was chosen by is what
others are chosen by. -/
def candidateAudioStreams (options : MediaOptions) (item : MediaSourceInfo)
    (audio : Option MediaStream) : List MediaStream :=
  let audios := item.mediaStreams.filter (·.streamType = .audio)
  let source := item.defaultAudioIndexSource
  if source.byUser || options.audioStreamIndex.any (0 ≤ ·) then audio.toList
  else if source.byLanguage then
    let inLanguage := audios.filter (·.language = audio.bind (·.language))
    if source.byDefault then
      let defaultInLanguage := inLanguage.filter (·.isDefault)
      if defaultInLanguage.isEmpty then audios.filter (·.isDefault) else defaultInLanguage
    else inLanguage
  else if source.byDefault then audios.filter (·.isDefault)
  else
    match audio with
    | some audio => if audio.isDefault then audios.filter (·.isDefault) else audios
    | none => []

section Transcode

variable (support : Support) (options : MediaOptions) (item : MediaSourceInfo)
  (video audio : Option MediaStream)

/-- The best rank of an audio stream's copy as one of the codecs; the best of all ends the
search. -/
def audioRank (container : Text) (stream : MediaStream) :
    List Text → Nat → Except StreamBuilderError Nat
  | [], rank => .ok rank
  | codec :: codecs, rank => do
    let failures ← getCompatibilityAudioCodec options container stream (some codec) false
    let rank := min rank (if failures ≠ ∅ then 3
      else if stream.codec.any (eqIgnoreCase codec ·) then 1 else 2)
    if rank = 1 then return 1 else audioRank container stream codecs rank

/-- How well a transcoding profile keeps the video and the audio. -/
def transcodeRanks (profile : TranscodingProfile) : Except StreamBuilderError (Nat × Nat) := do
  let rankVideo ← (match video with
    | some stream =>
      if options.allowVideoStreamCopy &&
          containsContainer (some profile.videoCodec) stream.codec then do
        let failures ← getCompatibilityVideoCodec support options item profile.container stream
        return if failures = ∅ then 1 else 2
      else .ok 3
    | none => .ok 3)
  let rankAudio ← (match audio with
    | some stream =>
      if options.allowAudioStreamCopy then
        audioRank options profile.container stream (names profile.audioCodec) 3
      else .ok 3
    | none => .ok 3)
  return (rankVideo, rankAudio)

def getVideoTranscodeProfile : Except StreamBuilderError (Option TranscodingProfile) :=
  if !(item.supportsTranscoding || item.supportsDirectStream) then return none
  else do
    let profiles := options.profile.transcodingProfiles.filter fun p =>
      p.profileType = .video && p.context = options.context &&
        (!item.useMostCompatibleTranscodingProfile || eqIgnoreCase p.container "ts".toList)
    let analyzed ← profiles.zipIdx.mapM fun (profile, order) => do
      return (profile, ← transcodeRanks support options item video audio profile, order)
    let key := fun (a : TranscodingProfile × (Nat × Nat) × Nat) =>
      (toLex (a.2.1.1, toLex (a.2.1.2, a.2.2)) : Nat ×ₗ Nat ×ₗ Nat)
    return ((analyzed.insertionSort fun a b => key a ≤ key b).head?).map (·.1)

end Transcode

section Build

variable (support : Support) (item : MediaSourceInfo) (options : MediaOptions)
  (video audio : Option MediaStream) (candidates : List MediaStream)
  (subtitle : Option MediaStream) (info : StreamInfo)

def withSubtitle (playMethod : PlayMethod) (outputContainer : Option Text)
    (protocol : Option MediaStreamProtocol) : StreamInfo :=
  match subtitle with
  | none => info
  | some stream =>
    let profile := getSubtitleProfile support item stream playMethod
      options.profile.subtitleProfiles outputContainer protocol
    { info with subtitleDeliveryMethod := profile.method, subtitleFormat := profile.format }

def playDirectly (direct : DirectPlayInfo) (playMethod : PlayMethod) :
    Except StreamBuilderError StreamInfo := do
  let info := { info with
    playMethod
    container := normalizeContainer item.container options.profile direct.profile
    videoCodecs := (video.bind (·.codec)).toList }
  let info ← (if playMethod = .directPlay then
      match direct.audioStreamIndex.or (audio.map (·.index)) with
      | none => .ok info
      | some index => .ok { info with
          audioStreamIndex := some index
          audioCodecs := ((item.getMediaStream .audio index).bind (·.codec)).toList }
    else if playMethod = .directStream then do
      let audioCodec := direct.profile.bind (·.audioCodec)
      let info := { info with
        audioStreamIndex := audio.map (·.index)
        audioCodecs := (audioCodec.map names).getD [] }
      let built ← support.buildStreamVideoItem info options item video audio candidates
        (direct.profile.map (·.container)) (direct.profile.bind (·.videoCodec)) audioCodec
      return info.withBuilt built
    else .ok info)
  return withSubtitle support item options subtitle info playMethod
    (direct.profile.map (·.container)) none

def transcode : Except StreamBuilderError StreamInfo := do
  match ← getVideoTranscodeProfile support options item video audio with
  | none => return info
  | some profile =>
    let info := { info with
      container := some profile.container
      subProtocol := profile.protocol
      targets := info.targets.withTranscodingProfile profile }
    let built ← support.buildStreamVideoItem info options item video audio candidates
      (some profile.container) (some profile.videoCodec) (some profile.audioCodec)
    let info := withSubtitle support item options subtitle
      { info.withBuilt built with playMethod := .transcode } .transcode (some profile.container)
      (some profile.protocol)
    if info.transcodeReasons ∩ (videoReasons ∪ {.containerBitrateExceedsLimit}) ≠ ∅ then
      return { info with
        targets := info.targets.applyTranscodingConditions support.floatText none
          profile.conditions true true }
    else return info

def subtitleStreamIndex : Option Int :=
  options.subtitleStreamIndex.or
    (getDefaultSubtitleStreamIndex item options.profile.subtitleProfiles)

def subtitleStream : Option MediaStream :=
  (subtitleStreamIndex item options).bind (item.getMediaStream .subtitle ·)

def audioStream : Option MediaStream :=
  item.getDefaultAudioStream (options.audioStreamIndex.or item.defaultAudioStreamIndex)

def isEligibleForDirectPlay : Bool :=
  options.enableDirectPlay && (options.forceDirectPlay ||
    !isBitrateLimitExceeded item ((options.getMaxBitrate false).getD 0)) &&
    item.videoType ≠ some .dvd && item.videoType ≠ some .bluRay &&
    !isManifestContainer item.container

def buildVideoItem : Except StreamBuilderError StreamInfo := do
  let video := item.videoStream
  let audio := audioStream item options
  let candidates := candidateAudioStreams options item audio
  let subtitle := subtitleStream item options
  let exceeded := isBitrateLimitExceeded item ((options.getMaxBitrate false).getD 0)
  let directPlay := isEligibleForDirectPlay item options
  let directStream := options.enableDirectStream && (options.forceDirectStream || !exceeded)
  let reasons : TranscodeReasons := if exceeded then {.containerBitrateExceedsLimit} else ∅
  let info : StreamInfo := {
    audioStreamIndex := audio.map (·.index)
    subtitleStreamIndex := subtitleStreamIndex item options
    transcodeReasons := reasons }
  let info ← (if directPlay || directStream then do
      let direct ← getVideoDirectPlayProfile support options item video audio candidates subtitle
        directPlay directStream
      let info ← (match direct.playMethod with
        | none => .ok info
        | some playMethod =>
          playDirectly support item options video audio candidates subtitle info direct playMethod)
      return { info with transcodeReasons := reasons ∪ direct.transcodeReasons }
    else .ok info)
  if info.playMethod = .directStream ∨ info.playMethod = .directPlay then return info
  else transcode support item options video audio candidates subtitle info

end Build

end Ferrofin.Dlna
