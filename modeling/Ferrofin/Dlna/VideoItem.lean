import Ferrofin.Dlna.StreamBuilder

/-!
# What a transcode is built of

`build_stream_video_item`: the codecs that are kept of a profile, the audio stream that is copied,
and the targets, which the conditions of the codec profiles move before the bitrate is split between
audio and video.  `audioTargets` is what `build_audio_item` does for a transcode of music.
-/

namespace Ferrofin.Dlna

open Lib Util

/-! ### Codecs -/

def supportedHlsVideoCodecs : List Text :=
  ["h264".toList, "hevc".toList, "vp9".toList, "av1".toList]

def supportedHlsAudioCodecsTs : List Text :=
  ["aac".toList, "ac3".toList, "eac3".toList, "mp3".toList]

def supportedHlsAudioCodecsMp4 : List Text :=
  ["aac".toList, "ac3".toList, "eac3".toList, "mp3".toList, "alac".toList, "flac".toList,
    "opus".toList, "dts".toList, "truehd".toList]

/-- `contains_container_list`, of a list that is not negated. -/
def containsContainerList (profileContainers : List Text) (input : Option Text) : Bool :=
  let input := input.getD []
  if input = [] then false
  else if profileContainers = [] then true
  else (names input).any fun container =>
    profileContainers.any fun profile => profile ≠ [] && eqIgnoreCase container profile

def keptCodecs (isHls : Bool) (supported : List Text) (codec : Option Text)
    (stream : Option MediaStream) : List Text :=
  let codecs := (codec.map names).getD []
  let codecs := if codecs = [] then (stream.bind (·.codec)).toList else codecs
  if isHls then codecs.filter fun c => supported.any (eqIgnoreCase · c) else codecs

/-! ### Bitrates -/

def getDefaultAudioBitrate (audioCodec : Option Text) (audioChannels : Option Int) : Int :=
  let channels := audioChannels.getD 0
  let is := fun codecs : List Text => audioCodec.any fun codec => codecs.any (eqIgnoreCase codec ·)
  if is ["aac".toList, "mp3".toList, "ac3".toList, "eac3".toList] then
    if channels < 2 then 128000 else if 6 ≤ channels then 640000 else 384000
  else if is ["flac".toList, "alac".toList] then
    if channels < 2 then 768000 else if 6 ≤ channels then 3584000 else 1536000
  else 192000

def getMaxAudioBitrateForTotalBitrate (totalBitrate : Int) : Int :=
  if totalBitrate ≤ 640000 then 128000
  else if totalBitrate ≤ 2000000 then 384000
  else if totalBitrate ≤ 3000000 then 448000
  else if totalBitrate ≤ 4000000 then 640000
  else if totalBitrate ≤ 5000000 then 768000
  else if totalBitrate ≤ 10000000 then 1536000
  else if totalBitrate ≤ 15000000 then 2304000
  else if totalBitrate ≤ 20000000 then 3584000
  else 7168000

/-- The audio bitrate before it is limited: that of the stream, unless it is encoded anew. -/
def defaultAudioBitrate (targetAudioCodecs : List Text) (targetAudioChannels : Option Int)
    (audio : MediaStream) : Int :=
  let codec := targetAudioCodecs.head?
  let own := audio.bitRate.getD (getDefaultAudioBitrate codec targetAudioChannels)
  match targetAudioChannels, audio.channels with
  | some target, some channels =>
    if target < channels then getDefaultAudioBitrate codec targetAudioChannels
    else if audio.codec.getD [] ≠ [] ∧ targetAudioCodecs ≠ [] ∧
        !targetAudioCodecs.any fun e => audio.codec.any (eqIgnoreCase · e) then
      getDefaultAudioBitrate codec audio.channels
    else own
  | _, _ => own

def getAudioBitrate (maxTotalBitrate : Int) (targetAudioCodecs : List Text)
    (audio : Option MediaStream) (targets : Targets) : Int :=
  let channels := targets.getTargetAudioChannels targetAudioCodecs.head?
  let bitrate := match audio with
    | some stream => defaultAudioBitrate targetAudioCodecs channels stream
    | none => 192000
  let limit := match audio with
    | some stream =>
      if stream.channels = some 1 ∧ stream.bitRate.getD 0 < 64000 then 64000 else 2 ^ 31 - 1
    | none => 2 ^ 31 - 1
  let bitrate := if 0 < maxTotalBitrate then
      min (getMaxAudioBitrateForTotalBitrate maxTotalBitrate) bitrate
    else bitrate
  min bitrate limit

/-- `-`, of an `i32`: a difference that is none wraps around. -/
def subI32 (a b : Int) : Int := Int.bmod (a - b) (2 ^ 32)

/-- The video bitrate is what the audio leaves of the limit, and no less than 64000. -/
def splitBitrate (limit : Option Int) (t : Targets) : Targets :=
  match limit with
  | none => t
  | some limit =>
    let available := match t.audioBitrate with
      | some audio => subI32 limit audio
      | none => limit
    { t with videoBitrate := some (max (min available (t.videoBitrate.getD available)) 64000) }

/-! ### Codec profiles -/

def CodecProfile.containsAnyCodec (p : CodecProfile) (codecs : List Text) (container : Option Text)
    (useSubContainer : Bool) : Bool :=
  containsContainer (containerToCheck p.container p.subContainer useSubContainer) container &&
    codecs.any fun codec => containsContainerWithNegation p.codec false (some codec)

def appliedProfiles (isSatisfied : ProfileCondition → Except StreamBuilderError Bool)
    (isFor : CodecProfile → Bool) :
    List CodecProfile → Except StreamBuilderError (List CodecProfile)
  | [] => .ok []
  | profile :: profiles => do
    let applies ← (if isFor profile then allSatisfied isSatisfied profile.applyConditions
      else .ok false)
    let rest ← appliedProfiles isSatisfied isFor profiles
    return if applies then profile :: rest else rest

section Apply

variable (text : FloatText) (container : Option Text) (codecs : List Text)

def applyVideoProfile (useSubContainer : Bool) (t : Targets) (profile : CodecProfile) : Targets :=
  codecs.foldl (fun t codec =>
    if profile.containsCodec (some codec) container useSubContainer then
      t.applyTranscodingConditions text (some codec) profile.conditions true true
    else t) t

def applyAudioProfile (t : Targets) (profile : CodecProfile) : Targets :=
  match codecs.find? fun codec => profile.containsCodec (some codec) container false with
  | some codec => t.applyTranscodingConditions text (some codec) profile.conditions true true
  | none => t

end Apply

def audioValues (item : MediaSourceInfo) (audio : Option MediaStream) : VideoAudioValues where
  audioChannels := audio.bind (·.channels)
  audioBitrate := audio.bind (·.bitRate)
  audioSampleRate := audio.bind (·.sampleRate)
  audioBitDepth := audio.bind (·.bitDepth)
  audioProfile := audio.bind (·.profile)
  isSecondaryTrack := audio.bind item.isSecondaryAudio

section Build

variable (parseF64 : Text → Option Float) (text : FloatText) (info : StreamInfo)
  (options : MediaOptions) (item : MediaSourceInfo) (video audio : Option MediaStream)
  (candidates : List MediaStream) (container videoCodec audioCodec : Option Text)

def keptVideoCodecs : List Text :=
  keptCodecs (info.subProtocol = .hls) supportedHlsVideoCodecs videoCodec video

def keptAudioCodecs : List Text :=
  keptCodecs (info.subProtocol = .hls)
    (if info.container.any (eqIgnoreCase · "mp4".toList) then supportedHlsAudioCodecsMp4
      else supportedHlsAudioCodecsTs) audioCodec audio

def supportedAudioStream : Option MediaStream :=
  candidates.find? fun s =>
    containsContainerList (keptAudioCodecs info audio audioCodec) s.codec

def channelsExceedLimit : Bool :=
  (supportedAudioStream info audio candidates audioCodec).any fun s =>
    info.targets.transcodingMaxAudioChannels.getD (2 ^ 31 - 1) < s.channels.getD 0

def directAudioFailures : Except StreamBuilderError TranscodeReasons :=
  match supportedAudioStream info audio candidates audioCodec with
  | some s => getCompatibilityAudioCodec options (container.getD []) s none false
  | none => .ok ∅

def codecReasons (failures : TranscodeReasons) : TranscodeReasons :=
  info.transcodeReasons ∪
    (if video.any fun s => !containsContainerList (keptVideoCodecs info video videoCodec) s.codec
      then {.videoCodecNotSupported} else ∅) ∪ failures ∪
    (if audio.isSome && (supportedAudioStream info audio candidates audioCodec).isNone
      then {.audioCodecNotSupported} else ∅)

def directAudioStream (failures : TranscodeReasons) : Option MediaStream :=
  if !channelsExceedLimit info audio candidates audioCodec && failures = ∅ &&
      .containerBitrateExceedsLimit ∉
        codecReasons info video audio candidates videoCodec audioCodec failures then
    supportedAudioStream info audio candidates audioCodec
  else none

def videoOptions (t : Targets) : Targets :=
  let qualifier := video.bind (·.codec)
  let t := { t with maxFramerate := video.bind (·.referenceFrameRate) }
  let t := match video.bind (·.level) with
    | some level => t.setOptionQualified qualifier levelOption (text.format (.ofFloat level))
    | none => t
  let t := match video.bind (·.bitDepth) with
    | some bitDepth => t.setOptionQualified qualifier bitDepthOption (decimal bitDepth)
    | none => t
  match (video.bind (·.profile)).filter (· ≠ []) with
  | some profile => t.setOptionQualified qualifier profileOption (profile.map Char.toLower)
  | none => t

def directAudioOptions (s : MediaStream) (t : Targets) : Targets :=
  let t := { t with audioSampleRate := s.sampleRate }
  let t := t.setOptionQualified (video.bind (·.codec)) audioChannelsOption
    ((s.channels.map decimal).getD [])
  let t := match s.profile.filter (· ≠ []) with
    | some profile => t.setOptionQualified s.codec profileOption (profile.map Char.toLower)
    | none => t
  match s.level.filter (· != 0) with
  | some level => t.setOptionQualified s.codec levelOption (text.format (.ofFloat level))
  | none => t

def isDirectStream : Bool :=
  item.videoType ≠ some .dvd && item.videoType ≠ some .bluRay &&
    (info.playMethod = .directStream || info.playMethod = .directPlay)

def targetAudioCodec (audioStreamIndex : Option Int) (audioCodecs : List Text) : List Text :=
  let inputCodec := (item.getDefaultAudioStream audioStreamIndex).bind (·.codec)
  if isDirectStream info item then (inputCodec.filter (· ≠ [])).toList
  else
    match audioCodecs.find? fun codec => inputCodec.any (eqIgnoreCase codec ·) with
    | some codec => if codec = [] then [] else [codec]
    | none => audioCodecs

structure SentAudio where
  stream : Option MediaStream
  streamIndex : Option Int
  codecs : List Text
  targets : Targets

def sentAudio (direct : Option MediaStream) : SentAudio :=
  let t := videoOptions text video info.targets
  match direct with
  | some s => ⟨some s, some s.index, s.codec.toList, directAudioOptions text video s t⟩
  | none => ⟨audio, info.audioStreamIndex, keptAudioCodecs info audio audioCodec, t⟩

/-- The audio bitrate that is aimed at is at most the one that is chosen. -/
def limitAudioBitrate (bitrate : Int) (t : Targets) : Targets :=
  { t with audioBitrate := some (min (t.audioBitrate.getD bitrate) bitrate) }

def buildStreamVideoItem : Except StreamBuilderError BuiltStream := do
  let videoCodecs := keptVideoCodecs info video videoCodec
  let failures ← directAudioFailures info options audio candidates container audioCodec
  let exceeds := channelsExceedLimit info audio candidates audioCodec
  let sent := sentAudio text info video audio audioCodec
    (directAudioStream info video audio candidates videoCodec audioCodec failures)
  let useSubContainer := info.subProtocol = .hls
  let videoProfiles ← appliedProfiles (isVideoConditionSatisfied parseF64 (item.videoValues video))
    (fun p => p.codecType = .video && p.containsAnyCodec videoCodecs container useSubContainer)
    options.profile.codecProfiles
  let t := videoProfiles.reverse.foldl
    (applyVideoProfile text container videoCodecs useSubContainer) sent.targets
  let t := { t with
    globalMaxAudioChannels :=
      if exceeds then t.transcodingMaxAudioChannels else options.maxAudioChannels }
  let t := limitAudioBitrate (getAudioBitrate ((options.getMaxBitrate true).getD 0)
    (targetAudioCodec info item sent.streamIndex sent.codecs) sent.stream t) t
  let audioProfiles ← appliedProfiles
    (isVideoAudioConditionSatisfied (audioValues item sent.stream))
    (fun p => p.codecType = .videoAudio && p.containsAnyCodec sent.codecs container false)
    options.profile.codecProfiles
  let t := audioProfiles.reverse.foldl (applyAudioProfile text container sent.codecs) t
  return {
    videoCodecs
    audioCodecs := sent.codecs
    audioStreamIndex := sent.streamIndex
    -- The channels are mixed down in a copy of the source that the answer carries.
    transcodeReasons := codecReasons info video audio candidates videoCodec audioCodec failures ∪
      (if exceeds && (item.getDefaultAudioStream info.audioStreamIndex).isSome
        then {.audioChannelsNotSupported} else ∅)
    targets := splitBitrate (options.getMaxBitrate false) t }

end Build

/-! ### Music -/

def isAudioConditionSatisfied (audio : MediaStream) (condition : ProfileCondition) :
    Except StreamBuilderError Bool :=
  match condition.property with
  | .audioBitrate => isIntSatisfied condition audio.bitRate
  | .audioChannels => isIntSatisfied condition audio.channels
  | .audioSampleRate => isIntSatisfied condition audio.sampleRate
  | .audioBitDepth => isIntSatisfied condition audio.bitDepth
  | property => .error (.unexpectedProperty "audio" property)

def getProfileConditionsForAudio (codecProfiles : List CodecProfile) (container : Text)
    (codec : Option Text) (audio : MediaStream) :
    Except StreamBuilderError (List ProfileCondition) := do
  let profiles ← appliedProfiles (isAudioConditionSatisfied audio)
    (fun p => p.codecType = .audio && p.containsCodec codec (some container) false) codecProfiles
  return profiles.flatMap (·.conditions)

def transcodingBitrate (options : MediaOptions) : Int :=
  let configured := options.getMaxBitrate true
  let bitrate := ((options.audioTranscodingBitrate.or
    (if options.context = .streaming then options.profile.musicStreamingTranscodingBitrate
      else none)).or configured).getD 128000
  min bitrate (configured.getD bitrate)

def audioTargets (text : FloatText) (options : MediaOptions) (profile : TranscodingProfile)
    (audio : MediaStream) (t : Targets) : Except StreamBuilderError Targets := do
  let conditions ← getProfileConditionsForAudio options.profile.codecProfiles profile.container
    (some profile.audioCodec) audio
  let t := (t.withTranscodingProfile profile).applyTranscodingConditions text none conditions true
    true
  let t := { t with globalMaxAudioChannels := options.maxAudioChannels }
  let bitrate := transcodingBitrate options
  let bitrate := min bitrate (t.audioBitrate.getD bitrate)
  -- An `i64` that is no `i32` is the greatest one.
  return { t with
    audioBitrate := some (if -2 ^ 31 ≤ bitrate ∧ bitrate < 2 ^ 31 then bitrate else 2 ^ 31 - 1) }

end Ferrofin.Dlna
