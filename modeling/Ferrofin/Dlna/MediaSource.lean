import Ferrofin.Dlna.ConditionProcessor

/-!
# Media sources

The streams of a media source (`MediaStream`, `MediaSourceInfo`), as far as the negotiation reads
them, and what it computes of them.
-/

namespace Ferrofin.Dlna

inductive MediaStreamType where
  | audio | video | subtitle | embeddedImage | data | lyric
  | unrecognized (value : Int)
deriving DecidableEq

inductive VideoType where
  | videoFile | iso | dvd | bluRay
  | unrecognized (value : Int)
deriving DecidableEq

/-- `AudioIndexSource`, as its flags. -/
structure AudioIndexSource where
  byDefault : Bool := false
  byLanguage : Bool := false
  byUser : Bool := false
deriving DecidableEq

/-- `MediaStream`, the fields that are read. -/
structure MediaStream where
  index : Int
  streamType : MediaStreamType
  codec : Option Text := none
  codecTag : Option Text := none
  language : Option Text := none
  profile : Option Text := none
  path : Option Text := none
  isDefault : Bool := false
  isExternal : Bool := false
  isInterlaced : Bool := false
  isAnamorphic : Option Bool := none
  isAvc : Option Bool := none
  supportsExternalStream : Bool := false
  score : Option Int := none
  width : Option Int := none
  height : Option Int := none
  bitDepth : Option Int := none
  bitRate : Option Int := none
  channels : Option Int := none
  sampleRate : Option Int := none
  packetLength : Option Int := none
  refFrames : Option Int := none
  rotation : Option Int := none
  level : Option Float := none
  averageFrameRate : Option Float32 := none
  realFrameRate : Option Float32 := none
  colorSpace : Option Text := none
  colorTransfer : Option Text := none
  colorPrimaries : Option Text := none
  dvProfile : Option Int := none
  rpuPresentFlag : Option Int := none
  blPresentFlag : Option Int := none
  dvBlSignalCompatibilityId : Option Int := none
  hdr10PlusPresentFlag : Option Bool := none

/-- `MediaSourceInfo`, the fields that are read. -/
structure MediaSourceInfo where
  container : Option Text := none
  bitrate : Option Int := none
  isRemote : Bool := false
  isInfiniteStream : Bool := false
  supportsDirectPlay : Bool := true
  supportsDirectStream : Bool := true
  supportsTranscoding : Bool := true
  useMostCompatibleTranscodingProfile : Bool := false
  videoType : Option VideoType := none
  timestamp : Option TransportStreamTimestamp := none
  mediaStreams : List MediaStream := []
  defaultAudioStreamIndex : Option Int := none
  defaultAudioIndexSource : AudioIndexSource := {}
  defaultSubtitleStreamIndex : Option Int := none

/-! ### Streams -/

def containsIgnoreCase (haystack needle : Text) : Bool :=
  needle.map Char.toLower <:+: haystack.map Char.toLower

def isTextFormat (format : Option Text) : Bool :=
  let codec := format.getD []
  containsIgnoreCase codec "microdvd".toList ||
    (!containsIgnoreCase codec "pgs".toList && !containsIgnoreCase codec "dvdsub".toList &&
      !containsIgnoreCase codec "vobsub".toList && !containsIgnoreCase codec "dvbsub".toList &&
      !eqIgnoreCase codec "sup".toList && !eqIgnoreCase codec "sub".toList)

def isPgsFormat (format : Option Text) : Bool :=
  let codec := format.getD []
  containsIgnoreCase codec "pgs".toList || eqIgnoreCase codec "sup".toList

def isVobSubFormat (format : Option Text) : Bool :=
  let codec := format.getD []
  containsIgnoreCase codec "dvdsub".toList || containsIgnoreCase codec "vobsub".toList

namespace MediaStream

variable (s : MediaStream)

def isSubtitleStreamOf (isFormat : Option Text → Bool) : Bool :=
  s.streamType = .subtitle && (s.codec.getD [] ≠ [] || s.isExternal) && isFormat s.codec

def isTextSubtitleStream : Bool := s.isSubtitleStreamOf isTextFormat

def isPgsSubtitleStream : Bool := s.isSubtitleStreamOf isPgsFormat

def isVobSubSubtitleStream : Bool := s.isSubtitleStreamOf isVobSubFormat

def supportsSubtitleConversionTo (toCodec : Text) : Bool :=
  let isAss := fun codec => eqIgnoreCase codec "ass".toList || eqIgnoreCase codec "ssa".toList
  s.isTextSubtitleStream && !isAss (s.codec.getD []) && !isAss toCodec

def referenceFrameRate : Option Float32 :=
  match s.averageFrameRate with
  | some average => if average < 1000 then some average else s.realFrameRate
  | none => s.realFrameRate

/-- `get_video_color_range`, the range type of a Dolby Vision profile. -/
def doviRangeType : VideoRangeType :=
  match s.dvProfile with
  | some 5 => .dovi
  | some 8 =>
    match s.dvBlSignalCompatibilityId with
    | some 1 => .doviWithHdr10
    | some 4 => .doviWithHlg
    | some 2 => .doviWithSdr
    | _ => .doviInvalid
  | some 7 => .doviWithEl
  | some 10 =>
    match s.dvBlSignalCompatibilityId with
    | some 0 => .dovi
    | some 1 => .doviWithHdr10
    | some 2 => .doviWithSdr
    | some 4 => .doviWithHlg
    | _ => .doviInvalid
  | _ => .sdr

def videoRangeType : VideoRangeType :=
  let is := fun (value : Option Text) (expected : String) =>
    value.any (eqIgnoreCase · expected.toList)
  let isPq := is s.colorTransfer "smpte2084"
  let isHlg := is s.colorTransfer "arib-std-b67"
  let isDoviProfile := s.dvProfile ∈ [some 5, some 7, some 8, some 10]
  let isDoviFlag := s.rpuPresentFlag = some 1 ∧ s.blPresentFlag = some 1 ∧
    s.dvBlSignalCompatibilityId ∈ [some 0, some 1, some 4, some 2, some 6]
  if s.streamType ≠ .video then .unknown
  else if (isDoviProfile ∧ isDoviFlag) ∨ is s.codecTag "dovi" ∨ is s.codecTag "dvh1" ∨
      is s.codecTag "dvhe" ∨ is s.codecTag "dav1" then
    -- A base layer must have the colours it declares.
    let expectedTransfer := match s.doviRangeType with
      | .doviWithHdr10 | .doviWithEl => some "smpte2084"
      | .doviWithHlg => some "arib-std-b67"
      | _ => none
    if expectedTransfer.any fun expected => !is s.colorSpace "bt2020nc" ||
        !is s.colorTransfer expected || !is s.colorPrimaries "bt2020" then .doviInvalid
    else if s.hdr10PlusPresentFlag = some true then
      match s.doviRangeType with
      | .doviWithHdr10 => .doviWithHdr10Plus
      | .doviWithEl => .doviWithElhdr10Plus
      | other => other
    else s.doviRangeType
  else if isPq then if s.hdr10PlusPresentFlag = some true then .hdr10Plus else .hdr10
  else if isHlg then .hlg
  else .sdr

/-- What a condition on an audio stream of a video is evaluated with. -/
def videoAudioValues (isSecondaryAudio : Bool) : VideoAudioValues where
  audioChannels := s.channels
  audioBitrate := s.bitRate
  audioSampleRate := s.sampleRate
  audioBitDepth := s.bitDepth
  audioProfile := s.profile
  isSecondaryTrack := some isSecondaryAudio

end MediaStream

/-! ### Sources -/

namespace MediaSourceInfo

variable (item : MediaSourceInfo)

def videoStream : Option MediaStream := item.mediaStreams.find? (·.streamType = .video)

def getDefaultAudioStream (defaultIndex : Option Int) : Option MediaStream :=
  (((defaultIndex.filter (· ≠ -1)).bind fun val =>
    item.mediaStreams.find? fun s => s.streamType = .audio && s.index = val).or
      (item.mediaStreams.find? fun s => s.streamType = .audio && s.isDefault)).or
        (item.mediaStreams.find? (·.streamType = .audio))

def getMediaStream (streamType : MediaStreamType) (index : Int) : Option MediaStream :=
  item.mediaStreams.find? fun s => s.streamType = streamType && s.index = index

/-- `i32::try_from` of a count. -/
def toI32 (n : Nat) : Option Int := if (n : Int) < 2 ^ 31 then some n else none

def getStreamCount (streamType : MediaStreamType) : Option Int :=
  if item.mediaStreams.isEmpty then none
  else toI32 (item.mediaStreams.countP (·.streamType = streamType))

def isSecondaryAudio (stream : MediaStream) : Option Bool :=
  if stream.isExternal then some false
  else (item.mediaStreams.find? fun s => s.streamType = .audio && !s.isExternal).map
    (·.index ≠ stream.index)

/-- `video_condition_check`: what a condition on the video is evaluated with. -/
def videoValues (video : Option MediaStream) : VideoValues where
  width := video.bind (·.width)
  height := video.bind (·.height)
  videoBitDepth := video.bind (·.bitDepth)
  videoBitrate := video.bind (·.bitRate)
  videoProfile := video.bind (·.profile)
  videoRangeType := video.map (·.videoRangeType)
  videoLevel := video.bind (·.level)
  videoFramerate := some (((video.bind (·.referenceFrameRate)).map Float32.toFloat).getD 0)
  packetLength := video.bind (·.packetLength)
  timestamp := if video.isNone then some .none else item.timestamp
  isAnamorphic := video.bind (·.isAnamorphic)
  isInterlaced := video.map (·.isInterlaced)
  refFrames := video.bind (·.refFrames)
  numStreams := (toI32 item.mediaStreams.length).getD (2 ^ 31 - 1)
  numVideoStreams := item.getStreamCount .video
  numAudioStreams := item.getStreamCount .audio
  videoCodecTag := video.bind (·.codecTag)
  isAvc := video.bind (·.isAvc)
  videoRotation := video.bind (·.rotation)

end MediaSourceInfo

end Ferrofin.Dlna
