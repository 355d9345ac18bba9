import Mathlib.Algebra.Group.Nat.Defs
import Mathlib.Algebra.Group.Int.Defs

/-!
# Rows of media streams

A probed stream is stored as a row (`streamDtoToEntity`), and read back from it (`streamToDto`).
The two are inverse on every column but one: the rotation is stored and not read back
(`rows_round_trip`).

A frame rate is an `f32` of the stream and an `f64` of the row (`FrameRates`).  What is worked out
of a stream when it is read, and not stored, is a parameter (`derive`).
-/

namespace Ferrofin.MediaStreams

inductive MediaStreamType where
  | audio
  | video
  | subtitle
  | embeddedImage
  | data
  | lyric
  | unrecognized (value : Int32)
deriving DecidableEq

def MediaStreamType.jsonValue : MediaStreamType → Int32
  | audio => 0
  | video => 1
  | subtitle => 2
  | embeddedImage => 3
  | data => 4
  | lyric => 5
  | unrecognized value => value

def MediaStreamType.fromJsonValue (value : Int32) : MediaStreamType :=
  if value = 0 then audio
  else if value = 1 then video
  else if value = 2 then subtitle
  else if value = 3 then embeddedImage
  else if value = 4 then data
  else if value = 5 then lyric
  else unrecognized value

def MediaStreamType.Canonical : MediaStreamType → Prop
  | unrecognized value => value ∉ [0, 1, 2, 3, 4, 5]
  | _ => True

/-- An `f32` as an `f64` (`f64::from`), and back (`as f32`): an `f64` holds every `f32`. -/
class FrameRates (F32 F64 : Type) where
  widen : F32 → F64
  narrow : F64 → F32
  narrow_widen : ∀ x, narrow (widen x) = x

variable {F32 F64 Derived : Type}

/-- `MediaStream`, what is stored of it and what is worked out of that. -/
structure MediaStream (F32 F64 Derived : Type) where
  index : Int32
  streamType : MediaStreamType
  codec : Option String
  codecTag : Option String
  language : Option String
  title : Option String
  comment : Option String
  timeBase : Option String
  codecTimeBase : Option String
  nalLengthSize : Option String
  profile : Option String
  aspectRatio : Option String
  path : Option String
  channelLayout : Option String
  pixelFormat : Option String
  colorSpace : Option String
  colorTransfer : Option String
  colorPrimaries : Option String
  isInterlaced : Bool
  isAvc : Option Bool
  isDefault : Bool
  isForced : Bool
  isExternal : Bool
  isHearingImpaired : Bool
  isOriginal : Bool
  isAnamorphic : Option Bool
  bitRate : Option Int32
  bitDepth : Option Int32
  channels : Option Int32
  sampleRate : Option Int32
  refFrames : Option Int32
  height : Option Int32
  width : Option Int32
  level : Option F64
  rotation : Option Int32
  averageFrameRate : Option F32
  realFrameRate : Option F32
  dvVersionMajor : Option Int32
  dvVersionMinor : Option Int32
  dvProfile : Option Int32
  dvLevel : Option Int32
  dvBlSignalCompatibilityId : Option Int32
  rpuPresentFlag : Option Int32
  blPresentFlag : Option Int32
  elPresentFlag : Option Int32
  hdr10PlusPresentFlag : Option Bool
  derived : Derived

structure MediaStreamInfoEntity (F64 : Type) where
  itemId : String
  streamIndex : Int64
  streamType : Int32
  codec : Option String
  codecTag : Option String
  language : Option String
  title : Option String
  comment : Option String
  timeBase : Option String
  codecTimeBase : Option String
  nalLengthSize : Option String
  profile : Option String
  aspectRatio : Option String
  path : Option String
  channelLayout : Option String
  pixelFormat : Option String
  colorSpace : Option String
  colorTransfer : Option String
  colorPrimaries : Option String
  isInterlaced : Option Bool
  isAvc : Option Bool
  isDefault : Bool
  isForced : Bool
  isExternal : Bool
  isHearingImpaired : Option Bool
  isOriginal : Bool
  isAnamorphic : Option Bool
  bitRate : Option Int64
  bitDepth : Option Int64
  channels : Option Int64
  sampleRate : Option Int64
  refFrames : Option Int64
  height : Option Int64
  width : Option Int64
  level : Option F64
  rotation : Option Int64
  averageFrameRate : Option F64
  realFrameRate : Option F64
  dvVersionMajor : Option Int64
  dvVersionMinor : Option Int64
  dvProfile : Option Int64
  dvLevel : Option Int64
  dvBlSignalCompatibilityId : Option Int64
  rpuPresentFlag : Option Bool
  blPresentFlag : Option Bool
  elPresentFlag : Option Bool
  hdr10PlusPresentFlag : Option Bool
  keyFrames : Option String

/-- `i32::try_from` of an `i64`. -/
def toI32 (n : Int64) : Option Int32 :=
  if -2 ^ 31 ≤ n.toInt ∧ n.toInt < 2 ^ 31 then some n.toInt32 else none

/-- `i32::from` of a flag. -/
def ofFlag (flag : Bool) : Int32 := if flag then 1 else 0

def streamToDto [FrameRates F32 F64] (derive : MediaStream F32 F64 Unit → Derived)
    (row : MediaStreamInfoEntity F64) : MediaStream F32 F64 Derived :=
  let stream : MediaStream F32 F64 Unit := {
    index := (toI32 row.streamIndex).getD 0
    streamType := .fromJsonValue row.streamType
    codec := row.codec
    codecTag := row.codecTag
    language := row.language
    title := row.title
    comment := row.comment
    timeBase := row.timeBase
    codecTimeBase := row.codecTimeBase
    nalLengthSize := row.nalLengthSize
    profile := row.profile
    aspectRatio := row.aspectRatio
    path := row.path
    channelLayout := row.channelLayout
    pixelFormat := row.pixelFormat
    colorSpace := row.colorSpace
    colorTransfer := row.colorTransfer
    colorPrimaries := row.colorPrimaries
    isInterlaced := row.isInterlaced.getD false
    isAvc := row.isAvc
    isDefault := row.isDefault
    isForced := row.isForced
    isExternal := row.isExternal
    isHearingImpaired := row.isHearingImpaired.getD false
    isOriginal := row.isOriginal
    isAnamorphic := row.isAnamorphic
    bitRate := row.bitRate.bind toI32
    bitDepth := row.bitDepth.bind toI32
    channels := row.channels.bind toI32
    sampleRate := row.sampleRate.bind toI32
    refFrames := row.refFrames.bind toI32
    height := row.height.bind toI32
    width := row.width.bind toI32
    level := row.level
    -- the rotation is left at its default
    rotation := none
    averageFrameRate := row.averageFrameRate.map FrameRates.narrow
    realFrameRate := row.realFrameRate.map FrameRates.narrow
    dvVersionMajor := row.dvVersionMajor.bind toI32
    dvVersionMinor := row.dvVersionMinor.bind toI32
    dvProfile := row.dvProfile.bind toI32
    dvLevel := row.dvLevel.bind toI32
    dvBlSignalCompatibilityId := row.dvBlSignalCompatibilityId.bind toI32
    rpuPresentFlag := row.rpuPresentFlag.map ofFlag
    blPresentFlag := row.blPresentFlag.map ofFlag
    elPresentFlag := row.elPresentFlag.map ofFlag
    hdr10PlusPresentFlag := row.hdr10PlusPresentFlag
    derived := () }
  { stream with derived := derive stream }

def streamDtoToEntity [FrameRates F32 F64] (itemId : String) (s : MediaStream F32 F64 Derived) :
    MediaStreamInfoEntity F64 where
  itemId := itemId
  streamIndex := s.index.toInt64
  streamType := s.streamType.jsonValue
  codec := s.codec
  codecTag := s.codecTag
  language := s.language
  title := s.title
  comment := s.comment
  timeBase := s.timeBase
  codecTimeBase := s.codecTimeBase
  profile := s.profile
  aspectRatio := s.aspectRatio
  path := s.path
  channelLayout := s.channelLayout
  pixelFormat := s.pixelFormat
  colorSpace := s.colorSpace
  colorTransfer := s.colorTransfer
  colorPrimaries := s.colorPrimaries
  nalLengthSize := s.nalLengthSize
  isInterlaced := some s.isInterlaced
  isAvc := s.isAvc
  isDefault := s.isDefault
  isForced := s.isForced
  isExternal := s.isExternal
  isHearingImpaired := some s.isHearingImpaired
  isOriginal := s.isOriginal
  isAnamorphic := s.isAnamorphic
  bitRate := s.bitRate.map Int32.toInt64
  bitDepth := s.bitDepth.map Int32.toInt64
  channels := s.channels.map Int32.toInt64
  sampleRate := s.sampleRate.map Int32.toInt64
  refFrames := s.refFrames.map Int32.toInt64
  height := s.height.map Int32.toInt64
  width := s.width.map Int32.toInt64
  level := s.level
  rotation := s.rotation.map Int32.toInt64
  averageFrameRate := s.averageFrameRate.map FrameRates.widen
  realFrameRate := s.realFrameRate.map FrameRates.widen
  dvVersionMajor := s.dvVersionMajor.map Int32.toInt64
  dvVersionMinor := s.dvVersionMinor.map Int32.toInt64
  dvProfile := s.dvProfile.map Int32.toInt64
  dvLevel := s.dvLevel.map Int32.toInt64
  dvBlSignalCompatibilityId := s.dvBlSignalCompatibilityId.map Int32.toInt64
  rpuPresentFlag := s.rpuPresentFlag.map (· != 0)
  blPresentFlag := s.blPresentFlag.map (· != 0)
  elPresentFlag := s.elPresentFlag.map (· != 0)
  hdr10PlusPresentFlag := s.hdr10PlusPresentFlag
  keyFrames := none

/-! ### One field at a time -/

@[simp] theorem toI32_toInt64 (n : Int32) : toI32 n.toInt64 = some n := by
  have hlow := n.le_toInt
  have hhigh := n.toInt_lt
  rw [toI32, Int32.toInt_toInt64, if_pos ⟨by omega, by omega⟩]
  simp

@[simp] theorem bind_toI32_map (n : Option Int32) : (n.map Int32.toInt64).bind toI32 = n := by
  cases n with
  | none => rfl
  | some n => exact toI32_toInt64 n

@[simp] theorem map_narrow_map [FrameRates F32 F64] (x : Option F32) :
    (x.map (FrameRates.widen : F32 → F64)).map FrameRates.narrow = x := by
  cases x with
  | none => rfl
  | some x => exact congrArg some (FrameRates.narrow_widen x)

def Representable (flag : Option Int32) : Prop := ∀ v ∈ flag, v = 0 ∨ v = 1

theorem map_ofFlag_map {flag : Option Int32} (h : Representable flag) :
    (flag.map (· != 0)).map ofFlag = flag := by
  cases flag with
  | none => rfl
  | some v =>
    rcases h v rfl with rfl | rfl
    · rfl
    · rfl

@[simp] theorem map_ne_zero_map (flag : Option Bool) :
    (flag.map ofFlag).map (· != 0) = flag := by
  cases flag with
  | none => rfl
  | some flag => cases flag <;> rfl

/-- A type is read as it was written, unless it is a number where there is a name. -/
theorem fromJsonValue_jsonValue (t : MediaStreamType) :
    MediaStreamType.fromJsonValue t.jsonValue = t ↔ t.Canonical := by
  cases t with
  | unrecognized value =>
    simp only [MediaStreamType.jsonValue, MediaStreamType.fromJsonValue,
      MediaStreamType.Canonical, List.mem_cons, List.not_mem_nil, or_false, not_or]
    constructor
    · intro h
      refine ⟨?_, ?_, ?_, ?_, ?_, ?_⟩ <;> rintro rfl <;> revert h <;> decide
    · rintro ⟨h0, h1, h2, h3, h4, h5⟩
      simp only [h0, h1, h2, h3, h4, h5, if_false]
  | _ => exact ⟨fun _ => trivial, fun _ => rfl⟩

@[simp] theorem jsonValue_fromJsonValue (value : Int32) :
    (MediaStreamType.fromJsonValue value).jsonValue = value := by
  unfold MediaStreamType.fromJsonValue
  split
  · next h => exact h.symm
  split
  · next h => exact h.symm
  split
  · next h => exact h.symm
  split
  · next h => exact h.symm
  split
  · next h => exact h.symm
  split
  · next h => exact h.symm
  · rfl

/-! ### Whole rows -/

def MediaStream.stored (s : MediaStream F32 F64 Derived) : MediaStream F32 F64 Unit :=
  { s with derived := () }

/-- The flags of a stream that a row stores as booleans. -/
structure MediaStream.FlagsRepresentable (s : MediaStream F32 F64 Derived) : Prop where
  rpu : Representable s.rpuPresentFlag
  bl : Representable s.blPresentFlag
  el : Representable s.elPresentFlag

variable [FrameRates F32 F64] (derive : MediaStream F32 F64 Unit → Derived) (itemId : String)
  {s : MediaStream F32 F64 Derived}

theorem stored_streamToDto (h : s.FlagsRepresentable) :
    (streamToDto derive (streamDtoToEntity itemId s)).stored =
      { s.stored with
        streamType := .fromJsonValue s.streamType.jsonValue
        rotation := none } := by
  simp only [streamToDto, streamDtoToEntity, MediaStream.stored, toI32_toInt64, bind_toI32_map,
    map_narrow_map, map_ofFlag_map h.rpu, map_ofFlag_map h.bl, map_ofFlag_map h.el,
    Option.getD_some]

theorem streamDtoToEntity_streamToDto :
    streamDtoToEntity itemId (streamToDto derive (streamDtoToEntity itemId s)) =
      { streamDtoToEntity itemId s with rotation := none } := by
  simp only [streamToDto, streamDtoToEntity, toI32_toInt64, bind_toI32_map, map_narrow_map,
    map_ne_zero_map, jsonValue_fromJsonValue, Option.getD_some, Option.map_none]

/-- **Streams and rows**: a stream is read back as it was stored, and its row stored again as it
was read, exactly when the stream has no rotation (and its type has no other spelling). -/
theorem rows_round_trip (h : s.FlagsRepresentable) :
    ((streamToDto derive (streamDtoToEntity itemId s)).stored = s.stored ∧
      streamDtoToEntity itemId (streamToDto derive (streamDtoToEntity itemId s)) =
        streamDtoToEntity itemId s) ↔
      s.rotation = none ∧ s.streamType.Canonical := by
  rw [stored_streamToDto derive itemId h, streamDtoToEntity_streamToDto,
    ← fromJsonValue_jsonValue]
  constructor
  · rintro ⟨hs, -⟩
    exact ⟨(congrArg MediaStream.rotation hs).symm, congrArg MediaStream.streamType hs⟩
  · rintro ⟨hrotation, htype⟩
    rw [htype]
    refine ⟨?_, ?_⟩
    · rw [← hrotation]
      rfl
    · have hrow : (streamDtoToEntity itemId s : MediaStreamInfoEntity F64).rotation = none := by
        simp [streamDtoToEntity, hrotation]
      rw [← hrow]

section Rotated

local instance : FrameRates Unit Unit := ⟨id, id, fun _ => rfl⟩

/-- The video stream of a portrait recording, as a probe returns it. -/
def video (rotation : Option Int32) : MediaStream Unit Unit Unit where
  index := 0
  streamType := .video
  codec := some "hevc"
  codecTag := none
  language := none
  title := none
  comment := none
  timeBase := none
  codecTimeBase := none
  nalLengthSize := none
  profile := none
  aspectRatio := none
  path := none
  channelLayout := none
  pixelFormat := none
  colorSpace := none
  colorTransfer := none
  colorPrimaries := none
  isInterlaced := false
  isAvc := none
  isDefault := true
  isForced := false
  isExternal := false
  isHearingImpaired := false
  isOriginal := false
  isAnamorphic := none
  bitRate := none
  bitDepth := none
  channels := none
  sampleRate := none
  refFrames := none
  height := some 1080
  width := some 1920
  level := none
  rotation := rotation
  averageFrameRate := none
  realFrameRate := none
  dvVersionMajor := none
  dvVersionMinor := none
  dvProfile := none
  dvLevel := none
  dvBlSignalCompatibilityId := none
  rpuPresentFlag := none
  blPresentFlag := none
  elPresentFlag := none
  hdr10PlusPresentFlag := none
  derived := ()

theorem flagsRepresentable_video (rotation : Option Int32) :
    (video rotation).FlagsRepresentable :=
  ⟨(by simp [video, Representable]), (by simp [video, Representable]),
    (by simp [video, Representable])⟩

/-- A video of Dolby Vision. -/
def dolbyVision : MediaStream Unit Unit Unit :=
  { video none with
    averageFrameRate := some ()
    realFrameRate := some ()
    dvVersionMajor := some 1
    dvVersionMinor := some 0
    dvProfile := some 8
    dvLevel := some 6
    dvBlSignalCompatibilityId := some 1
    rpuPresentFlag := some 1
    blPresentFlag := some 1
    elPresentFlag := some 0
    hdr10PlusPresentFlag := some true }

theorem rows_round_trip_upright :
    (streamToDto (fun _ => ()) (streamDtoToEntity "id" dolbyVision)).stored = dolbyVision.stored ∧
    streamDtoToEntity "id" (streamToDto (fun _ : MediaStream Unit Unit Unit => ())
      (streamDtoToEntity "id" dolbyVision)) = streamDtoToEntity "id" dolbyVision :=
  have hflags : dolbyVision.FlagsRepresentable :=
    ⟨(by simp [dolbyVision, Representable]), (by simp [dolbyVision, Representable]),
      (by simp [dolbyVision, Representable])⟩
  (rows_round_trip (fun _ => ()) "id" hflags).2 ⟨rfl, trivial⟩

/-- The rotation of a stream is stored, and is not there when the row is read. -/
theorem rotation_lost :
    (video (some 90)).FlagsRepresentable ∧
      (streamDtoToEntity "id" (video (some 90))).rotation = some 90 ∧
      (streamToDto (fun _ => ()) (streamDtoToEntity "id" (video (some 90)))).stored ≠
        (video (some 90)).stored := by
  refine ⟨flagsRepresentable_video _, rfl, fun h => ?_⟩
  have hrotation := congrArg MediaStream.rotation h
  cases hrotation

end Rotated

end Ferrofin.MediaStreams
