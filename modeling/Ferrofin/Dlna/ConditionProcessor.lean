import Ferrofin.Dlna.Profile
import Ferrofin.Util.Text
import Mathlib.Algebra.Group.Int.Defs
import Mathlib.Algebra.Group.Nat.Defs

/-!
# The condition processor

`condition_processor.rs`: whether a value of a stream meets a condition of a profile.  A condition
that compares in a way its value has none of is an error.

`f64` and `f32` are `Float` and `Float32`; how a text is read as one is taken as given
(`parseF64`).
-/

namespace Ferrofin.Dlna

open Util

inductive VideoRangeType where
  | unknown | sdr | hdr10 | hlg | dovi | doviWithHdr10 | doviWithHlg | doviWithSdr | doviWithEl
  | doviWithHdr10Plus | doviWithElhdr10Plus | doviInvalid | hdr10Plus
  | unrecognized (value : Int)
deriving DecidableEq

inductive TransportStreamTimestamp where
  | none | zero | valid
  | unrecognized (value : Int)
deriving DecidableEq

/-- `StreamBuilderError`, where a condition cannot be evaluated. -/
inductive StreamBuilderError where
  | unexpectedProperty (stream : String) (property : ProfileConditionValue)
  | unknownTimestamp (value : Text)
  | unexpectedConditionType (condition : ProfileConditionType)
deriving DecidableEq

/-! ### Texts as values -/

def parseDigits (s : Text) : Option Nat :=
  if s ≠ [] ∧ s.all Char.isDigit = true then
    some (s.foldl (fun n c => 10 * n + (c.toNat - '0'.toNat)) 0)
  else none

/-- `str::parse::<i32>`. -/
def parseI32 (s : Text) : Option Int :=
  (match s with
    | '-' :: digits => (parseDigits digits).map fun n => -(n : Int)
    | '+' :: digits => (parseDigits digits).map fun n => (n : Int)
    | digits => (parseDigits digits).map fun n => (n : Int)).filter fun n =>
      -2 ^ 31 ≤ n ∧ n < 2 ^ 31

/-- `str::parse::<bool>`. -/
def parseBool (s : Text) : Option Bool :=
  if s = "true".toList then some true
  else if s = "false".toList then some false
  else none

def videoRangeTypeNames : List (VideoRangeType × Text) :=
  [(.unknown, "Unknown".toList), (.sdr, "SDR".toList), (.hdr10, "HDR10".toList),
    (.hlg, "HLG".toList), (.dovi, "DOVI".toList), (.doviWithHdr10, "DOVIWithHDR10".toList),
    (.doviWithHlg, "DOVIWithHLG".toList), (.doviWithSdr, "DOVIWithSDR".toList),
    (.doviWithEl, "DOVIWithEL".toList), (.doviWithHdr10Plus, "DOVIWithHDR10Plus".toList),
    (.doviWithElhdr10Plus, "DOVIWithELHDR10Plus".toList), (.doviInvalid, "DOVIInvalid".toList),
    (.hdr10Plus, "HDR10Plus".toList)]

def parseVideoRangeType (value : Text) : Option VideoRangeType :=
  (videoRangeTypeNames.find? fun candidate => eqIgnoreCase candidate.2 value).map (·.1)

def parseTimestamp (value : Text) : Except StreamBuilderError TransportStreamTimestamp :=
  let trimmed := trimChars value
  if eqIgnoreCase trimmed "None".toList then .ok .none
  else if eqIgnoreCase trimmed "Zero".toList then .ok .zero
  else if eqIgnoreCase trimmed "Valid".toList then .ok .valid
  else
    match parseI32 trimmed with
    | some 0 => .ok .none
    | some 1 => .ok .zero
    | some 2 => .ok .valid
    | some other => .ok (.unrecognized other)
    | none => .error (.unknownTimestamp value)

/-! ### Values -/

section Values

variable (condition : ProfileCondition)

def unexpected : Except StreamBuilderError Bool :=
  .error (.unexpectedConditionType condition.condition)

def isIntSatisfied (currentValue : Option Int) : Except StreamBuilderError Bool :=
  match currentValue with
  | none => .ok !condition.isRequired
  | some currentValue =>
    if condition.condition = .equalsAny then
      .ok ((condition.value.splitOn '|').any fun single => parseI32 single = some currentValue)
    else
      match parseI32 condition.value with
      | none => .ok false
      | some expected =>
        match condition.condition with
        | .equals => .ok (currentValue = expected)
        | .greaterThanEqual => .ok (expected ≤ currentValue)
        | .lessThanEqual => .ok (currentValue ≤ expected)
        | .notEquals => .ok (currentValue ≠ expected)
        | .equalsAny | .unrecognized _ => unexpected condition

def isStringSatisfied (currentValue : Option Text) : Except StreamBuilderError Bool :=
  let currentValue := currentValue.getD []
  if currentValue = [] then .ok !condition.isRequired
  else
    match condition.condition with
    | .equalsAny => .ok ((condition.value.splitOn '|').any (eqIgnoreCase · currentValue))
    | .equals => .ok (eqIgnoreCase currentValue condition.value)
    | .notEquals => .ok !(eqIgnoreCase currentValue condition.value)
    | _ => unexpected condition

def isBoolSatisfied (currentValue : Option Bool) : Except StreamBuilderError Bool :=
  match currentValue with
  | none => .ok !condition.isRequired
  | some currentValue =>
    match parseBool condition.value with
    | none => .ok false
    | some expected =>
      match condition.condition with
      | .equals => .ok (currentValue = expected)
      | .notEquals => .ok (currentValue ≠ expected)
      | _ => unexpected condition

def isDoubleSatisfied (parseF64 : Text → Option Float) (currentValue : Option Float) :
    Except StreamBuilderError Bool :=
  match currentValue with
  | none => .ok !condition.isRequired
  | some currentValue =>
    if condition.condition = .equalsAny then
      .ok ((condition.value.splitOn '|').any fun single =>
        (parseF64 (trimChars single)).any (· == currentValue))
    else
      match parseF64 condition.value with
      | none => .ok false
      | some expected =>
        match condition.condition with
        | .equals => .ok (currentValue == expected)
        | .greaterThanEqual => .ok (expected ≤ currentValue)
        | .lessThanEqual => .ok (currentValue ≤ expected)
        | .notEquals => .ok (currentValue != expected)
        | .equalsAny | .unrecognized _ => unexpected condition

def isTimestampSatisfied (timestamp : Option TransportStreamTimestamp) :
    Except StreamBuilderError Bool :=
  match timestamp with
  | none => .ok !condition.isRequired
  | some timestamp => do
    let expected ← parseTimestamp condition.value
    match condition.condition with
    | .equals => return timestamp = expected
    | .notEquals => return timestamp ≠ expected
    | _ => unexpected condition

def isRangeSatisfiedValue (currentValue : VideoRangeType) : Except StreamBuilderError Bool :=
  if condition.condition = .equalsAny then
    .ok ((condition.value.splitOn '|').any fun single =>
      parseVideoRangeType single = some currentValue)
  else
    match parseVideoRangeType condition.value with
    | none => .ok false
    | some expected =>
      match condition.condition with
      | .equals => .ok (currentValue = expected)
      | .notEquals => .ok (currentValue ≠ expected)
      | _ => unexpected condition

/-- `is_range_satisfied`; what is HDR10+ is HDR10 too. -/
def isRangeSatisfied (currentValue : Option VideoRangeType) : Except StreamBuilderError Bool :=
  match currentValue.filter (· ≠ .unknown) with
  | none => .ok !condition.isRequired
  | some currentValue => do
    if currentValue = .hdr10Plus then
      if ← isRangeSatisfiedValue condition .hdr10 then return true
    isRangeSatisfiedValue condition currentValue

end Values

/-! ### Streams -/

/-- What a condition on a video is evaluated with. -/
structure VideoValues where
  width : Option Int
  height : Option Int
  videoBitDepth : Option Int
  videoBitrate : Option Int
  videoProfile : Option Text
  videoRangeType : Option VideoRangeType
  videoLevel : Option Float
  videoFramerate : Option Float
  packetLength : Option Int
  timestamp : Option TransportStreamTimestamp
  isAnamorphic : Option Bool
  isInterlaced : Option Bool
  refFrames : Option Int
  numStreams : Int
  numVideoStreams : Option Int
  numAudioStreams : Option Int
  videoCodecTag : Option Text
  isAvc : Option Bool
  videoRotation : Option Int

def isVideoConditionSatisfied (parseF64 : Text → Option Float) (v : VideoValues)
    (condition : ProfileCondition) : Except StreamBuilderError Bool :=
  match condition.property with
  | .isInterlaced => isBoolSatisfied condition v.isInterlaced
  | .isAnamorphic => isBoolSatisfied condition v.isAnamorphic
  | .isAvc => isBoolSatisfied condition v.isAvc
  | .videoFramerate => isDoubleSatisfied condition parseF64 v.videoFramerate
  | .videoLevel => isDoubleSatisfied condition parseF64 v.videoLevel
  | .videoProfile => isStringSatisfied condition v.videoProfile
  | .videoRangeType => isRangeSatisfied condition v.videoRangeType
  | .videoCodecTag => isStringSatisfied condition v.videoCodecTag
  | .packetLength => isIntSatisfied condition v.packetLength
  | .videoBitDepth => isIntSatisfied condition v.videoBitDepth
  | .videoBitrate => isIntSatisfied condition v.videoBitrate
  | .height => isIntSatisfied condition v.height
  | .width => isIntSatisfied condition v.width
  | .refFrames => isIntSatisfied condition v.refFrames
  | .numStreams => isIntSatisfied condition (some v.numStreams)
  | .numAudioStreams => isIntSatisfied condition v.numAudioStreams
  | .numVideoStreams => isIntSatisfied condition v.numVideoStreams
  | .videoTimestamp => isTimestampSatisfied condition v.timestamp
  | .videoRotation => isIntSatisfied condition v.videoRotation
  | _ => .ok true

structure VideoAudioValues where
  audioChannels : Option Int
  audioBitrate : Option Int
  audioSampleRate : Option Int
  audioBitDepth : Option Int
  audioProfile : Option Text
  isSecondaryTrack : Option Bool

def isVideoAudioConditionSatisfied (v : VideoAudioValues) (condition : ProfileCondition) :
    Except StreamBuilderError Bool :=
  match condition.property with
  | .audioProfile => isStringSatisfied condition v.audioProfile
  | .audioBitrate => isIntSatisfied condition v.audioBitrate
  | .audioChannels => isIntSatisfied condition v.audioChannels
  | .isSecondaryAudio => isBoolSatisfied condition v.isSecondaryTrack
  | .audioSampleRate => isIntSatisfied condition v.audioSampleRate
  | .audioBitDepth => isIntSatisfied condition v.audioBitDepth
  | property => .error (.unexpectedProperty "audio" property)

end Ferrofin.Dlna
