import Ferrofin.Dlna.ConditionProcessor
import Ferrofin.Lib.Cut
import Ferrofin.Lib.KeyedMap
import Ferrofin.Util.Decimal
import Ferrofin.Util.F64

/-!
# Targets

What a transcode aims at (`StreamInfo`'s targets and stream options) and the conditions of a profile
that move it (`apply_transcoding_conditions`).  A condition that is an upper limit lowers a target,
one that is an equality replaces it, and one that is neither leaves it.

How numbers with a point are written and read is taken as given (`FloatText`).
-/

namespace Ferrofin.Dlna

open Lib Util

/-! ### Numbers with a point -/

/-- How an `f32` and an `f64` are read (`str::parse`) and how an `f64` is written (`Display`). -/
structure FloatText where
  parseF32 : Text → Option Float32
  parseF64 : Text → Option F64
  display : F64 → Text

/-- `format_f64`, `format_level`: a whole number is written as an `i64`. -/
def FloatText.format (text : FloatText) : F64 → Text
  | .finite q =>
    if q.den = 1 then decimal (max (-2 ^ 63) (min (2 ^ 63 - 1) q.num))
    else text.display (.finite q)
  | v => text.display v

/-- `f32::min`. -/
def f32Min (a b : Float32) : Float32 :=
  if a.isNaN then b else if b.isNaN then a else if b < a then b else a

/-! ### Targets -/

/-- The targets of a `StreamInfo`. -/
structure Targets where
  transcodingMaxAudioChannels : Option Int := none
  globalMaxAudioChannels : Option Int := none
  audioBitrate : Option Int := none
  audioSampleRate : Option Int := none
  videoBitrate : Option Int := none
  maxWidth : Option Int := none
  maxHeight : Option Int := none
  maxFramerate : Option Float32 := none
  requireAvc : Bool := false
  requireNonAnamorphic : Bool := false
  streamOptions : KeyedMap Text Text := ∅
deriving DecidableEq

/-! The names of the stream options. -/

def audioChannelsOption : Text := "audiochannels".toList

def deinterlaceOption : Text := "deinterlace".toList

def refFramesOption : Text := "maxrefframes".toList

def bitDepthOption : Text := "videobitdepth".toList

def profileOption : Text := "profile".toList

def rangeTypeOption : Text := "rangetype".toList

def codecTagOption : Text := "codectag".toList

def rotationOption : Text := "rotation".toList

def levelOption : Text := "level".toList

namespace Targets

variable (t : Targets) (qualifier : Option Text) (name : Text)

def setOption (value : Text) : Targets :=
  { t with streamOptions := t.streamOptions.insert (name.map Char.toLower) value }

def setOptionQualified (value : Text) : Targets :=
  match qualifier with
  | some q => if q ≠ [] then t.setOption (q ++ '-' :: name) value else t.setOption name value
  | none => t.setOption name value

def getOptionRaw : Option Text := t.streamOptions.lookup (name.map Char.toLower)

def getOption : Option Text :=
  ((qualifier.bind fun q => t.getOptionRaw (q ++ '-' :: name)).filter (· ≠ [])).or
    ((t.getOptionRaw name).filter (· ≠ []))

/-- `get_target_ref_frames`, `get_target_video_bit_depth`: an option as a number. -/
def getTarget : Option Int := (t.getOption qualifier name).bind parseI32

def getTargetRefFrames : Option Int := t.getTarget qualifier refFramesOption

def getTargetVideoBitDepth : Option Int := t.getTarget qualifier bitDepthOption

def getTargetVideoLevel (text : FloatText) : Option F64 :=
  (t.getOption qualifier levelOption).bind text.parseF64

def getTargetAudioChannels : Option Int :=
  let default := t.globalMaxAudioChannels.or t.transcodingMaxAudioChannels
  match (t.getOption qualifier audioChannelsOption).bind parseI32 with
  | some channels => some (min channels (default.getD channels))
  | none => default

end Targets

/-! ### Conditions -/

def conditionEnabled (hasQualifier enableQualified enableNonQualified : Bool) : Bool :=
  if hasQualifier then enableQualified else enableNonQualified

/-- What a condition on a number makes of the limit that there is, if it says something. -/
def newLimit (c : ProfileCondition) (existing : Option Int) : Option Int :=
  match parseI32 c.value with
  | none => none
  | some num =>
    match c.condition with
    | .equals => some num
    | .lessThanEqual => some (min num (existing.getD num))
    | _ => none

def limitField (c : ProfileCondition) (existing : Option Int) : Option Int :=
  (newLimit c existing).or existing

def limitFramerate (text : FloatText) (c : ProfileCondition) (existing : Option Float32) :
    Option Float32 :=
  match text.parseF32 c.value with
  | none => existing
  | some num =>
    match c.condition with
    | .equals => some num
    | .lessThanEqual => some (f32Min num (existing.getD num))
    | _ => existing

def asksFor (c : ProfileCondition) (flag : Bool) : Bool :=
  match parseBool c.value with
  | none => false
  | some value =>
    value = flag && c.condition = .equals || value ≠ flag && c.condition = .notEquals

def barValues (value : Text) : List Text := (value.splitOn '|').filter (· ≠ [])

/-- The texts of a list between bars, without the blanks around them. -/
def trimmedBarValues (value : Text) : List Text :=
  ((value.splitOn '|').map trimChars).filter (· ≠ [])

/-- `values.join(",")`. -/
def joined (values : List Text) : Text := List.intercalate [','] values

namespace Targets

variable (text : FloatText) (qualifier : Option Text) (t : Targets)

def limitOption (name : Text) (c : ProfileCondition) (existing : Option Int) : Targets :=
  match newLimit c existing with
  | some num => t.setOptionQualified qualifier name (decimal num)
  | none => t

def limitLevel (c : ProfileCondition) : Targets :=
  match parseI32 c.value with
  | none => t
  | some num =>
    match c.condition with
    | .equals => t.setOptionQualified qualifier levelOption (decimal num)
    | .lessThanEqual =>
      let existing := (t.getTargetVideoLevel qualifier text).getD (.ofInt num)
      t.setOptionQualified qualifier levelOption (text.format ((F64.ofInt num).min existing))
    | _ => t

/-- The values of a list that an option may have: what it has already, if that is `same` as one of
them, or else all of them (`apply_string_list_condition`). -/
def limitValues (same : Text → Text → Bool) (name : Text) (c : ProfileCondition)
    (values : List Text) : Targets :=
  match c.condition with
  | .equals => t.setOptionQualified qualifier name (joined values)
  | .equalsAny =>
    match (t.getOption qualifier name).filter fun current =>
        current ≠ [] && values.any (same · current) with
    | some current => t.setOptionQualified qualifier name current
    | none => t.setOptionQualified qualifier name (joined values)
  | _ => t

def limitRangeTypes (c : ProfileCondition) (values : List Text) : Targets :=
  if c.condition = .notEquals then
    t.setOptionQualified qualifier rangeTypeOption
      (joined ((videoRangeTypeNames.map (·.2)).filter (· ∉ values)))
  else t.limitValues qualifier eqIgnoreCase rangeTypeOption c values

def applyCondition (enableQualified enableNonQualified : Bool) (c : ProfileCondition) : Targets :=
  let hasQualifier := qualifier.any (· ≠ [])
  let enabled := conditionEnabled hasQualifier enableQualified enableNonQualified
  if c.value = [] then t
  else if c.condition = .greaterThanEqual then t
  else
    match c.property with
    | .audioBitrate =>
      if enableNonQualified then { t with audioBitrate := limitField c t.audioBitrate } else t
    | .audioSampleRate =>
      if enableNonQualified then { t with audioSampleRate := limitField c t.audioSampleRate } else t
    | .audioChannels =>
      if enabled then
        t.limitOption qualifier audioChannelsOption c (t.getTargetAudioChannels qualifier)
      else t
    | .isAvc => if enableNonQualified && asksFor c true then { t with requireAvc := true } else t
    | .isAnamorphic =>
      if enableNonQualified && asksFor c true then { t with requireNonAnamorphic := true } else t
    | .isInterlaced =>
      if enabled && asksFor c false then
        t.setOptionQualified qualifier deinterlaceOption "true".toList
      else t
    | .refFrames =>
      if enabled then t.limitOption qualifier refFramesOption c (t.getTargetRefFrames qualifier)
      else t
    | .videoBitDepth =>
      if enabled then t.limitOption qualifier bitDepthOption c (t.getTargetVideoBitDepth qualifier)
      else t
    | .videoProfile =>
      if hasQualifier then
        t.limitValues qualifier (· == ·) profileOption c (barValues c.value)
      else t
    | .videoRangeType =>
      if hasQualifier then t.limitRangeTypes qualifier c (trimmedBarValues c.value) else t
    | .videoCodecTag =>
      if hasQualifier then
        t.limitValues qualifier eqIgnoreCase codecTagOption c (trimmedBarValues c.value)
      else t
    | .videoRotation =>
      if hasQualifier then
        t.limitValues qualifier eqIgnoreCase rotationOption c (trimmedBarValues c.value)
      else t
    | .height => if enableNonQualified then { t with maxHeight := limitField c t.maxHeight } else t
    | .videoBitrate =>
      if enableNonQualified then { t with videoBitrate := limitField c t.videoBitrate } else t
    | .videoFramerate =>
      if enableNonQualified then { t with maxFramerate := limitFramerate text c t.maxFramerate }
      else t
    | .videoLevel => if hasQualifier then t.limitLevel text qualifier c else t
    | .width => if enableNonQualified then { t with maxWidth := limitField c t.maxWidth } else t
    | _ => t

def applyTranscodingConditions (conditions : List ProfileCondition)
    (enableQualified enableNonQualified : Bool) : Targets :=
  conditions.foldl
    (fun t c => t.applyCondition text qualifier enableQualified enableNonQualified c) t

end Targets

/-! ### Integers -/

/-- A value of an `i32`. -/
def IsI32 (n : Int) : Prop := -2 ^ 31 ≤ n ∧ n < 2 ^ 31

instance (n : Int) : Decidable (IsI32 n) := inferInstanceAs (Decidable (_ ∧ _))

theorem parseI32_isI32 {s : Text} {n : Int} (h : parseI32 s = some n) : IsI32 n := by
  have hrange := (Option.filter_eq_some_iff.mp h).2
  exact of_decide_eq_true hrange

theorem IsI32.min {a b : Int} (ha : IsI32 a) (hb : IsI32 b) : IsI32 (min a b) := by
  unfold IsI32 at *
  omega

/-! ### What a condition changes -/

inductive FieldLimit where
  | audioBitrate | videoBitrate | maxWidth | maxHeight
deriving DecidableEq

def FieldLimit.property : FieldLimit → ProfileConditionValue
  | audioBitrate => .audioBitrate
  | videoBitrate => .videoBitrate
  | maxWidth => .width
  | maxHeight => .height

def FieldLimit.get : FieldLimit → Targets → Option Int
  | audioBitrate, t => t.audioBitrate
  | videoBitrate, t => t.videoBitrate
  | maxWidth, t => t.maxWidth
  | maxHeight, t => t.maxHeight

theorem newLimit_of_value_nil {c : ProfileCondition} (h : c.value = []) (existing : Option Int) :
    newLimit c existing = none := by
  rw [newLimit, h]
  rfl

theorem newLimit_of_greaterThanEqual {c : ProfileCondition} (h : c.condition = .greaterThanEqual)
    (existing : Option Int) : newLimit c existing = none := by
  rw [newLimit, h]
  cases parseI32 c.value <;> rfl

namespace Targets

variable (text : FloatText) (qualifier : Option Text) (t : Targets)

def fields : Targets := { t with streamOptions := ∅ }

@[simp] theorem fields_setOptionQualified (name value : Text) :
    (t.setOptionQualified qualifier name value).fields = t.fields := by
  unfold setOptionQualified
  split
  · split <;> rfl
  · rfl

@[simp] theorem fields_limitOption (name : Text) (c : ProfileCondition) (existing : Option Int) :
    (t.limitOption qualifier name c existing).fields = t.fields := by
  unfold limitOption
  split <;> simp

@[simp] theorem fields_limitLevel (c : ProfileCondition) :
    (t.limitLevel text qualifier c).fields = t.fields := by
  unfold limitLevel
  split
  · rfl
  · split <;> simp

@[simp] theorem fields_limitValues (same : Text → Text → Bool) (name : Text)
    (c : ProfileCondition) (values : List Text) :
    (t.limitValues qualifier same name c values).fields = t.fields := by
  unfold limitValues
  split
  · simp
  · split <;> simp
  · rfl

@[simp] theorem fields_limitRangeTypes (c : ProfileCondition) (values : List Text) :
    (t.limitRangeTypes qualifier c values).fields = t.fields := by
  unfold limitRangeTypes
  split <;> simp

theorem get_fields (field : FieldLimit) : field.get t.fields = field.get t := by
  cases field <;> rfl

theorem get_applyCondition (field : FieldLimit) (enableQualified enableNonQualified : Bool)
    (c : ProfileCondition) :
    field.get (t.applyCondition text qualifier enableQualified enableNonQualified c) =
      if c.property = field.property ∧ enableNonQualified = true then limitField c (field.get t)
      else field.get t := by
  have hkeep : ∀ t' : Targets, field.get t' = field.get t → c.property ≠ field.property →
      field.get t' = if c.property = field.property ∧ enableNonQualified = true then
        limitField c (field.get t) else field.get t := by
    intro t' hget hproperty
    rw [if_neg fun h => hproperty h.1, hget]
  have hskip : newLimit c (field.get t) = none →
      field.get t = if c.property = field.property ∧ enableNonQualified = true then
        limitField c (field.get t) else field.get t := by
    intro hnone
    rw [limitField, hnone, Option.none_or, ite_self]
  have hfields : ∀ t' : Targets, t'.fields = t.fields → field.get t' = field.get t := by
    intro t' h
    rw [← get_fields t', h, get_fields]
  unfold applyCondition
  dsimp only
  split
  · next h => exact hskip (newLimit_of_value_nil h _)
  · split
    · next h => exact hskip (newLimit_of_greaterThanEqual h _)
    · cases hproperty : c.property <;> dsimp only
      case audioBitrate | videoBitrate | width | height =>
        cases field <;> cases enableNonQualified <;> rfl
      all_goals
        rw [← hproperty]
        refine hkeep _ ?_ (by rw [hproperty]; cases field <;> exact nofun)
      case audioSampleRate | isAvc | isAnamorphic | videoFramerate =>
        split <;> cases field <;> rfl
      all_goals
        first
          | rfl
          | exact hfields _ (by split <;> simp)

end Targets

end Ferrofin.Dlna
