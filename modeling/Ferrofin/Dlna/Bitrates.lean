import Ferrofin.Dlna.VideoItem
import Ferrofin.Lib.Fallible

/-!
# Bitrates

How `build_stream_video_item` splits a limit between audio and video, and what the audio path makes
of a limit.  The bitrates that go in are any `i32`; what comes out is one, and the only difference
that is taken, of the limit and the audio bitrate, is what must be one as well
(`bitrates_in_budget`).
-/

namespace Ferrofin.Dlna

open Lib Util

/-- The bitrates of the options are values of an `i32`. -/
structure MediaOptions.HasI32Bitrates (options : MediaOptions) : Prop where
  maxBitrate : ∀ b ∈ options.maxBitrate, IsI32 b
  audioTranscodingBitrate : ∀ b ∈ options.audioTranscodingBitrate, IsI32 b
  maxStreamingBitrate : ∀ b ∈ options.profile.maxStreamingBitrate, IsI32 b
  maxStaticBitrate : ∀ b ∈ options.profile.maxStaticBitrate, IsI32 b
  maxStaticMusicBitrate : ∀ b ∈ options.profile.maxStaticMusicBitrate, IsI32 b
  musicStreamingTranscodingBitrate :
    ∀ b ∈ options.profile.musicStreamingTranscodingBitrate, IsI32 b

/-- The bitrate of a stream is a value of an `i32`. -/
def MediaStream.HasI32Bitrate (s : MediaStream) : Prop := ∀ b ∈ s.bitRate, IsI32 b

/-- The bitrates that are aimed at are values of an `i32`. -/
def Targets.HasI32Bitrates (t : Targets) : Prop :=
  (∀ b ∈ t.audioBitrate, IsI32 b) ∧ ∀ b ∈ t.videoBitrate, IsI32 b

/-! ### Limits of the options and of the streams -/

theorem getMaxBitrate_isI32 {options : MediaOptions} (h : options.HasI32Bitrates) (isAudio : Bool) :
    ∀ b ∈ options.getMaxBitrate isAudio, IsI32 b := by
  unfold MediaOptions.getMaxBitrate
  split
  · exact h.maxBitrate
  · split
    · split
      · exact h.maxStaticMusicBitrate
      · exact h.maxStaticBitrate
    · exact h.maxStreamingBitrate

theorem getDefaultAudioBitrate_isI32 (codec : Option Text) (channels : Option Int) :
    IsI32 (getDefaultAudioBitrate codec channels) := by
  unfold getDefaultAudioBitrate
  dsimp only
  split_ifs <;> decide

theorem getMaxAudioBitrateForTotalBitrate_isI32 (total : Int) :
    IsI32 (getMaxAudioBitrateForTotalBitrate total) := by
  unfold getMaxAudioBitrateForTotalBitrate
  split_ifs <;> decide

theorem defaultAudioBitrate_isI32 (codecs : List Text) (channels : Option Int) {s : MediaStream}
    (h : s.HasI32Bitrate) : IsI32 (defaultAudioBitrate codecs channels s) := by
  have hown : IsI32 (s.bitRate.getD (getDefaultAudioBitrate codecs.head? channels)) := by
    cases hrate : s.bitRate with
    | none => exact getDefaultAudioBitrate_isI32 _ _
    | some b => exact h b hrate
  unfold defaultAudioBitrate
  dsimp only
  split
  · split
    · exact getDefaultAudioBitrate_isI32 _ _
    · split
      · exact getDefaultAudioBitrate_isI32 _ _
      · exact hown
  · exact hown

/-- The audio bitrate that is chosen is a value of an `i32`. -/
theorem getAudioBitrate_isI32 (total : Int) (codecs : List Text) {audio : Option MediaStream}
    (t : Targets) (h : ∀ s ∈ audio, s.HasI32Bitrate) :
    IsI32 (getAudioBitrate total codecs audio t) := by
  have hmax := getMaxAudioBitrateForTotalBitrate_isI32 total
  cases audio with
  | none =>
    unfold getAudioBitrate
    dsimp only
    split
    · exact (hmax.min (by decide)).min (by decide)
    · decide
  | some s =>
    have hdefault := defaultAudioBitrate_isI32 codecs (t.getTargetAudioChannels codecs.head?)
      (h s rfl)
    have hlimit : IsI32 (if s.channels = some 1 ∧ s.bitRate.getD 0 < 64000 then 64000
        else 2 ^ 31 - 1) := by
      split <;> decide
    unfold getAudioBitrate
    dsimp only
    split
    · exact (hmax.min hdefault).min hlimit
    · exact hdefault.min hlimit

/-! ### Conditions -/

theorem limitField_isI32 (c : ProfileCondition) {existing : Option Int}
    (h : ∀ b ∈ existing, IsI32 b) : ∀ b ∈ limitField c existing, IsI32 b := by
  unfold limitField newLimit
  cases hparse : parseI32 c.value with
  | none => exact h
  | some num =>
    have hnum := parseI32_isI32 hparse
    dsimp only
    split
    · intro b hb
      cases hb
      exact hnum
    · intro b hb
      cases hb
      cases existing with
      | none => exact hnum.min hnum
      | some e => exact hnum.min (h e rfl)
    · exact h

namespace Targets

variable (text : FloatText) {t : Targets}

theorem HasI32Bitrates.applyCondition (h : t.HasI32Bitrates) (qualifier : Option Text)
    (enableQualified enableNonQualified : Bool) (c : ProfileCondition) :
    (t.applyCondition text qualifier enableQualified enableNonQualified c).HasI32Bitrates := by
  have hfield : ∀ field : FieldLimit, (∀ b ∈ field.get t, IsI32 b) → ∀ b ∈ field.get
      (t.applyCondition text qualifier enableQualified enableNonQualified c), IsI32 b := by
    intro field hold
    rw [get_applyCondition]
    split
    · exact limitField_isI32 c hold
    · exact hold
  exact ⟨hfield .audioBitrate h.1, hfield .videoBitrate h.2⟩

theorem HasI32Bitrates.applyTranscodingConditions (h : t.HasI32Bitrates)
    (qualifier : Option Text) (conditions : List ProfileCondition)
    (enableQualified enableNonQualified : Bool) :
    (t.applyTranscodingConditions text qualifier conditions enableQualified
      enableNonQualified).HasI32Bitrates := by
  unfold Targets.applyTranscodingConditions
  induction conditions generalizing t with
  | nil => exact h
  | cons c conditions ih => exact ih (h.applyCondition text qualifier _ _ c)

theorem HasI32Bitrates.applyVideoProfile (h : t.HasI32Bitrates) (container : Option Text)
    (codecs : List Text) (useSubContainer : Bool) (profile : CodecProfile) :
    (applyVideoProfile text container codecs useSubContainer t profile).HasI32Bitrates := by
  unfold Dlna.applyVideoProfile
  induction codecs generalizing t with
  | nil => exact h
  | cons codec codecs ih =>
    rw [List.foldl_cons]
    refine ih ?_
    by_cases hfor : profile.containsCodec (some codec) container useSubContainer = true
    · rw [if_pos hfor]
      exact h.applyTranscodingConditions ..
    · rw [if_neg hfor]
      exact h

theorem HasI32Bitrates.applyAudioProfile (h : t.HasI32Bitrates) (container : Option Text)
    (codecs : List Text) (profile : CodecProfile) :
    (applyAudioProfile text container codecs t profile).HasI32Bitrates := by
  unfold Dlna.applyAudioProfile
  split
  · exact h.applyTranscodingConditions ..
  · exact h

theorem HasI32Bitrates.foldl {β : Type} {f : Targets → β → Targets} (h : t.HasI32Bitrates)
    (hstep : ∀ t b, t.HasI32Bitrates → (f t b).HasI32Bitrates) (l : List β) :
    (l.foldl f t).HasI32Bitrates := by
  induction l generalizing t with
  | nil => exact h
  | cons b l ih => exact ih (hstep t b h)

theorem fields_videoOptions (video : Option MediaStream) :
    (videoOptions text video t).fields =
      { t.fields with maxFramerate := video.bind (·.referenceFrameRate) } := by
  unfold videoOptions
  dsimp only
  cases video.bind (·.level) <;> cases video.bind (·.bitDepth) <;>
    cases (video.bind (·.profile)).filter (· ≠ []) <;>
    first
      | rfl
      | (simp only [fields_setOptionQualified]; rfl)

theorem fields_directAudioOptions (video : Option MediaStream) (s : MediaStream) :
    (directAudioOptions text video s t).fields =
      { t.fields with audioSampleRate := s.sampleRate } := by
  unfold directAudioOptions
  dsimp only
  cases s.profile.filter (· ≠ []) <;> cases s.level.filter (· != 0) <;>
    (simp only [fields_setOptionQualified]; rfl)

theorem HasI32Bitrates.of_fields {t' : Targets} (h : t.HasI32Bitrates)
    (haudio : t'.fields.audioBitrate = t.fields.audioBitrate)
    (hvideo : t'.fields.videoBitrate = t.fields.videoBitrate) : t'.HasI32Bitrates := by
  refine ⟨fun b hb => h.1 b ?_, fun b hb => h.2 b ?_⟩
  · exact haudio ▸ hb
  · exact hvideo ▸ hb

theorem HasI32Bitrates.sentAudio {info : StreamInfo} (h : info.targets.HasI32Bitrates)
    (video audio : Option MediaStream) (audioCodec : Option Text) (direct : Option MediaStream) :
    (sentAudio text info video audio audioCodec direct).targets.HasI32Bitrates := by
  have hvideo : (videoOptions text video info.targets).HasI32Bitrates := by
    refine h.of_fields ?_ ?_ <;> rw [fields_videoOptions]
  unfold Dlna.sentAudio
  dsimp only
  split
  · refine hvideo.of_fields ?_ ?_ <;> rw [fields_directAudioOptions]
  · exact hvideo

end Targets

/-! ### The split -/

section Split

variable {parseF64 : Text → Option Float} {text : FloatText} {info : StreamInfo}
  {options : MediaOptions} {item : MediaSourceInfo} {video audio : Option MediaStream}
  {candidates : List MediaStream} {container videoCodec audioCodec : Option Text}

/-- A difference that is a value of an `i32` is what `-` gives. -/
theorem subI32_of_isI32 {a b : Int} (h : IsI32 (a - b)) : subI32 a b = a - b := by
  unfold IsI32 at h
  exact Int.bmod_eq_of_le (by omega) (by omega)

/-- **The split of a limit**: the video has 64000 at least, and no more than what the audio leaves
where that is as much. -/
theorem splitBitrate_spec {t : Targets} {limit ab : Int} (haudio : t.audioBitrate = some ab)
    (ht : t.HasI32Bitrates) (hsub : IsI32 (limit - ab)) :
    ∃ vb, (splitBitrate (some limit) t).videoBitrate = some vb ∧ IsI32 vb ∧ 64000 ≤ vb ∧
      (ab + 64000 ≤ limit → ab + vb ≤ limit) := by
  refine ⟨_, rfl, ?_⟩
  simp only [haudio, subI32_of_isI32 hsub]
  have hold : IsI32 (t.videoBitrate.getD (limit - ab)) := by
    cases hvideo : t.videoBitrate with
    | none => exact hsub
    | some b => exact ht.2 b hvideo
  unfold IsI32 at *
  omega

theorem sentAudio_stream_isI32 (haudio : ∀ s ∈ audio, s.HasI32Bitrate)
    (hcandidates : ∀ s ∈ candidates, s.HasI32Bitrate) (failures : TranscodeReasons) :
    ∀ s ∈ (sentAudio text info video audio audioCodec (directAudioStream info video audio candidates
      videoCodec audioCodec failures)).stream, s.HasI32Bitrate := by
  intro s hs
  unfold sentAudio at hs
  dsimp only at hs
  split at hs
  · next direct hdirect =>
    cases hs
    unfold directAudioStream at hdirect
    split at hdirect
    · exact hcandidates _ (List.mem_of_find?_eq_some hdirect)
    · cases hdirect
  · exact haudio s hs

theorem audioBitrate_applyAudioProfile {t : Targets} (h : t.audioBitrate.isSome)
    (codecs : List Text) (profile : CodecProfile) :
    (applyAudioProfile text container codecs t profile).audioBitrate.isSome := by
  have hcondition : ∀ (qualifier : Option Text) (c : ProfileCondition) (t : Targets),
      t.audioBitrate.isSome →
        (t.applyCondition text qualifier true true c).audioBitrate.isSome := by
    intro qualifier c t h
    change (FieldLimit.audioBitrate.get _).isSome
    rw [Targets.get_applyCondition]
    split
    · unfold limitField
      rw [Option.isSome_or]
      exact Bool.or_eq_true_iff.mpr (.inr h)
    · exact h
  unfold applyAudioProfile
  split
  · next codec _ =>
    unfold Targets.applyTranscodingConditions
    generalize profile.conditions = conditions
    induction conditions generalizing t with
    | nil => exact h
    | cons c conditions ih => exact ih (hcondition (some codec) c t h)
  · exact h

/-- **The bitrates of a video**: what is chosen for the audio is a value of an `i32`, and where the
limit less it is one as well, the video has 64000 at least and both together keep to the limit. -/
theorem buildStreamVideoItem_bitrates {built : BuiltStream}
    (hinfo : info.targets.HasI32Bitrates) (haudio : ∀ s ∈ audio, s.HasI32Bitrate)
    (hcandidates : ∀ s ∈ candidates, s.HasI32Bitrate)
    (h : buildStreamVideoItem parseF64 text info options item video audio candidates container
      videoCodec audioCodec = .ok built) :
    ∃ ab, built.targets.audioBitrate = some ab ∧ IsI32 ab ∧
      ∀ limit, options.getMaxBitrate false = some limit → IsI32 (limit - ab) →
        ∃ vb, built.targets.videoBitrate = some vb ∧ IsI32 vb ∧ 64000 ≤ vb ∧
          (ab + 64000 ≤ limit → ab + vb ≤ limit) := by
  unfold buildStreamVideoItem at h
  dsimp only at h
  obtain ⟨failures, -, h⟩ := bind_eq_ok.mp h
  obtain ⟨videoProfiles, -, h⟩ := bind_eq_ok.mp h
  obtain ⟨audioProfiles, -, h⟩ := bind_eq_ok.mp h
  obtain rfl := Except.ok.inj h
  dsimp only
  generalize hsent : sentAudio text info video audio audioCodec (directAudioStream info video audio
    candidates videoCodec audioCodec failures) = sent
  have hstream : ∀ s ∈ sent.stream, s.HasI32Bitrate :=
    hsent ▸ sentAudio_stream_isI32 haudio hcandidates failures
  have hsentTargets : sent.targets.HasI32Bitrates :=
    hsent ▸ hinfo.sentAudio text video audio audioCodec _
  -- The conditions of the video are applied to what is sent.
  have hvideo := hsentTargets.foldl
    (fun t p ht => ht.applyVideoProfile text container
      (keptVideoCodecs info video videoCodec) (info.subProtocol = .hls) p) videoProfiles.reverse
  generalize List.foldl _ sent.targets videoProfiles.reverse = t₁ at hvideo ⊢
  generalize hchosen : getAudioBitrate _ _ _ _ = chosen
  have hchosenI32 : IsI32 chosen := hchosen ▸ getAudioBitrate_isI32 _ _ _ hstream
  -- The bitrate that is chosen for the audio limits it, and so do the conditions on it.
  generalize ht₂ : limitAudioBitrate chosen _ = t₂
  have hlimited : t₂.HasI32Bitrates := by
    rw [← ht₂]
    refine ⟨fun b hb => ?_, hvideo.2⟩
    cases hb
    cases hrate : t₁.audioBitrate with
    | none => exact hchosenI32.min hchosenI32
    | some b => exact (hvideo.1 b hrate).min hchosenI32
  have hsome : t₂.audioBitrate.isSome := by
    rw [← ht₂]
    rfl
  have hall := hlimited.foldl
    (fun t p ht => ht.applyAudioProfile text container sent.codecs p)
    audioProfiles.reverse
  have hleft : (audioProfiles.reverse.foldl (applyAudioProfile text container sent.codecs)
      t₂).audioBitrate.isSome := by
    generalize audioProfiles.reverse = profiles
    clear hall hlimited ht₂
    induction profiles generalizing t₂ with
    | nil => exact hsome
    | cons p profiles ih => exact ih _ (audioBitrate_applyAudioProfile hsome sent.codecs p)
  generalize List.foldl _ t₂ audioProfiles.reverse = t₃ at hall hleft ⊢
  obtain ⟨ab, hab⟩ := Option.isSome_iff_exists.mp hleft
  refine ⟨ab, ?_, hall.1 ab hab, fun limit hlimit hsub => ?_⟩
  · unfold splitBitrate
    split <;> exact hab
  · rw [hlimit]
    exact splitBitrate_spec hab hall hsub

/-- **The bitrates of music**: what is aimed at is a value of an `i32`. -/
theorem audioTargets_bitrate {profile : TranscodingProfile} {s : MediaStream} {t t' : Targets}
    (hoptions : options.HasI32Bitrates) (ht : t.HasI32Bitrates)
    (h : audioTargets text options profile s t = .ok t') :
    IsI32 (transcodingBitrate options) ∧ ∃ ab, t'.audioBitrate = some ab ∧ IsI32 ab ∧
      ab ≤ transcodingBitrate options := by
  have hconfigured := getMaxBitrate_isI32 hoptions true
  have htranscoding : IsI32 (transcodingBitrate options) := by
    have hasked : ∀ b ∈ (options.audioTranscodingBitrate.or
        (if options.context = .streaming then options.profile.musicStreamingTranscodingBitrate
          else none)).or (options.getMaxBitrate true), IsI32 b := by
      intro b hb
      rcases Option.or_eq_some_iff.mp hb with hb | ⟨-, hb⟩
      · rcases Option.or_eq_some_iff.mp hb with hb | ⟨-, hb⟩
        · exact hoptions.audioTranscodingBitrate b hb
        · split at hb
          · exact hoptions.musicStreamingTranscodingBitrate b hb
          · cases hb
      · exact hconfigured b hb
    unfold transcodingBitrate
    dsimp only
    generalize Option.or _ (options.getMaxBitrate true) = asked at hasked ⊢
    have hgetD : IsI32 (asked.getD 128000) := by
      cases asked with
      | none => decide
      | some b => exact hasked b rfl
    cases hmax : options.getMaxBitrate true with
    | none => exact hgetD.min hgetD
    | some b => exact hgetD.min (hconfigured b hmax)
  refine ⟨htranscoding, ?_⟩
  unfold audioTargets at h
  obtain ⟨conditions, -, h⟩ := bind_eq_ok.mp h
  obtain rfl := Except.ok.inj h
  have hprofile : (t.withTranscodingProfile profile).HasI32Bitrates := ht
  have happlied := hprofile.applyTranscodingConditions text none conditions true true
  refine ⟨_, rfl, ?_⟩
  dsimp only
  generalize Targets.applyTranscodingConditions _ _ _ _ _ _ = t₁ at happlied ⊢
  have hmin : IsI32 (min (transcodingBitrate options)
      (t₁.audioBitrate.getD (transcodingBitrate options))) := by
    cases hrate : t₁.audioBitrate with
    | none => exact htranscoding.min htranscoding
    | some b => exact htranscoding.min (happlied.1 b hrate)
  have hle := min_le_left (transcodingBitrate options)
    (t₁.audioBitrate.getD (transcodingBitrate options))
  generalize min (transcodingBitrate options) _ = bitrate at hmin hle ⊢
  have hcap : (if -2 ^ 31 ≤ bitrate ∧ bitrate < 2 ^ 31 then bitrate else 2 ^ 31 - 1) = bitrate :=
    if_pos hmin
  rw [hcap]
  exact ⟨hmin, hle⟩

end Split

/-- **Bitrates stay in their range and in the budget.**  The difference of the limit and the audio
bitrate is the only one that is taken. -/
theorem bitrates_in_budget {parseF64 : Text → Option Float} {text : FloatText} {info : StreamInfo}
    {options : MediaOptions} {item : MediaSourceInfo} {video audio : Option MediaStream}
    {candidates : List MediaStream} {container videoCodec audioCodec : Option Text}
    (hoptions : options.HasI32Bitrates) (hinfo : info.targets.HasI32Bitrates)
    (haudio : ∀ s ∈ audio, s.HasI32Bitrate) (hcandidates : ∀ s ∈ candidates, s.HasI32Bitrate) :
    (∀ built, buildStreamVideoItem parseF64 text info options item video audio candidates container
        videoCodec audioCodec = .ok built →
      ∃ ab, built.targets.audioBitrate = some ab ∧ IsI32 ab ∧
        ∀ limit, options.getMaxBitrate false = some limit → IsI32 limit ∧
          (IsI32 (limit - ab) → ∃ vb, built.targets.videoBitrate = some vb ∧ IsI32 vb ∧ 64000 ≤ vb ∧
            (ab + 64000 ≤ limit → ab + vb ≤ limit))) ∧
    (∀ total codecs t, IsI32 (getAudioBitrate total codecs audio t)) ∧
    ∀ profile s t t', t.HasI32Bitrates → audioTargets text options profile s t = .ok t' →
      IsI32 (transcodingBitrate options) ∧
        ∃ ab, t'.audioBitrate = some ab ∧ IsI32 ab ∧ ab ≤ transcodingBitrate options := by
  refine ⟨fun built h => ?_, fun total codecs t => getAudioBitrate_isI32 total codecs t haudio,
    fun profile s t t' ht h => audioTargets_bitrate hoptions ht h⟩
  obtain ⟨ab, hab, hrange, hsplit⟩ := buildStreamVideoItem_bitrates hinfo haudio hcandidates h
  exact ⟨ab, hab, hrange, fun limit hlimit =>
    ⟨getMaxBitrate_isI32 hoptions false limit hlimit, hsplit limit hlimit⟩⟩

def noFloatText : FloatText where
  parseF32 := fun _ => none
  parseF64 := fun _ => none
  display := fun _ => []

/-- A device whose condition asks for a video bitrate of 1000 at most. -/
def lowVideoBitrate (maxBitrate : Option Int) : MediaOptions where
  maxBitrate
  profile :=
    { maxStreamingBitrate := none
      codecProfiles := [{ codecType := .video, conditions :=
        [{ condition := .lessThanEqual, property := .videoBitrate, value := "1000".toList }] }] }

def lowVideoStream (maxBitrate : Option Int) : Except StreamBuilderError BuiltStream :=
  buildStreamVideoItem (fun _ => none) noFloatText {} (lowVideoBitrate maxBitrate) {} none none []
    (some "ts".toList) (some "h264".toList) none

theorem lowVideoBitrate_hasI32Bitrates {b : Int} (h : IsI32 b) :
    (lowVideoBitrate (some b)).HasI32Bitrates where
  maxBitrate b' hb' := Option.some.inj hb' ▸ h
  audioTranscodingBitrate := nofun
  maxStreamingBitrate := nofun
  maxStaticBitrate b' hb' := Option.some.inj hb' ▸ (by decide)
  maxStaticMusicBitrate b' hb' := Option.some.inj hb' ▸ (by decide)
  musicStreamingTranscodingBitrate b' hb' := Option.some.inj hb' ▸ (by decide)

def highVideo : MediaStream :=
  { index := 0, streamType := .video, codec := some "h264".toList, bitRate := some 8000000 }

def surroundAudio : MediaStream :=
  { index := 1
    streamType := .audio
    codec := some "ac3".toList
    channels := some 6
    bitRate := some 448000 }

/-- Three million for the two streams together. -/
def surroundStream : Except StreamBuilderError BuiltStream :=
  buildStreamVideoItem (fun _ => none) noFloatText {} (lowVideoBitrate (some 3000000)) {}
    (some highVideo) (some surroundAudio) [surroundAudio] (some "ts".toList)
    (some "h264".toList) (some "aac".toList)

theorem bitrates_in_budget_three_million :
    ∃ built ab vb, surroundStream = .ok built ∧ built.targets.audioBitrate = some ab ∧
      built.targets.videoBitrate = some vb ∧ 64000 ≤ vb ∧ ab + vb ≤ 3000000 := by
  cases hbuilt : surroundStream with
  | error e =>
    have hok : surroundStream.toOption.isSome = true := by decide +kernel
    rw [hbuilt] at hok
    cases hok
  | ok built =>
    have hbitrate : surroundStream.toOption.bind (·.targets.audioBitrate) = some 448000 := by
      decide +kernel
    rw [hbuilt] at hbitrate
    have hinfo : ({} : StreamInfo).targets.HasI32Bitrates := ⟨nofun, nofun⟩
    have hsurround : surroundAudio.HasI32Bitrate := fun b hb =>
      Option.some.inj hb ▸ (by decide)
    have haudio : ∀ s ∈ some surroundAudio, s.HasI32Bitrate := fun s hs =>
      Option.some.inj hs ▸ hsurround
    have hcandidates : ∀ s ∈ [surroundAudio], s.HasI32Bitrate := fun s hs =>
      List.mem_singleton.mp hs ▸ hsurround
    have h := (bitrates_in_budget (lowVideoBitrate_hasI32Bitrates (by decide)) hinfo haudio
      hcandidates).1 built hbuilt
    obtain ⟨ab, hab, -, hlimit⟩ := h
    cases hab.symm.trans hbitrate
    obtain ⟨-, hsplit⟩ := hlimit 3000000 rfl
    obtain ⟨vb, hvb, -, hfloor, hbudget⟩ := hsplit (by decide)
    exact ⟨built, 448000, vb, rfl, hab, hvb, hfloor, hbudget (by decide)⟩

/-- **Without a limit there is no floor**, and the least limit of all less any audio bitrate is no
`i32`. -/
theorem video_bitrate_below_floor :
    (lowVideoStream none).toOption.bind (·.targets.videoBitrate) = some 1000 ∧
    ∃ ab, (lowVideoStream (some (-2 ^ 31))).toOption.bind (·.targets.audioBitrate) = some ab ∧
      ¬ IsI32 (-2 ^ 31 - ab) := by
  refine ⟨by decide +kernel, 192000, by decide +kernel, by decide⟩

end Ferrofin.Dlna
