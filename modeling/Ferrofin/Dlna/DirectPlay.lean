import Ferrofin.Dlna.StreamBuilder
import Ferrofin.Lib.Fallible
import Ferrofin.Lib.ModifyFirst

/-!
# Direct play

When a video is played as it is: some direct play profile supports its container and its codecs,
and what the device's conditions say of them is met (`PlaysDirectly`).  The reasons that the
builder collects are empty exactly then (`failureReasons_eq_empty`), and the order of the analyses
puts direct play first (`direct_play_iff`).

The reasons of an audio stream are looked up by its index; two candidates of one index have the
reasons of the first (`same_index_refused`).
-/

namespace Ferrofin.Dlna

open Lib

/-! ### Conditions -/

section Conditions

variable {check : ProfileCondition → Except StreamBuilderError Bool}
  {conditions failed : List ProfileCondition} {P : ProfileCondition → Prop}

theorem allSatisfied_iff {b : Bool} (h : allSatisfied check conditions = .ok b) :
    b = true ↔ ∀ c ∈ conditions, check c = .ok true := by
  induction conditions with
  | nil =>
    cases h
    simp
  | cons c conditions ih =>
    obtain ⟨satisfied, hc, h⟩ := bind_eq_ok.mp h
    rw [List.forall_mem_cons, hc]
    cases satisfied with
    | false =>
      cases h
      simp
    | true =>
      rw [ih h]
      simp

theorem forall_checkConditions (h : checkConditions check conditions = .ok failed) :
    (∀ c ∈ failed, P c) ↔ ∀ c ∈ conditions, check c ≠ .ok true → P c := by
  induction conditions generalizing failed with
  | nil =>
    cases h
    simp
  | cons c conditions ih =>
    obtain ⟨satisfied, hc, h⟩ := bind_eq_ok.mp h
    obtain ⟨failed', hfailed', h⟩ := bind_eq_ok.mp h
    cases h
    rw [List.forall_mem_cons, hc, ← ih hfailed']
    cases satisfied <;> simp

theorem forall_mem_flatten_mapM {α β : Type} {f : α → Except StreamBuilderError (List β)}
    {l : List α} {lists : List (List β)} {P : β → Prop} (h : l.mapM f = .ok lists) :
    (∀ b ∈ lists.flatten, P b) ↔ ∀ a ∈ l, ∃ bs, f a = .ok bs ∧ ∀ b ∈ bs, P b := by
  constructor
  · intro hall a ha
    obtain ⟨bs, hbs, hfa⟩ := mem_mapM h ha
    exact ⟨bs, hfa, fun b hb => hall b (List.mem_flatten.mpr ⟨bs, hbs, hb⟩)⟩
  · intro hall b hb
    obtain ⟨bs, hbs, hb⟩ := List.mem_flatten.mp hb
    obtain ⟨a, ha, hfa⟩ := exists_of_mem_mapM h hbs
    obtain ⟨bs', hfa', hP⟩ := hall a ha
    cases hfa.symm.trans hfa'
    exact hP b hb

def Met (check : ProfileCondition → Except StreamBuilderError Bool)
    (conditions : List ProfileCondition) : Prop :=
  ∀ c ∈ conditions, getTranscodeReasonForFailedCondition c ≠ ∅ → check c = .ok true

def CodecProfilesMet (check : ProfileCondition → Except StreamBuilderError Bool)
    (applies : CodecProfile → Bool) (profiles : List CodecProfile) : Prop :=
  ∀ profile ∈ profiles, applies profile = true →
    (∀ c ∈ profile.applyConditions, check c = .ok true) → Met check profile.conditions

theorem met_iff (h : checkConditions check conditions = .ok failed) :
    aggregateFailureConditions failed = ∅ ↔ Met check conditions := by
  rw [aggregateFailureConditions_eq_empty, forall_checkConditions h]
  exact forall₂_congr fun c _ => not_imp_comm

theorem codecProfilesMet_iff {applies : CodecProfile → Bool} {profiles : List CodecProfile}
    (h : checkCodecProfiles check applies profiles = .ok failed) :
    aggregateFailureConditions failed = ∅ ↔ CodecProfilesMet check applies profiles := by
  obtain ⟨lists, hlists, h⟩ := bind_eq_ok.mp h
  cases h
  rw [aggregateFailureConditions_eq_empty, forall_mem_flatten_mapM hlists]
  refine forall₂_congr fun profile hprofile => ?_
  obtain ⟨bs, _, hbs⟩ := mem_mapM hlists hprofile
  rw [hbs]
  simp only [Except.ok.injEq, exists_eq_left']
  split at hbs
  · next happlies =>
    obtain ⟨satisfied, hsatisfied, hbs⟩ := bind_eq_ok.mp hbs
    rw [← allSatisfied_iff hsatisfied]
    cases satisfied with
    | false =>
      cases hbs
      simp
    | true =>
      rw [← met_iff hbs, aggregateFailureConditions_eq_empty]
      simp [happlies]
  · next happlies =>
    cases hbs
    simp [happlies]

end Conditions

/-! ### What plays directly -/

section PlaysDirectly

variable (support : Support) (options : MediaOptions) (item : MediaSourceInfo)
  (video : Option MediaStream) (candidates : List MediaStream) (subtitle : Option MediaStream)

/-- The audio conditions of the device are met by a stream, which is part of the file. -/
def AudioMet (stream : MediaStream) : Prop :=
  stream.isExternal = false ∧
    CodecProfilesMet
      (isVideoAudioConditionSatisfied
        (stream.videoAudioValues ((item.isSecondaryAudio stream).getD false)))
      (appliesToCodec .videoAudio stream.codec (item.container.getD []))
      options.profile.codecProfiles

structure VideoMet : Prop where
  container : ∀ profile ∈ options.profile.containerProfiles,
    appliesToContainer (item.container.getD []) profile = true →
      Met (isVideoConditionSatisfied support.parseF64 (item.videoValues video)) profile.conditions
  codec : ∀ stream, video = some stream →
    CodecProfilesMet (isVideoConditionSatisfied support.parseF64 (item.videoValues (some stream)))
      (appliesToCodec .video stream.codec (item.container.getD [])) options.profile.codecProfiles

def SubtitleMet : Prop := ∀ stream, subtitle = some stream →
  (getSubtitleProfile support item stream .directPlay options.profile.subtitleProfiles
    (some (item.container.getD [])) none).method ≠ .encode

structure PlaysDirectly (profile : DirectPlayProfile) : Prop where
  container : profile.supportsContainer (some (item.container.getD [])) = true
  videoCodec : profile.supportsVideoCodec (video.bind (·.codec)) = true
  audioCodec : candidates ≠ [] → ∃ a ∈ candidates, profile.supportsAudioCodec a.codec = true
  audioMet : ∀ a, selectedAudioStream candidates profile = some a → AudioMet options item a
  videoMet : VideoMet support options item video
  subtitleMet : SubtitleMet support options item subtitle

end PlaysDirectly

section Reasons

variable {support : Support} {options : MediaOptions} {item : MediaSourceInfo}
  {video : Option MediaStream} {candidates : List MediaStream} {subtitle : Option MediaStream}

theorem getCompatibilityAudioCodecDirect_eq_empty {stream : MediaStream}
    {reasons : TranscodeReasons}
    (h : getCompatibilityAudioCodecDirect options item (item.container.getD []) stream =
      .ok reasons) : reasons = ∅ ↔ AudioMet options item stream := by
  obtain ⟨failures, hfailures, h⟩ := bind_eq_ok.mp h
  obtain ⟨failed, hfailed, hfailures⟩ := bind_eq_ok.mp hfailures
  cases h
  cases hfailures
  rw [Option.none_or] at hfailed
  rw [AudioMet, ← codecProfilesMet_iff hfailed]
  cases stream.isExternal <;> simp

/-- What is not delivered with the video, nor beside it, is burned in: there is no other way of
delivery for what is played as it is. -/
theorem getSubtitleProfile_method (support : Support) (item : MediaSourceInfo)
    (stream : MediaStream) (profiles : List SubtitleProfile)
    (outputContainer : Option Text)
    (protocol : Option MediaStreamProtocol) :
    (getSubtitleProfile support item stream .directPlay profiles outputContainer
      protocol).method ∈ [SubtitleDeliveryMethod.embed, .external, .encode] := by
  have hembeds : ∀ same profile, profiles.find?
      (embeds stream .directPlay outputContainer same) = some profile →
        profile.method = .embed := by
    intro same profile h
    have := List.find?_some h
    simp only [embeds, Bool.and_eq_true, decide_eq_true_eq] at this
    exact this.1.1.1.2
  have hexternal : ∀ allow profile, getExternalSubtitleProfile support item stream .directPlay
      profiles allow = some profile → profile.method = .external := by
    intro allow profile h
    have := List.find?_some h
    simp only [deliversExternally, Bool.and_eq_true, Bool.or_eq_true, decide_eq_true_eq,
      Bool.not_eq_true', Bool.and_eq_false_iff, decide_eq_false_iff_not] at this
    obtain ⟨⟨⟨⟨⟨hmethod, hhls⟩, _⟩, _⟩, _⟩, _⟩ := this
    exact hmethod.resolve_right fun h => hhls.elim (· h) (· (by decide))
  unfold getSubtitleProfile
  generalize hfound : Option.or _ _ = found
  cases found with
  | none => simp
  | some profile =>
    rcases Option.or_eq_some_iff.mp hfound with hfirst | ⟨_, hallowed⟩
    · rcases Option.or_eq_some_iff.mp hfirst with hembedded | ⟨_, hkept⟩
      · split at hembedded
        · rcases Option.or_eq_some_iff.mp hembedded with hsame | ⟨_, hconverted⟩
          · simp [hembeds _ _ hsame]
          · simp [hembeds _ _ hconverted]
        · cases hembedded
      · simp [hexternal _ _ hkept]
    · simp [hexternal _ _ hallowed]

theorem videoReasons_eq_empty {compat : Compatibility}
    (h : compatibility support options item video candidates subtitle = .ok compat) :
    compat.containerReasons = ∅ ∧ compat.videoReasons = ∅ ↔
      VideoMet support options item video := by
  obtain ⟨containerReasons, hcontainer, h⟩ := bind_eq_ok.mp h
  obtain ⟨videoReasons, hvideo, h⟩ := bind_eq_ok.mp h
  obtain ⟨audioMatches, _, h⟩ := bind_eq_ok.mp h
  cases h
  have hcontainers : containerReasons = ∅ ↔ ∀ profile ∈ options.profile.containerProfiles,
      appliesToContainer (item.container.getD []) profile = true →
        Met (isVideoConditionSatisfied support.parseF64 (item.videoValues video))
          profile.conditions := by
    obtain ⟨lists, hlists, hcontainer⟩ := bind_eq_ok.mp hcontainer
    cases hcontainer
    rw [aggregateFailureConditions_eq_empty, forall_mem_flatten_mapM hlists]
    refine forall₂_congr fun profile hprofile => ?_
    obtain ⟨bs, _, hbs⟩ := mem_mapM hlists hprofile
    rw [hbs]
    simp only [Except.ok.injEq, exists_eq_left']
    split at hbs
    · next happlies =>
      rw [← met_iff hbs, aggregateFailureConditions_eq_empty]
      simp [happlies]
    · next happlies =>
      cases hbs
      simp [happlies]
  have hcodecs : videoReasons = ∅ ↔ ∀ stream, video = some stream →
      CodecProfilesMet
        (isVideoConditionSatisfied support.parseF64 (item.videoValues (some stream)))
        (appliesToCodec .video stream.codec (item.container.getD []))
        options.profile.codecProfiles := by
    cases video with
    | none =>
      cases hvideo
      simp
    | some stream =>
      obtain ⟨failed, hfailed, hvideo⟩ := bind_eq_ok.mp hvideo
      cases hvideo
      rw [codecProfilesMet_iff hfailed]
      simp
  rw [hcontainers, hcodecs]
  exact ⟨fun h => ⟨h.1, h.2⟩, fun h => ⟨h.1, h.2⟩⟩

theorem subtitleReasons_eq_empty {compat : Compatibility}
    (h : compatibility support options item video candidates subtitle = .ok compat) :
    compat.subtitleReasons = ∅ ↔ SubtitleMet support options item subtitle := by
  obtain ⟨_, _, h⟩ := bind_eq_ok.mp h
  obtain ⟨_, _, h⟩ := bind_eq_ok.mp h
  obtain ⟨_, _, h⟩ := bind_eq_ok.mp h
  cases h
  unfold SubtitleMet
  cases subtitle with
  | none => simp
  | some stream =>
    have hmethod := getSubtitleProfile_method support item stream
      options.profile.subtitleProfiles (some (item.container.getD [])) none
    simp only [List.mem_cons, List.not_mem_nil, or_false] at hmethod
    rcases hmethod with hmethod | hmethod | hmethod <;> simp [hmethod]

/-- With candidates of different indices, the reasons that are found for one are its own. -/
theorem audioReasons_eq_empty {compat : Compatibility}
    (h : compatibility support options item video candidates subtitle = .ok compat)
    (hnodup : (candidates.map (·.index)).Nodup) {a : MediaStream} (ha : a ∈ candidates) :
    ((compat.audioMatches.find? (·.1 = a.index)).map (·.2)).getD ∅ = ∅ ↔
      AudioMet options item a := by
  obtain ⟨_, _, h⟩ := bind_eq_ok.mp h
  obtain ⟨_, _, h⟩ := bind_eq_ok.mp h
  obtain ⟨audioMatches, hmatches, h⟩ := bind_eq_ok.mp h
  cases h
  have hkeys : audioMatches.map (·.1) = candidates.map (·.index) := by
    refine map_of_mapM (fun a b hb => ?_) hmatches
    obtain ⟨reasons, _, hb⟩ := bind_eq_ok.mp hb
    cases hb
    rfl
  obtain ⟨b, hmem, hb⟩ := mem_mapM hmatches ha
  obtain ⟨reasons, hreasons, hb⟩ := bind_eq_ok.mp hb
  cases hb
  have hfind := find?_key (hkeys ▸ hnodup) hmem
  rw [hfind]
  exact getCompatibilityAudioCodecDirect_eq_empty hreasons

theorem union_unless_mem_eq_empty {reason : TranscodeReason} {reasons more : TranscodeReasons} :
    (if reason ∈ reasons then reasons else reasons ∪ more) = ∅ ↔ reasons = ∅ ∧ more = ∅ := by
  split
  · next hmem =>
    have hne : reasons ≠ ∅ := fun h => absurd (h ▸ hmem) (Finset.notMem_empty reason)
    exact ⟨fun h => absurd h hne, fun h => absurd h.1 hne⟩
  · exact Finset.union_eq_empty

/-- **Nothing keeps a profile from playing the source exactly where it plays it as it is.** -/
theorem failureReasons_eq_empty {compat : Compatibility}
    (h : compatibility support options item video candidates subtitle = .ok compat)
    (hnodup : (candidates.map (·.index)).Nodup) (profile : DirectPlayProfile) :
    failureReasons item video candidates compat profile = ∅ ↔
      PlaysDirectly support options item video candidates subtitle profile := by
  have hvideo := videoReasons_eq_empty h
  have hsubtitle := subtitleReasons_eq_empty h
  have hselected : candidates.isEmpty || (selectedAudioStream candidates profile).isSome ↔
      (candidates ≠ [] → ∃ a ∈ candidates, profile.supportsAudioCodec a.codec = true) := by
    rw [selectedAudioStream, Bool.or_eq_true, List.find?_isSome, List.isEmpty_iff]
    exact Decidable.or_iff_not_imp_left
  have haudio : ∀ a, selectedAudioStream candidates profile = some a →
      (((compat.audioMatches.find? (·.1 = a.index)).map (·.2)).getD ∅ = ∅ ↔
        AudioMet options item a) := by
    intro a hselect
    have ha : a ∈ candidates := List.mem_of_find?_eq_some hselect
    simpa using audioReasons_eq_empty h hnodup ha
  simp only [failureReasons, union_unless_mem_eq_empty, Finset.union_eq_empty, ite_eq_left_iff,
    Finset.singleton_ne_empty, imp_false, not_not, hselected, hsubtitle]
  constructor
  · rintro ⟨⟨⟨⟨⟨⟨hcontainer, hcodec⟩, hsome⟩, hcontainers⟩, hsub⟩, hcodecs⟩, hmet⟩
    refine ⟨hcontainer, hcodec, hsome, fun a hselect => ?_, hvideo.mp ⟨hcontainers, hcodecs⟩, hsub⟩
    rw [hselect] at hmet
    exact (haudio a hselect).mp hmet
  · intro hplays
    obtain ⟨hcontainers, hcodecs⟩ := hvideo.mpr hplays.videoMet
    refine ⟨⟨⟨⟨⟨⟨hplays.container, hplays.videoCodec⟩, hplays.audioCodec⟩, hcontainers⟩,
      hplays.subtitleMet⟩, hcodecs⟩, ?_⟩
    cases hselect : selectedAudioStream candidates profile with
    | none => rfl
    | some a => exact (haudio a hselect).mpr (hplays.audioMet a hselect)

end Reasons

/-! ### The best profile -/

/-- The first that is looked for in an ordered list comes before the others. -/
theorem find?_of_pairwise {α : Type} {r : α → α → Prop} {l : List α} {p : α → Bool} {a b : α}
    (hl : l.Pairwise r) (ha : l.find? p = some a) (hb : b ∈ l) (hp : p b = true) :
    a = b ∨ r a b := by
  obtain ⟨_, as, bs, rfl, hbefore⟩ := List.find?_eq_some_iff_append.mp ha
  rcases List.mem_append.mp hb with hb | hb
  · have hno := hbefore b hb
    rw [hp] at hno
    cases hno
  · rcases List.mem_cons.mp hb with rfl | hb
    · exact .inl rfl
    · exact .inr ((List.pairwise_cons.mp (List.pairwise_append.mp hl).2.1).1 b hb)

section Best

variable {options : MediaOptions} {item : MediaSourceInfo} {video : Option MediaStream}
  {candidates : List MediaStream} {directPlay directStream : Bool} {compat : Compatibility}

theorem analyzed_pairwise :
    (analyzed options item video candidates directPlay directStream compat).Pairwise
      fun a b => a.key ≤ b.key := by
  have htotal : Std.Total fun a b : Analysis => a.key ≤ b.key := ⟨fun a b => le_total _ _⟩
  have htrans : IsTrans Analysis fun a b => a.key ≤ b.key := ⟨fun _ _ _ => le_trans⟩
  exact List.pairwise_insertionSort _ _

theorem exists_of_mem_analyzed {a : Analysis}
    (h : a ∈ analyzed options item video candidates directPlay directStream compat) :
    ∃ profile ∈ videoProfiles options, ∃ order,
      a = analyze item video candidates directPlay directStream compat profile order := by
  obtain ⟨⟨profile, order⟩, horder, rfl⟩ :=
    List.mem_map.mp ((List.mem_insertionSort _).mp h)
  exact ⟨profile, List.mem_of_getElem? (List.mk_mem_zipIdx_iff_getElem?.mp horder), order, rfl⟩

theorem exists_analyze_mem_analyzed {profile : DirectPlayProfile}
    (h : profile ∈ videoProfiles options) :
    ∃ order, analyze item video candidates directPlay directStream compat profile order ∈
      analyzed options item video candidates directPlay directStream compat := by
  obtain ⟨order, horder⟩ := List.mem_iff_getElem?.mp h
  exact ⟨order, (List.mem_insertionSort _).mpr (List.mem_map.mpr
    ⟨(profile, order), List.mk_mem_zipIdx_iff_getElem?.mpr horder, rfl⟩)⟩

theorem playMethod_of_key_le {a b : Analysis} (h : a.key ≤ b.key)
    (hb : b.playMethod = some .directPlay)
    (ha : a.playMethod = some .directPlay ∨ a.playMethod = some .directStream ∨
      a.playMethod = none) : a.playMethod = some .directPlay := by
  have hfst := Prod.Lex.monotone_fst _ _ h
  have hord : playMethodOrd b.playMethod ≤ playMethodOrd a.playMethod := hfst
  rcases ha with ha | ha | ha
  · exact ha
  · rw [ha, hb] at hord
    exact absurd hord (by decide)
  · rw [ha, hb] at hord
    exact absurd hord (by decide)

theorem analyze_playMethod (profile : DirectPlayProfile) (order : Nat) :
    let a := analyze item video candidates directPlay directStream compat profile order
    (a.playMethod = some .directPlay ↔
      failureReasons item video candidates compat profile = ∅ ∧ directPlay = true ∧
        item.supportsDirectPlay = true) ∧
      (a.playMethod = some .directPlay ∨ a.playMethod = some .directStream ∨
        a.playMethod = none) := by
  dsimp only [analyze]
  split
  · next hplays => simpa [and_assoc] using hplays
  · next hplays =>
    split <;> simpa [and_assoc] using hplays

theorem spec_of_mem_analyzed {a : Analysis}
    (h : a ∈ analyzed options item video candidates directPlay directStream compat) :
    ∃ profile ∈ videoProfiles options,
      a.transcodeReason = failureReasons item video candidates compat profile ∧
      a.audioStreamIndex = (selectedAudioStream candidates profile).map (·.index) ∧
      (a.playMethod = some .directPlay ↔
        failureReasons item video candidates compat profile = ∅ ∧ directPlay = true ∧
          item.supportsDirectPlay = true) := by
  obtain ⟨profile, hprofile, order, rfl⟩ := exists_of_mem_analyzed h
  exact ⟨profile, hprofile, rfl, rfl, (analyze_playMethod profile order).1⟩

theorem find?_analyzed_of_directPlay (directStream : Bool) {profile : DirectPlayProfile}
    (h : profile ∈ videoProfiles options)
    (hnone : failureReasons item video candidates compat profile = ∅) (hdirect : directPlay = true)
    (hsupports : item.supportsDirectPlay = true) :
    ∃ a, (analyzed options item video candidates directPlay directStream compat).find?
      (·.playMethod.isSome) = some a ∧ a.playMethod = some .directPlay := by
  obtain ⟨b, hb, hplay⟩ :
      ∃ b ∈ analyzed options item video candidates directPlay directStream compat,
        b.playMethod = some .directPlay := by
    obtain ⟨order, hmem⟩ := exists_analyze_mem_analyzed h
    exact ⟨_, hmem, (analyze_playMethod profile order).1.mpr ⟨hnone, hdirect, hsupports⟩⟩
  have hsome : b.playMethod.isSome = true := by rw [hplay]; rfl
  obtain ⟨a, ha⟩ :
      ∃ a, (analyzed options item video candidates directPlay directStream compat).find?
        (·.playMethod.isSome) = some a :=
    Option.isSome_iff_exists.mp (List.find?_isSome.mpr ⟨b, hb, hsome⟩)
  refine ⟨a, ha, ?_⟩
  rcases find?_of_pairwise analyzed_pairwise ha hb hsome with rfl | hle
  · exact hplay
  · obtain ⟨profile', _, order', rfl⟩ := exists_of_mem_analyzed (List.mem_of_find?_eq_some ha)
    exact playMethod_of_key_le hle hplay (analyze_playMethod profile' order').2

end Best

/-! ### The decision -/

section Decision

variable {support : Support} {options : MediaOptions} {item : MediaSourceInfo}
  {video audio : Option MediaStream} {candidates : List MediaStream}
  {subtitle : Option MediaStream} {directPlay directStream : Bool} {direct : DirectPlayInfo}

theorem getVideoDirectPlayProfile_iff (hplay : options.forceDirectPlay = false)
    (hstream : options.forceDirectStream = false) (hnodup : (candidates.map (·.index)).Nodup)
    (h : getVideoDirectPlayProfile support options item video audio candidates subtitle directPlay
      directStream = .ok direct) :
    (direct.playMethod = some .directPlay ↔ directPlay = true ∧ item.supportsDirectPlay = true ∧
      ∃ profile ∈ videoProfiles options,
        PlaysDirectly support options item video candidates subtitle profile) ∧
    (direct.playMethod = some .directPlay → direct.transcodeReasons = ∅ ∧
      ∃ profile ∈ videoProfiles options,
        PlaysDirectly support options item video candidates subtitle profile ∧
          direct.audioStreamIndex = (selectedAudioStream candidates profile).map (·.index)) := by
  unfold getVideoDirectPlayProfile at h
  rw [if_neg (by simp [hplay]), if_neg (by simp [hstream])] at h
  obtain ⟨compat, hcompat, h⟩ := bind_eq_ok.mp h
  have hplays := failureReasons_eq_empty hcompat hnodup
  simp only [← hplays]
  cases hfind : (analyzed options item video candidates directPlay directStream compat).find?
      (·.playMethod.isSome) with
  | none =>
    simp only [hfind] at h
    cases h
    refine ⟨⟨(fun h => by cases h), fun ⟨hdirect, hsupports, hprofile⟩ => ?_⟩,
      fun h => by cases h⟩
    obtain ⟨profile, hprofile, hnone⟩ := hprofile
    obtain ⟨a, ha, _⟩ := find?_analyzed_of_directPlay directStream hprofile hnone hdirect hsupports
    rw [hfind] at ha
    cases ha
  | some found =>
    simp only [hfind] at h
    obtain rfl := Except.ok.inj h
    obtain ⟨profile, hprofile, hreasons, hindex, hiff⟩ :=
      spec_of_mem_analyzed (List.mem_of_find?_eq_some hfind)
    refine ⟨⟨fun hdirect => ?_, fun ⟨hdirect, hsupports, hprofile'⟩ => ?_⟩, fun hdirect => ?_⟩
    · obtain ⟨hnone, hdirect, hsupports⟩ := hiff.mp hdirect
      exact ⟨hdirect, hsupports, profile, hprofile, hnone⟩
    · obtain ⟨profile', hprofile', hnone⟩ := hprofile'
      obtain ⟨a, ha, hdirect⟩ :=
        find?_analyzed_of_directPlay directStream hprofile' hnone hdirect hsupports
      cases hfind.symm.trans ha
      exact hdirect
    · have hnone := (hiff.mp hdirect).1
      exact ⟨hreasons.trans hnone, profile, hprofile, hnone, hindex⟩

theorem playDirectly_spec {info info' : StreamInfo} {playMethod : PlayMethod}
    (h : playDirectly support item options video audio candidates subtitle info direct playMethod =
      .ok info') :
    info'.playMethod = playMethod ∧ (playMethod = .directPlay →
      ∀ index, direct.audioStreamIndex = some index → info'.audioStreamIndex = some index) := by
  obtain ⟨built, hbuilt, h⟩ := bind_eq_ok.mp h
  have hspec : built.playMethod = playMethod ∧ (playMethod = .directPlay →
      ∀ index, direct.audioStreamIndex = some index → built.audioStreamIndex = some index) := by
    split at hbuilt
    · next hdirect =>
      split at hbuilt
      · next hnone =>
        cases hbuilt
        refine ⟨rfl, fun _ index hindex => ?_⟩
        rw [hindex] at hnone
        cases hnone
      · next index hindex =>
        cases hbuilt
        refine ⟨rfl, fun _ index' hindex' => ?_⟩
        rw [hindex'] at hindex
        exact hindex.symm
    · next hdirect =>
      split at hbuilt
      · obtain ⟨stream, _, hbuilt⟩ := bind_eq_ok.mp hbuilt
        cases hbuilt
        exact ⟨rfl, fun h => absurd h hdirect⟩
      · cases hbuilt
        exact ⟨rfl, fun h => absurd h hdirect⟩
  cases h
  unfold withSubtitle
  cases subtitle <;> exact hspec

@[simp] theorem withSubtitle_playMethod (info : StreamInfo) (playMethod : PlayMethod)
    (outputContainer : Option Text) (protocol : Option MediaStreamProtocol) :
    (withSubtitle support item options subtitle info playMethod outputContainer
      protocol).playMethod = info.playMethod := by
  unfold withSubtitle
  cases subtitle <;> rfl

theorem transcode_playMethod {info info' : StreamInfo}
    (h : transcode support item options video audio candidates subtitle info = .ok info')
    (hinfo : info.playMethod ≠ .directPlay) : info'.playMethod ≠ .directPlay := by
  obtain ⟨profile, _, h⟩ := bind_eq_ok.mp h
  cases profile with
  | none =>
    cases h
    exact hinfo
  | some profile =>
    obtain ⟨built, _, h⟩ := bind_eq_ok.mp h
    dsimp only at h
    split at h <;> cases h <;> simp

theorem isEligibleForDirectPlay_iff (hplay : options.forceDirectPlay = false) :
    isEligibleForDirectPlay item options = true ↔ options.enableDirectPlay = true ∧
      item.videoType ≠ some .dvd ∧ item.videoType ≠ some .bluRay ∧
      isManifestContainer item.container = false ∧
      isBitrateLimitExceeded item ((options.getMaxBitrate false).getD 0) = false := by
  simp only [isEligibleForDirectPlay, hplay, Bool.false_or, Bool.and_eq_true, Bool.not_eq_true',
    decide_eq_true_eq]
  tauto

end Decision

def Plays (support : Support) (options : MediaOptions) (item : MediaSourceInfo)
    (profile : DirectPlayProfile) : Prop :=
  profile ∈ options.profile.directPlayProfiles ∧ profile.profileType = .video ∧
    PlaysDirectly support options item item.videoStream
      (candidateAudioStreams options item (audioStream item options)) (subtitleStream item options)
      profile

/-- **Direct play.** -/
theorem direct_play_iff (support : Support) (options : MediaOptions) (item : MediaSourceInfo)
    (hplay : options.forceDirectPlay = false) (hstream : options.forceDirectStream = false)
    (hnodup : ((candidateAudioStreams options item (audioStream item options)).map
      (·.index)).Nodup) {info : StreamInfo} (h : buildVideoItem support item options = .ok info) :
    (info.playMethod = .directPlay ↔ options.enableDirectPlay = true ∧
      item.supportsDirectPlay = true ∧ item.videoType ≠ some .dvd ∧
      item.videoType ≠ some .bluRay ∧ isManifestContainer item.container = false ∧
      isBitrateLimitExceeded item ((options.getMaxBitrate false).getD 0) = false ∧
      ∃ profile, Plays support options item profile) ∧
    (info.playMethod = .directPlay → info.transcodeReasons = ∅ ∧
      ∃ profile, Plays support options item profile ∧
        ∀ a, selectedAudioStream (candidateAudioStreams options item (audioStream item options))
          profile = some a → info.audioStreamIndex = some a.index) := by
  obtain ⟨first, hfirst, h⟩ := bind_eq_ok.mp h
  -- The first part of the decision, before anything is transcoded.
  have hspec : (first.playMethod = .directPlay ↔ isEligibleForDirectPlay item options = true ∧
        item.supportsDirectPlay = true ∧ ∃ profile, Plays support options item profile) ∧
      (first.playMethod = .directPlay → first.transcodeReasons = ∅ ∧
        ∃ profile, Plays support options item profile ∧
          ∀ a, selectedAudioStream
            (candidateAudioStreams options item (audioStream item options)) profile = some a →
              first.audioStreamIndex = some a.index) := by
    split at hfirst
    · next heligible =>
      obtain ⟨direct, hdirect, hfirst⟩ := bind_eq_ok.mp hfirst
      obtain ⟨built, hbuilt, hfirst⟩ := bind_eq_ok.mp hfirst
      cases hfirst
      obtain ⟨hiff, hfound⟩ := getVideoDirectPlayProfile_iff hplay hstream hnodup hdirect
      have hmethod : built.playMethod = .directPlay ↔ direct.playMethod = some .directPlay := by
        cases hdp : direct.playMethod with
        | none =>
          simp only [hdp] at hbuilt
          cases hbuilt
          simp
        | some playMethod =>
          simp only [hdp] at hbuilt
          rw [(playDirectly_spec hbuilt).1, Option.some.injEq]
      have hplays : (∃ profile ∈ videoProfiles options,
          PlaysDirectly support options item item.videoStream
            (candidateAudioStreams options item (audioStream item options))
            (subtitleStream item options) profile) ↔
          ∃ profile, Plays support options item profile := by
        refine exists_congr fun profile => ?_
        rw [videoProfiles, List.mem_filter, decide_eq_true_eq, and_assoc, Plays]
      refine ⟨by rw [hmethod, hiff, hplays], fun hdirectPlay => ?_⟩
      obtain ⟨hreasons, profile, hprofile, hplaysDirectly, hindex⟩ :=
        hfound (hmethod.mp hdirectPlay)
      have hlimit := ((isEligibleForDirectPlay_iff hplay).mp
        (hiff.mp (hmethod.mp hdirectPlay)).1).2.2.2.2
      refine ⟨by simp [hreasons, hlimit], profile, ?_, fun a ha => ?_⟩
      · obtain ⟨hmem, htype⟩ := List.mem_filter.mp hprofile
        exact ⟨hmem, of_decide_eq_true htype, hplaysDirectly⟩
      · simp only [hmethod.mp hdirectPlay] at hbuilt
        exact (playDirectly_spec hbuilt).2 rfl _ (by rw [hindex, ha]; rfl)
    · next heligible =>
      cases hfirst
      simp only [Bool.or_eq_true, not_or, Bool.not_eq_true] at heligible
      simp [heligible.1]
  have hlast : first.playMethod = .directPlay ∧ first = info ∨
      first.playMethod ≠ .directPlay ∧ info.playMethod ≠ .directPlay := by
    split at h
    · next hmethod =>
      have heq : first = info := Except.ok.inj h
      by_cases hdirect : first.playMethod = .directPlay
      · exact .inl ⟨hdirect, heq⟩
      · exact .inr ⟨hdirect, heq ▸ hdirect⟩
    · next hmethod =>
      have hnot : first.playMethod ≠ .directPlay := fun hdirect => hmethod (.inr hdirect)
      exact .inr ⟨hnot, transcode_playMethod h hnot⟩
  obtain ⟨hiff, hfound⟩ := hspec
  rw [isEligibleForDirectPlay_iff hplay] at hiff
  rcases hlast with ⟨hdirect, rfl⟩ | ⟨hfirst, hinfo⟩
  · exact ⟨hiff.trans (by tauto), hfound⟩
  · refine ⟨⟨fun hdirect => absurd hdirect hinfo, fun hplays => ?_⟩,
      fun hdirect => absurd hdirect hinfo⟩
    exact absurd (hiff.mpr (by tauto)) hfirst

/-- A server that reads no number with a point, and remuxes and transcodes nothing. -/
def directOnly : Support where
  parseF64 := fun _ => none
  floatText := ⟨fun _ => none, fun _ => none, fun _ => []⟩
  canExtractSubtitles := fun _ => false
  buildStreamVideoItem := fun info _ _ _ _ _ _ _ _ =>
    .ok ⟨info.videoCodecs, info.audioCodecs, info.audioStreamIndex, info.transcodeReasons,
      info.targets⟩

/-- Videos in Matroska with `ac3`. -/
def ac3Profile : DirectPlayProfile where
  container := "mkv,webm".toList
  audioCodec := some "ac3".toList
  videoCodec := some "-vp9".toList
  profileType := .video

def ac3Player : MediaOptions where
  enableDirectStream := false
  profile :=
    { directPlayProfiles := [ac3Profile]
      codecProfiles := [{ codecType := .videoAudio, codec := some "aac".toList
                          conditions := [⟨.lessThanEqual, .audioChannels, "2".toList, false⟩] }] }

def twoTracks (aacIndex ac3Index : Int) : MediaSourceInfo where
  container := some "mkv".toList
  bitrate := some 5000000
  mediaStreams := [{ index := 0, streamType := .video, codec := some "h264".toList },
    { index := aacIndex, streamType := .audio, codec := some "aac".toList, channels := some 6 },
    { index := ac3Index, streamType := .audio, codec := some "ac3".toList, channels := some 6 }]

def twoTracksInfo : StreamInfo where
  playMethod := .directPlay
  container := some "mkv".toList
  videoCodecs := ["h264".toList]
  audioCodecs := ["ac3".toList]
  audioStreamIndex := some 2

theorem direct_play_iff_two_tracks :
    twoTracksInfo.transcodeReasons = ∅ ∧ ∃ profile,
      Plays directOnly ac3Player (twoTracks 1 2) profile :=
  have h := (direct_play_iff directOnly ac3Player (twoTracks 1 2) rfl rfl (by decide)
    (show buildVideoItem directOnly (twoTracks 1 2) ac3Player = .ok twoTracksInfo by rfl)).2 rfl
  ⟨h.1, h.2.imp fun _ h => h.1⟩

/-- Where both streams have one index, the reasons of the first keep the second from being played,
which alone the player asks for. -/
theorem same_index_refused :
    ∃ info, buildVideoItem directOnly (twoTracks 1 1) ac3Player = .ok info ∧
      info.playMethod ≠ .directPlay ∧ ac3Player.forceDirectPlay = false ∧
      ac3Player.forceDirectStream = false ∧ ac3Player.enableDirectPlay = true ∧
      (twoTracks 1 1).supportsDirectPlay = true ∧ (twoTracks 1 1).videoType = none ∧
      isManifestContainer (twoTracks 1 1).container = false ∧
      isBitrateLimitExceeded (twoTracks 1 1) ((ac3Player.getMaxBitrate false).getD 0) = false ∧
      Plays directOnly ac3Player (twoTracks 1 1) ac3Profile := by
  have hbuild : buildVideoItem directOnly (twoTracks 1 1) ac3Player =
      .ok { audioStreamIndex := some 1, transcodeReasons := {.audioChannelsNotSupported} } := by
    rfl
  refine ⟨_, hbuild, by decide, rfl, rfl, rfl, rfl, rfl, by decide, by decide,
    List.mem_singleton.mpr rfl, rfl, ?_⟩
  exact {
    container := by decide
    videoCodec := by decide
    audioCodec := fun _ => ⟨_, .tail _ (.head _), by decide⟩
    audioMet := by
      intro a ha
      cases ha
      refine ⟨rfl, fun profile hprofile happlies => ?_⟩
      rw [List.mem_singleton.mp hprofile] at happlies
      exact absurd happlies (by decide)
    videoMet := {
      container := fun _ h => absurd h List.not_mem_nil
      codec := by
        intro stream hstream profile hprofile happlies
        rw [List.mem_singleton.mp hprofile] at happlies
        exact absurd happlies (by simp [appliesToCodec]) }
    subtitleMet := fun _ h => by cases h }

end Ferrofin.Dlna
