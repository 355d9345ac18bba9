import Mathlib.Data.List.Sort
import Mathlib.Tactic.Linarith
import Ferrofin.Lib.Fallible

/-!
# Credit scenes

The alternative credits analyzer looks for dense runs of black keyframes.  Runs close to each
other are merged, and a scene starts at its first keyframe that is black enough to be the cut
into the credits.  Times are rationals, relative to the start of the credits window.
-/

namespace Ferrofin.IntroSkipper

open List (cons_ne_nil mem_cons mem_cons_of_mem mem_cons_self mem_filter mem_singleton
  pairwise_cons)

structure BlackFrame where
  percentage : Int
  time : ℚ
  frame : Int
  deriving DecidableEq

structure CreditScene where
  startFrame : Int
  endFrame : Int
  startTime : ℚ
  endTime : ℚ
  deriving DecidableEq

def CreditScene.duration (s : CreditScene) : ℚ := s.endTime - s.startTime

def sceneOf (start last : BlackFrame) : CreditScene :=
  ⟨start.frame, last.frame, start.time, last.time⟩

def CreditScene.upTo (s t : CreditScene) : CreditScene :=
  ⟨s.startFrame, t.endFrame, s.startTime, t.endTime⟩

/-! ### Density -/

structure Metrics where
  total : Nat := 0
  black : Nat := 0

namespace Metrics

/-- The loop of `Metrics::of`. -/
def count (scene : CreditScene) (minimum : Int) (m : Metrics) : List BlackFrame → Metrics
  | [] => m
  | f :: frames =>
    if f.time < scene.startTime then count scene minimum m frames
    else if f.time > scene.endTime then m
    else
      count scene minimum
        ⟨m.total + 1, if f.percentage ≥ minimum then m.black + 1 else m.black⟩ frames

def of (frames : List BlackFrame) (scene : CreditScene) (minimum : Int) : Metrics :=
  count scene minimum {} frames

def meetsDensity (m : Metrics) : Bool := m.total > 0 ∧ (m.black : ℚ) / m.total ≥ 1 / 2

def isSparse (m : Metrics) (scene : CreditScene) (minimumDuration : Int) : Bool :=
  m.black ≤ 1 ∨ scene.duration / ((m.black : ℚ) - 1) > minimumDuration * (1 / 2)

end Metrics

/-- Whether half of the keyframes of a scene are black. -/
def dense (frames : List BlackFrame) (minimum : Int) (scene : CreditScene) : Bool :=
  (Metrics.of frames scene minimum).meetsDensity

def normalizeThreshold (frames : List BlackFrame) (minimumPercentage : Int) : Int × Int :=
  let ordered := (frames.map BlackFrame.percentage).mergeSort (· ≤ ·)
  let index := min (ordered.length / 100) (ordered.length - 1)
  let floor := min (ordered.getD index 0) 30
  ((minimumPercentage * (100 - floor)).tdiv 100 + floor, (95 * (100 - floor)).tdiv 100 + floor)

/-! ### The passes -/

def maximumSceneMergeGap : ℚ := 20

def maximumInRunGap (frames : List BlackFrame) : ℚ :=
  let gaps := ((frames.zip frames.tail).map fun pair => pair.2.time - pair.1.time).filter (· > 0)
  if gaps = [] then maximumSceneMergeGap
  else min maximumSceneMergeGap ((gaps.mergeSort (· ≤ ·)).getD (gaps.length / 2) 0 * 5)

/-- The loop of `candidates`, over the black keyframes, with the run so far. -/
def candidatesFrom (gap : ℚ) : Option (BlackFrame × BlackFrame) → List BlackFrame →
    List CreditScene
  | none, [] => []
  | some (start, last), [] => [sceneOf start last]
  | none, f :: frames => candidatesFrom gap (some (f, f)) frames
  | some (start, last), f :: frames =>
    if f.time - last.time > gap then
      sceneOf start last :: candidatesFrom gap (some (f, f)) frames
    else candidatesFrom gap (some (start, f)) frames

def blackFrames (frames : List BlackFrame) (minimum : Int) : List BlackFrame :=
  frames.filter fun f => f.percentage ≥ minimum

def candidates (frames : List BlackFrame) (minimum : Int) : List CreditScene :=
  candidatesFrom (maximumInRunGap frames) none (blackFrames frames minimum)

/-- The loop of `merge_nearby`. -/
def mergeFrom (frames : List BlackFrame) (minimum : Int) (current : CreditScene) :
    List CreditScene → List CreditScene
  | [] => [current]
  | scene :: scenes =>
    if scene.startTime - current.endTime ≤ maximumSceneMergeGap ∧
        dense frames minimum (current.upTo scene) then
      mergeFrom frames minimum (current.upTo scene) scenes
    else current :: mergeFrom frames minimum scene scenes

def mergeNearby (frames : List BlackFrame) (minimum : Int) : List CreditScene → List CreditScene
  | [] => []
  | current :: scenes => mergeFrom frames minimum current scenes

/-- The inner loop of `shift_starts`, from the keyframe of an index: the index where the search
goes on for the next scene, and the keyframe that the scene starts at. -/
def searchStart (sceneChange : Int) (scene : CreditScene) : (i search : Nat) → List BlackFrame →
    Nat × Option BlackFrame
  | _, search, [] => (search, none)
  | i, search, f :: frames =>
    if f.frame > scene.endFrame then (search, none)
    else if f.frame ≥ scene.startFrame then
      if f.percentage ≥ sceneChange then (max search i, some f)
      else searchStart sceneChange scene (i + 1) (max search i) frames
    else searchStart sceneChange scene (i + 1) search frames

def CreditScene.startingAt (scene : CreditScene) (found : Option BlackFrame) : CreditScene :=
  match found with
  | none => scene
  | some f => { scene with startFrame := f.frame, startTime := f.time }

def shiftStarts (frames : List BlackFrame) (sceneChange : Int) : Nat → List CreditScene →
    List CreditScene
  | _, [] => []
  | search, scene :: scenes =>
    let found := searchStart sceneChange scene search search (frames.drop search)
    scene.startingAt found.2 :: shiftStarts frames sceneChange found.1 scenes

def boundaryKeyframes (scene : CreditScene) : Option ℚ → List BlackFrame → Option (ℚ × ℚ)
  | _, [] => none
  | last, f :: frames =>
    if f.time ≥ scene.startTime then last.map fun last => (last, f.time)
    else boundaryKeyframes scene (some f.time) frames

def shouldRefineBoundary (scene : CreditScene) (lastKeyframe : ℚ) (minimumDuration : Int) : Bool :=
  scene.startTime - lastKeyframe > 1 / 2 ∧
    scene.duration + (scene.startTime - lastKeyframe) ≥ minimumDuration

def mergedSpans (frames : List BlackFrame) (minimum : Int) : List CreditScene :=
  mergeNearby frames minimum ((candidates frames minimum).filter (dense frames minimum))

def creditScenes (frames : List BlackFrame) (thresholds : Int × Int) (minimumDuration : Int)
    (allowBoundaryRefinement : Bool) : List CreditScene :=
  (shiftStarts frames thresholds.2 0 (mergedSpans frames thresholds.1)).filter fun scene =>
    scene.duration ≥ minimumDuration ∨
      allowBoundaryRefinement ∧ (boundaryKeyframes scene none frames).any fun keyframes =>
        shouldRefineBoundary scene keyframes.1 minimumDuration

/-! ### The probes -/

/-- The range that a candidate is probed in, within the window. -/
def probeRange (minimumDuration : Int) (window : ℚ × ℚ) (c : CreditScene) : ℚ × ℚ :=
  (max window.1 (window.1 + c.startTime - minimumDuration),
    min window.2 (window.1 + c.endTime + minimumDuration))

/-- The loop of `interval_probe_ranges`. -/
def mergeRangesFrom (current : ℚ × ℚ) : List (ℚ × ℚ) → List (ℚ × ℚ)
  | [] => [current]
  | range :: ranges =>
    if range.1 ≤ current.2 then mergeRangesFrom (current.1, max current.2 range.2) ranges
    else current :: mergeRangesFrom range ranges

def mergeRanges : List (ℚ × ℚ) → List (ℚ × ℚ)
  | [] => []
  | range :: ranges => mergeRangesFrom range ranges

def intervalProbeRanges (candidates : List CreditScene) (minimumDuration : Int)
    (window : ℚ × ℚ) : List (ℚ × ℚ) :=
  mergeRanges <| ((candidates.map (probeRange minimumDuration window)).filter fun range =>
    range.2 - range.1 > 0).mergeSort fun a b => a.1 ≤ b.1

/-! ### The segment -/

structure BlackInterval where
  (start end' : ℚ)
  deriving DecidableEq

def supportingFrom (first last : ℚ) : Option (BlackInterval × ℚ) → List BlackInterval →
    Option (BlackInterval × ℚ)
  | best, [] => best
  | best, i :: intervals =>
    if (i.start ≤ last ∧ i.end' ≥ first - 2) ∧
        best.all fun b => max last i.end' - i.start > b.2 then
      supportingFrom first last (some (i, max last i.end' - i.start)) intervals
    else supportingFrom first last best intervals

def supportingInterval (first last : ℚ) (intervals : List BlackInterval) : Option BlackInterval :=
  (supportingFrom first last none intervals).map Prod.fst

def framesOf (frames : List BlackFrame) (scene : CreditScene) : List BlackFrame :=
  (frames.filter fun f => f.frame ≥ scene.startFrame).takeWhile fun f => f.frame ≤ scene.endFrame

def startFrame (frames : List BlackFrame) (scene : CreditScene) (time : ℚ) (minimum : Int) : Int :=
  ((framesOf frames scene).find? fun f => f.time ≥ time ∧ f.percentage ≥ minimum).elim
    scene.endFrame BlackFrame.frame

def endFrame (frames : List BlackFrame) (scene : CreditScene) (time : ℚ) (minimum : Int) : Int :=
  ((framesOf frames scene).filter fun f => f.time ≤ time ∧ f.percentage ≥ minimum).getLast?.elim
    scene.startFrame BlackFrame.frame

def intervalSupported (frames : List BlackFrame) (intervals : List BlackInterval)
    (minimum minimumDuration : Int) : List CreditScene :=
  if intervals = [] then []
  else (candidates frames minimum).filterMap fun candidate => do
    let interval ← supportingInterval candidate.startTime candidate.endTime intervals
    let start := interval.start
    let stop := max candidate.endTime interval.end'
    if stop - start ≥ minimumDuration then
      some ⟨startFrame frames candidate start minimum, endFrame frames candidate stop minimum,
        start, stop⟩
    else none

def hasIntervalSupport (scene : CreditScene) (intervals : List BlackInterval) : Bool :=
  intervals.any fun i => min scene.endTime i.end' - max scene.startTime i.start ≥ 1 / 4

def rank (scenes : List CreditScene) (intervals : List BlackInterval) : List CreditScene :=
  let ranked := scenes.zipIdx.map fun scene =>
    (scene.2, hasIntervalSupport scene.1 intervals, scene.1)
  (ranked.mergeSort fun a b => ((compare b.2.1 a.2.1).then (compare b.1 a.1)).isLE).map
    fun scene => scene.2.2

def probeMinimum (frames : List BlackFrame) (scene : CreditScene) (sceneChange : Int) : Int :=
  (frames.find? fun f => f.frame = scene.startFrame).elim sceneChange fun f =>
    min f.percentage sceneChange

def refineBoundaryTime (probe lastKeyframe sceneStart : ℚ) : Option ℚ :=
  if probe + lastKeyframe > lastKeyframe ∧ probe + lastKeyframe ≤ sceneStart then
    some (probe + lastKeyframe)
  else none

/-- What of the configuration and of the episode is read. -/
structure Config where
  minimumCreditsDuration : Int
  blackFrameMinimumPercentage : Int
  blackFrameThreshold : Int
  refineCreditsBoundary : Bool

structure QueuedEpisode where
  creditsFingerprintStart : ℚ
  creditsFingerprintEnd : ℚ
  duration : ℚ

/-- What `ffmpeg` answers for a range: the black intervals at a threshold and a minimum, and the
black frames at a minimum. -/
structure Ffmpeg where
  blackIntervals : ℚ × ℚ → Int × Int → Except String (List BlackInterval)
  blackFramesAt : ℚ × ℚ → Int → Except String (List BlackFrame)

def candidateIntervals (ffmpeg : Ffmpeg) (entry : QueuedEpisode) (config : Config)
    (candidates : List CreditScene) (minimum : Int) : List BlackInterval :=
  let stop :=
    if entry.creditsFingerprintEnd > 0 then entry.creditsFingerprintEnd else entry.duration
  let ranges := intervalProbeRanges candidates config.minimumCreditsDuration
    (entry.creditsFingerprintStart, stop)
  match ranges.mapM fun range => ffmpeg.blackIntervals range (config.blackFrameThreshold, minimum)
  with
  | .ok found => found.flatten
  | .error _ => []

def refineStart (ffmpeg : Ffmpeg) (entry : QueuedEpisode) (config : Config)
    (frames : List BlackFrame) (scene : CreditScene) (sceneChange : Int) : Except String ℚ :=
  match boundaryKeyframes scene none frames with
  | none => .ok scene.startTime
  | some (lastKeyframe, firstBlack) =>
    if shouldRefineBoundary scene lastKeyframe config.minimumCreditsDuration then do
      let offset := entry.creditsFingerprintStart
      let probe ← ffmpeg.blackFramesAt (lastKeyframe + offset, firstBlack + offset)
        (probeMinimum frames scene sceneChange)
      return (probe.head?.bind fun f =>
        refineBoundaryTime f.time lastKeyframe scene.startTime).getD scene.startTime
    else .ok scene.startTime

/-- The loop of `scene_credits`, over the ranked scenes. -/
def firstLongEnough (ffmpeg : Ffmpeg) (entry : QueuedEpisode) (config : Config)
    (frames : List BlackFrame) (sceneChange : Int) : List CreditScene →
    Except String (Option (ℚ × ℚ))
  | [] => .ok none
  | scene :: scenes => do
    let start ← (if config.refineCreditsBoundary then
      refineStart ffmpeg entry config frames scene sceneChange else .ok scene.startTime)
    let offset := entry.creditsFingerprintStart
    let segment := (start + offset, scene.endTime + offset)
    if segment.2 - segment.1 ≥ config.minimumCreditsDuration then return some segment
    else firstLongEnough ffmpeg entry config frames sceneChange scenes

def sceneCredits (ffmpeg : Ffmpeg) (entry : QueuedEpisode) (config : Config)
    (frames : List BlackFrame) : Except String (Option (ℚ × ℚ)) :=
  let duration := config.minimumCreditsDuration
  let thresholds := normalizeThreshold frames config.blackFrameMinimumPercentage
  let minimum := thresholds.1
  let scenes := creditScenes frames thresholds duration config.refineCreditsBoundary
  let segmentOf := firstLongEnough ffmpeg entry config frames thresholds.2
  match scenes with
  | [] =>
    let intervals := candidateIntervals ffmpeg entry config (candidates frames minimum) minimum
    -- without candidates there are no intervals, and no scenes
    segmentOf (rank (intervalSupported frames intervals minimum duration) intervals)
  | [scene] =>
    if (Metrics.of frames scene minimum).isSparse scene duration then
      let intervals := candidateIntervals ffmpeg entry config scenes minimum
      let supported := intervalSupported frames intervals minimum duration
      segmentOf (rank (if supported = [] then scenes else supported) intervals)
    else segmentOf (rank scenes [])
  | scenes => segmentOf (rank scenes [])

/-! ### Spans -/

/-- Keyframes in order, of strictly increasing times and numbers. -/
def Increasing (frames : List BlackFrame) : Prop :=
  frames.Pairwise fun f g => f.frame < g.frame ∧ f.time < g.time

def IsSpan (black : List BlackFrame) (s : CreditScene) : Prop :=
  ∃ start ∈ black, ∃ last ∈ black, start.frame ≤ last.frame ∧ start.time ≤ last.time ∧
    s = sceneOf start last

namespace CreditScene

def Before (s t : CreditScene) : Prop := s.endFrame < t.startFrame ∧ s.endTime < t.startTime

def Within (s t : CreditScene) : Prop :=
  t.startFrame ≤ s.startFrame ∧ s.endFrame ≤ t.endFrame ∧ t.startTime ≤ s.startTime ∧
    s.endTime ≤ t.endTime

def StartsAfter (s t : CreditScene) : Prop :=
  t.startFrame ≤ s.startFrame ∧ t.startTime ≤ s.startTime

theorem Within.refl (s : CreditScene) : s.Within s := ⟨le_rfl, le_rfl, le_rfl, le_rfl⟩

theorem StartsAfter.refl (s : CreditScene) : s.StartsAfter s := ⟨le_rfl, le_rfl⟩

theorem Before.of_startsAfter {r s t : CreditScene} (h : r.Before s) (ht : t.StartsAfter s) :
    r.Before t := ⟨lt_of_lt_of_le h.1 ht.1, lt_of_lt_of_le h.2 ht.2⟩

end CreditScene

open CreditScene

variable {frames black : List BlackFrame} {minimum : Int}

theorem IsSpan.mono {black' : List BlackFrame} {s : CreditScene} (h : IsSpan black s)
    (hsub : ∀ f ∈ black, f ∈ black') : IsSpan black' s := by
  obtain ⟨start, hstart, last, hlast, hle⟩ := h
  exact ⟨start, hsub start hstart, last, hsub last hlast, hle⟩

theorem IsSpan.le {s : CreditScene} (h : IsSpan black s) :
    s.startFrame ≤ s.endFrame ∧ s.startTime ≤ s.endTime := by
  obtain ⟨start, -, last, -, hframe, htime, rfl⟩ := h
  exact ⟨hframe, htime⟩

/-- The runs after a run that is open: each is a span, and they are in order. -/
theorem candidatesFrom_spans {gap : ℚ} {start last : BlackFrame} {rest : List BlackFrame}
    (hrun : start.frame ≤ last.frame ∧ start.time ≤ last.time)
    (hrest : Increasing (last :: rest)) :
    (∀ s ∈ candidatesFrom gap (some (start, last)) rest,
      s.StartsAfter (sceneOf start last) ∧ IsSpan (start :: last :: rest) s) ∧
      (candidatesFrom gap (some (start, last)) rest).Pairwise Before := by
  induction rest generalizing start last with
  | nil =>
    rw [candidatesFrom]
    refine ⟨fun s hs => ?_, List.pairwise_singleton _ _⟩
    obtain rfl := mem_singleton.mp hs
    exact ⟨.refl _, start, by simp, last, by simp, hrun.1, hrun.2, rfl⟩
  | cons f rest ih =>
    obtain ⟨hlast, htail⟩ := pairwise_cons.mp hrest
    have hf := hlast f (mem_cons_self ..)
    rw [candidatesFrom]
    split
    · -- the run is over, and `f` opens the next one
      obtain ⟨hspans, hpairs⟩ := ih ⟨le_refl f.frame, le_refl f.time⟩ htail
      have hbefore : ∀ s ∈ candidatesFrom gap (some (f, f)) rest,
          (sceneOf start last).Before s := fun s hs =>
        Before.of_startsAfter (s := sceneOf f f) hf (hspans s hs).1
      refine ⟨fun s hs => ?_, pairwise_cons.mpr ⟨hbefore, hpairs⟩⟩
      rcases mem_cons.mp hs with rfl | hs
      · exact ⟨.refl _, start, by simp, last, by simp, hrun.1, hrun.2, rfl⟩
      · obtain ⟨hafter, hspan⟩ := hspans s hs
        refine ⟨⟨?_, ?_⟩, hspan.mono fun g hg => by simp at hg ⊢; tauto⟩
        · exact (hrun.1.trans hf.1.le).trans hafter.1
        · exact (hrun.2.trans hf.2.le).trans hafter.2
    · obtain ⟨hspans, hpairs⟩ := ih ⟨hrun.1.trans hf.1.le, hrun.2.trans hf.2.le⟩ htail
      refine ⟨fun s hs => ?_, hpairs⟩
      obtain ⟨hafter, hspan⟩ := hspans s hs
      exact ⟨hafter, hspan.mono fun g hg => by simp at hg ⊢; tauto⟩

theorem candidates_spans (hframes : Increasing frames) :
    (∀ s ∈ candidates frames minimum, IsSpan (blackFrames frames minimum) s) ∧
      (candidates frames minimum).Pairwise Before := by
  have hblack : Increasing (blackFrames frames minimum) := hframes.filter _
  rw [candidates]
  generalize blackFrames frames minimum = black at hblack ⊢
  cases black with
  | nil => exact ⟨nofun, List.Pairwise.nil⟩
  | cons f rest =>
    obtain ⟨hspans, hpairs⟩ := @candidatesFrom_spans (maximumInRunGap frames) _ _ _
      ⟨le_refl f.frame, le_refl f.time⟩ hblack
    refine ⟨fun s hs => (hspans s hs).2.mono fun g hg => ?_, hpairs⟩
    simp at hg ⊢
    tauto

/-- Merging keeps the spans and their order, and every scene lies in what it is merged into. -/
theorem mergeFrom_spans {current : CreditScene} {scenes : List CreditScene}
    (hpairs : (current :: scenes).Pairwise Before)
    (hspans : ∀ s ∈ current :: scenes, IsSpan black s) :
    (∀ t ∈ mergeFrom frames minimum current scenes,
      t.StartsAfter current ∧ IsSpan black t) ∧
      (mergeFrom frames minimum current scenes).Pairwise Before ∧
      ∀ s, s.Within current ∨ s ∈ scenes →
        ∃ t ∈ mergeFrom frames minimum current scenes, s.Within t := by
  induction scenes generalizing current with
  | nil =>
    rw [mergeFrom]
    refine ⟨fun t ht => ?_, List.pairwise_singleton _ _, fun s hs => ?_⟩
    · obtain rfl := mem_singleton.mp ht
      exact ⟨.refl _, hspans t ht⟩
    · exact ⟨current, mem_singleton.mpr rfl, hs.resolve_right List.not_mem_nil⟩
  | cons scene scenes ih =>
    obtain ⟨hcurrent, hscenes⟩ := pairwise_cons.mp hpairs
    have hbefore := hcurrent scene (mem_cons_self ..)
    have hscene := hspans scene (by simp)
    rw [mergeFrom]
    split
    · -- both become one scene, which ends where the second does
      have hle := (hspans current (mem_cons_self ..)).le
      have hspan : IsSpan black (current.upTo scene) := by
        obtain ⟨start, hstart, last, -, -, -, rfl⟩ := hspans current (mem_cons_self ..)
        obtain ⟨start', -, last', hlast', hframe, htime, rfl⟩ := hscene
        refine ⟨start, hstart, last', hlast', ?_, ?_, rfl⟩
        · exact (hle.1.trans hbefore.1.le).trans hframe
        · exact (hle.2.trans hbefore.2.le).trans htime
      obtain ⟨hlater, htail⟩ := pairwise_cons.mp hscenes
      have hpairs' : (current.upTo scene :: scenes).Pairwise Before :=
        pairwise_cons.mpr ⟨fun t ht => hlater t ht, htail⟩
      have hspans' : ∀ s ∈ current.upTo scene :: scenes, IsSpan black s := by
        intro s hs
        rcases mem_cons.mp hs with rfl | hs
        · exact hspan
        · exact hspans s (by simp [hs])
      obtain ⟨hmerged, hpairs', hwithin⟩ := ih hpairs' hspans'
      refine ⟨hmerged, hpairs', fun s hs => ?_⟩
      rcases hs with hs | hs
      · refine hwithin s (.inl ⟨hs.1, ?_, hs.2.2.1, ?_⟩)
        · exact hs.2.1.trans (hbefore.1.le.trans hscene.le.1)
        · exact hs.2.2.2.trans (hbefore.2.le.trans hscene.le.2)
      · rcases mem_cons.mp hs with rfl | hs
        · refine hwithin s (.inl ⟨?_, le_rfl, ?_, le_rfl⟩)
          · exact hle.1.trans hbefore.1.le
          · exact hle.2.trans hbefore.2.le
        · exact hwithin s (.inr hs)
    · obtain ⟨hmerged, hpairs', hwithin⟩ := ih hscenes fun s hs =>
        hspans s (mem_cons_of_mem _ hs)
      have hfirst : ∀ t ∈ mergeFrom frames minimum scene scenes, current.Before t :=
        fun t ht => hbefore.of_startsAfter (hmerged t ht).1
      refine ⟨fun t ht => ?_, pairwise_cons.mpr ⟨hfirst, hpairs'⟩, fun s hs => ?_⟩
      · rcases mem_cons.mp ht with rfl | ht
        · exact ⟨.refl _, hspans t (mem_cons_self ..)⟩
        · obtain ⟨hafter, hspan⟩ := hmerged t ht
          have hle := (hspans current (mem_cons_self ..)).le
          refine ⟨⟨?_, ?_⟩, hspan⟩
          · exact (hle.1.trans hbefore.1.le).trans hafter.1
          · exact (hle.2.trans hbefore.2.le).trans hafter.2
      · rcases hs with hs | hs
        · exact ⟨current, mem_cons_self .., hs⟩
        · have hs' : s.Within scene ∨ s ∈ scenes := by
            rcases mem_cons.mp hs with rfl | hs
            · exact .inl (.refl _)
            · exact .inr hs
          obtain ⟨t, ht, hst⟩ := hwithin s hs'
          exact ⟨t, mem_cons_of_mem _ ht, hst⟩

theorem rel_or_rel {α : Type} {R : α → α → Prop} {l : List α} (h : l.Pairwise R) {a b : α}
    (ha : a ∈ l) (hb : b ∈ l) (hne : a ≠ b) : R a b ∨ R b a := by
  induction l with
  | nil => cases ha
  | cons c l ih =>
    obtain ⟨hc, htail⟩ := pairwise_cons.mp h
    rcases mem_cons.mp ha with rfl | ha'
    · exact .inl (hc b ((mem_cons.mp hb).resolve_left hne.symm))
    · rcases mem_cons.mp hb with rfl | hb'
      · exact .inr (hc a ha')
      · exact ih htail ha' hb'

theorem Increasing.time_le (h : Increasing frames) {f g : BlackFrame} (hf : f ∈ frames)
    (hg : g ∈ frames) (hle : f.frame ≤ g.frame) : f.time ≤ g.time := by
  by_cases heq : f = g
  · rw [heq]
  · rcases rel_or_rel h hf hg heq with hlt | hlt
    · exact hlt.2.le
    · omega

/-- The merged spans are in order, and every dense run lies in one of them, and in no other. -/
theorem mergedSpans_spans (hframes : Increasing frames) :
    (∀ t ∈ mergedSpans frames minimum, IsSpan (blackFrames frames minimum) t) ∧
      (mergedSpans frames minimum).Pairwise Before ∧
      ∀ s ∈ (candidates frames minimum).filter (dense frames minimum),
        ∃! t, t ∈ mergedSpans frames minimum ∧ s.Within t := by
  obtain ⟨hspans, hpairs⟩ := @candidates_spans frames minimum hframes
  have hspans' : ∀ s ∈ (candidates frames minimum).filter (dense frames minimum),
      IsSpan (blackFrames frames minimum) s := fun s hs => hspans s (mem_filter.mp hs).1
  have hpairs' := hpairs.filter (dense frames minimum)
  rw [mergedSpans]
  generalize (candidates frames minimum).filter (dense frames minimum) = scenes at hspans' hpairs' ⊢
  cases scenes with
  | nil => exact ⟨nofun, List.Pairwise.nil, nofun⟩
  | cons current scenes =>
    obtain ⟨hmerged, hmergedPairs, hwithin⟩ :=
      @mergeFrom_spans frames _ minimum _ _ hpairs' hspans'
    refine ⟨fun t ht => (hmerged t ht).2, hmergedPairs, fun s hs => ?_⟩
    have hs' : s.Within current ∨ s ∈ scenes := by
      rcases mem_cons.mp hs with rfl | hs
      · exact .inl (.refl _)
      · exact .inr hs
    obtain ⟨t, ht, hst⟩ := hwithin s hs'
    refine ⟨t, ⟨ht, hst⟩, fun t' ⟨ht', hst'⟩ => ?_⟩
    -- a scene does not lie in two scenes of which one is before the other
    have hapart : ∀ t t' : CreditScene, s.Within t → s.Within t' → ¬ t.Before t' := by
      intro t t' hst hst' hbefore
      have hle := (hspans' s hs).le.1
      have h := (hst.2.1.trans_lt hbefore.1).trans_le hst'.1
      omega
    by_contra hne
    rcases rel_or_rel hmergedPairs ht' ht hne with h | h
    · exact hapart t' t hst' hst h
    · exact hapart t t' hst hst' h

/-! ### Starts -/

def Reaches (sceneChange : Int) (scene : CreditScene) (f : BlackFrame) : Bool :=
  scene.startFrame ≤ f.frame ∧ f.frame ≤ scene.endFrame ∧ sceneChange ≤ f.percentage

/-- The search stops at the first keyframe that reaches the threshold, and has not passed the end
of the scene; `pre` is what stands before the keyframes that it looks at. -/
theorem searchStart_spec {sceneChange : Int} {scene : CreditScene} {pre rest : List BlackFrame}
    {search : Nat} (hframes : Increasing (pre ++ rest))
    (hsearch : ∀ f ∈ (pre ++ rest).take search, f.frame ≤ scene.endFrame)
    (hbound : search ≤ (pre ++ rest).length) :
    (searchStart sceneChange scene pre.length search rest).2 =
        rest.find? (Reaches sceneChange scene) ∧
      (∀ f ∈ (pre ++ rest).take (searchStart sceneChange scene pre.length search rest).1,
        f.frame ≤ scene.endFrame) ∧
      (searchStart sceneChange scene pre.length search rest).1 ≤ (pre ++ rest).length := by
  induction rest generalizing pre search with
  | nil => exact ⟨rfl, hsearch, hbound⟩
  | cons f rest ih =>
    have hassoc : pre ++ f :: rest = (pre ++ [f]) ++ rest := by simp
    have hlength : (pre ++ [f]).length = pre.length + 1 := by simp
    have hpre : ∀ g ∈ pre, g.frame < f.frame := fun g hg =>
      ((List.pairwise_append.mp hframes).2.2 g hg f (mem_cons_self ..)).1
    have hrest : ∀ g ∈ rest, f.frame < g.frame := fun g hg =>
      ((pairwise_cons.mp (List.pairwise_append.mp hframes).2.1).1 g hg).1
    rw [searchStart]
    split
    · -- past the end of the scene nothing reaches it
      next hend =>
      refine ⟨(List.find?_eq_none.mpr fun g hg => ?_).symm, hsearch, hbound⟩
      have hg' : f.frame ≤ g.frame := by
        rcases mem_cons.mp hg with rfl | hg
        · exact le_rfl
        · exact (hrest g hg).le
      rw [Reaches, decide_eq_true_eq]
      omega
    · next hend =>
      have hmax : ∀ g ∈ (pre ++ f :: rest).take (max search pre.length),
          g.frame ≤ scene.endFrame := by
        intro g hg
        rcases le_total search pre.length with hle | hle
        · rw [max_eq_right hle, List.take_left] at hg
          have := hpre g hg
          omega
        · rw [max_eq_left hle] at hg
          exact hsearch g hg
      have hmaxBound : max search pre.length ≤ (pre ++ f :: rest).length := by
        refine max_le hbound ?_
        rw [List.length_append]
        omega
      have hnext (search' : Nat)
          (h : ∀ g ∈ (pre ++ f :: rest).take search', g.frame ≤ scene.endFrame)
          (hbound' : search' ≤ (pre ++ f :: rest).length) :=
        @ih (pre ++ [f]) search' (hassoc ▸ hframes) (hassoc ▸ h) (hassoc ▸ hbound')
      rw [hlength, ← hassoc] at hnext
      split
      · next hstart =>
        split
        · next hreach =>
          have hf : Reaches sceneChange scene f = true := by
            rw [Reaches, decide_eq_true_eq]
            omega
          exact ⟨(List.find?_cons_of_pos hf).symm, hmax, hmaxBound⟩
        · next hreach =>
          have hf : ¬ Reaches sceneChange scene f = true := by
            rw [Reaches, decide_eq_true_eq]
            omega
          rw [List.find?_cons_of_neg hf]
          exact hnext _ hmax hmaxBound
      · next hstart =>
        have hf : ¬ Reaches sceneChange scene f = true := by
          rw [Reaches, decide_eq_true_eq]
          omega
        rw [List.find?_cons_of_neg hf]
        exact hnext _ hsearch hbound

/-- A scene with the start that a search over all keyframes finds. -/
def shifted (frames : List BlackFrame) (sceneChange : Int) (scene : CreditScene) : CreditScene :=
  scene.startingAt (frames.find? (Reaches sceneChange scene))

/-- **The search skips no keyframe of a later scene**: what it has passed is before the scene. -/
theorem shiftStarts_eq {sceneChange : Int} (hframes : Increasing frames) {search : Nat}
    (hbound : search ≤ frames.length) {scenes : List CreditScene}
    (hpairs : scenes.Pairwise Before)
    (hsearch : ∀ scene ∈ scenes, ∀ f ∈ frames.take search, f.frame < scene.startFrame)
    (hle : ∀ scene ∈ scenes, scene.startFrame ≤ scene.endFrame) :
    shiftStarts frames sceneChange search scenes = scenes.map (shifted frames sceneChange) := by
  induction scenes generalizing search with
  | nil => rfl
  | cons scene scenes ih =>
    obtain ⟨hlater, htail⟩ := pairwise_cons.mp hpairs
    have hbefore := hsearch scene (mem_cons_self ..)
    have hend := hle scene (mem_cons_self ..)
    have hsplit : frames.take search ++ frames.drop search = frames := List.take_append_drop ..
    have hlength : (frames.take search).length = search := List.length_take_of_le hbound
    have hspec := @searchStart_spec sceneChange scene (frames.take search) (frames.drop search)
      search
    rw [hsplit, hlength] at hspec
    obtain ⟨hfound, hpassed, hbound'⟩ :=
      hspec hframes (fun f hf => (hbefore f hf).le.trans hend) hbound
    have hfirst : frames.find? (Reaches sceneChange scene) =
        (frames.drop search).find? (Reaches sceneChange scene) := by
      conv_lhs => rw [← hsplit]
      have hnone : (frames.take search).find? (Reaches sceneChange scene) = none := by
        refine List.find?_eq_none.mpr fun f hf => ?_
        have := hbefore f hf
        rw [Reaches, decide_eq_true_eq]
        omega
      rw [List.find?_append, hnone, Option.none_or]
    rw [shiftStarts, List.map_cons, shifted, hfirst, ← hfound]
    refine congrArg _ (ih hbound' htail (fun t ht f hf => ?_) fun t ht =>
      hle t (mem_cons_of_mem _ ht))
    exact (hpassed f hf).trans_lt (hlater t ht).1

def StartsIn (frames : List BlackFrame) (sceneChange : Int) (span scene : CreditScene) : Prop :=
  (∃ before f after, frames = before ++ f :: after ∧ Reaches sceneChange span f = true ∧
    (∀ g ∈ before, Reaches sceneChange span g = false) ∧
    scene.startFrame = f.frame ∧ scene.startTime = f.time) ∨
  (∀ g ∈ frames, Reaches sceneChange span g = false) ∧
    scene.startFrame = span.startFrame ∧ scene.startTime = span.startTime

theorem startsIn_shifted (frames : List BlackFrame) (sceneChange : Int) (span : CreditScene) :
    StartsIn frames sceneChange span (shifted frames sceneChange span) := by
  rw [shifted]
  cases hfind : frames.find? (Reaches sceneChange span) with
  | none =>
    refine .inr ⟨fun g hg => ?_, rfl, rfl⟩
    simpa using List.find?_eq_none.mp hfind g hg
  | some f =>
    obtain ⟨hreach, before, after, hsplit, hfirst⟩ := List.find?_eq_some_iff_append.mp hfind
    exact .inl ⟨before, f, after, hsplit, hreach, fun g hg => by simpa using hfirst g hg, rfl, rfl⟩

theorem shifted_startsAfter {sceneChange : Int} (hframes : Increasing frames) {span : CreditScene}
    (hspan : IsSpan frames span) :
    (shifted frames sceneChange span).StartsAfter span ∧
      (shifted frames sceneChange span).startTime ≤ span.endTime := by
  obtain ⟨start, hstart, last, hlast, hframe, htime, rfl⟩ := hspan
  rw [shifted]
  cases hfind : frames.find? (Reaches sceneChange (sceneOf start last)) with
  | none => exact ⟨.refl _, htime⟩
  | some f =>
    have hmem := List.mem_of_find?_eq_some hfind
    have hreach := of_decide_eq_true (List.find?_eq_some_iff_append.mp hfind).1
    exact ⟨⟨hreach.1, hframes.time_le hstart hmem hreach.1⟩, hframes.time_le hmem hlast hreach.2.1⟩

theorem startingAt_end (scene : CreditScene) (found : Option BlackFrame) :
    (scene.startingAt found).endFrame = scene.endFrame ∧
      (scene.startingAt found).endTime = scene.endTime := by
  cases found <;> exact ⟨rfl, rfl⟩

/-- Without refinement the scenes are the spans with their starts, as far as these are long
enough. -/
theorem creditScenes_eq {sceneChange minimumDuration : Int} (hframes : Increasing frames) :
    creditScenes frames (minimum, sceneChange) minimumDuration false =
      ((mergedSpans frames minimum).map (shifted frames sceneChange)).filter fun scene =>
        (minimumDuration : ℚ) ≤ scene.duration := by
  obtain ⟨hspans, hpairs, -⟩ := @mergedSpans_spans frames minimum hframes
  rw [creditScenes, shiftStarts_eq hframes (Nat.zero_le _) hpairs (fun _ _ _ => nofun) fun t ht =>
    (hspans t ht).le.1]
  simp

theorem mem_creditScenes {sceneChange minimumDuration : Int} (hframes : Increasing frames)
    {scene : CreditScene}
    (h : scene ∈ creditScenes frames (minimum, sceneChange) minimumDuration false) :
    ∃ span ∈ mergedSpans frames minimum, scene = shifted frames sceneChange span ∧
      (minimumDuration : ℚ) ≤ scene.duration := by
  rw [creditScenes_eq hframes] at h
  obtain ⟨hmem, hlong⟩ := mem_filter.mp h
  obtain ⟨span, hspan, rfl⟩ := List.mem_map.mp hmem
  exact ⟨span, hspan, rfl, of_decide_eq_true hlong⟩

theorem mergedSpans_isSpan (hframes : Increasing frames) {span : CreditScene}
    (h : span ∈ mergedSpans frames minimum) : IsSpan frames span :=
  ((mergedSpans_spans hframes).1 span h).mono fun _ hf => (mem_filter.mp hf).1

theorem creditScenes_disjoint {sceneChange minimumDuration : Int} (hframes : Increasing frames) :
    (creditScenes frames (minimum, sceneChange) minimumDuration false).Pairwise fun s t =>
      s.endTime < t.startTime := by
  obtain ⟨-, hpairs, -⟩ := @mergedSpans_spans frames minimum hframes
  rw [creditScenes_eq hframes]
  refine List.Pairwise.filter _ (List.pairwise_map.mpr (hpairs.imp_of_mem ?_))
  intro s t _ ht hst
  have hend : (shifted frames sceneChange s).endTime = s.endTime := (startingAt_end _ _).2
  have hafter := (@shifted_startsAfter frames sceneChange hframes _
    (mergedSpans_isSpan hframes ht)).1
  rw [hend]
  exact hst.2.trans_le hafter.2

/-! ### Runs -/

structure IsRun (gap : ℚ) (black before run after : List BlackFrame) : Prop where
  split : black = before ++ (run ++ after)
  chain : run.IsChain fun f g => g.time - f.time ≤ gap
  first : ∀ f ∈ before.getLast?, ∀ g ∈ run.head?, gap < g.time - f.time
  last : ∀ f ∈ run.getLast?, ∀ g ∈ after.head?, gap < g.time - f.time

/-- A run that is open stays so up to its end, and closes at the gap behind it. -/
theorem candidatesFrom_run {gap : ℚ} {start last : BlackFrame} {run after : List BlackFrame}
    (hchain : (last :: run).IsChain fun f g => g.time - f.time ≤ gap)
    (hlast : ∀ f ∈ (last :: run).getLast?, ∀ g ∈ after.head?, gap < g.time - f.time) :
    sceneOf start ((last :: run).getLast (cons_ne_nil _ _)) ∈
      candidatesFrom gap (some (start, last)) (run ++ after) := by
  induction run generalizing last with
  | nil =>
    cases after with
    | nil => exact mem_singleton.mpr rfl
    | cons g after =>
      have hgap : gap < g.time - last.time := hlast last rfl g rfl
      rw [List.nil_append, candidatesFrom, if_pos hgap]
      exact mem_cons_self ..
  | cons f run ih =>
    rw [List.isChain_cons_cons] at hchain
    rw [List.cons_append, candidatesFrom, if_neg (not_lt.mpr hchain.1)]
    exact ih hchain.2 hlast

theorem candidatesFrom_of_run {gap : ℚ} {open' : Option (BlackFrame × BlackFrame)}
    {before run after : List BlackFrame} {f : BlackFrame}
    (hchain : (f :: run).IsChain fun f g => g.time - f.time ≤ gap)
    (hfirst : ∀ g, ((open'.map Prod.snd).toList ++ before).getLast? = some g →
      gap < f.time - g.time)
    (hlast : ∀ f' ∈ (f :: run).getLast?, ∀ g ∈ after.head?, gap < g.time - f'.time) :
    sceneOf f ((f :: run).getLast (cons_ne_nil _ _)) ∈
      candidatesFrom gap open' (before ++ (f :: run ++ after)) := by
  induction before generalizing open' with
  | nil =>
    have hopen := @candidatesFrom_run _ f _ _ _ hchain hlast
    cases open' with
    | none => exact hopen
    | some pair =>
      obtain ⟨start, last⟩ := pair
      have hgap : gap < f.time - last.time := hfirst last rfl
      rw [List.nil_append, List.cons_append, candidatesFrom, if_pos hgap]
      exact mem_cons_of_mem _ hopen
  | cons g before ih =>
    have hfirst' (start : BlackFrame) : ∀ g', (((some (start, g)).map Prod.snd).toList ++
        before).getLast? = some g' → gap < f.time - g'.time := by
      intro g' hg'
      refine hfirst g' ?_
      cases open' with
      | none => exact hg'
      | some pair => exact List.getLast?_cons_cons.trans hg'
    cases open' with
    | none => exact ih (hfirst' g)
    | some pair =>
      obtain ⟨start, last⟩ := pair
      rw [List.cons_append, candidatesFrom]
      split
      · exact mem_cons_of_mem _ (ih (hfirst' g))
      · exact ih (hfirst' start)

theorem mem_candidates_of_run {before run after : List BlackFrame} {f : BlackFrame}
    (h : IsRun (maximumInRunGap frames) (blackFrames frames minimum) before (f :: run) after) :
    sceneOf f ((f :: run).getLast (cons_ne_nil _ _)) ∈ candidates frames minimum := by
  rw [candidates, h.split]
  exact candidatesFrom_of_run h.chain (fun g hg => h.first g hg f rfl) h.last

/-! ### Ranges -/

theorem mergeRangesFrom_spec {lo hi : ℚ} {current : ℚ × ℚ} {ranges : List (ℚ × ℚ)}
    (hin : ∀ r ∈ current :: ranges, lo ≤ r.1 ∧ r.1 < r.2 ∧ r.2 ≤ hi)
    (hsorted : (current :: ranges).Pairwise fun a b => a.1 ≤ b.1) :
    (∀ r ∈ mergeRangesFrom current ranges,
      current.1 ≤ r.1 ∧ lo ≤ r.1 ∧ r.1 < r.2 ∧ r.2 ≤ hi) ∧
      (mergeRangesFrom current ranges).Pairwise (fun a b => a.2 < b.1) ∧
      ∀ r, (current.1 ≤ r.1 ∧ r.2 ≤ current.2) ∨ r ∈ ranges →
        ∃ m ∈ mergeRangesFrom current ranges, m.1 ≤ r.1 ∧ r.2 ≤ m.2 := by
  induction ranges generalizing current with
  | nil =>
    rw [mergeRangesFrom]
    refine ⟨fun r hr => ?_, List.pairwise_singleton _ _, fun r hr => ?_⟩
    · obtain rfl := mem_singleton.mp hr
      exact ⟨le_rfl, hin r hr⟩
    · exact ⟨current, mem_singleton.mpr rfl, hr.resolve_right List.not_mem_nil⟩
  | cons range ranges ih =>
    obtain ⟨hcurrent, htail⟩ := pairwise_cons.mp hsorted
    obtain ⟨hrange, htail'⟩ := pairwise_cons.mp htail
    have hle := hcurrent range (mem_cons_self ..)
    have hc := hin current (mem_cons_self ..)
    have hr := hin range (by simp)
    rw [mergeRangesFrom]
    split
    · have hin' : ∀ r ∈ (current.1, max current.2 range.2) :: ranges,
          lo ≤ r.1 ∧ r.1 < r.2 ∧ r.2 ≤ hi := by
        intro r hmem
        rcases mem_cons.mp hmem with rfl | hmem
        · exact ⟨hc.1, lt_max_of_lt_left hc.2.1, max_le hc.2.2 hr.2.2⟩
        · exact hin r (by simp [hmem])
      have hsorted' : ((current.1, max current.2 range.2) :: ranges).Pairwise
          fun a b : ℚ × ℚ => a.1 ≤ b.1 :=
        pairwise_cons.mpr ⟨fun r hmem => hle.trans (hrange r hmem), htail'⟩
      obtain ⟨hmerged, hpairs, hcover⟩ := ih hin' hsorted'
      refine ⟨hmerged, hpairs, fun r hmem => ?_⟩
      rcases hmem with hmem | hmem
      · exact hcover r (.inl ⟨hmem.1, hmem.2.trans (le_max_left ..)⟩)
      · rcases mem_cons.mp hmem with rfl | hmem
        · exact hcover r (.inl ⟨hle, le_max_right ..⟩)
        · exact hcover r (.inr hmem)
    · next hgap =>
      obtain ⟨hmerged, hpairs, hcover⟩ :=
        ih (fun r hmem => hin r (mem_cons_of_mem _ hmem)) htail
      have hfirst : ∀ r ∈ mergeRangesFrom range ranges, current.2 < r.1 := fun r hmem =>
        (not_le.mp hgap).trans_le (hmerged r hmem).1
      refine ⟨fun r hmem => ?_, pairwise_cons.mpr ⟨hfirst, hpairs⟩, fun r hmem => ?_⟩
      · rcases mem_cons.mp hmem with rfl | hmem
        · exact ⟨le_rfl, hc⟩
        · exact ⟨hle.trans (hmerged r hmem).1, (hmerged r hmem).2⟩
      · rcases hmem with hmem | hmem
        · exact ⟨current, mem_cons_self .., hmem⟩
        · have hmem' : (range.1 ≤ r.1 ∧ r.2 ≤ range.2) ∨ r ∈ ranges := by
            rcases mem_cons.mp hmem with rfl | hmem
            · exact .inl ⟨le_rfl, le_rfl⟩
            · exact .inr hmem
          obtain ⟨m, hm, hrm⟩ := hcover r hmem'
          exact ⟨m, mem_cons_of_mem _ hm, hrm⟩

/-- **The probes**: ranges in order and apart, in the window, and each range that has a length is
in one of them. -/
theorem intervalProbeRanges_spec (scenes : List CreditScene) (minimumDuration : Int)
    (window : ℚ × ℚ) :
    (intervalProbeRanges scenes minimumDuration window).Pairwise (fun a b => a.2 < b.1) ∧
      (∀ r ∈ intervalProbeRanges scenes minimumDuration window,
        window.1 ≤ r.1 ∧ r.1 < r.2 ∧ r.2 ≤ window.2) ∧
      ∀ c ∈ scenes, (probeRange minimumDuration window c).1 <
        (probeRange minimumDuration window c).2 →
        ∃ r ∈ intervalProbeRanges scenes minimumDuration window,
          r.1 ≤ (probeRange minimumDuration window c).1 ∧
            (probeRange minimumDuration window c).2 ≤ r.2 := by
  rw [intervalProbeRanges]
  have hmem : ∀ r, r ∈ (((scenes.map (probeRange minimumDuration window)).filter fun range =>
      range.2 - range.1 > 0).mergeSort fun a b => a.1 ≤ b.1) ↔
        r.1 < r.2 ∧ ∃ c ∈ scenes, probeRange minimumDuration window c = r := by
    intro r
    rw [List.mem_mergeSort, mem_filter, List.mem_map, decide_eq_true_eq, gt_iff_lt, sub_pos,
      and_comm]
  have hsorted := @List.pairwise_mergeSort _ (fun a b : ℚ × ℚ => decide (a.1 ≤ b.1))
    (fun a b c hab hbc => by simp at hab hbc ⊢; exact hab.trans hbc)
    (fun a b => by simpa using le_total a.1 b.1)
    ((scenes.map (probeRange minimumDuration window)).filter fun range => range.2 - range.1 > 0)
  have hin : ∀ r, (∃ c ∈ scenes, probeRange minimumDuration window c = r) →
      window.1 ≤ r.1 ∧ r.2 ≤ window.2 := by
    rintro r ⟨c, -, rfl⟩
    exact ⟨le_max_left .., min_le_left ..⟩
  generalize (((scenes.map (probeRange minimumDuration window)).filter fun range =>
    range.2 - range.1 > 0).mergeSort fun a b => a.1 ≤ b.1) = ranges at hmem hsorted
  cases ranges with
  | nil =>
    refine ⟨List.Pairwise.nil, nofun, fun c hc hlt => ?_⟩
    exact absurd ((hmem _).mpr ⟨hlt, c, hc, rfl⟩) List.not_mem_nil
  | cons current ranges =>
    have hin' : ∀ r ∈ current :: ranges, window.1 ≤ r.1 ∧ r.1 < r.2 ∧ r.2 ≤ window.2 := by
      intro r hr
      obtain ⟨hlt, hr⟩ := (hmem r).mp hr
      exact ⟨(hin r hr).1, hlt, (hin r hr).2⟩
    obtain ⟨hmerged, hpairs, hcover⟩ := mergeRangesFrom_spec hin' (by simpa using hsorted)
    refine ⟨hpairs, fun r hr => (hmerged r hr).2, fun c hc hlt => ?_⟩
    have hc' := (hmem _).mpr ⟨hlt, c, hc, rfl⟩
    rcases mem_cons.mp hc' with heq | hc'
    · exact hcover _ (.inl ⟨heq ▸ le_rfl, heq ▸ le_rfl⟩)
    · exact hcover _ (.inr hc')

/-! ### What is found -/

theorem firstLongEnough_long {ffmpeg : Ffmpeg} {entry : QueuedEpisode} {config : Config}
    {sceneChange : Int} {scenes : List CreditScene} {segment : ℚ × ℚ}
    (h : firstLongEnough ffmpeg entry config frames sceneChange scenes = .ok (some segment)) :
    (config.minimumCreditsDuration : ℚ) ≤ segment.2 - segment.1 := by
  induction scenes with
  | nil => cases h
  | cons scene scenes ih =>
    rw [firstLongEnough] at h
    obtain ⟨start, -, h⟩ := Lib.bind_eq_ok.mp h
    dsimp only at h
    split at h
    · next hlong =>
      cases h
      exact hlong
    · exact ih h

theorem sceneCredits_long {ffmpeg : Ffmpeg} {entry : QueuedEpisode} {config : Config}
    {segment : ℚ × ℚ} (h : sceneCredits ffmpeg entry config frames = .ok (some segment)) :
    (config.minimumCreditsDuration : ℚ) ≤ segment.2 - segment.1 := by
  unfold sceneCredits at h
  dsimp only at h
  split at h
  · exact firstLongEnough_long h
  · split at h <;> exact firstLongEnough_long h
  · exact firstLongEnough_long h

def InPart (window : ℚ × ℚ) (c : CreditScene) (t : ℚ) : Prop :=
  (window.1 ≤ t ∧ t ≤ window.2) ∧ window.1 + c.startTime ≤ t ∧ t ≤ window.1 + c.endTime

/-- The range of a candidate holds these times; it has a length if there are any and the minimum
duration and the window have one. -/
theorem probeRange_of_part {minimumDuration : Int} {window : ℚ × ℚ} {c : CreditScene} {t : ℚ}
    (hduration : 0 ≤ minimumDuration) (hpart : InPart window c t) :
    (probeRange minimumDuration window c).1 ≤ t ∧ t ≤ (probeRange minimumDuration window c).2 ∧
      (0 < minimumDuration → window.1 < window.2 → (probeRange minimumDuration window c).1 <
        (probeRange minimumDuration window c).2) := by
  obtain ⟨⟨hfrom, hto⟩, hstart, hend⟩ := hpart
  have hduration' : (0 : ℚ) ≤ minimumDuration := Int.cast_nonneg hduration
  refine ⟨max_le hfrom (by linarith), le_min hto (by linarith), fun hpos hlt => ?_⟩
  have hpos' : (0 : ℚ) < minimumDuration := Int.cast_pos.mpr hpos
  exact max_lt (lt_min hlt (by linarith)) (lt_min (by linarith) (by linarith))

/-- **Credit scenes are well formed and complete**: those found without refinement are in order
and apart; each ends at a black keyframe, is long enough, and starts where its span first reaches
the threshold; every dense run lies in one span; the probes are in order, apart and in the window
and hold what is in it of every candidate, unless that comes to a single moment; and the segment
is long enough. -/
theorem credit_scenes {sceneChange minimumDuration : Int} (hframes : Increasing frames)
    (hduration : 0 ≤ minimumDuration) :
    (creditScenes frames (minimum, sceneChange) minimumDuration false).Pairwise
        (fun s t => s.endTime < t.startTime) ∧
      (∀ scene ∈ creditScenes frames (minimum, sceneChange) minimumDuration false,
        (∃ f ∈ frames, minimum ≤ f.percentage ∧ f.frame = scene.endFrame ∧
          f.time = scene.endTime) ∧
        (minimumDuration : ℚ) ≤ scene.endTime - scene.startTime ∧
        ∃ span ∈ mergedSpans frames minimum, IsSpan (blackFrames frames minimum) span ∧
          scene.endTime = span.endTime ∧ StartsIn frames sceneChange span scene) ∧
      (∀ before f run after,
        IsRun (maximumInRunGap frames) (blackFrames frames minimum) before (f :: run) after →
        dense frames minimum (sceneOf f ((f :: run).getLast (cons_ne_nil _ _))) = true →
        ∃! span, span ∈ mergedSpans frames minimum ∧
          (sceneOf f ((f :: run).getLast (cons_ne_nil _ _))).Within span) ∧
      (∀ (window : ℚ × ℚ) (scenes : List CreditScene),
        (intervalProbeRanges scenes minimumDuration window).Pairwise (fun a b => a.2 < b.1) ∧
        (∀ r ∈ intervalProbeRanges scenes minimumDuration window,
          window.1 ≤ r.1 ∧ r.1 < r.2 ∧ r.2 ≤ window.2) ∧
        ∀ c ∈ scenes, (∃ t, InPart window c t) →
          (probeRange minimumDuration window c).1 ≠ (probeRange minimumDuration window c).2 ∨
            0 < minimumDuration ∧ window.1 < window.2 →
          ∃ r ∈ intervalProbeRanges scenes minimumDuration window,
            ∀ t, InPart window c t → r.1 ≤ t ∧ t ≤ r.2) ∧
      ∀ (ffmpeg : Ffmpeg) (entry : QueuedEpisode) (config : Config) (segment : ℚ × ℚ),
        config.minimumCreditsDuration = minimumDuration →
        sceneCredits ffmpeg entry config frames = .ok (some segment) →
        (minimumDuration : ℚ) ≤ segment.2 - segment.1 := by
  obtain ⟨hspans, -, hdense⟩ := @mergedSpans_spans frames minimum hframes
  refine ⟨creditScenes_disjoint hframes, fun scene hscene => ?_, ?_, fun window scenes => ?_, ?_⟩
  · obtain ⟨span, hspan, rfl, hlong⟩ := mem_creditScenes hframes hscene
    have hend := startingAt_end span (frames.find? (Reaches sceneChange span))
    refine ⟨?_, hlong, span, hspan, hspans span hspan, hend.2, startsIn_shifted ..⟩
    obtain ⟨start, -, last, hlast, -, -, rfl⟩ := hspans span hspan
    obtain ⟨hmem, hblack⟩ := mem_filter.mp hlast
    exact ⟨last, hmem, of_decide_eq_true hblack, hend.1.symm, hend.2.symm⟩
  · intro before f run after hrun hdenseRun
    exact hdense _ (mem_filter.mpr ⟨mem_candidates_of_run hrun, hdenseRun⟩)
  · obtain ⟨hpairs, hin, hcover⟩ := intervalProbeRanges_spec scenes minimumDuration window
    refine ⟨hpairs, hin, fun c hc ⟨t, ht⟩ hlength => ?_⟩
    obtain ⟨hfrom, hto, hpos⟩ := probeRange_of_part hduration ht
    have hlt : (probeRange minimumDuration window c).1 <
        (probeRange minimumDuration window c).2 := by
      rcases hlength with hne | ⟨hduration, hwindow⟩
      · exact lt_of_le_of_ne (hfrom.trans hto) hne
      · exact hpos hduration hwindow
    obtain ⟨r, hr, hstart, hend⟩ := hcover c hc hlt
    refine ⟨r, hr, fun t ht => ?_⟩
    obtain ⟨hfrom, hto, -⟩ := probeRange_of_part hduration ht
    exact ⟨hstart.trans hfrom, hto.trans hend⟩
  · rintro ffmpeg entry config segment rfl h
    exact sceneCredits_long h

/-- Black, a picture, and black again. -/
def blackTwice : List BlackFrame :=
  [⟨100, 0, 0⟩, ⟨100, 10, 1⟩, ⟨0, 20, 2⟩, ⟨0, 30, 3⟩, ⟨0, 40, 4⟩, ⟨100, 50, 5⟩, ⟨100, 60, 6⟩]

theorem maximumInRunGap_blackTwice : maximumInRunGap blackTwice = 20 := by
  have hgaps : ((blackTwice.zip blackTwice.tail).map fun pair => pair.2.time - pair.1.time).filter
      (· > 0) = List.replicate 6 10 := by decide +kernel
  have hsorted : (List.replicate 6 (10 : ℚ)).mergeSort (· ≤ ·) = List.replicate 6 10 :=
    List.mergeSort_of_pairwise (by decide +kernel)
  rw [maximumInRunGap, hgaps, hsorted]
  decide +kernel

theorem credit_scenes_black :
    (creditScenes blackTwice (85, 95) 1 false).length = 2 ∧
    (creditScenes blackTwice (85, 95) 1 false).Pairwise (fun s t => s.endTime < t.startTime) ∧
    (∀ scene ∈ creditScenes blackTwice (85, 95) 1 false, 1 ≤ scene.endTime - scene.startTime) ∧
    (intervalProbeRanges (creditScenes blackTwice (85, 95) 1 false) 1 (0, 300)).Pairwise
      fun a b => a.2 < b.1 := by
  have hframes : Increasing blackTwice := by
    unfold Increasing
    decide +kernel
  obtain ⟨hapart, hscenes, -, hprobes, -⟩ := @credit_scenes blackTwice 85 95 1 hframes (by decide)
  refine ⟨?_, hapart, fun scene hscene => ?_, (hprobes (0, 300) _).1⟩
  · rw [creditScenes, mergedSpans, candidates, maximumInRunGap_blackTwice]
    decide +kernel
  · simpa using (hscenes scene hscene).2.1

/-- Without a minimum duration a candidate of one keyframe is not probed. -/
theorem one_keyframe_unprobed :
    candidates [⟨100, 5, 1⟩] 85 = [⟨1, 1, 5, 5⟩] ∧ InPart (0, 10) ⟨1, 1, 5, 5⟩ 5 ∧
      intervalProbeRanges (candidates [⟨100, 5, 1⟩] 85) 0 (0, 10) = [] := by
  have hcandidates : candidates [⟨100, 5, 1⟩] 85 = [⟨1, 1, 5, 5⟩] := by
    simp [candidates, blackFrames, candidatesFrom, sceneOf]
  refine ⟨hcandidates, by norm_num [InPart], ?_⟩
  rw [hcandidates]
  norm_num [intervalProbeRanges, probeRange, mergeRanges]

end Ferrofin.IntroSkipper
