import Mathlib.Algebra.Order.BigOperators.Group.List
import Mathlib.Data.List.Sort
import Ferrofin.Lib.PartitionPoint
import Mathlib.Algebra.Ring.Int.Defs

/-!
# The segments of a playlist that is cut on keyframes

`compute_segments` goes through the keyframes once and cuts at each that has reached
the running cut time, which moves on by the desired length at every cut, whatever the
cut was.  Lengths are exact numbers of ticks here; the code keeps them in seconds.
-/

namespace Ferrofin.Hls

open Lib

/-! ### The playlist -/

structure KeyframeData where
  totalDuration : Int
  keyframeTicks : List Int

def ticksPerMillisecond : Int := 10000

/-- The variables of the loop of `compute_segments`. -/
structure Cutting where
  lastKeyframe : Int := 0
  result : List Int := []
  desiredCutTime : Int

def nextCutTime (desired cutTime : Int) : Int := (cutTime + desired).bmod (2 ^ 64)

def Cutting.turn (desired : Int) (c : Cutting) (keyframe : Int) : Cutting :=
  if c.desiredCutTime ≤ keyframe then {
    lastKeyframe := keyframe
    result := c.result ++ [keyframe - c.lastKeyframe]
    desiredCutTime := nextCutTime desired c.desiredCutTime }
  else c

def cutSegments (desired : Int) (keyframes : List Int) : Cutting :=
  keyframes.foldl (Cutting.turn desired) { desiredCutTime := desired }

def clampedDuration (data : KeyframeData) : Int :=
  match data.keyframeTicks.getLast? with
  | some last => if data.totalDuration < last then last else data.totalDuration
  | none => data.totalDuration

def computeSegments (data : KeyframeData) (desiredSegmentLengthMs : Int) : List Int :=
  let c := cutSegments (desiredSegmentLengthMs * ticksPerMillisecond) data.keyframeTicks
  let remaining := clampedDuration data - c.lastKeyframe
  if 0 < remaining then c.result ++ [remaining] else c.result

def startsFrom : Int → List Int → List Int
  | _, [] => []
  | start, length :: lengths => start :: startsFrom (start + length) lengths

def segmentStartTicks (segments : List Int) : List Int := startsFrom 0 segments

structure SegmentUrl where
  index : Nat
  runtimeTicks : Int
  actualSegmentLengthTicks : Int
deriving DecidableEq

/-- The loop of `create_main_playlist`. -/
def urlsFrom : Nat → Int → List Int → List SegmentUrl
  | _, _, [] => []
  | index, runtimeTicks, length :: lengths =>
    { index, runtimeTicks, actualSegmentLengthTicks := length } ::
      urlsFrom (index + 1) (runtimeTicks + length) lengths

/-- The segment URLs of `create_main_playlist`. -/
def segmentUrls (segments : List Int) : List SegmentUrl := urlsFrom 0 0 segments

def segmentContaining (starts : List Int) (ticks : Int) : Int × Int :=
  let index := partitionPoint (fun i => starts.getD i 0 ≤ ticks) starts.length - 1
  match starts[index]? with
  | some start => if index < 2 ^ 31 then (index, start) else (0, 0)
  | none => (0, 0)

/-! ### The cuts -/

def cutTime (desired : Int) : Nat → Int
  | 0 => desired
  | n + 1 => nextCutTime desired (cutTime desired n)

/-- The keyframes at which the segments end: the segment `i` ends at the keyframe of the
`i`-th cut, which had reached the running cut time, while no keyframe between the cut
before and this one had. -/
def CutsAt (desired : Int) (keyframes result : List Int) (cuts : List Nat) : Prop :=
  ∀ i c, cuts[i]? = some c → keyframes[c]? = some (result.take (i + 1)).sum ∧
    cutTime desired i ≤ (result.take (i + 1)).sum ∧ (∀ c' ∈ cuts.take i, c' < c) ∧
    ∀ j < c, (∀ c' ∈ cuts.take i, c' < j) →
      ∀ k, keyframes[j]? = some k → k < cutTime desired i

/-- What the loop has done with the keyframes gone through. -/
structure Scan (desired : Int) (keyframes : List Int) (c : Cutting) (cuts : List Nat) : Prop where
  length : c.result.length = cuts.length
  time : c.desiredCutTime = cutTime desired cuts.length
  last : c.lastKeyframe = c.result.sum
  lastMem : c.lastKeyframe = 0 ∨ c.lastKeyframe ∈ keyframes
  nonneg : ∀ l ∈ c.result, 0 ≤ l
  cut : CutsAt desired keyframes c.result cuts
  /-- What was passed since the last cut had not reached the cut time. -/
  passed : ∀ j, (∀ c' ∈ cuts, c' < j) → ∀ k, keyframes[j]? = some k →
    k < cutTime desired cuts.length

variable {desired : Int} {keyframes : List Int} {c : Cutting} {cuts : List Nat}

theorem eq_of_getElem?_singleton {α : Type*} {a b : α} {n : Nat} (h : [a][n]? = some b) :
    n = 0 ∧ a = b := by
  cases n with
  | zero => exact ⟨rfl, Option.some.inj h⟩
  | succ n => cases h

theorem scan_nil (desired : Int) : Scan desired [] { desiredCutTime := desired } [] where
  length := rfl
  time := rfl
  last := rfl
  lastMem := .inl rfl
  nonneg _ hl := by cases hl
  cut i c hc := by simp at hc
  passed j _ k hk := by simp at hk

theorem CutsAt.append {result : List Int} (h : CutsAt desired keyframes result cuts)
    (keyframe : Int) :
    CutsAt desired (keyframes ++ [keyframe]) result cuts := by
  intro i c hc
  obtain ⟨hend, hreached, hafter, hpassed⟩ := h i c hc
  have hlt : c < keyframes.length := (List.getElem?_eq_some_iff.mp hend).1
  refine ⟨by rw [List.getElem?_append_left hlt, hend], hreached, hafter,
    fun j hj hcuts k hk => ?_⟩
  rw [List.getElem?_append_left (by omega)] at hk
  exact hpassed j hj hcuts k hk

theorem CutsAt.lt_length {result : List Int} (h : CutsAt desired keyframes result cuts) :
    ∀ c ∈ cuts, c < keyframes.length := fun c hc => by
  obtain ⟨i, hi⟩ := List.mem_iff_getElem?.mp hc
  exact (List.getElem?_eq_some_iff.mp (h i c hi).1).1

/-- **One turn.** -/
theorem Scan.turn (h : Scan desired keyframes c cuts) {keyframe : Int} (h0 : 0 ≤ keyframe)
    (hsorted : ∀ k ∈ keyframes, k ≤ keyframe) :
    ∃ cuts', Scan desired (keyframes ++ [keyframe]) (c.turn desired keyframe) cuts' := by
  unfold Cutting.turn
  split
  · next hcut =>
    refine ⟨cuts ++ [keyframes.length], ?_, ?_, ?_, ?_, ?_, ?_, ?_⟩
    · simp [h.length]
    · rw [List.length_append, List.length_singleton, cutTime, h.time]
    · dsimp only
      rw [List.sum_append, List.sum_singleton, ← h.last]
      omega
    · exact .inr (List.mem_append_right _ (List.mem_singleton.mpr rfl))
    · intro l hl
      rcases List.mem_append.mp hl with hl | hl
      · exact h.nonneg l hl
      · have hlast : c.lastKeyframe ≤ keyframe := by
          rcases h.lastMem with hlast | hlast
          · omega
          · exact hsorted _ hlast
        rw [List.mem_singleton.mp hl]
        omega
    · intro i p hp
      rcases Nat.lt_or_ge i cuts.length with hi | hi
      · rw [List.getElem?_append_left hi] at hp
        have hold := h.cut.append keyframe i p hp
        rw [List.take_append_of_le_length (by rw [h.length]; omega),
          List.take_append_of_le_length (by omega)]
        exact hold
      · rw [List.getElem?_append_right hi] at hp
        obtain ⟨hi', rfl⟩ := eq_of_getElem?_singleton hp
        have hi' : i = cuts.length := by omega
        subst hi'
        have htake : (c.result ++ [keyframe - c.lastKeyframe]).take (cuts.length + 1) =
            c.result ++ [keyframe - c.lastKeyframe] :=
          List.take_of_length_le (by rw [List.length_append, List.length_singleton, h.length])
        have hsum : (c.result ++ [keyframe - c.lastKeyframe]).sum = keyframe := by
          rw [List.sum_append, List.sum_singleton, ← h.last]
          omega
        have hcuts : (cuts ++ [keyframes.length]).take cuts.length = cuts := by
          rw [List.take_append_of_le_length le_rfl, List.take_length]
        rw [htake, hsum, hcuts]
        refine ⟨List.getElem?_concat_length, by rw [← h.time]; exact hcut, h.cut.lt_length,
          fun j hj hbefore k hk => ?_⟩
        rw [List.getElem?_append_left hj] at hk
        exact h.passed j hbefore k hk
    · intro j hj k hk
      have hlt := hj keyframes.length (List.mem_append_right _ (List.mem_singleton.mpr rfl))
      rw [List.getElem?_eq_none (by rw [List.length_append, List.length_singleton]; omega)] at hk
      cases hk
  · next hcut =>
    refine ⟨cuts, h.length, h.time, h.last, ?_, h.nonneg, h.cut.append keyframe, ?_⟩
    · exact h.lastMem.imp_right (List.mem_append_left _)
    · intro j hj k hk
      rcases Nat.lt_or_ge j keyframes.length with hlt | hge
      · rw [List.getElem?_append_left hlt] at hk
        exact h.passed j hj k hk
      · rw [List.getElem?_append_right hge] at hk
        obtain ⟨-, rfl⟩ := eq_of_getElem?_singleton hk
        rw [← h.time]
        exact Int.not_le.mp hcut

/-- **The loop**, over keyframes that do not decrease. -/
theorem scan_foldl {rest : List Int} (h : Scan desired keyframes c cuts)
    (hsorted : (keyframes ++ rest).Pairwise (· ≤ ·)) (h0 : ∀ k ∈ rest, 0 ≤ k) :
    ∃ cuts', Scan desired (keyframes ++ rest) (rest.foldl (Cutting.turn desired) c) cuts' := by
  induction rest generalizing keyframes c cuts with
  | nil => exact ⟨cuts, by simpa using h⟩
  | cons k rest ih =>
    have hle : ∀ k' ∈ keyframes, k' ≤ k := fun k' hk' =>
      (List.pairwise_append.mp hsorted).2.2 k' hk' k (List.mem_cons_self ..)
    obtain ⟨cuts', hturn⟩ := h.turn (h0 k (List.mem_cons_self ..)) hle
    rw [List.append_cons] at hsorted ⊢
    exact ih hturn hsorted fun k' hk' => h0 k' (List.mem_cons_of_mem _ hk')

theorem exists_scan (desired : Int) (hsorted : keyframes.Pairwise (· ≤ ·))
    (h0 : ∀ k ∈ keyframes, 0 ≤ k) :
    ∃ cuts, Scan desired keyframes (cutSegments desired keyframes) cuts :=
  scan_foldl (scan_nil desired) hsorted h0

/-! ### The segments -/

variable {data : KeyframeData} {ms : Int}

def lastKeyframe (data : KeyframeData) : Int := data.keyframeTicks.getLast?.getD 0

theorem clampedDuration_eq (h : data.keyframeTicks ≠ []) :
    clampedDuration data = max data.totalDuration (lastKeyframe data) := by
  unfold clampedDuration lastKeyframe
  rw [List.getLast?_eq_some_getLast h]
  dsimp only
  rw [Option.getD_some]
  split <;> omega

theorem le_lastKeyframe (hsorted : data.keyframeTicks.Pairwise (· ≤ ·)) {k : Int}
    (hk : k ∈ data.keyframeTicks) : k ≤ lastKeyframe data := by
  rcases List.eq_nil_or_concat data.keyframeTicks with hnil | ⟨front, last, hfront⟩
  · rw [hnil] at hk
    cases hk
  · rw [List.concat_eq_append] at hfront
    rw [lastKeyframe, hfront, List.getLast?_concat, Option.getD_some]
    rw [hfront] at hk hsorted
    rcases List.mem_append.mp hk with hk | hk
    · exact (List.pairwise_append.mp hsorted).2.2 k hk last (List.mem_singleton.mpr rfl)
    · rw [List.mem_singleton.mp hk]

theorem lastKeyframe_nonneg (h0 : ∀ k ∈ data.keyframeTicks, 0 ≤ k) : 0 ≤ lastKeyframe data := by
  unfold lastKeyframe
  cases h : data.keyframeTicks.getLast? with
  | none => exact le_rfl
  | some last => exact h0 last (List.mem_of_getLast? h)

theorem Scan.last_le (h : Scan desired data.keyframeTicks c cuts)
    (hsorted : data.keyframeTicks.Pairwise (· ≤ ·)) (h0 : ∀ k ∈ data.keyframeTicks, 0 ≤ k) :
    c.lastKeyframe ≤ lastKeyframe data := by
  rcases h.lastMem with hlast | hlast
  · rw [hlast]
    exact lastKeyframe_nonneg h0
  · exact le_lastKeyframe hsorted hlast

theorem segments_nonneg (hsorted : data.keyframeTicks.Pairwise (· ≤ ·))
    (h0 : ∀ k ∈ data.keyframeTicks, 0 ≤ k) : ∀ l ∈ computeSegments data ms, 0 ≤ l := by
  obtain ⟨cuts, h⟩ := exists_scan (ms * ticksPerMillisecond) hsorted h0
  unfold computeSegments
  dsimp only
  split
  · next hremaining =>
    intro l hl
    rcases List.mem_append.mp hl with hl | hl
    · exact h.nonneg l hl
    · rw [List.mem_singleton.mp hl]
      omega
  · exact h.nonneg

theorem sum_computeSegments (hsorted : data.keyframeTicks.Pairwise (· ≤ ·))
    (h0 : ∀ k ∈ data.keyframeTicks, 0 ≤ k) :
    (computeSegments data ms).sum = max data.totalDuration (lastKeyframe data) := by
  obtain ⟨cuts, h⟩ := exists_scan (ms * ticksPerMillisecond) hsorted h0
  have hle := h.last_le hsorted h0
  have hlast := h.last
  have hsum : (computeSegments data ms).sum =
      (cutSegments (ms * ticksPerMillisecond) data.keyframeTicks).lastKeyframe +
        max 0 (clampedDuration data -
          (cutSegments (ms * ticksPerMillisecond) data.keyframeTicks).lastKeyframe) := by
    unfold computeSegments
    dsimp only
    split
    · rw [List.sum_append, List.sum_singleton]
      omega
    · omega
  rw [hsum]
  by_cases hnil : data.keyframeTicks = []
  · have hclamped : clampedDuration data = data.totalDuration := by simp [clampedDuration, hnil]
    have hzero : lastKeyframe data = 0 := by simp [lastKeyframe, hnil]
    have hstart : (cutSegments (ms * ticksPerMillisecond) data.keyframeTicks).lastKeyframe = 0 := by
      simp [cutSegments, hnil]
    omega
  · rw [clampedDuration_eq hnil]
    omega

/-- **Where the segments are cut**: all but the last one end at a keyframe, the first
since the cut before that had reached the running cut time. -/
theorem segments_cut (hsorted : data.keyframeTicks.Pairwise (· ≤ ·))
    (h0 : ∀ k ∈ data.keyframeTicks, 0 ≤ k) :
    ∃ cuts : List Nat, (computeSegments data ms).length ≤ cuts.length + 1 ∧
      CutsAt (ms * ticksPerMillisecond) data.keyframeTicks (computeSegments data ms) cuts := by
  obtain ⟨cuts, h⟩ := exists_scan (ms * ticksPerMillisecond) hsorted h0
  refine ⟨cuts, ?_, ?_⟩
  · unfold computeSegments
    dsimp only
    split
    · rw [List.length_append, List.length_singleton, h.length]
    · rw [h.length]
      omega
  · unfold computeSegments
    dsimp only
    split
    · intro i c hc
      have hlt : i < cuts.length := (List.getElem?_eq_some_iff.mp hc).1
      rw [List.take_append_of_le_length (by rw [h.length]; omega)]
      exact h.cut i c hc
    · exact h.cut

/-! ### The resume segment -/

theorem length_startsFrom (start : Int) (lengths : List Int) :
    (startsFrom start lengths).length = lengths.length := by
  induction lengths generalizing start with
  | nil => rfl
  | cons l lengths ih => rw [startsFrom, List.length_cons, List.length_cons, ih]

theorem getElem?_startsFrom {start : Int} {lengths : List Int} {i : Nat} (h : i < lengths.length) :
    (startsFrom start lengths)[i]? = some (start + (lengths.take i).sum) := by
  induction lengths generalizing start i with
  | nil => cases h
  | cons l lengths ih =>
    cases i with
    | zero => simp [startsFrom]
    | succ i =>
      rw [startsFrom, List.getElem?_cons_succ, ih (Nat.lt_of_succ_lt_succ h), List.take_succ_cons,
        List.sum_cons, Int.add_assoc]

theorem getElem?_urlsFrom (n : Nat) (start : Int) (lengths : List Int) (i : Nat) :
    (urlsFrom n start lengths)[i]? = lengths[i]?.map fun l =>
      { index := n + i, runtimeTicks := start + (lengths.take i).sum,
        actualSegmentLengthTicks := l } := by
  induction lengths generalizing n start i with
  | nil => rfl
  | cons l' lengths ih =>
    cases i with
    | zero => simp [urlsFrom]
    | succ i =>
      rw [urlsFrom, List.getElem?_cons_succ, ih, List.getElem?_cons_succ, List.take_succ_cons,
        List.sum_cons, Int.add_assoc, Nat.add_assoc, Nat.add_comm 1 i]

theorem sum_take_le {lengths : List Int} (h : ∀ l ∈ lengths, 0 ≤ l) {i j : Nat} (hij : i ≤ j) :
    (lengths.take i).sum ≤ (lengths.take j).sum := by
  have hsplit := List.take_append_drop i (lengths.take j)
  rw [List.take_take, Nat.min_eq_left hij] at hsplit
  have hnonneg : 0 ≤ ((lengths.take j).drop i).sum := List.sum_nonneg fun l hl =>
    h l (List.mem_of_mem_take (List.mem_of_mem_drop hl))
  rw [← hsplit, List.sum_append]
  omega

/-- **The segment of an offset** within the playlist: the search finds the one that
contains it, and answers it if its number is an `i32`. -/
theorem segmentContaining_eq {lengths : List Int} (h : ∀ l ∈ lengths, 0 ≤ l) {ticks : Int}
    (h0 : 0 ≤ ticks) (hlt : ticks < lengths.sum) :
    ∃ (i : Nat) (start length : Int),
      (segmentUrls lengths)[i]? = some ⟨i, start, length⟩ ∧ start ≤ ticks ∧
      ticks < start + length ∧
      segmentContaining (segmentStartTicks lengths) ticks =
        if i < 2 ^ 31 then ((i : Int), start) else (0, 0) := by
  have hstart : ∀ i, i < lengths.length →
      (segmentStartTicks lengths).getD i 0 = (lengths.take i).sum := fun i hi => by
    rw [List.getD_eq_getElem?_getD, segmentStartTicks, getElem?_startsFrom hi, Option.getD_some,
      Int.zero_add]
  have hlength : (segmentStartTicks lengths).length = lengths.length := length_startsFrom 0 lengths
  have hpoint := isPartitionPoint_partitionPoint
    (p := fun i => decide ((segmentStartTicks lengths).getD i 0 ≤ ticks))
    fun i j hij (hj : j < lengths.length) htrue => by
      simp only [decide_eq_true_eq, hstart j hj] at htrue
      simp only [decide_eq_true_eq, hstart i (by omega)]
      exact (sum_take_le h hij).trans htrue
  unfold segmentContaining
  rw [hlength]
  generalize partitionPoint
    (fun i => decide ((segmentStartTicks lengths).getD i 0 ≤ ticks)) lengths.length = k at hpoint ⊢
  have hne : 0 < lengths.length := by
    refine List.length_pos_of_ne_nil fun hnil => ?_
    rw [hnil, List.sum_nil] at hlt
    omega
  -- the first segment starts at 0, so the point is past it
  have hk : 0 < k := by
    by_contra hzero
    have hfirst := hpoint.after 0 (by omega) hne
    rw [hstart 0 hne, List.take_zero, List.sum_nil] at hfirst
    simp only [decide_eq_false_iff_not] at hfirst
    omega
  have hle := hpoint.le
  have hbefore := hpoint.before (k - 1) (by omega)
  simp only [decide_eq_true_eq, hstart (k - 1) (by omega)] at hbefore
  have hget : lengths[k - 1]? = some (lengths.get ⟨k - 1, by omega⟩) :=
    List.getElem?_eq_getElem (by omega)
  have hend : ticks < (lengths.take (k - 1)).sum + lengths.get ⟨k - 1, by omega⟩ := by
    have htake : (lengths.take (k - 1)).sum + lengths.get ⟨k - 1, by omega⟩ =
        (lengths.take k).sum := by
      have hsucc := List.take_succ_eq_append_getElem (l := lengths) (i := k - 1) (by omega)
      rw [Nat.sub_add_cancel hk] at hsucc
      rw [hsucc, List.sum_append, List.sum_singleton]
      rfl
    rw [htake]
    rcases Nat.lt_or_ge k lengths.length with hk' | hk'
    · have hafter := hpoint.after k le_rfl hk'
      simp only [hstart k hk', decide_eq_false_iff_not] at hafter
      omega
    · rw [List.take_of_length_le hk']
      exact hlt
  refine ⟨k - 1, (lengths.take (k - 1)).sum, lengths.get ⟨k - 1, by omega⟩, ?_, hbefore, hend, ?_⟩
  · rw [segmentUrls, getElem?_urlsFrom, hget, Option.map_some, Nat.zero_add, Int.zero_add]
  · dsimp only
    rw [segmentStartTicks, getElem?_startsFrom (by omega), Int.zero_add]

/-- **Keyframe segmentation.**  The segments have nonnegative lengths that add up to the
duration, or to the last keyframe past it (0 without keyframes).  Each but the last ends
at a keyframe, the first since the cut before to have reached the running cut time.  The
segment found for an offset within them contains it, and its URL says where it starts,
if its number is an `i32`. -/
theorem keyframe_segmentation (data : KeyframeData) (ms : Int)
    (hsorted : data.keyframeTicks.Pairwise (· ≤ ·)) (h0 : ∀ k ∈ data.keyframeTicks, 0 ≤ k) :
    (∀ l ∈ computeSegments data ms, 0 ≤ l) ∧
    (computeSegments data ms).sum = max data.totalDuration (lastKeyframe data) ∧
    (∃ cuts : List Nat, (computeSegments data ms).length ≤ cuts.length + 1 ∧
      CutsAt (ms * ticksPerMillisecond) data.keyframeTicks (computeSegments data ms) cuts) ∧
    ∀ ticks, 0 ≤ ticks → ticks < (computeSegments data ms).sum →
      ∃ (i : Nat) (start length : Int),
        (segmentUrls (computeSegments data ms))[i]? = some ⟨i, start, length⟩ ∧ start ≤ ticks ∧
        ticks < start + length ∧
        segmentContaining (segmentStartTicks (computeSegments data ms)) ticks =
          if i < 2 ^ 31 then ((i : Int), start) else (0, 0) :=
  ⟨segments_nonneg hsorted h0, sum_computeSegments hsorted h0, segments_cut hsorted h0,
    fun _ h0' hlt => segmentContaining_eq (segments_nonneg hsorted h0) h0' hlt⟩

def fourKeyframes : KeyframeData where
  totalDuration := 500000
  keyframeTicks := [50000, 120000, 120000, 400000]

theorem keyframe_segmentation_four :
    computeSegments fourKeyframes 10 = [120000, 280000, 100000] ∧
    ∃ (i : Nat) (start length : Int),
      (segmentUrls (computeSegments fourKeyframes 10))[i]? = some ⟨i, start, length⟩ ∧
      start ≤ 130000 ∧ 130000 < start + length ∧
      segmentContaining (segmentStartTicks (computeSegments fourKeyframes 10)) 130000 =
        if i < 2 ^ 31 then ((i : Int), start) else (0, 0) :=
  ⟨by decide, (keyframe_segmentation fourKeyframes 10 (by decide) (by decide)).2.2.2 130000
    (by decide) (by decide)⟩

/-! ### A playlist with more segments than an `i32` counts -/

theorem cutTime_ms (n : Nat) (h : n < 2 ^ 40) :
    cutTime (1 * ticksPerMillisecond) n = 10000 * (n + 1) := by
  induction n with
  | zero => rfl
  | succ n ih =>
    rw [cutTime, ih (by omega), nextCutTime, ticksPerMillisecond, Int.bmod_def]
    omega

theorem cutSegments_replicate {desired ticks : Int} (n : Nat)
    (h : ∀ i ≤ n, cutTime desired i ≤ ticks) :
    cutSegments desired (List.replicate (n + 1) ticks) = {
      lastKeyframe := ticks
      result := ticks :: List.replicate n 0
      desiredCutTime := cutTime desired (n + 1) } := by
  induction n with
  | zero =>
    have hcut : desired ≤ ticks := h 0 (Nat.le_refl 0)
    simp [cutSegments, Cutting.turn, hcut, cutTime]
  | succ n ih =>
    have ih := ih fun i hi => h i (by omega)
    rw [List.replicate_succ', cutSegments, List.foldl_append]
    rw [cutSegments] at ih
    rw [ih, List.foldl_cons, List.foldl_nil, Cutting.turn, if_pos (h (n + 1) (Nat.le_refl _)),
      Int.sub_self, List.cons_append, ← List.replicate_succ']
    rfl

def sameTime (n : Nat) (ticks : Int) : KeyframeData where
  totalDuration := ticks + 1
  keyframeTicks := List.replicate (n + 1) ticks

theorem computeSegments_sameTime (n : Nat) {ticks : Int}
    (h : ∀ i ≤ n, cutTime (1 * ticksPerMillisecond) i ≤ ticks) :
    computeSegments (sameTime n ticks) 1 = (ticks :: List.replicate n 0) ++ [1] := by
  have hclamped : clampedDuration (sameTime n ticks) = ticks + 1 := by
    simp [clampedDuration, sameTime, List.getLast?_replicate]
  unfold computeSegments
  rw [hclamped, sameTime, cutSegments_replicate n h]
  dsimp only
  have hone : ticks + 1 - ticks = 1 := by omega
  rw [hone, if_pos (by decide)]

/-- **A resume segment past an `i32` is not found**: for 2³¹ + 1 keyframes at one time
and a desired length of a millisecond, the answer is the first segment. -/
theorem resume_segment_past_i32 :
    ¬ ∀ (data : KeyframeData) (ms : Int), 0 < ms → data.keyframeTicks.Pairwise (· ≤ ·) →
      (∀ k ∈ data.keyframeTicks, 0 ≤ k) →
      ∀ ticks, 0 ≤ ticks → ticks < (computeSegments data ms).sum →
        ∃ (i : Nat) (start length : Int),
          (segmentUrls (computeSegments data ms))[i]? = some ⟨i, start, length⟩ ∧ start ≤ ticks ∧
          ticks < start + length ∧
          segmentContaining (segmentStartTicks (computeSegments data ms)) ticks =
            ((i : Int), start) := by
  intro hclaim
  obtain ⟨n, hn⟩ : ∃ n : Nat, n = 2 ^ 31 := ⟨_, rfl⟩
  obtain ⟨ticks, hticks⟩ : ∃ ticks : Int, ticks = 10000 * (n + 1) := ⟨_, rfl⟩
  have hsegments : computeSegments (sameTime n ticks) 1 = (ticks :: List.replicate n 0) ++ [1] :=
    computeSegments_sameTime n fun i hi => by
      rw [cutTime_ms i (by omega)]
      omega
  have hsorted : (sameTime n ticks).keyframeTicks.Pairwise (· ≤ ·) :=
    List.pairwise_replicate.mpr (.inr le_rfl)
  have h0 : ∀ k ∈ (sameTime n ticks).keyframeTicks, 0 ≤ k := fun k hk => by
    rw [List.eq_of_mem_replicate hk]
    omega
  have hsum : ticks < (computeSegments (sameTime n ticks) 1).sum := by
    rw [sum_computeSegments hsorted h0]
    exact lt_max_of_lt_left (by simp [sameTime])
  have hnonneg : ∀ l ∈ computeSegments (sameTime n ticks) 1, 0 ≤ l := segments_nonneg hsorted h0
  rw [hsegments] at hsum hnonneg
  -- no segment but the last one contains the offset
  have hlast : ∀ (i : Nat) (start length : Int),
      (segmentUrls ((ticks :: List.replicate n 0) ++ [1]))[i]? = some ⟨i, start, length⟩ →
      start ≤ ticks → ticks < start + length → n < i := by
    intro i start length hurl hstart hend
    by_contra hle
    rw [segmentUrls, getElem?_urlsFrom, List.getElem?_append_left (by
      rw [List.length_cons, List.length_replicate]; omega)] at hurl
    cases i with
    | zero =>
      simp at hurl
      omega
    | succ i =>
      rw [List.getElem?_cons_succ, List.getElem?_replicate_of_lt (by omega)] at hurl
      simp at hurl
      omega
  have hticks0 : 0 ≤ ticks := by omega
  obtain ⟨i, start, length, hurl, hstart, hend, hfound⟩ :=
    segmentContaining_eq hnonneg hticks0 hsum
  have hi := hlast i start length hurl hstart hend
  rw [if_neg (by omega)] at hfound
  obtain ⟨i', start', length', hurl', hstart', hend', hfound'⟩ :=
    hclaim (sameTime n ticks) 1 (by decide) hsorted h0 ticks (by omega)
      (by rw [hsegments]; exact hsum)
  rw [hsegments] at hurl' hfound'
  rw [hfound] at hfound'
  have hi' := hlast i' start' length' hurl' hstart' hend'
  have := congrArg Prod.fst hfound'
  simp at this
  omega

end Ferrofin.Hls
