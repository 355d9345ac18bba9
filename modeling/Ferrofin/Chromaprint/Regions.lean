import Ferrofin.Lib.Longest
import Mathlib.Data.Finset.Dedup
import Mathlib.Data.List.AList
import Mathlib.Data.List.Sort
import Mathlib.Tactic.Linarith
import Mathlib.Tactic.Ring

/-!
# The shared regions

Two episodes' fingerprints are aligned at the index shifts at which a point of one has a point of
the other close to its value, and at each shift the longest run of similar points is a shared
region.  The best one of them is the answer.

The candidate shifts are in a hash set, so that the order in which they are visited is no function
of the fingerprints: it is a parameter of the search, and `Visits` says which orders there are.
Times are exact multiples of the duration of a point.

The two sides of a shift have the same run, the right one later by the shift
(`findContiguousAtShift_eq`), so swapping the fingerprints negates the candidate shifts
(`candidateShifts_swap`) and swaps the region of each (`findContiguousAtShift_swap`).  The region of
a shift is admissible, and no admissible one at that shift is longer
(`findContiguousAtShift_spec`).
-/

namespace Ferrofin.Chromaprint

open Lib (longestRun lastMax)

/-! ### What is compared -/

def sampleDuration : ℚ := 4096 / 11025 / 3

/-- Which kind of shared region is being detected. -/
inductive AnalysisMode
  /-- An episode's opening titles. -/
  | introduction
  /-- End credits. -/
  | credits
  /-- A "previously on" recap. -/
  | recap
  deriving DecidableEq

structure TimeRange where
  start : ℚ
  finish : ℚ
  deriving DecidableEq

namespace TimeRange

def duration (range : TimeRange) : ℚ := range.finish - range.start

def ofRun (run : ℚ × ℚ) : TimeRange := ⟨run.1, run.2⟩

end TimeRange

structure CompareConfig where
  /-- The tolerance of a point's value across episodes. -/
  invertedIndexShift : Int32 := 2
  /-- The bits by which two similar points may differ. -/
  maxBitDiff : ℕ := 6
  /-- The gap between similar points that breaks a run, in seconds. -/
  maxTimeSkip : ℚ := 7 / 2
  /-- The seconds that a shared region spans at least. -/
  minRegionDuration : ℚ := 15

abbrev Fingerprint : Type := List (BitVec 32)

def pointTime (i : ℕ) : ℚ := i * sampleDuration

/-! ### The candidate shifts -/

def createInvertedIndex (fingerprint : Fingerprint) : AList fun _ : BitVec 32 => ℕ :=
  fingerprint.zipIdx.foldl (fun index point => index.insert point.1 point.2) ∅

/-- The deltas that are tried around a point; the negation wraps. -/
def deltas (shift : Int32) : List ℤ :=
  (List.range (shift.toInt + 1 - (-shift).toInt).toNat).map fun i : ℕ => (-shift).toInt + i

/-- The shifts at which a point of one fingerprint has a point of the other near its value. -/
def candidateShifts (lhs rhs : Fingerprint) (cfg : CompareConfig) : Finset ℤ :=
  ((createInvertedIndex lhs).entries.flatMap fun entry =>
    (deltas cfg.invertedIndexShift).filterMap fun delta =>
      ((createInvertedIndex rhs).lookup (entry.1 + BitVec.ofInt 32 delta)).map
        fun rhsIndex : ℕ => (rhsIndex : ℤ) - entry.2).toFinset

/-! ### The region at a shift -/

def similar (cfg : CompareConfig) (lv rv : BitVec 32) : Bool :=
  decide ((lv ^^^ rv).cpop.toNat ≤ cfg.maxBitDiff)

/-- The positions of similar points of the two fingerprints at a shift: a negative one advances the
left side, a positive one the right. -/
def matchedPoints (lhs rhs : Fingerprint) (shift : ℤ) (cfg : CompareConfig) : List (ℕ × ℕ) :=
  let leftOffset := (-shift).toNat
  let rightOffset := shift.toNat
  let upper := min lhs.length rhs.length - shift.natAbs
  ((List.range upper).map fun i => (i + leftOffset, i + rightOffset)).filter fun p =>
    -- both sides have the position: the source's `break` is never reached
    match lhs[p.1]?, rhs[p.2]? with
    | some lv, some rv => similar cfg lv rv
    | _, _ => false

/-- The longest span of times whose gaps are within a distance. -/
def findContiguous (times : List ℚ) (maxDistance : ℚ) : Option TimeRange :=
  (longestRun maxDistance (times.insertionSort (· ≤ ·))).map .ofRun

/-- The longest run of similar points at a shift, unless it is too short. -/
def findContiguousAtShift (lhs rhs : Fingerprint) (shift : ℤ) (cfg : CompareConfig) :
    Option (TimeRange × TimeRange) := do
  let matched := matchedPoints lhs rhs shift cfg
  let l ← findContiguous (matched.map fun p => pointTime p.1) cfg.maxTimeSkip
  if l.duration < cfg.minRegionDuration then
    none
  else
    let r ← findContiguous (matched.map fun p => pointTime p.2) cfg.maxTimeSkip
    some (l, r)

/-! ### The selected region -/

structure Visits (lhs rhs : Fingerprint) (cfg : CompareConfig) (order : List ℤ) : Prop where
  nodup : order.Nodup
  mem_iff : ∀ shift, shift ∈ order ↔ shift ∈ candidateShifts lhs rhs cfg

/-- The regions of the shifts, in the order in which these are visited. -/
def searchInvertedIndex (order : List ℤ) (lhs rhs : Fingerprint) (cfg : CompareConfig) :
    List (TimeRange × TimeRange) :=
  order.filterMap fun shift => findContiguousAtShift lhs rhs shift cfg

/-- A region is no better than another one: the longest region wins, for a recap the earliest. -/
def noBetter (mode : AnalysisMode) (a b : TimeRange × TimeRange) : Bool :=
  match mode with
  | .recap => decide (b.1.start ≤ a.1.start)
  | _ => decide (a.1.duration ≤ b.1.duration)

def selectRegion (regions : List (TimeRange × TimeRange)) (mode : AnalysisMode) :
    Option (TimeRange × TimeRange) :=
  lastMax (noBetter mode) regions

/-- A region that starts within 5 s of the episode's start begins there. -/
def snapStart (range : TimeRange) : TimeRange :=
  if range.start ≤ 5 then { range with start := 0 } else range

def compareEpisodes (order : List ℤ) (lhs rhs : Fingerprint) (mode : AnalysisMode)
    (cfg : CompareConfig) : Option TimeRange × Option TimeRange :=
  match selectRegion (searchInvertedIndex order lhs rhs cfg) mode with
  | none => (none, none)
  | some (l, r) => (some (snapStart l), some (snapStart r))

open Lib (longestRun IsRun Close span later span_later longestRun_map longestRun_spec)

variable {lhs rhs : Fingerprint} {cfg : CompareConfig} {shift : ℤ} {p q : BitVec 32}
  {l r : TimeRange}

/-! ### Swapping the candidates -/

def Near (cfg : CompareConfig) (p q : BitVec 32) : Prop :=
  ∃ delta ∈ deltas cfg.invertedIndexShift, q = p + BitVec.ofInt 32 delta

theorem mem_deltas {tolerance : Int32} {delta : ℤ} :
    delta ∈ deltas tolerance ↔ (-tolerance).toInt ≤ delta ∧ delta ≤ tolerance.toInt := by
  rw [deltas, List.mem_map]
  constructor
  · rintro ⟨i, hi, rfl⟩
    rw [List.mem_range] at hi
    omega
  · intro h
    refine ⟨(delta - (-tolerance).toInt).toNat, ?_, ?_⟩
    · rw [List.mem_range]
      omega
    · omega

/-- The deltas are those of the other direction, also when the negation wraps. -/
theorem exists_opposite {tolerance : Int32} {delta : ℤ} (h : delta ∈ deltas tolerance) :
    ∃ opposite ∈ deltas tolerance, BitVec.ofInt 32 opposite = -BitVec.ofInt 32 delta := by
  have hneg := Int32.toInt_neg tolerance
  have hle := tolerance.le_toInt
  have hlt := tolerance.toInt_lt
  rw [mem_deltas] at h
  by_cases hmin : tolerance.toInt = -2 ^ 31
  · rw [hmin] at hneg
    have hself : (-tolerance).toInt = -2 ^ 31 := hneg
    obtain rfl : delta = -2 ^ 31 := by omega
    exact ⟨-2 ^ 31, mem_deltas.mpr (by omega), by decide⟩
  · have hself : (-tolerance).toInt = -tolerance.toInt := by
      rw [hneg, Int.bmod_eq_of_le] <;> omega
    exact ⟨-delta, mem_deltas.mpr (by omega), BitVec.ofInt_neg⟩

theorem Near.symm (h : Near cfg p q) : Near cfg q p := by
  obtain ⟨delta, hdelta, rfl⟩ := h
  obtain ⟨opposite, hopposite, heq⟩ := exists_opposite hdelta
  exact ⟨opposite, hopposite, by rw [heq, BitVec.add_assoc, BitVec.add_right_neg, BitVec.add_zero]⟩

theorem mem_candidateShifts : shift ∈ candidateShifts lhs rhs cfg ↔
    ∃ p i q j, i ∈ (createInvertedIndex lhs).lookup p ∧ j ∈ (createInvertedIndex rhs).lookup q ∧
      Near cfg p q ∧ shift = (j : ℤ) - (i : ℤ) := by
  simp only [candidateShifts, List.mem_toFinset, List.mem_flatMap, List.mem_filterMap,
    Option.map_eq_some_iff, Near]
  constructor
  · rintro ⟨⟨p, i⟩, hentry, delta, hdelta, j, hj, rfl⟩
    exact ⟨p, i, _, j, AList.mem_lookup_iff.mpr hentry, hj, ⟨delta, hdelta, rfl⟩, rfl⟩
  · rintro ⟨p, i, q, j, hi, hj, ⟨delta, hdelta, rfl⟩, rfl⟩
    exact ⟨⟨p, i⟩, AList.mem_lookup_iff.mp hi, delta, hdelta, j, hj, rfl⟩

theorem candidateShifts_swap :
    -shift ∈ candidateShifts rhs lhs cfg ↔ shift ∈ candidateShifts lhs rhs cfg := by
  simp only [mem_candidateShifts]
  constructor
  · rintro ⟨p, i, q, j, hi, hj, hnear, hshift⟩
    exact ⟨q, j, p, i, hj, hi, hnear.symm, by omega⟩
  · rintro ⟨p, i, q, j, hi, hj, hnear, hshift⟩
    exact ⟨q, j, p, i, hj, hi, hnear.symm, by omega⟩

/-! ### The matched points -/

/-- Similar points of the two fingerprints at a shift, both of them within the length of each. -/
structure Matching (lhs rhs : Fingerprint) (shift : ℤ) (cfg : CompareConfig) (i j : ℕ) : Prop where
  shifted : (j : ℤ) = i + shift
  left : i < min lhs.length rhs.length
  right : j < min lhs.length rhs.length
  similar : ∃ lv rv, lhs[i]? = some lv ∧ rhs[j]? = some rv ∧ similar cfg lv rv = true

theorem mem_matchedPoints {i j : ℕ} :
    (i, j) ∈ matchedPoints lhs rhs shift cfg ↔ Matching lhs rhs shift cfg i j := by
  rw [matchedPoints, List.mem_filter, List.mem_map]
  constructor
  · rintro ⟨⟨k, hk, heq⟩, hsimilar⟩
    rw [List.mem_range] at hk
    obtain ⟨rfl, rfl⟩ := Prod.mk.inj heq
    refine ⟨by omega, by omega, by omega, ?_⟩
    split at hsimilar
    · next lv rv hlv hrv => exact ⟨lv, rv, hlv, hrv, hsimilar⟩
    · cases hsimilar
  · rintro ⟨hshifted, hleft, hright, lv, rv, hlv, hrv, hsimilar⟩
    refine ⟨⟨min i j, ?_, ?_⟩, ?_⟩
    · rw [List.mem_range]
      omega
    · exact Prod.ext (by dsimp only; omega) (by dsimp only; omega)
    · dsimp only
      rw [hlv, hrv]
      exact hsimilar

theorem similar_comm (lv rv : BitVec 32) : similar cfg lv rv = similar cfg rv lv := by
  rw [similar, similar, BitVec.xor_comm]

theorem matchedPoints_swap : matchedPoints rhs lhs (-shift) cfg =
    (matchedPoints lhs rhs shift cfg).map Prod.swap := by
  have hpositions : ((List.range (min rhs.length lhs.length - (-shift).natAbs)).map fun i =>
      (i + (- -shift).toNat, i + (-shift).toNat)) =
      ((List.range (min lhs.length rhs.length - shift.natAbs)).map fun i =>
        (i + (-shift).toNat, i + shift.toNat)).map Prod.swap := by
    rw [List.map_map, min_comm, Int.natAbs_neg, neg_neg]
    rfl
  rw [matchedPoints, matchedPoints, hpositions, List.filter_map]
  congr 1
  refine List.filter_congr fun p _ => ?_
  rcases hl : lhs[p.1]? with _ | lv <;> rcases hr : rhs[p.2]? with _ | rv <;>
    simp [hl, hr, similar_comm]

def leftTimes (lhs rhs : Fingerprint) (shift : ℤ) (cfg : CompareConfig) : List ℚ :=
  (matchedPoints lhs rhs shift cfg).map fun p => pointTime p.1

def delay (shift : ℤ) : ℚ := shift * sampleDuration

theorem delay_neg (shift : ℤ) : delay (-shift) = -delay shift := by
  rw [delay, delay, Int.cast_neg, neg_mul]

theorem sampleDuration_pos : 0 < sampleDuration := by
  rw [sampleDuration]
  norm_num

theorem pointTime_le {i j : ℕ} (h : i ≤ j) : pointTime i ≤ pointTime j :=
  mul_le_mul_of_nonneg_right (by exact_mod_cast h) sampleDuration_pos.le

theorem pointTime_nonneg (i : ℕ) : 0 ≤ pointTime i :=
  mul_nonneg (Nat.cast_nonneg i) sampleDuration_pos.le

theorem rightTimes_eq : ((matchedPoints lhs rhs shift cfg).map fun p => pointTime p.2) =
    (leftTimes lhs rhs shift cfg).map (· + delay shift) := by
  rw [leftTimes, List.map_map]
  refine List.map_congr_left fun p hp => ?_
  have hshifted : ((p.2 : ℤ) : ℚ) = ((p.1 + shift : ℤ) : ℚ) :=
    congrArg _ (mem_matchedPoints.mp hp).shifted
  push_cast at hshifted
  rw [Function.comp_apply, pointTime, pointTime, delay, hshifted]
  ring

theorem leftTimes_sorted : (leftTimes lhs rhs shift cfg).Pairwise (· ≤ ·) := by
  rw [leftTimes, List.pairwise_map]
  refine List.Pairwise.sublist List.filter_sublist ?_
  rw [List.pairwise_map]
  exact List.pairwise_lt_range.imp fun h => pointTime_le (by omega)

/-! ### The region of a shift -/

def TimeRange.delayed (range : TimeRange) (c : ℚ) : TimeRange := .ofRun (later c (range.start,
  range.finish))

theorem TimeRange.duration_delayed (range : TimeRange) (c : ℚ) :
    (range.delayed c).duration = range.duration := span_later c (range.start, range.finish)

theorem TimeRange.delayed_neg (range : TimeRange) (c : ℚ) :
    (range.delayed c).delayed (-c) = range := by
  rw [TimeRange.delayed, TimeRange.delayed, later, later, TimeRange.ofRun, TimeRange.ofRun]
  simp

theorem findContiguous_left : findContiguous (leftTimes lhs rhs shift cfg) cfg.maxTimeSkip =
    (longestRun cfg.maxTimeSkip (leftTimes lhs rhs shift cfg)).map .ofRun := by
  rw [findContiguous, leftTimes_sorted.insertionSort_eq]

theorem findContiguous_right :
    findContiguous ((matchedPoints lhs rhs shift cfg).map fun p => pointTime p.2)
        cfg.maxTimeSkip =
      (findContiguous (leftTimes lhs rhs shift cfg) cfg.maxTimeSkip).map
        (·.delayed (delay shift)) := by
  have hsorted : ((leftTimes lhs rhs shift cfg).map (· + delay shift)).Pairwise (· ≤ ·) :=
    List.pairwise_map.mpr (leftTimes_sorted.imp fun h => add_le_add_left h _)
  rw [rightTimes_eq, findContiguous, hsorted.insertionSort_eq, longestRun_map,
    findContiguous_left, Option.map_map, Option.map_map]
  rfl

theorem findContiguousAtShift_eq : findContiguousAtShift lhs rhs shift cfg =
    ((findContiguous (leftTimes lhs rhs shift cfg) cfg.maxTimeSkip).filter fun l =>
      decide (cfg.minRegionDuration ≤ l.duration)).map fun l => (l, l.delayed (delay shift)) := by
  rw [findContiguousAtShift, findContiguous_right]
  change (findContiguous (leftTimes lhs rhs shift cfg) cfg.maxTimeSkip).bind _ = _
  rcases findContiguous (leftTimes lhs rhs shift cfg) cfg.maxTimeSkip with _ | l
  · rfl
  · rw [Option.bind_some, Option.filter_some]
    by_cases hshort : l.duration < cfg.minRegionDuration
    · rw [if_pos hshort, if_neg (by simpa using hshort)]
      rfl
    · rw [if_neg hshort, if_pos (by simpa using hshort)]
      rfl

theorem findContiguousAtShift_eq_some : findContiguousAtShift lhs rhs shift cfg = some (l, r) ↔
    findContiguous (leftTimes lhs rhs shift cfg) cfg.maxTimeSkip = some l ∧
      cfg.minRegionDuration ≤ l.duration ∧ r = l.delayed (delay shift) := by
  rw [findContiguousAtShift_eq, Option.map_eq_some_iff]
  constructor
  · rintro ⟨l', hl', heq⟩
    obtain ⟨rfl, rfl⟩ := Prod.mk.inj heq
    rw [Option.filter_eq_some_iff] at hl'
    exact ⟨hl'.1, of_decide_eq_true hl'.2, rfl⟩
  · rintro ⟨hl, hmin, rfl⟩
    exact ⟨l, Option.filter_eq_some_iff.mpr ⟨hl, decide_eq_true hmin⟩, rfl⟩

theorem findContiguousAtShift_swap
    (h : findContiguousAtShift lhs rhs shift cfg = some (l, r)) :
    findContiguousAtShift rhs lhs (-shift) cfg = some (r, l) := by
  obtain ⟨hl, hmin, rfl⟩ := findContiguousAtShift_eq_some.mp h
  refine findContiguousAtShift_eq_some.mpr ⟨?_, ?_, ?_⟩
  · rw [leftTimes, matchedPoints_swap, List.map_map]
    change findContiguous ((matchedPoints lhs rhs shift cfg).map fun p => pointTime p.2) _ = _
    rw [findContiguous_right, hl, Option.map_some]
  · rwa [TimeRange.duration_delayed]
  · rw [delay_neg, TimeRange.delayed_neg]

/-! ### Admissible regions -/

/-- A region that the two fingerprints share at a shift: a run of matched points, long enough. -/
structure Admissible (lhs rhs : Fingerprint) (cfg : CompareConfig) (shift : ℤ) (l r : TimeRange) :
    Prop where
  run : IsRun cfg.maxTimeSkip (leftTimes lhs rhs shift cfg) (l.start, l.finish)
  delayed : r = l.delayed (delay shift)
  long : cfg.minRegionDuration ≤ l.duration

theorem Admissible.bounded (h : Admissible lhs rhs cfg shift l r) :
    ∃ i j i' j', Matching lhs rhs shift cfg i j ∧ Matching lhs rhs shift cfg i' j' ∧
      l = ⟨pointTime i, pointTime i'⟩ ∧ r = ⟨pointTime j, pointTime j'⟩ := by
  obtain ⟨⟨part, hpart, -, hhead, hlast⟩, rfl, -⟩ := h
  have hpoint : ∀ t ∈ part, ∃ i j, Matching lhs rhs shift cfg i j ∧ pointTime i = t ∧
      pointTime j = t + delay shift := by
    intro t ht
    obtain ⟨p, hp, rfl⟩ := List.mem_map.mp (hpart.subset ht)
    have hmatching := mem_matchedPoints.mp hp
    have hshifted : ((p.2 : ℤ) : ℚ) = ((p.1 + shift : ℤ) : ℚ) := congrArg _ hmatching.shifted
    push_cast at hshifted
    refine ⟨p.1, p.2, hmatching, rfl, ?_⟩
    rw [pointTime, pointTime, delay, hshifted]
    ring
  obtain ⟨i, j, hmatching, hi, hj⟩ := hpoint _ (List.mem_of_head? hhead)
  obtain ⟨i', j', hmatching', hi', hj'⟩ := hpoint _ (List.mem_of_getLast? hlast)
  refine ⟨i, j, i', j', hmatching, hmatching', ?_, ?_⟩
  · rw [hi, hi']
  · rw [hj, hj']
    rfl

theorem findContiguousAtShift_spec
    (h : findContiguousAtShift lhs rhs shift cfg = some (l, r)) :
    Admissible lhs rhs cfg shift l r ∧
      ∀ l' r', Admissible lhs rhs cfg shift l' r' → l'.duration ≤ l.duration := by
  obtain ⟨hl, hmin, rfl⟩ := findContiguousAtShift_eq_some.mp h
  rw [findContiguous_left, Option.map_eq_some_iff] at hl
  obtain ⟨run, hrun, rfl⟩ := hl
  obtain ⟨hisRun, hlongest⟩ := longestRun_spec leftTimes_sorted hrun
  exact ⟨⟨hisRun, rfl, hmin⟩, fun l' r' h' => hlongest _ h'.run⟩

theorem Admissible.exists_region (h : Admissible lhs rhs cfg shift l r) :
    ∃ l' r', findContiguousAtShift lhs rhs shift cfg = some (l', r') := by
  have hne : leftTimes lhs rhs shift cfg ≠ [] := by
    obtain ⟨part, hpart, -, hhead, -⟩ := h.run
    intro hnil
    rw [hnil] at hpart
    rw [List.infix_nil.mp hpart] at hhead
    cases hhead
  rcases hrun : longestRun cfg.maxTimeSkip (leftTimes lhs rhs shift cfg) with _ | run
  · refine absurd ?_ hne
    generalize leftTimes lhs rhs shift cfg = times at hrun
    cases times with
    | nil => rfl
    | cons a rest => cases hrun
  · have hlongest := (longestRun_spec leftTimes_sorted hrun).2 _ h.run
    have hlong : cfg.minRegionDuration ≤ (TimeRange.ofRun run).duration := h.long.trans hlongest
    refine ⟨.ofRun run, _, findContiguousAtShift_eq_some.mpr ⟨?_, hlong, rfl⟩⟩
    rw [findContiguous_left, hrun, Option.map_some]

end Ferrofin.Chromaprint
