import Ferrofin.Chromaprint.Regions

/-!
# The selected region

Whatever the order in which the candidate shifts are visited, the answer is a best one of their
regions, with the starts that are near the episodes' begun at 0 (`compareEpisodes_cases`).  A best
region is admissible and, but for a recap, none is longer; where only one is best, the order does
not matter, and the fingerprints swapped give the region swapped (`compareEpisodes_spec`).
-/

namespace Ferrofin.Chromaprint

open Lib (lastMax lastMax_eq_none lastMax_spec)

variable {lhs rhs : Fingerprint} {cfg : CompareConfig} {mode : AnalysisMode} {shift : ℤ}
  {order order' swapped : List ℤ} {l r l' r' : TimeRange}

/-! ### The best regions -/

def Found (lhs rhs : Fingerprint) (cfg : CompareConfig) (l r : TimeRange) : Prop :=
  ∃ shift ∈ candidateShifts lhs rhs cfg, findContiguousAtShift lhs rhs shift cfg = some (l, r)

structure Best (lhs rhs : Fingerprint) (mode : AnalysisMode) (cfg : CompareConfig)
    (l r : TimeRange) : Prop where
  found : Found lhs rhs cfg l r
  best : ∀ l' r', Found lhs rhs cfg l' r' → noBetter mode (l', r') (l, r) = true

def OneBest (lhs rhs : Fingerprint) (mode : AnalysisMode) (cfg : CompareConfig) : Prop :=
  ∀ l r l' r', Best lhs rhs mode cfg l r → Best lhs rhs mode cfg l' r' → l = l' ∧ r = r'

theorem noBetter_total (a b : TimeRange × TimeRange) :
    noBetter mode a b = true ∨ noBetter mode b a = true := by
  cases mode <;> simp only [noBetter, decide_eq_true_eq] <;> exact le_total _ _

theorem noBetter_trans (a b c : TimeRange × TimeRange) (hab : noBetter mode a b = true)
    (hbc : noBetter mode b c = true) : noBetter mode a c = true := by
  cases mode with
  | introduction =>
    exact decide_eq_true ((of_decide_eq_true hab).trans (of_decide_eq_true hbc))
  | credits => exact decide_eq_true ((of_decide_eq_true hab).trans (of_decide_eq_true hbc))
  | recap => exact decide_eq_true ((of_decide_eq_true hbc).trans (of_decide_eq_true hab))

theorem noBetter_iff (hmode : mode ≠ .recap) (a b : TimeRange × TimeRange) :
    noBetter mode a b = true ↔ a.1.duration ≤ b.1.duration := by
  cases mode with
  | introduction => exact decide_eq_true_iff
  | credits => exact decide_eq_true_iff
  | recap => exact absurd rfl hmode

theorem mem_searchInvertedIndex (hvisits : Visits lhs rhs cfg order) :
    (l, r) ∈ searchInvertedIndex order lhs rhs cfg ↔ Found lhs rhs cfg l r := by
  simp only [searchInvertedIndex, List.mem_filterMap, hvisits.mem_iff, Found]

/-- The answer is nothing where no shift has a region, and a best one elsewhere. -/
theorem compareEpisodes_cases (mode : AnalysisMode) (hvisits : Visits lhs rhs cfg order) :
    compareEpisodes order lhs rhs mode cfg = (none, none) ∧ (∀ l r, ¬Found lhs rhs cfg l r) ∨
      ∃ l r, Best lhs rhs mode cfg l r ∧
        compareEpisodes order lhs rhs mode cfg = (some (snapStart l), some (snapStart r)) := by
  rcases hselected : selectRegion (searchInvertedIndex order lhs rhs cfg) mode with _ | ⟨l, r⟩
  · refine .inl ⟨by rw [compareEpisodes, hselected], fun l r hfound => ?_⟩
    rw [← mem_searchInvertedIndex hvisits, lastMax_eq_none.mp hselected] at hfound
    cases hfound
  · obtain ⟨hmem, hbest⟩ := lastMax_spec noBetter_total noBetter_trans hselected
    refine .inr ⟨l, r, ⟨(mem_searchInvertedIndex hvisits).mp hmem, fun l' r' hfound => ?_⟩,
      by rw [compareEpisodes, hselected]⟩
    exact hbest _ ((mem_searchInvertedIndex hvisits).mpr hfound)

theorem compareEpisodes_eq_none (hvisits : Visits lhs rhs cfg order) :
    compareEpisodes order lhs rhs mode cfg = (none, none) ↔ ∀ l r, ¬Found lhs rhs cfg l r := by
  rcases compareEpisodes_cases mode hvisits with ⟨hnone, hno⟩ | ⟨l, r, hbest, hsome⟩
  · exact iff_of_true hnone hno
  · rw [hsome]
    exact iff_of_false nofun fun hno => hno l r hbest.found

theorem exists_found : (∃ l r, Found lhs rhs cfg l r) ↔
    ∃ shift ∈ candidateShifts lhs rhs cfg, ∃ l r, Admissible lhs rhs cfg shift l r := by
  constructor
  · rintro ⟨l, r, shift, hshift, hregion⟩
    exact ⟨shift, hshift, l, r, (findContiguousAtShift_spec hregion).1⟩
  · rintro ⟨shift, hshift, l, r, hadmissible⟩
    obtain ⟨l', r', hregion⟩ := hadmissible.exists_region
    exact ⟨l', r', shift, hshift, hregion⟩

theorem Best.longest (h : Best lhs rhs mode cfg l r) (hmode : mode ≠ .recap)
    (hshift : shift ∈ candidateShifts lhs rhs cfg) (hother : Admissible lhs rhs cfg shift l' r') :
    l'.duration ≤ l.duration := by
  obtain ⟨l₁, r₁, hregion⟩ := hother.exists_region
  have hle : l₁.duration ≤ l.duration :=
    (noBetter_iff hmode _ _).mp (h.best l₁ r₁ ⟨shift, hshift, hregion⟩)
  exact ((findContiguousAtShift_spec hregion).2 l' r' hother).trans hle

/-! ### Swapping the fingerprints -/

theorem Found.swap (h : Found lhs rhs cfg l r) : Found rhs lhs cfg r l := by
  obtain ⟨shift, hshift, hregion⟩ := h
  exact ⟨-shift, candidateShifts_swap.mpr hshift, findContiguousAtShift_swap hregion⟩

theorem Found.duration_eq (h : Found lhs rhs cfg l r) : l.duration = r.duration := by
  obtain ⟨shift, -, hregion⟩ := h
  obtain ⟨-, -, rfl⟩ := findContiguousAtShift_eq_some.mp hregion
  exact (TimeRange.duration_delayed l _).symm

theorem Best.swap (h : Best lhs rhs mode cfg l r) (hmode : mode ≠ .recap) :
    Best rhs lhs mode cfg r l := by
  refine ⟨h.found.swap, fun r' l' hfound => ?_⟩
  have hle := (noBetter_iff hmode _ _).mp (h.best l' r' hfound.swap)
  refine (noBetter_iff hmode _ _).mpr ?_
  rwa [hfound.swap.duration_eq, h.found.duration_eq] at hle

/-! ### What is returned -/

theorem duration_le_snapStart (hstart : 0 ≤ l.start) : l.duration ≤ (snapStart l).duration := by
  rw [snapStart]
  split
  · exact sub_le_sub_left hstart _
  · exact le_rfl

theorem Found.long (h : Found lhs rhs cfg l r) : cfg.minRegionDuration ≤ (snapStart l).duration ∧
    cfg.minRegionDuration ≤ (snapStart r).duration := by
  have hlong : ∀ lhs rhs l r, Found lhs rhs cfg l r →
      cfg.minRegionDuration ≤ (snapStart l).duration := by
    rintro lhs rhs l r ⟨shift, -, hregion⟩
    have hadmissible := (findContiguousAtShift_spec hregion).1
    obtain ⟨i, -, i', -, -, -, rfl, -⟩ := hadmissible.bounded
    exact hadmissible.long.trans (duration_le_snapStart (pointTime_nonneg i))
  exact ⟨hlong _ _ _ _ h, hlong _ _ _ _ h.swap⟩

theorem compareEpisodes_order (hvisits : Visits lhs rhs cfg order)
    (hvisits' : Visits lhs rhs cfg order') (hone : OneBest lhs rhs mode cfg) :
    compareEpisodes order' lhs rhs mode cfg = compareEpisodes order lhs rhs mode cfg := by
  rcases compareEpisodes_cases mode hvisits with ⟨hnone, hno⟩ | ⟨l, r, hbest, hsome⟩
  · rw [hnone, compareEpisodes_eq_none hvisits']
    exact hno
  · rcases compareEpisodes_cases mode hvisits' with ⟨-, hno⟩ | ⟨l', r', hbest', hsome'⟩
    · exact absurd hbest.found (hno l r)
    · obtain ⟨rfl, rfl⟩ := hone _ _ _ _ hbest hbest'
      rw [hsome, hsome']

theorem compareEpisodes_swap (hvisits : Visits lhs rhs cfg order)
    (hswapped : Visits rhs lhs cfg swapped) (hmode : mode ≠ .recap)
    (hone : OneBest lhs rhs mode cfg) :
    compareEpisodes swapped rhs lhs mode cfg = (compareEpisodes order lhs rhs mode cfg).swap := by
  rcases compareEpisodes_cases mode hvisits with ⟨hnone, hno⟩ | ⟨l, r, hbest, hsome⟩
  · rw [hnone]
    exact (compareEpisodes_eq_none hswapped).mpr fun r l hfound => hno l r hfound.swap
  · rcases compareEpisodes_cases mode hswapped with ⟨-, hno⟩ | ⟨r', l', hbest', hsome'⟩
    · exact absurd hbest.found.swap (hno r l)
    · obtain ⟨rfl, rfl⟩ := hone _ _ _ _ hbest (hbest'.swap hmode)
      rw [hsome, hsome']
      rfl

/-- Nothing is returned exactly when no candidate shift has an admissible region, whatever the
order and the side.  A region that is returned is, before its starts are snapped, a best one: it is
admissible, bounded by matching points, long enough, and, but for a recap, no admissible region is
longer.  Where only one is best the order does not matter, and, but for a recap, the fingerprints
swapped give it swapped. -/
theorem compareEpisodes_spec (mode : AnalysisMode) (hvisits : Visits lhs rhs cfg order)
    (hvisits' : Visits lhs rhs cfg order') (hswapped : Visits rhs lhs cfg swapped) :
    (compareEpisodes order lhs rhs mode cfg = (none, none) ↔
      ¬∃ shift ∈ candidateShifts lhs rhs cfg, ∃ l r, Admissible lhs rhs cfg shift l r) ∧
    (compareEpisodes swapped rhs lhs mode cfg = (none, none) ↔
      compareEpisodes order lhs rhs mode cfg = (none, none)) ∧
    (compareEpisodes order lhs rhs mode cfg ≠ (none, none) → ∃ l r,
      compareEpisodes order lhs rhs mode cfg = (some (snapStart l), some (snapStart r)) ∧
      Best lhs rhs mode cfg l r ∧
      (∃ shift ∈ candidateShifts lhs rhs cfg, Admissible lhs rhs cfg shift l r ∧
        ∃ i j i' j', Matching lhs rhs shift cfg i j ∧ Matching lhs rhs shift cfg i' j' ∧
          l = ⟨pointTime i, pointTime i'⟩ ∧ r = ⟨pointTime j, pointTime j'⟩) ∧
      cfg.minRegionDuration ≤ (snapStart l).duration ∧
      cfg.minRegionDuration ≤ (snapStart r).duration ∧
      (mode ≠ .recap → ∀ shift ∈ candidateShifts lhs rhs cfg, ∀ l' r',
        Admissible lhs rhs cfg shift l' r' → l'.duration ≤ l.duration)) ∧
    (OneBest lhs rhs mode cfg →
      compareEpisodes order' lhs rhs mode cfg = compareEpisodes order lhs rhs mode cfg ∧
      (mode ≠ .recap → compareEpisodes swapped rhs lhs mode cfg =
        (compareEpisodes order lhs rhs mode cfg).swap)) := by
  refine ⟨?_, ?_, fun hsome => ?_, fun hone => ⟨compareEpisodes_order hvisits hvisits' hone,
    fun hmode => compareEpisodes_swap hvisits hswapped hmode hone⟩⟩
  · rw [compareEpisodes_eq_none hvisits, ← exists_found]
    simp only [not_exists]
  · rw [compareEpisodes_eq_none hvisits, compareEpisodes_eq_none hswapped]
    exact ⟨fun h l r hfound => h r l hfound.swap, fun h r l hfound => h l r hfound.swap⟩
  · rcases compareEpisodes_cases mode hvisits with ⟨hnone, -⟩ | ⟨l, r, hbest, heq⟩
    · exact absurd hnone hsome
    · obtain ⟨shift, hshift, hregion⟩ := hbest.found
      have hadmissible := (findContiguousAtShift_spec hregion).1
      exact ⟨l, r, heq, hbest, ⟨shift, hshift, hadmissible, hadmissible.bounded⟩,
        hbest.found.long.1, hbest.found.long.2,
        fun hmode shift hshift l' r' hother => hbest.longest hmode hshift hother⟩

/-- Points must be equal, and a single one is a region. -/
def exactConfig : CompareConfig :=
  { invertedIndexShift := 0, maxBitDiff := 0, minRegionDuration := 0 }

theorem visits_of_toFinset (hnodup : order.Nodup)
    (heq : order.toFinset = candidateShifts lhs rhs cfg) : Visits lhs rhs cfg order :=
  ⟨hnodup, fun shift => by rw [← heq, List.mem_toFinset]⟩

theorem compareEpisodes_spec_same :
    compareEpisodes [0] [0, 8] [0, 8] .credits exactConfig ≠ (none, none) ∧
    ∃ l r, compareEpisodes [0] [0, 8] [0, 8] .credits exactConfig =
        (some (snapStart l), some (snapStart r)) ∧ Best [0, 8] [0, 8] .credits exactConfig l r := by
  have hvisits : Visits [0, 8] [0, 8] exactConfig [0] :=
    visits_of_toFinset (by decide) (by decide +kernel)
  have hsome : compareEpisodes [0] [0, 8] [0, 8] .credits exactConfig ≠ (none, none) := by
    decide +kernel
  obtain ⟨l, r, heq, hbest, -⟩ :=
    (compareEpisodes_spec .credits hvisits hvisits hvisits).2.2.1 hsome
  exact ⟨hsome, l, r, heq, hbest⟩

/-- Of two regions that tie, the one that is visited last is returned, and a recap's region may be
shorter than another one. -/
theorem order_decides :
    (Visits [0, 8] [8, 0] exactConfig [1, -1] ∧ Visits [0, 8] [8, 0] exactConfig [-1, 1] ∧
      compareEpisodes [1, -1] [0, 8] [8, 0] .introduction exactConfig =
        (some ⟨0, sampleDuration⟩, some ⟨0, 0⟩) ∧
      compareEpisodes [-1, 1] [0, 8] [8, 0] .introduction exactConfig =
        (some ⟨0, 0⟩, some ⟨0, sampleDuration⟩)) ∧
    (Visits [1, 2, 3, 4, 9] [1, 5, 6, 3, 4] exactConfig [0, 1] ∧
      compareEpisodes [0, 1] [1, 2, 3, 4, 9] [1, 5, 6, 3, 4] .recap exactConfig =
        (some ⟨0, 0⟩, some ⟨0, 0⟩) ∧
      findContiguousAtShift [1, 2, 3, 4, 9] [1, 5, 6, 3, 4] 1 exactConfig =
        some (⟨pointTime 2, pointTime 3⟩, ⟨pointTime 3, pointTime 4⟩)) :=
  ⟨⟨visits_of_toFinset (by decide) (by decide +kernel),
      visits_of_toFinset (by decide) (by decide +kernel), by decide +kernel, by decide +kernel⟩,
    visits_of_toFinset (by decide) (by decide +kernel), by decide +kernel, by decide +kernel⟩

end Ferrofin.Chromaprint
