import Ferrofin.UserData.Updates
import Mathlib.Tactic.Linarith

/-!
# Where playback resumes

A play state report stores the position that was reported when it lies in the resume window, and
no position otherwise (`stored_position`).  What the window is depends on the kind of the item:
percentages of the runtime for most, minutes for audio books, and no bounds for books, whose
position is kept past their end (`book_kept_past_end`).  The comparisons are made on rationals.
-/

namespace Ferrofin.UserData

/-- `ServerConfiguration`, the settings a position is measured against. -/
structure ServerConfiguration where
  minResumePct : Int
  maxResumePct : Int
  minResumeDurationSeconds : Int
  minAudiobookResume : Int
  maxAudiobookResume : Int

def percentage (position runtimeTicks : Int64) : ℚ :=
  (position.toInt : ℚ) / runtimeTicks.toInt * 100

def seconds (ticks : Int64) : ℚ := (ticks.toInt : ℚ) / ticksPerSecond.toInt

def minutes (ticks : Int64) : ℚ := seconds ticks / 60

/-- The comparisons of `save_play_state`. -/
def ServerConfiguration.resumeOptions (c : ServerConfiguration) : ResumeOptions where
  belowMinPct position runtimeTicks := percentage position runtimeTicks < c.minResumePct
  aboveMaxPct position runtimeTicks := c.maxResumePct < percentage position runtimeTicks
  belowMinDuration runtimeTicks := seconds runtimeTicks < c.minResumeDurationSeconds
  belowMinAudiobook position := minutes position < c.minAudiobookResume
  belowMaxAudiobook remaining := minutes remaining < c.maxAudiobookResume

def InResumeWindow (c : ServerConfiguration) (item : PlayStateItem) (position : Int64) : Prop :=
  0 < position ∧ 0 < item.runtimeTicks ∧
  match item.kind with
  | .other => c.minResumePct ≤ percentage position item.runtimeTicks ∧
      percentage position item.runtimeTicks ≤ c.maxResumePct ∧
      position.toInt < item.runtimeTicks.toInt - ticksPerSecond.toInt ∧
      c.minResumeDurationSeconds ≤ seconds item.runtimeTicks
  | .audioBook => c.minAudiobookResume ≤ minutes position ∧
      c.maxAudiobookResume ≤ minutes (item.runtimeTicks - position) ∧
      position < item.runtimeTicks
  | .book => True

variable {c : ServerConfiguration} {item : PlayStateItem} {position : Int64}

theorem le_sub_ticksPerSecond {runtimeTicks : Int64} (h : 0 < runtimeTicks) :
    runtimeTicks - ticksPerSecond ≤ position ↔
      runtimeTicks.toInt - ticksPerSecond.toInt ≤ position.toInt := by
  have hpos : 0 < runtimeTicks.toInt := Int64.lt_iff_toInt_lt.mp h
  have hle := runtimeTicks.toInt_lt
  have hticks : ticksPerSecond.toInt = 10000000 := rfl
  rw [Int64.le_iff_toInt_le, Int64.toInt_sub, hticks, Int.bmod_eq_of_le (by omega) (by omega)]

theorem resumePosition_completed {o : ResumeOptions}
    (h : (resumePosition o item position).2 = true) : (resumePosition o item position).1 = 0 := by
  revert h
  unfold resumePosition
  split
  · split
    · exact fun _ => rfl
    split
    · exact fun _ => rfl
    split
    · exact fun _ => rfl
    · exact nofun
  split
  · split
    · exact fun _ => rfl
    split
    · exact fun _ => rfl
    · exact nofun
  split
  · exact nofun
  · exact fun _ => rfl

/-- What is kept of a position that is not negative: none, or one in the window. -/
theorem resumePosition_window (hnonneg : 0 ≤ position) :
    (resumePosition c.resumeOptions item position).1 = 0 ∨
      (resumePosition c.resumeOptions item position).1 = position ∧
        InResumeWindow c item position := by
  unfold resumePosition ServerConfiguration.resumeOptions
  simp only [decide_eq_true_eq]
  split
  · next h =>
    obtain ⟨hpos, hruntime, haudio, hbook⟩ := h
    have hkind : item.kind = .other := by
      cases hk : item.kind with
      | audioBook => exact absurd hk haudio
      | book => exact absurd hk hbook
      | other => rfl
    split
    · exact .inl rfl
    next hmin =>
    split
    · exact .inl rfl
    next hmax =>
    split
    · exact .inl rfl
    next hduration =>
    rw [not_or, le_sub_ticksPerSecond hruntime] at hmax
    refine .inr ⟨rfl, hpos, hruntime, ?_⟩
    rw [hkind]
    exact ⟨not_lt.mp hmin, not_lt.mp hmax.1, not_le.mp hmax.2, not_lt.mp hduration⟩
  next hother =>
  split
  · next h =>
    obtain ⟨hpos, hruntime, hkind⟩ := h
    split
    · exact .inl rfl
    next hmin =>
    split
    · exact .inl rfl
    next hmax =>
    rw [not_or] at hmax
    refine .inr ⟨rfl, hpos, hruntime, ?_⟩
    rw [hkind]
    exact ⟨not_lt.mp hmin, not_lt.mp hmax.1, Int64.not_le.mp hmax.2⟩
  next haudio =>
  split
  · next hruntime =>
    by_cases hpos : 0 < position
    · -- a book: neither of the two above
      have hkind : item.kind = .book := by
        cases hk : item.kind with
        | other => exact absurd ⟨hpos, hruntime, by simp [hk], by simp [hk]⟩ hother
        | audioBook => exact absurd ⟨hpos, hruntime, hk⟩ haudio
        | book => rfl
      refine .inr ⟨rfl, hpos, hruntime, ?_⟩
      rw [hkind]
      trivial
    · exact .inl (Int64.le_antisymm (Int64.not_lt.mp hpos) hnonneg)
  · exact .inl rfl

variable {Rating : Type}

/-- **What a play state report stores**: of a position that is not negative, nothing or the position
itself, where it lies in the resume window of the item; and nothing when the item was played to its
end. -/
theorem stored_position (c : ServerConfiguration) (item : PlayStateItem) (position : Int64)
    (reason : UserDataSaveReason) (streams : Option ReportedStreams) (now : Int)
    (before : UserDataValues Rating) :
    ∃ v, (savePlayState c.resumeOptions item (some position) reason streams now before).saves =
        some v ∧
      (0 ≤ position → v.playbackPositionTicks = 0 ∨
        v.playbackPositionTicks = position ∧ InResumeWindow c item position) ∧
      ((savePlayState c.resumeOptions item (some position) reason streams now before).completed =
        true → v.playbackPositionTicks = 0) := by
  refine ⟨_, rfl, fun hnonneg => ?_, fun hcompleted => ?_⟩
  · show (if item.playedStatus && item.resume then _ else 0) = 0 ∨ _
    split
    · exact resumePosition_window hnonneg
    · exact .inl rfl
  · show (if item.playedStatus && item.resume then _ else 0) = 0
    split
    · exact resumePosition_completed hcompleted
    · rfl

def defaultConfiguration : ServerConfiguration := ⟨5, 90, 300, 5, 5⟩

/-- **A book keeps any position**: one at a second and a half of a runtime of one. -/
theorem book_kept_past_end :
    ¬ ∀ (c : ServerConfiguration) (item : PlayStateItem) (position : Int64)
      (reason : UserDataSaveReason) (streams : Option ReportedStreams) (now : Int)
      (before v : UserDataValues Unit),
      (savePlayState c.resumeOptions item (some position) reason streams now before).saves =
        some v → v.playbackPositionTicks = 0 ∨
        (0 < v.playbackPositionTicks ∧
          c.minResumePct ≤ percentage v.playbackPositionTicks item.runtimeTicks ∧
          percentage v.playbackPositionTicks item.runtimeTicks ≤ c.maxResumePct ∧
          v.playbackPositionTicks.toInt < item.runtimeTicks.toInt - ticksPerSecond.toInt) := by
  intro h
  have hkept := h defaultConfiguration { runtimeTicks := 10000000, kind := .book } 15000000
    .playbackProgress none 0 {} _ rfl
  rcases hkept with hzero | ⟨-, -, -, hend⟩
  · exact absurd hzero (by decide)
  · exact absurd hend (by decide)

end Ferrofin.UserData
