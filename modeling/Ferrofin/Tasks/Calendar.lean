import Mathlib.Tactic.Common
import Mathlib.Algebra.Group.Nat.Defs
import Mathlib.Order.ConditionallyCompleteLattice.Basic
import Mathlib.Data.Int.ConditionallyCompleteOrder

/-!
# Daily and weekly triggers

A sweep of the scheduler fires the first trigger of a task that is due and leaves those behind it to
the next sweep.  Of a daily or weekly trigger it asks of today's date and of yesterday's whether the
trigger's wall-clock time of that date has come since the last time it fired; yesterday's counts
where the clock showed today's date already (a time in a gap before midnight), and is not caught up
otherwise.  So a trigger fires once at most for each occurrence, and in the first sweep at or after
it exactly where no trigger before it is due there and that sweep still has the occurrence's date
(`fires_in_time`).
-/

namespace Ferrofin.Tasks

/-! ### Wall-clock times -/

abbrev Instant := ℤ

def nanosPerSecond : ℤ := 1000000000

def nanosPerDay : ℤ := 86400 * nanosPerSecond

def ticksPerSecond : ℤ := 10000000

def nanosPerTick : ℤ := 100

/-- `MappedLocalTime`, of instants with the offset they are given with. -/
inductive MappedLocalTime
  | single (instant : Instant)
  | ambiguous (a b : Instant × ℤ)
  | none

structure TimeZone where
  offsetFromUtc : Instant → ℤ
  fromLocal : ℤ → MappedLocalTime

namespace TimeZone

variable (tz : TimeZone)

def dateNaive (now : Instant) : ℤ := (now + tz.offsetFromUtc now) / nanosPerDay

def wallClockOccurrence (naive : ℤ) : Instant :=
  match tz.fromLocal naive with
  | .single instant => instant
  | .ambiguous a b =>
    let real := fun (p : Instant × ℤ) => tz.offsetFromUtc p.1 = p.2
    if real a ∧ ¬real b then a.1 else if ¬real a ∧ real b then b.1 else min a.1 b.1
  | .none => naive - tz.offsetFromUtc (naive - nanosPerDay)

end TimeZone

/-- `DayOfWeek`, from Sunday on. -/
inductive DayOfWeek
  | day (n : Fin 7)
  | unrecognized

inductive TaskTriggerInfoType
  | daily | weekly | interval | startup | unrecognized
deriving DecidableEq

structure TaskTriggerInfo where
  type : TaskTriggerInfoType
  timeOfDayTicks : Option ℤ := none
  intervalTicks : Option ℤ := none
  dayOfWeek : Option DayOfWeek := none

def weekdayOf : DayOfWeek → Option ℤ
  | .day n => some n
  | .unrecognized => none

def weekday (date : ℤ) : ℤ := (date + 4) % 7

/-- `and_hms_opt`. -/
def andHms (date h m s : ℤ) : Option ℤ :=
  if h < 24 ∧ m < 60 ∧ s < 60 then
    some (date * nanosPerDay + (h * 3600 + m * 60 + s) * nanosPerSecond)
  else none

namespace TaskTriggerInfo

variable (trigger : TaskTriggerInfo)

/-- The weekday that a date must have, `none` where there is no such weekday. -/
def weekdayWanted : Option (Option ℤ) :=
  match trigger.type with
  | .weekly => (trigger.dayOfWeek.bind weekdayOf).map some
  | _ => some none

def naive (date : ℤ) : Option ℤ := do
  let timeOfDay ← trigger.timeOfDayTicks
  let weekdayWanted ← trigger.weekdayWanted
  if weekdayWanted.any (weekday date ≠ ·) then none
  else
    let seconds := timeOfDay.tdiv ticksPerSecond
    andHms date (seconds.tdiv 3600 % 2 ^ 32 % 24) ((seconds.tdiv 60).tmod 60 % 2 ^ 32)
      (seconds.tmod 60 % 2 ^ 32)

variable (tz : TimeZone)

def occurrence (date : ℤ) : Option Instant := (trigger.naive date).map tz.wallClockOccurrence

def dueOn (floor now : Instant) (lastFire : Option Instant) (date : ℤ) : Bool :=
  match trigger.occurrence tz date with
  | none => false
  | some scheduled =>
    let today := tz.dateNaive now
    (date = today || tz.dateNaive scheduled = today) && scheduled ≤ now && floor ≤ scheduled &&
      lastFire.all (· < scheduled)

def calendarTriggerDue (now : Instant) (lastFire : Option Instant) (schedulerStart : Instant)
    (triggersSince : Option Instant) : Bool :=
  let floor := triggersSince.elim schedulerStart (max · schedulerStart)
  let today := tz.dateNaive now
  [today - 1, today].any (trigger.dueOn tz floor now lastFire)

/-- `trigger_due`; the delay of a task's first run is that of its key. -/
def triggerDue (now : Instant) (lastFire lastRunEnd : Option Instant) (firstRunDelay : ℤ)
    (schedulerStart : Instant) (triggersSince : Option Instant) : Bool :=
  match trigger.type with
  | .startup | .unrecognized => false
  | .interval =>
    match trigger.intervalTicks.filter (0 < ·) with
    | none => false
    | some interval =>
      match (lastFire.toList ++ lastRunEnd.toList).max? with
      | none => firstRunDelay ≤ now - schedulerStart
      | some base => interval * nanosPerTick ≤ now - base
  | .daily | .weekly => trigger.calendarTriggerDue tz now lastFire schedulerStart triggersSince

end TaskTriggerInfo

/-! ### Sweeps -/

def schedulerPeriod : ℤ := 30 * nanosPerSecond

/-- The sweeps of a scheduler, whose first one is before the floor, over the triggers of a task, and
the daily or weekly one of them that is looked at. -/
structure Sweeps where
  schedulerStart : Instant
  triggersSince : Option Instant
  instant : ℕ → Instant
  strictMono : StrictMono instant
  before : instant 0 < triggersSince.elim schedulerStart (max · schedulerStart)
  gap : ∀ n, instant (n + 1) - instant n ≤ schedulerPeriod
  triggers : List TaskTriggerInfo
  firstRunDelay : ℤ
  /-- The end of the task's last run, as each sweep finds it. -/
  lastRunEnd : ℕ → Option Instant
  /-- What fired before is no later than the first sweep. -/
  fired : ℕ → Option Instant
  fired_le : ∀ i, ∀ f ∈ fired i, f ≤ instant 0
  index : ℕ
  trigger : TaskTriggerInfo
  listed : triggers[index]? = some trigger
  calendar : trigger.type = .daily ∨ trigger.type = .weekly

namespace Sweeps

variable (sweeps : Sweeps) (tz : TimeZone)

def floor : Instant :=
  sweeps.triggersSince.elim sweeps.schedulerStart (max · sweeps.schedulerStart)

/-- A trigger of the task is due in a sweep, where the triggers last fired as given. -/
def dueAt (n : ℕ) (fires : ℕ → Option Instant) (i : ℕ) : Bool :=
  sweeps.triggers[i]?.any fun trigger =>
    trigger.triggerDue tz (sweeps.instant n) (fires i) (sweeps.lastRunEnd n) sweeps.firstRunDelay
      sweeps.schedulerStart sweeps.triggersSince

/-- The trigger that the sweep fires: the first that is due. -/
def firing (n : ℕ) (fires : ℕ → Option Instant) : Option ℕ :=
  (List.range sweeps.triggers.length).find? (sweeps.dueAt tz n fires)

def triggerFires : ℕ → ℕ → Option Instant
  | 0 => sweeps.fired
  | n + 1 =>
    match sweeps.firing tz n (triggerFires n) with
    | some i => Function.update (triggerFires n) i (some (sweeps.instant n))
    | none => triggerFires n

def lastFire (n : ℕ) : Option Instant := sweeps.triggerFires tz n sweeps.index

def Fires (n : ℕ) : Prop := sweeps.firing tz n (sweeps.triggerFires tz n) = some sweeps.index

/-- No trigger before it is due in the sweep. -/
def Reached (n : ℕ) : Prop :=
  ∀ j < sweeps.index, sweeps.dueAt tz n (sweeps.triggerFires tz n) j = false

def FiresFor (date : ℤ) (n : ℕ) : Prop :=
  sweeps.Reached tz n ∧
    (date = tz.dateNaive (sweeps.instant n) - 1 ∨ date = tz.dateNaive (sweeps.instant n)) ∧
    sweeps.trigger.dueOn tz sweeps.floor (sweeps.instant n) (sweeps.lastFire tz n) date = true

def IsFirst (scheduled : Instant) (n : ℕ) : Prop :=
  scheduled ≤ sweeps.instant n ∧ ∀ j < n, sweeps.instant j < scheduled

/-- The trigger fires once for each occurrence from the floor to the last sweep, in the first sweep
at or after it, and never otherwise. -/
structure FiresOnce (last : ℕ) : Prop where
  once : ∀ date scheduled, sweeps.trigger.occurrence tz date = some scheduled →
    sweeps.floor ≤ scheduled → scheduled < sweeps.instant last →
    ∃ n ≤ last, sweeps.IsFirst scheduled n ∧ sweeps.FiresFor tz date n ∧
      ∀ m ≤ last, sweeps.FiresFor tz date m → m = n
  never : ∀ n ≤ last, sweeps.Fires tz n → ∃ date scheduled,
    sweeps.trigger.occurrence tz date = some scheduled ∧ sweeps.floor ≤ scheduled ∧
      sweeps.IsFirst scheduled n

/-- A sweep still has the occurrence's date, or the next one, which the clock showed at the
occurrence already. -/
def OnItsDate (date : ℤ) (scheduled : Instant) (n : ℕ) : Prop :=
  tz.dateNaive (sweeps.instant n) = date ∨
    tz.dateNaive (sweeps.instant n) = date + 1 ∧ tz.dateNaive scheduled = date + 1

variable {sweeps tz}

theorem dueAt_index (n : ℕ) (fires : ℕ → Option Instant) :
    sweeps.dueAt tz n fires sweeps.index = true ↔
      ∃ date, (date = tz.dateNaive (sweeps.instant n) - 1 ∨
        date = tz.dateNaive (sweeps.instant n)) ∧ sweeps.trigger.dueOn tz sweeps.floor
          (sweeps.instant n) (fires sweeps.index) date = true := by
  rw [dueAt, sweeps.listed, Option.any_some, TaskTriggerInfo.triggerDue]
  have hdue : (sweeps.trigger.calendarTriggerDue tz (sweeps.instant n) (fires sweeps.index)
      sweeps.schedulerStart sweeps.triggersSince = true) ↔ ∃ date,
      (date = tz.dateNaive (sweeps.instant n) - 1 ∨ date = tz.dateNaive (sweeps.instant n)) ∧
        sweeps.trigger.dueOn tz sweeps.floor (sweeps.instant n) (fires sweeps.index) date =
          true := by
    unfold TaskTriggerInfo.calendarTriggerDue
    simp only [List.any_cons, List.any_nil, Bool.or_false, Bool.or_eq_true, or_and_right, exists_or,
      exists_eq_left, floor]
  rcases sweeps.calendar with htype | htype <;> rw [htype] <;> exact hdue

theorem fires_iff {n : ℕ} : sweeps.Fires tz n ↔ ∃ date, sweeps.FiresFor tz date n := by
  have hlt : sweeps.index < sweeps.triggers.length := (List.getElem?_eq_some_iff.mp sweeps.listed).1
  unfold Fires FiresFor Reached firing lastFire
  rw [List.find?_range_eq_some, dueAt_index]
  simp only [List.mem_range, hlt, true_and, Bool.not_eq_true']
  constructor
  · rintro ⟨⟨date, hdate⟩, hearlier⟩
    exact ⟨date, hearlier, hdate⟩
  · rintro ⟨date, hearlier, hdate⟩
    exact ⟨⟨date, hdate⟩, hearlier⟩

theorem firesFor_iff {date : ℤ} {n : ℕ} : sweeps.FiresFor tz date n ↔
    ∃ scheduled, sweeps.trigger.occurrence tz date = some scheduled ∧
      sweeps.OnItsDate tz date scheduled n ∧ sweeps.Reached tz n ∧
      scheduled ≤ sweeps.instant n ∧ sweeps.floor ≤ scheduled ∧
      ∀ f ∈ sweeps.lastFire tz n, f < scheduled := by
  unfold FiresFor TaskTriggerInfo.dueOn OnItsDate
  cases hocc : sweeps.trigger.occurrence tz date with
  | none => simp
  | some scheduled =>
    simp only [Bool.and_eq_true, Bool.or_eq_true, decide_eq_true_eq, Option.all_eq_true,
      Option.some.injEq, exists_eq_left']
    constructor
    · rintro ⟨hreached, hdate, ⟨⟨hread, hle⟩, hfloor⟩, hfire⟩
      refine ⟨?_, hreached, hle, hfloor, hfire⟩
      omega
    · rintro ⟨hread, hreached, hle, hfloor, hfire⟩
      exact ⟨hreached, by omega, ⟨⟨by omega, hle⟩, hfloor⟩, hfire⟩

theorem triggerFires_succ (n i : ℕ) : sweeps.triggerFires tz (n + 1) i =
    if sweeps.firing tz n (sweeps.triggerFires tz n) = some i then some (sweeps.instant n)
    else sweeps.triggerFires tz n i := by
  rw [triggerFires]
  cases hfiring : sweeps.firing tz n (sweeps.triggerFires tz n) with
  | none => rw [if_neg (by simp)]
  | some j =>
    by_cases hj : i = j
    · rw [hj, if_pos rfl]
      exact Function.update_self ..
    · rw [if_neg fun h => hj (Option.some.inj h).symm]
      exact Function.update_of_ne hj ..

theorem lastFire_earlier {n : ℕ} {f : Instant} (h : f ∈ sweeps.lastFire tz n) :
    f ≤ sweeps.instant 0 ∨ ∃ j < n, f = sweeps.instant j := by
  induction n with
  | zero => exact .inl (sweeps.fired_le _ f h)
  | succ n ih =>
    rw [lastFire, triggerFires_succ] at h
    split at h
    · exact .inr ⟨n, Nat.lt_succ_self n, (Option.some.inj h).symm⟩
    · exact (ih h).imp_right fun ⟨j, hj, hf⟩ => ⟨j, Nat.lt_succ_of_lt hj, hf⟩

theorem exists_lastFire {n : ℕ} (hfires : sweeps.Fires tz n) {m : ℕ} (hm : n < m) :
    ∃ f ∈ sweeps.lastFire tz m, sweeps.instant n ≤ f := by
  induction m with
  | zero => exact absurd hm (Nat.not_lt_zero n)
  | succ m ih =>
    rw [lastFire, triggerFires_succ]
    rcases Nat.lt_or_ge n m with hlt | hge
    · split
      · exact ⟨_, rfl, (sweeps.strictMono hlt).le⟩
      · exact ih hlt
    · obtain rfl : n = m := by omega
      exact ⟨_, if_pos hfires, Int.le_refl _⟩

theorem IsFirst.lastFire_lt {scheduled : Instant} {n : ℕ} (hfirst : sweeps.IsFirst scheduled n)
    (hfloor : sweeps.floor ≤ scheduled) {f : Instant}
    (hf : f ∈ sweeps.lastFire tz n) : f < scheduled := by
  rcases lastFire_earlier hf with hle | ⟨j, hj, rfl⟩
  · exact hle.trans_lt (sweeps.before.trans_le hfloor)
  · exact hfirst.2 j hj

theorem exists_isFirst {scheduled : Instant} {m : ℕ} (h : scheduled ≤ sweeps.instant m) :
    ∃ n ≤ m, sweeps.IsFirst scheduled n := by
  induction m with
  | zero => exact ⟨0, Nat.le_refl 0, h, fun j hj => absurd hj (Nat.not_lt_zero j)⟩
  | succ m ih =>
    by_cases hm : scheduled ≤ sweeps.instant m
    · obtain ⟨n, hn, hfirst⟩ := ih hm
      exact ⟨n, Nat.le_succ_of_le hn, hfirst⟩
    · refine ⟨m + 1, Nat.le_refl _, h, fun j hj => ?_⟩
      exact (sweeps.strictMono.monotone (Nat.le_of_lt_succ hj)).trans_lt (not_le.mp hm)

theorem not_firesFor_later {date : ℤ} {n m : ℕ} (hn : sweeps.FiresFor tz date n)
    (hm : sweeps.FiresFor tz date m) : ¬ n < m := by
  intro hlt
  obtain ⟨scheduled, hocc, -, -, hle, -⟩ := firesFor_iff.mp hn
  obtain ⟨scheduled', hocc', -, -, -, -, hfire⟩ := firesFor_iff.mp hm
  obtain rfl : scheduled = scheduled' := Option.some.inj (hocc.symm.trans hocc')
  obtain ⟨f, hf, hle'⟩ := exists_lastFire (fires_iff.mpr ⟨date, hn⟩) hlt
  exact absurd (hle.trans hle') (not_le.mpr (hfire f hf))

/-- **The trigger fires once at most for each occurrence**, and in the first sweep at or after it
exactly where no trigger before it is due and the occurrence's date is still read; and it fires for
nothing else. -/
theorem fires_in_time (sweeps : Sweeps) (tz : TimeZone) :
    (∀ date scheduled, sweeps.trigger.occurrence tz date = some scheduled →
      sweeps.floor ≤ scheduled →
      (∀ last, scheduled < sweeps.instant last → ∃ n ≤ last, sweeps.IsFirst scheduled n) ∧
      (∀ n, sweeps.IsFirst scheduled n → (sweeps.FiresFor tz date n ↔
        sweeps.OnItsDate tz date scheduled n ∧ sweeps.Reached tz n)) ∧
      ∀ n m, sweeps.FiresFor tz date n → sweeps.FiresFor tz date m → n = m) ∧
    ∀ n, sweeps.Fires tz n → ∃ date scheduled, sweeps.trigger.occurrence tz date = some scheduled ∧
      sweeps.floor ≤ scheduled ∧ scheduled ≤ sweeps.instant n ∧ sweeps.FiresFor tz date n := by
  refine ⟨fun date scheduled hocc hfloor => ⟨fun last hlast => exists_isFirst hlast.le,
    fun n hfirst => ?_, fun n m hn hm => ?_⟩, fun n hfires => ?_⟩
  · rw [firesFor_iff]
    constructor
    · rintro ⟨scheduled', hocc', hdate, hreached, -⟩
      obtain rfl : scheduled = scheduled' := Option.some.inj (hocc.symm.trans hocc')
      exact ⟨hdate, hreached⟩
    · rintro ⟨hdate, hreached⟩
      exact ⟨scheduled, hocc, hdate, hreached, hfirst.1, hfloor,
        fun f hf => hfirst.lastFire_lt hfloor hf⟩
  · exact Nat.le_antisymm (Nat.not_lt.mp (not_firesFor_later hm hn))
      (Nat.not_lt.mp (not_firesFor_later hn hm))
  · obtain ⟨date, hdate⟩ := fires_iff.mp hfires
    obtain ⟨scheduled, hocc, -, -, hle, hfloor, -⟩ := firesFor_iff.mp hdate
    exact ⟨date, scheduled, hocc, hfloor, hle, hdate⟩

/-! ### A clock without changes -/

def utc : TimeZone where
  offsetFromUtc _ := 0
  fromLocal naive := .single naive

def dailyAt (second : ℤ) : TaskTriggerInfo where
  type := .daily
  timeOfDayTicks := some (second * ticksPerSecond)

/-- The triggers are daily, all of one time, and were saved one second after the first sweep, when
the scheduler had run for some; the last of them is looked at. -/
def everyHalfMinute (second : ℤ) (others : ℕ) : Sweeps where
  schedulerStart := 86300 * nanosPerSecond
  triggersSince := some (86351 * nanosPerSecond)
  instant n := (86350 + 30 * n) * nanosPerSecond
  strictMono := by
    intro m n hmn
    change (86350 + 30 * (m : ℤ)) * 1000000000 < (86350 + 30 * (n : ℤ)) * 1000000000
    omega
  before := by decide
  gap n := by
    change (86350 + 30 * ((n + 1 : ℕ) : ℤ)) * 1000000000 - (86350 + 30 * (n : ℤ)) * 1000000000 ≤
      30 * 1000000000
    omega
  triggers := List.replicate (others + 1) (dailyAt second)
  firstRunDelay := 0
  lastRunEnd _ := none
  fired _ := none
  fired_le _ _ h := by cases h
  index := others
  trigger := dailyAt second
  listed := by simp
  calendar := .inl rfl

/-- The occurrence right before midnight is never read: the sweep behind it is on the next day.  And
of two triggers that are due in one sweep it fires the first. -/
theorem before_midnight_missed : ¬ (everyHalfMinute 86385 0).FiresOnce utc 2 ∧
    ¬ (everyHalfMinute 86360 1).FiresOnce utc 2 := by
  constructor
  · intro h
    obtain ⟨n, hn, hfirst, hfires, -⟩ := h.once 0 (86385 * nanosPerSecond) (by decide) (by decide)
      (by decide)
    rcases (by omega : n = 0 ∨ n = 1 ∨ n = 2) with rfl | rfl | rfl
    · exact absurd hfirst.1 (by decide)
    · exact absurd hfirst.1 (by decide)
    · exact absurd hfires.2.2 (by decide)
  · intro h
    obtain ⟨n, hn, hfirst, hfires, -⟩ := h.once 0 (86360 * nanosPerSecond) (by decide) (by decide)
      (by decide)
    rcases (by omega : n = 0 ∨ n = 1 ∨ n = 2) with rfl | rfl | rfl
    · exact absurd hfirst.1 (by decide)
    · exact absurd (hfires.1 0 (by decide)) (by decide)
    · exact absurd (hfirst.2 1 (by decide)) (by decide)

end Sweeps

end Ferrofin.Tasks
