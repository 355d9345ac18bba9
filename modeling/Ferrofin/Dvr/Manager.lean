import Ferrofin.Lib.Machine
import Ferrofin.Lib.KeyedMap
import Ferrofin.Util.Text

/-!
# Recording timers

The timers of `LiveTvManager`: a timer is armed (`arm_timer`, `schedule_fire`), its fire takes
itself out of the armed timers and captures (`spawn_fire`, `on_timer_fired`, `record_stream`),
and it is created, updated, refreshed with the guide and cancelled meanwhile.  `dvr` is the
machine of all interleavings of such tasks, cut at every await and wherever a task lets go of a
lock, over a clock that goes on between any two steps.

What a task does at one step is its `Effect`, and what it does next its `Work` (`Work.next`).
The guide, the tuner, the recorder and whether a write to the database succeeds are told from
outside.  Fires are numbered with the other tasks; the flag by which a fire is disarmed goes by
the number of the fire.  History: `lastArms`, when each timer was last armed for and by which
fire, until it is disarmed; `fired`, the fires that took themselves out; `creations`, how often
each timer was created.
-/

namespace Ferrofin.Dvr

open Lib Util

inductive RecordingStatus where
  | new
  | inProgress
  | completed
  | cancelled
  | conflictedOk
  | conflictedNotOk
  | error
  | unrecognized (value : Int)
deriving DecidableEq

/-- `TimerInfoDto`, what the timers' tasks read and write of it; dates in milliseconds. -/
structure TimerInfo where
  name : Option String := none
  overview : Option String := none
  channelId : Nat := 0
  channelName : Option String := none
  programId : Option String := none
  externalProgramId : Option String := none
  seriesTimerId : Option String := none
  startDate : Int
  endDate : Int
  prePaddingSeconds : Int := 0
  postPaddingSeconds : Int := 0
  runTimeTicks : Option Int := none
  status : RecordingStatus := .new
deriving DecidableEq

/-- `GuideProgramRow`; a date or a channel that does not parse is not there. -/
structure GuideProgramRow where
  title : String
  overview : Option String
  startDate : Option Int
  endDate : Option Int
  channelId : Option Nat
  channelName : String
  externalId : Option String

/-- `TimerRecordingInfo`, what decides about the timer. -/
structure TimerRecordingInfo where
  endDate : Int
  postPaddingSeconds : Int

def retryIntervalSeconds : Nat := 60

def maxRetryCount : Nat := 10

def TimerRecordingInfo.fromTimer (timer : TimerInfo) : TimerRecordingInfo :=
  { endDate := timer.endDate, postPaddingSeconds := timer.postPaddingSeconds }

def applyProgramToRecordingInfo (program : GuideProgramRow) (info : TimerRecordingInfo) :
    TimerRecordingInfo :=
  { info with endDate := program.endDate.getD info.endDate }

def TimerRecordingInfo.recordingEndDate (info : TimerRecordingInfo) : Int :=
  info.endDate + info.postPaddingSeconds * 1000

def copyProgramIntoTimer (program : GuideProgramRow) (timer : TimerInfo) : TimerInfo :=
  let startDate := program.startDate.getD timer.startDate
  let endDate := program.endDate.getD timer.endDate
  { timer with
    name := some program.title
    overview := program.overview
    startDate := startDate
    endDate := endDate
    channelId := program.channelId.getD timer.channelId
    channelName := some program.channelName
    externalProgramId := program.externalId
    runTimeTicks := some ((endDate - startDate) * 10000) }

def blank (id : Option String) : Bool := id.all fun s => (trim s).isEmpty

def TimerInfo.namesProgram (timer : TimerInfo) : Bool :=
  (!blank timer.programId || !blank timer.externalProgramId) && timer.channelId != 0

def TimerInfo.finished (timer : TimerInfo) : Bool :=
  timer.status == .completed || timer.status == .cancelled

def TimerInfo.delay (timer : TimerInfo) (now : Nat) : Nat :=
  (timer.startDate - timer.prePaddingSeconds * 1000 - now).toNat

/-- A task's next step, and what it holds for it.  A fire sleeps, reads its row, looks its
programme up, takes the claim and captures (`opening` to `weighing`); then it settles the timer.
`arming` and `scheduling` are `arm_timer`, by a fire that holds the claim or not. -/
inductive Work where
  | sleeping (due : Nat)
  | reading
  | unread
  | guiding (timer : TimerInfo)
  | ended
  | claiming (timer : TimerInfo) (info : TimerRecordingInfo)
  | claimed (timer : TimerInfo) (info : TimerRecordingInfo)
  | opening (timer : TimerInfo) (info : TimerRecordingInfo)
  | inserting (timer : TimerInfo) (info : TimerRecordingInfo)
  | starting (timer : TimerInfo) (info : TimerRecordingInfo)
  | recording (timer : TimerInfo) (info : TimerRecordingInfo)
  | closing (timer : TimerInfo) (info : TimerRecordingInfo) (began failed : Bool)
  | weighing (timer : TimerInfo) (info : TimerRecordingInfo) (began failed : Bool)
  | retrying (timer : TimerInfo) (retries : Nat)
  | retryCounting (timer : TimerInfo) (retries : Nat)
  | retryPersisting (timer : TimerInfo)
  | finishing (timer : TimerInfo)
  | completing (timer : TimerInfo)
  | discarding
  | dropping
  | returning
  | arming (claims : Bool) (timer : TimerInfo)
  | scheduling (claims : Bool) (delay : Nat)
  | creating (timer : TimerInfo)
  | restarting
  | refreshing
  | refreshChecking (timer : TimerInfo)
  | refreshGuiding (timer : TimerInfo)
  | refreshPersisting (timer : TimerInfo)
  | refreshKeeping (timer : TimerInfo)
  | removing
  | removed
  | updating (prePaddingSeconds postPaddingSeconds : Int)
  | updateChecking (prePaddingSeconds postPaddingSeconds : Int) (timer : TimerInfo)
  | updatePersisting (timer : TimerInfo)
  | cancelling (isSeriesCancelled isManual : Bool)
  | cancelWriting (isSeriesCancelled isManual : Bool) (timer : Option TimerInfo)
  | cancelDisarming (final : Nat)
  | cancelForgetting (final : Nat)
  | cancelStopping (final : Nat)
  | cancelled (final : Nat)
  | over

structure Task where
  id : String
  work : Work

structure Row where
  timer : TimerInfo
  isManual : Bool

/-- `LiveTvManager`, the timers of it; `active` says of a capture whether it was told to
stop. -/
structure Manager where
  now : Nat := 0
  rows : KeyedMap String Row := ∅
  armed : KeyedMap String Nat := ∅
  flagged : List Nat := []
  firing : List String := []
  active : KeyedMap String Bool := ∅
  retryCounts : KeyedMap String Nat := ∅
  readRetryCounts : KeyedMap String Nat := ∅
  nextTask : Nat := 0
  tasks : KeyedMap Nat Task := ∅
  lastArms : KeyedMap String (Nat × Nat) := ∅
  fired : List Nat := []
  creations : KeyedMap String Nat := ∅

/-- What a task is told at a step: nothing, that what it awaited is done or has failed, the
programme that was found, or whether a file was recorded. -/
inductive Answer where
  | nothing
  | done
  | failed (closed : Bool)
  | unparseable
  | guide (program : Option GuideProgramRow)
  | recorded (recorded : Bool)

inductive Effect where
  | none
  | unarm
  | disarm
  | schedule (delay : Nat)
  | retryRead
  | exhaust
  | clearReads
  | claim
  | release
  | activate
  | deactivate
  | countRetry (retries : Nat)
  | forgetRetries
  | persist (timer : TimerInfo) (isManual : Bool)
  | create (timer : TimerInfo)
  | delete
  | forget
  | stop

namespace Manager

variable (m : Manager)

/-- `disarm_timer`. -/
def disarm (id : String) : Manager :=
  { m with
    armed := m.armed.erase id
    flagged := m.flagged ++ (m.armed.lookup id).toList
    lastArms := m.lastArms.erase id }

def spawnFire (id : String) (delay : Nat) : Manager :=
  { m with
    armed := m.armed.insert id m.nextTask
    nextTask := m.nextTask + 1
    tasks := m.tasks.insert m.nextTask { id := id, work := .sleeping (m.now + delay) }
    lastArms := m.lastArms.insert id (m.nextTask, m.now + delay) }

def scheduleFire (id : String) (delay : Nat) : Manager :=
  spawnFire { m with flagged := m.flagged ++ (m.armed.lookup id).toList } id delay

def upsert (id : String) (timer : TimerInfo) (isManual : Bool) : Manager :=
  let was := ((m.rows.lookup id).map Row.isManual).getD false
  { m with rows := m.rows.insert id { timer := timer, isManual := was || isManual } }

def forgetRowState (id : String) : Manager :=
  { m with
    retryCounts := m.retryCounts.erase id
    readRetryCounts := m.readRetryCounts.erase id }

def created (id : String) : Nat := (m.creations.lookup id).getD 0

/-- What a step of the task `i` of the timer does. -/
def apply (i : Nat) (id : String) : Effect → Manager
  | .none => m
  | .unarm => { m with armed := m.armed.erase id, fired := m.fired ++ [i] }
  | .disarm => m.disarm id
  | .schedule delay => m.scheduleFire id delay
  | .retryRead =>
    let count := (m.readRetryCounts.lookup id).getD 0
    spawnFire { m with readRetryCounts := m.readRetryCounts.insert id (count + 1) } id
      (retryIntervalSeconds * 1000)
  | .exhaust => { m with readRetryCounts := m.readRetryCounts.erase id }
  | .clearReads => { m with readRetryCounts := m.readRetryCounts.erase id }
  | .claim => { m with firing := m.firing ++ [id] }
  | .release => { m with firing := m.firing.filter (· ≠ id) }
  | .activate => { m with active := m.active.insert id false }
  | .deactivate => { m with active := m.active.erase id }
  | .countRetry retries => { m with retryCounts := m.retryCounts.insert id (retries + 1) }
  | .forgetRetries => { m with retryCounts := m.retryCounts.erase id }
  | .persist timer isManual => m.upsert id timer isManual
  | .create timer =>
    { m.upsert id timer true with creations := m.creations.insert id (m.created id + 1) }
  | .delete => forgetRowState { m with rows := m.rows.erase id } id
  | .forget => m.forgetRowState id
  | .stop => { m with
      active := KeyedMap.mapValues (fun k told => told || k == id) m.active }

end Manager

/-- After `arm_timer`: a fire lets its claim go. -/
def Work.armed : Bool → Work
  | true => .returning
  | false => .over

/-- `settle_timer`, which row it deletes or writes first. -/
def settle (m : Manager) (id : String) (timer : TimerInfo) (info : TimerRecordingInfo)
    (began failed recorded : Bool) : Effect × Work :=
  let retries := (m.retryCounts.lookup id).getD 0
  if failed ∧ (m.now : Int) < info.endDate ∧ retries < maxRetryCount then
    (.none, if began then .retrying timer retries else .retryCounting timer retries)
  else (.forgetRetries,
    if began then if recorded then .finishing timer else .discarding else .dropping)

def Work.next (m : Manager) (i : Nat) (id : String) : Work → Answer → Option (Effect × Work)
  -- `spawn_fire`
  | .sleeping due, .nothing =>
    if due ≤ m.now then
      some (if i ∈ m.flagged ∨ m.armed.lookup id ≠ some i then (.none, .over)
        else (.unarm, .reading))
    else none
  -- `on_timer_fired`
  | .reading, .done => some (.clearReads,
      match m.rows.lookup id with
      | some row => .guiding row.timer
      | none => .over)
  | .reading, .unparseable => some (.clearReads, .over)
  | .reading, .failed closed => some (.none, if closed then .over else .unread)
  | .unread, .nothing => some (
      if (m.armed.lookup id).isSome then (.none, .over)
      else if (m.readRetryCounts.lookup id).getD 0 < maxRetryCount then (.retryRead, .over)
      else (.exhaust, .over))
  | .guiding timer, .guide program =>
    let info := match program with
      | some program => applyProgramToRecordingInfo program (.fromTimer timer)
      | none => .fromTimer timer
    some (.none, if info.recordingEndDate ≤ (m.now : Int) then .ended else .claiming timer info)
  | .guiding timer, .failed _ =>
    let info := TimerRecordingInfo.fromTimer timer
    some (.none, if info.recordingEndDate ≤ (m.now : Int) then .ended else .claiming timer info)
  | .ended, .done => some (.delete, .over)
  | .ended, .failed _ => some (.none, .over)
  | .claiming timer info, .nothing =>
    some (if id ∈ m.firing then (.none, .over) else (.claim, .claimed timer info))
  | .claimed timer info, .nothing =>
    some (.none, if (m.active.lookup id).isSome then .returning else .opening timer info)
  -- `record_stream`, `capture`, `start_capture`
  | .opening timer info, .done => some (.none, .inserting timer info)
  | .opening timer info, .failed _ => some (.none, .weighing timer info false true)
  | .inserting timer info, .done =>
    some (.activate, .starting { timer with status := .inProgress } info)
  | .inserting timer info, .failed _ => some (.none, .closing timer info false true)
  | .starting timer info, .done => some (.persist timer false, .recording timer info)
  | .starting timer info, .failed _ => some (.none, .closing timer info false true)
  | .recording timer info, .done => some (.none, .closing timer info true false)
  | .recording timer info, .failed _ => some (.none, .closing timer info true true)
  -- `finish_capture`
  | .closing timer info began failed, .done =>
    some (.deactivate, .weighing timer info began failed)
  | .weighing timer info began failed, .recorded recorded =>
    some (settle m id timer info began failed recorded)
  -- `settle_timer`
  | .retrying timer retries, .done => some (.none, .retryCounting timer retries)
  | .retrying _ _, .failed _ => some (.none, .returning)
  | .retryCounting timer retries, .nothing => some (.countRetry retries, .retryPersisting
      { timer with
        status := .new
        prePaddingSeconds := 0
        startDate := (m.now : Int) + retryIntervalSeconds * 1000 })
  | .retryPersisting timer, .done => some (.persist timer false, .arming true timer)
  | .retryPersisting _, .failed _ => some (.none, .returning)
  | .finishing timer, .done => some (.none, .completing { timer with status := .completed })
  | .finishing _, .failed _ => some (.none, .returning)
  | .completing timer, .done => some (.persist timer false, .returning)
  | .completing _, .failed _ => some (.none, .returning)
  | .discarding, .done => some (.none, .dropping)
  | .discarding, .failed _ => some (.none, .returning)
  | .dropping, .done => some (.delete, .returning)
  | .dropping, .failed _ => some (.none, .returning)
  | .returning, .nothing => some (.release, .over)
  -- `arm_timer`
  | .arming claims timer, .nothing => some (
      if id = "" then (.none, .armed claims)
      else (.disarm, if timer.finished then .armed claims
        else .scheduling claims (timer.delay m.now)))
  | .scheduling claims delay, .nothing => some (.schedule delay, .armed claims)
  -- `create_timer`, `start_dvr`
  | .creating timer, .done => some (.create timer, .arming false timer)
  | .creating _, .failed _ => some (.none, .over)
  | .restarting, .done => some (.none,
      match m.rows.lookup id with
      | some row => .arming false row.timer
      | none => .over)
  -- `refresh_timer`
  | .refreshing, .done => some (.none,
      match m.rows.lookup id with
      | some row => if row.timer.status = .completed then .over else .refreshChecking row.timer
      | none => .over)
  | .refreshing, .unparseable => some (.none, .over)
  | .refreshing, .failed _ => some (.none, .over)
  | .refreshChecking timer, .nothing => some (.none,
      if timer.endDate < (m.now : Int) ∧ m.active.lookup id = none then .removing
      else if timer.namesProgram then .refreshGuiding timer
      else .over)
  | .refreshGuiding timer, .guide program => some (.none,
      match program with
      | some program =>
        if copyProgramIntoTimer program timer = timer then .refreshKeeping timer
        else .refreshPersisting (copyProgramIntoTimer program timer)
      | none => .removing)
  | .refreshGuiding _, .failed _ => some (.none, .over)
  | .refreshPersisting timer, .done => some (.persist timer false, .arming false timer)
  | .refreshPersisting _, .failed _ => some (.none, .over)
  | .refreshKeeping timer, .nothing =>
    some (.none, if (m.armed.lookup id).isSome then .over else .arming false timer)
  | .removing, .nothing => some (.disarm, .removed)
  | .removed, .done => some (.delete, .over)
  | .removed, .failed _ => some (.none, .over)
  -- `update_timer`
  | .updating prePaddingSeconds postPaddingSeconds, .done => some (.none,
      match m.rows.lookup id with
      | some row => .updateChecking prePaddingSeconds postPaddingSeconds row.timer
      | none => .over)
  | .updating _ _, .unparseable => some (.none, .over)
  | .updating _ _, .failed _ => some (.none, .over)
  | .updateChecking prePaddingSeconds postPaddingSeconds timer, .nothing => some (.none,
      if (m.active.lookup id).isSome then .over
      else .updatePersisting { timer with
        prePaddingSeconds := prePaddingSeconds
        postPaddingSeconds := postPaddingSeconds })
  | .updatePersisting timer, .done => some (.persist timer false, .arming false timer)
  | .updatePersisting _, .failed _ => some (.none, .over)
  -- `cancel_timer_internal`
  | .cancelling isSeriesCancelled isManual, .done =>
    some (.none, .cancelWriting isSeriesCancelled isManual ((m.rows.lookup id).map Row.timer))
  | .cancelling isSeriesCancelled isManual, .unparseable =>
    some (.none, .cancelWriting isSeriesCancelled isManual none)
  | .cancelling _ _, .failed _ => some (.none, .over)
  | .cancelWriting isSeriesCancelled isManual timer, .done => some (
      match timer with
      | some timer =>
        if isSeriesCancelled || blank timer.seriesTimerId then .delete
        else .persist { timer with status := .cancelled } isManual
      | none => .delete,
      .cancelDisarming (m.created id))
  | .cancelWriting _ _ _, .failed _ => some (.none, .over)
  | .cancelDisarming final, .nothing => some (.disarm, .cancelForgetting final)
  | .cancelForgetting final, .nothing => some (.forget, .cancelStopping final)
  | .cancelStopping final, .nothing => some (.stop, .cancelled final)
  | _, _ => none

inductive Operation where
  | create (timer : TimerInfo)
  | restart
  | refresh
  | update (prePaddingSeconds postPaddingSeconds : Int)
  | cancel (isSeriesCancelled isManual : Bool)

def Operation.work : Operation → Work
  | .create timer => .creating timer
  | .restart => .restarting
  | .refresh => .refreshing
  | .update prePaddingSeconds postPaddingSeconds => .updating prePaddingSeconds postPaddingSeconds
  | .cancel isSeriesCancelled isManual => .cancelling isSeriesCancelled isManual

inductive Event where
  | tick (elapsed : Nat)
  | start (id : String) (operation : Operation)
  | step (i : Nat) (answer : Answer)

namespace Manager

variable (m : Manager)

def goOn (i : Nat) (task : Task) : Manager := { m with tasks := m.tasks.insert i task }

def step : Event → Option Manager
  | .tick elapsed => some { m with now := m.now + elapsed }
  | .start id operation =>
    some (goOn { m with nextTask := m.nextTask + 1 } m.nextTask ⟨id, operation.work⟩)
  | .step i answer =>
    (m.tasks.lookup i).bind fun task =>
      (task.work.next m i task.id answer).map fun (effect, work) =>
        (m.apply i task.id effect).goOn i ⟨task.id, work⟩

end Manager

def dvr : Machine Manager Event where
  init := {}
  step := Manager.step

theorem step_cases {m m' : Manager} {i : Nat} {a : Answer} (h : m.step (.step i a) = some m') :
    ∃ id w e w', m.tasks.lookup i = some ⟨id, w⟩ ∧ Work.next m i id w a = some (e, w') ∧
      m' = (m.apply i id e).goOn i ⟨id, w'⟩ := by
  obtain ⟨task, htask, h⟩ := Option.bind_eq_some_iff.mp h
  obtain ⟨⟨e, w'⟩, hnext, rfl⟩ := Option.map_eq_some_iff.mp h
  exact ⟨task.id, task.work, e, w', htask, hnext, rfl⟩

end Ferrofin.Dvr
