import Ferrofin.Lib.KeyedLock
import Ferrofin.Transcode.Registry
import Ferrofin.Hls.SegmentFiles

/-!
# The HLS stream manager

`hlsManager` is the machine of all interleavings of the requests that can start an
`ffmpeg` for a playlist, `dynamic_segment` (with the fMP4 init segment) and
`live_playlist`, on top of the transcode registry: a request goes on from one of its
awaits or locked sections to the next, and in between the registry's other sections
run (stops, the idle reaper, marks of consumers), processes exit, files come and go,
and a client that disconnects drops its request wherever it stands.

The restart breaker, the directories, the spawn of a process, the clock of a wait and
a file that goes away again are the outside world's: a step is told whether they fail.
The marks a request holds against the idle reaper and the names it shows are sections of
the registry, which run at any time.  What a request serves in the end is left out.
-/

namespace Ferrofin.Hls

open Lib Transcode
open Option (map_eq_some_iff)

/-- The part of a `TranscodePlan` that is about the job. -/
structure Plan where
  outputId : UInt64
  playSessionId : Option String := none
  deviceId : Option String := none
  liveStreamId : Option String := none

/-- What a request wants: a segment, the init segment of a transcode that starts at
a segment (`resume_segment`), or the live playlist. -/
inductive Target where
  | segment (segmentId : Int)
  | init (start : Int)
  | live
deriving DecidableEq

def dynamicSegment (segmentId resume : Int) : Target :=
  if segmentId < 0 then .init resume else .segment segmentId

/-- Where a request stands: before its fast path; waiting for the playlist's lock;
with the lock, in its second look; waiting for a running job, about to evict it, or
to ask the breaker; about to register its own job, with the job registered (its
registration is history), with `ffmpeg` spawned, with the process attached to the
job, with the first output or an exit at hand; or with the job started. -/
inductive Phase where
  | planned
  | queued
  | locked
  | waiting (handle : TranscodingJobHandle)
  | evicting (handle : TranscodingJobHandle)
  | asking
  | starting
  | registered (job : Nat)
  | launched (process : Nat)
  | spawned
  | settling
  | started
deriving DecidableEq

structure Task where
  plan : Plan
  target : Target
  phase : Phase := .planned

/-- What happens.  Requests have numbers; `exit` tells a process's exit code, `0`
when it has none. -/
inductive Event where
  | dynamicSegment (i : Nat) (plan : Plan) (segmentId resume : Int)
  | livePlaylist (i : Nat) (plan : Plan)
  | advance (i : Nat) (fails : Bool)
  | disconnect (i : Nat)
  | registry (e : Transcode.Event)
  | exit (process : Nat) (code : Int)
  | write (outputId : UInt64) (file : OutputFile)
  | delete (outputId : UInt64) (file : OutputFile)

/-- The section is not one of `start_ffmpeg`'s own. -/
def isShared : Transcode.Event → Bool
  | .registerJob _ | .attachRunning _ _ | .removeJobByPath _ _ => false
  | _ => true

/-- An `ffmpeg` process; the registration it was spawned for is history. -/
structure Process where
  job : Nat
  exit : Option Int := none

/-- The state of the server.  A process is named by its place; `children` has the
process behind each `Arc` that was attached to a job. -/
structure World where
  registry : Transcode.World := {}
  tasks : KeyedMap Nat Task := ∅
  disk : Disk := []
  processes : List Process := []
  children : KeyedMap Nat Nat := ∅

namespace Plan

/-- `plan.playlist_path`. -/
def playlistPath (root : String) (plan : Plan) : String := Hls.playlistPath root plan.outputId

/-- The handle `start_ffmpeg` registers. -/
def handle (root : String) (plan : Plan) : TranscodingJobHandle where
  playSessionId := plan.playSessionId
  path := plan.playlistPath root
  jobType := .hls
  deviceId := plan.deviceId
  liveStreamId := plan.liveStreamId

end Plan

namespace Phase

def isLocked : Phase → Bool
  | .planned | .queued => false
  | .locked | .waiting _ | .evicting _ | .asking | .starting | .registered _ | .launched _
  | .spawned | .settling | .started => true

def isDecided : Phase → Bool
  | .asking | .starting => true
  | .planned | .queued | .locked | .waiting _ | .evicting _ | .registered _ | .launched _
  | .spawned | .settling | .started => false

end Phase

def initIsComplete (disk : Disk) (outputId : UInt64) (start : Int) : Bool :=
  (outputId, .segment start) ∈ disk && (outputId, .init true) ∈ disk

namespace Task

def lock (root : String) (t : Task) : Option String :=
  if t.phase.isLocked then some (t.plan.playlistPath root) else none

/-- The file the request starts from: `wait_for_path` of its plan. -/
def firstSegment (t : Task) : Int :=
  match t.target with
  | .segment segmentId => segmentId
  | .init start => start
  | .live => 0

def exists' (t : Task) (disk : Disk) (file : OutputFile) : Bool := (t.plan.outputId, file) ∈ disk

/-- What the request looks for on disk before it does anything is there. -/
def present (t : Task) (disk : Disk) : Bool :=
  match t.target with
  | .segment segmentId => t.exists' disk (.segment segmentId)
  | .init start => initIsComplete disk t.plan.outputId start
  | .live => t.exists' disk .playlist

def presentLocked (t : Task) (disk : Disk) : Bool :=
  match t.target with
  | .segment segmentId => t.exists' disk (.segment segmentId)
  | .init start => t.exists' disk (.segment start)
  | .live => t.exists' disk .playlist

end Task

namespace World

/-- `with_running(handle, |r| r.child.exit_code())`, inside whether it has exited:
`none` without a job or a process. -/
def exitOf (w : World) (handle : TranscodingJobHandle) : Option (Option Int) :=
  (w.registry.jobs.find? (RegisteredJob.isOf handle)).bind fun j =>
    j.running.map fun running =>
      ((w.children.lookup running.progress).bind fun p => w.processes[p]?).bind Process.exit

/-- `with_running(handle, |r| r.child.has_exited())`. -/
def hasExited (w : World) (handle : TranscodingJobHandle) : Option Bool :=
  (w.exitOf handle).map Option.isSome

/-- One look of `wait_for_segment`: the segment is there, or will not come; or the
wait goes on. -/
def waitForSegment (w : World) (t : Task) (handle : TranscodingJobHandle) : Option Bool :=
  if t.exists' w.disk (.segment t.firstSegment) then some true
  else if (w.hasExited handle).getD true then some false
  else none

def jobByPath (w : World) (path : String) : Option TranscodingJobHandle :=
  (w.registry.jobs.find? (RegisteredJob.isFor .hls path)).map RegisteredJob.handle

/-- The locked look of a request: where it goes on from there, unless it is done.
`live_playlist` does not look for a job. -/
def lookLocked (w : World) (root : String) (t : Task) : Option Phase :=
  if t.presentLocked w.disk then none
  else match t.target, w.jobByPath (t.plan.playlistPath root) with
    | .segment segmentId, some handle =>
      if shouldWaitForRunningJob (currentTranscodingIndex w.disk t.plan.outputId) segmentId
        then some (.waiting handle) else some (.evicting handle)
    | .init _, some handle => some (.waiting handle)
    | .segment _, none | .init _, none | .live, _ => some .asking

/-- `wait_for_first_output` on its first look that ends it, else `none`: the phase
that follows, and whether the job is killed. -/
def firstOutput (w : World) (t : Task) (handle : TranscodingJobHandle) (fails : Bool) :
    Option (Option Phase × Bool) :=
  if t.exists' w.disk (.segment t.firstSegment) || w.hasExited handle = some true then
    some (some .settling, false)
  else match w.hasExited handle, fails with
    | none, _ => some (none, false)
    | some _, true => some (none, true)
    | some _, false => none

def section' (w : World) (e : Transcode.Event) : Option World :=
  (w.registry.step e).map fun r => { w with registry := r }

/-- `start_transcode`: the process of a registered job. -/
def launch (w : World) (job : Nat) : World :=
  { w with processes := w.processes ++ [{ job := job }] }

def attach (w : World) (handle : TranscodingJobHandle) (process : Nat) : Option World :=
  (w.section' (.attachRunning handle handle.path)).map fun w' =>
    { w' with children := w.children.insert w.registry.arcs process }

/-- The next step of a request: the server after it, and where the request stands
then, `none` when it has returned. -/
def advance (w : World) (root : String) (t : Task) (fails : Bool) :
    Option (World × Option Phase) :=
  let handle := t.plan.handle root
  match t.phase with
  | .planned => some (w, if t.present w.disk then none else some .queued)
  | .queued =>
    if lockFree (Task.lock root) (t.plan.playlistPath root) w.tasks then some (w, some .locked)
    else none
  | .locked => some (w, w.lookLocked root t)
  | .waiting found =>
    match w.waitForSegment t found, t.target with
    | none, _ => none
    | some _, .init _ | some _, .live => some (w, none)
    -- the segment the wait saw may be gone when the request looks again
    | some there, .segment _ => some (w, if there && !fails then none else some (.evicting found))
  | .evicting found => (w.section' (.killAndRemove found)).map (·, some .asking)
  | .asking => some (w, if fails then none else some .starting)
  | .starting =>
    if fails then some (w, none)
    else (w.section' (.registerJob handle)).map (·, some (.registered w.registry.registrations))
  | .registered job =>
    if fails then (w.section' (.removeJobByPath handle.path handle.jobType)).map (·, none)
    else some (w.launch job, some (.launched w.processes.length))
  | .launched process => (w.attach handle process).map (·, some .spawned)
  | .spawned =>
    (w.firstOutput t handle fails).bind fun (next, kill) =>
      if kill then (w.section' (.killAndRemove handle)).map (·, next) else some (w, next)
  | .settling =>
    if (w.exitOf handle).join.getD 0 ≠ 0 then
      (w.section' (.removeJobByPath handle.path handle.jobType)).map (·, none)
    else some (w, some .started)
  | .started =>
    match t.target with
    | .segment _ => (w.waitForSegment t handle).map fun _ => (w, none)
    | .init _ | .live => some (w, none)

def begin (w : World) (i : Nat) (plan : Plan) (target : Target) : Option World :=
  if (w.tasks.lookup i).isSome then none
  else some { w with tasks := w.tasks.insert i { plan := plan, target := target } }

def goOn (tasks : KeyedMap Nat Task) (i : Nat) (t : Task) : Option Phase → KeyedMap Nat Task
  | some phase => tasks.insert i { t with phase := phase }
  | none => tasks.erase i

def step (root : String) (w : World) : Event → Option World
  | .dynamicSegment i plan segmentId resume => w.begin i plan (dynamicSegment segmentId resume)
  | .livePlaylist i plan => w.begin i plan .live
  | .advance i fails => (w.tasks.lookup i).bind fun t =>
    (w.advance root t fails).map fun (w', next) => { w' with tasks := goOn w.tasks i t next }
  | .disconnect i => some { w with tasks := w.tasks.erase i }
  | .registry e => if isShared e then w.section' e else none
  | .exit process code => some { w with
      processes := w.processes.modify process fun p => { p with exit := some code } }
  | .write outputId file => some { w with disk := (outputId, file) :: w.disk }
  | .delete outputId file => some { w with disk := w.disk.filter (· ≠ (outputId, file)) }

end World

def hlsManager (root : String) : Machine World Event where
  init := {}
  step := World.step root

namespace World

/-! ### What a request's step can do -/

/-- Everything a step of a request can do, with the guards it passed. -/
inductive Advanced (root : String) (w : World) (t : Task) : World → Option Phase → Prop
  | queued (hphase : t.phase = .planned) : Advanced root w t w (some .queued)
  | locked (hphase : t.phase = .queued)
      (hfree : lockFree (Task.lock root) (t.plan.playlistPath root) w.tasks = true) :
      Advanced root w t w (some .locked)
  | found {handle : TranscodingJobHandle} (hphase : t.phase = .locked)
      (hjob : w.jobByPath (t.plan.playlistPath root) = some handle) :
      Advanced root w t w (some (.waiting handle))
  | stale {handle : TranscodingJobHandle} (hphase : t.phase = .locked)
      (hjob : w.jobByPath (t.plan.playlistPath root) = some handle) :
      Advanced root w t w (some (.evicting handle))
  | decided (hphase : t.phase = .locked)
      (hjob : t.target = .live ∨ w.jobByPath (t.plan.playlistPath root) = none) :
      Advanced root w t w (some .asking)
  | gaveUp {handle : TranscodingJobHandle} (hphase : t.phase = .waiting handle) :
      Advanced root w t w (some (.evicting handle))
  | evicted {handle : TranscodingJobHandle} {r : Transcode.World}
      (hphase : t.phase = .evicting handle)
      (hr : w.registry.step (.killAndRemove handle) = some r) :
      Advanced root w t { w with registry := r } (some .asking)
  | asked (hphase : t.phase = .asking) : Advanced root w t w (some .starting)
  | registered {r : Transcode.World} (hphase : t.phase = .starting)
      (hr : w.registry.step (.registerJob (t.plan.handle root)) = some r) :
      Advanced root w t { w with registry := r } (some (.registered w.registry.registrations))
  | launched {job : Nat} (hphase : t.phase = .registered job) :
      Advanced root w t (w.launch job) (some (.launched w.processes.length))
  | attached {process : Nat} {r : Transcode.World} (hphase : t.phase = .launched process)
      (hr : w.registry.step
        (.attachRunning (t.plan.handle root) (t.plan.handle root).path) = some r) :
      Advanced root w t
        { w with registry := r, children := w.children.insert w.registry.arcs process }
        (some .spawned)
  | settling (hphase : t.phase = .spawned) : Advanced root w t w (some .settling)
  | started (hphase : t.phase = .settling) : Advanced root w t w (some .started)
  | returned : Advanced root w t w none
  | removed {r : Transcode.World} {e : Transcode.Event}
      (he : ∀ handle, e ≠ .registerJob handle) (hr : w.registry.step e = some r) :
      Advanced root w t { w with registry := r } none

variable {root : String} {w w' : World} {t : Task} {fails : Bool} {next : Option Phase}

theorem removed_of_section {e : Transcode.Event} (he : ∀ handle, e ≠ .registerJob handle)
    (h : (w.section' e).map (·, (none : Option Phase)) = some (w', next)) :
    Advanced root w t w' next := by
  obtain ⟨w₁, hsection, heq⟩ := map_eq_some_iff.mp h
  obtain ⟨r, hr, rfl⟩ := map_eq_some_iff.mp hsection
  cases heq
  exact .removed he hr

theorem lookLocked_cases (hphase : t.phase = .locked) :
    Advanced root w t w (w.lookLocked root t) := by
  rw [lookLocked]
  split
  · exact .returned
  · split
    · next handle _ hjob =>
      split
      · exact .found hphase hjob
      · exact .stale hphase hjob
    · next hjob => exact .found hphase hjob
    · next hjob => exact .decided hphase (.inr hjob)
    · next hjob => exact .decided hphase (.inr hjob)
    · next htarget => exact .decided hphase (.inl htarget)

theorem firstOutput_cases {handle : TranscodingJobHandle} {kill : Bool}
    (h : w.firstOutput t handle fails = some (next, kill)) :
    (next = some .settling ∧ kill = false) ∨ next = none := by
  unfold firstOutput at h
  split at h
  · cases h
    exact .inl ⟨rfl, rfl⟩
  · cases hexited : w.hasExited handle <;> cases fails <;> simp only [hexited] at h <;> cases h <;>
      exact .inr rfl

/-- **What a request's step can do.** -/
theorem advance_cases (h : w.advance root t fails = some (w', next)) :
    Advanced root w t w' next := by
  cases hphase : t.phase with
  | planned =>
    simp only [advance, hphase, Option.some.injEq, Prod.mk.injEq] at h
    obtain ⟨rfl, rfl⟩ := h
    split
    · exact .returned
    · exact .queued hphase
  | queued =>
    simp only [advance, hphase] at h
    split at h
    · next hfree => cases h; exact .locked hphase hfree
    · cases h
  | locked =>
    simp only [advance, hphase, Option.some.injEq, Prod.mk.injEq] at h
    obtain ⟨rfl, rfl⟩ := h
    exact lookLocked_cases hphase
  | waiting found =>
    simp only [advance, hphase] at h
    split at h
    · cases h
    · cases h; exact .returned
    · cases h; exact .returned
    · next there _ _ _ =>
      simp only [Option.some.injEq, Prod.mk.injEq] at h
      obtain ⟨rfl, rfl⟩ := h
      split
      · exact .returned
      · exact .gaveUp hphase
  | evicting found =>
    simp only [advance, hphase] at h
    obtain ⟨w₁, hsection, heq⟩ := map_eq_some_iff.mp h
    obtain ⟨r, hr, rfl⟩ := map_eq_some_iff.mp hsection
    cases heq
    exact .evicted hphase hr
  | asking =>
    simp only [advance, hphase, Option.some.injEq, Prod.mk.injEq] at h
    obtain ⟨rfl, rfl⟩ := h
    split
    · exact .returned
    · exact .asked hphase
  | starting =>
    simp only [advance, hphase] at h
    split at h
    · cases h; exact .returned
    · obtain ⟨w₁, hsection, heq⟩ := map_eq_some_iff.mp h
      obtain ⟨r, hr, rfl⟩ := map_eq_some_iff.mp hsection
      cases heq
      exact .registered hphase hr
  | registered job =>
    simp only [advance, hphase] at h
    split at h
    · exact removed_of_section (by simp) h
    · cases h; exact .launched hphase
  | launched process =>
    simp only [advance, hphase] at h
    obtain ⟨w₁, hattach, heq⟩ := map_eq_some_iff.mp h
    obtain ⟨w₂, hsection, rfl⟩ := map_eq_some_iff.mp hattach
    obtain ⟨r, hr, rfl⟩ := map_eq_some_iff.mp hsection
    cases heq
    exact .attached hphase hr
  | spawned =>
    simp only [advance, hphase] at h
    obtain ⟨⟨next', kill⟩, hfirst, h⟩ := Option.bind_eq_some_iff.mp h
    rcases firstOutput_cases hfirst with ⟨rfl, rfl⟩ | rfl
    · cases h
      exact .settling hphase
    · cases kill with
      | false => cases h; exact .returned
      | true =>
        rw [if_pos rfl] at h
        exact removed_of_section (by simp) h
  | settling =>
    simp only [advance, hphase] at h
    split at h
    · exact removed_of_section (by simp) h
    · cases h; exact .started hphase
  | started =>
    simp only [advance, hphase] at h
    split at h
    · obtain ⟨b, -, he⟩ := map_eq_some_iff.mp h
      cases he
      exact .returned
    all_goals cases h; exact .returned

end World

end Ferrofin.Hls
