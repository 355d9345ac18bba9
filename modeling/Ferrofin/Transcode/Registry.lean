import Ferrofin.Lib.Machine
import Ferrofin.Transcode.Jobs

/-!
# The transcode registry

`transcodeRegistry` is the machine of all interleavings of the methods of
`TranscodeManagerImpl`, cut where they give the `jobs` lock up.  Its state is the
job list, the clock, the live request guards and download observers, and the
sweeps of the idle reaper that still have handles to tear down.

Only the reaper has a state of its own between two sections: `reap_idle_jobs`
selects handles under the lock and kills them one after another later.
`kill_transcoding_jobs`, `start_ffmpeg` and the wait for its first segment are
runs of the sections below, at any handle and in any order.
-/

namespace Ferrofin.Transcode

open Lib
open RegisteredJob
open List (flatten_cons map_map mem_append mem_map mem_singleton)

/-- A live `TranscodeRequestGuard`: the handle it ends, and the registration it
was taken on (history). -/
structure TranscodeRequestGuard where
  handle : TranscodingJobHandle
  job : Nat
deriving DecidableEq

/-- A live `DownloadObserver`: the `Arc` it finds its job by, and the
registration it was taken on (history). -/
structure DownloadObserver where
  progress : Nat
  job : Nat
deriving DecidableEq

/-- A handle a sweep has selected; its registration and the activity stamp the
sweep read are history. -/
structure Selected where
  handle : TranscodingJobHandle
  job : Nat
  lastActivity : Nat
deriving DecidableEq

def RegisteredJob.selected (j : RegisteredJob) : Selected where
  handle := j.handle
  job := j.serial
  lastActivity := j.lastActivity

/-- The registry between two critical sections.  `registrations` and `arcs` count
what was registered and allocated so far. -/
structure World where
  now : Nat := 0
  jobs : List RegisteredJob := []
  guards : List TranscodeRequestGuard := []
  observers : List DownloadObserver := []
  sweeps : List (List Selected) := []
  registrations : Nat := 0
  arcs : Nat := 0

/-- A critical section, or the clock going on.  A guard or an observer is named
by its place among the live ones, a sweep by its number. -/
inductive Event where
  | elapse (nanos : Nat)
  | registerJob (handle : TranscodingJobHandle)
  | setJobDisplay (handle : TranscodingJobHandle) (display : String)
  | attachRunning (handle : TranscodingJobHandle) (playlistPath : String)
  | trackSegmentDownload (playlist file : String) (endingTicks : Int)
  | beginRequestGuard (path : String) (jobType : TranscodingJobType)
  | streamProgress (file : String)
  | segmentProgress (playlist : String)
  | dropGuard (i : Nat)
  | dropObserver (i : Nat)
  | pingTranscodingJob (playSessionId : String) (isUserPaused : Option Bool)
  | killAndRemove (handle : TranscodingJobHandle)
  | removeJobByPath (path : String) (jobType : TranscodingJobType)
  | reapSelect
  | reapKill (i : Nat)

namespace World

def withGuard (w : World) : Option (RegisteredJob × List RegisteredJob) → World
  | none => w
  | some (j, jobs) =>
    { w with jobs := jobs, guards := w.guards ++ [{ handle := j.handle, job := j.serial }] }

/-- An observer is handed out for the process of the job that was found. -/
def withObserver (w : World) : Option (RegisteredJob × RunningJob × List RegisteredJob) → World
  | none => w
  | some (j, running, jobs) =>
    { w with
      jobs := jobs
      observers := w.observers ++ [{ progress := running.progress, job := j.serial }] }

def nextReap (w : World) (i : Nat) : Option Selected := w.sweeps[i]?.bind List.head?

def step (w : World) : Event → Option World
  | .elapse nanos => some { w with now := w.now + nanos }
  | .registerJob handle => some { w with
      jobs := registerJob w.now w.registrations handle w.jobs
      registrations := w.registrations + 1 }
  | .setJobDisplay handle display => some { w with jobs := setJobDisplay handle display w.jobs }
  | .attachRunning handle playlistPath => some { w with
      jobs := attachRunning handle { progress := w.arcs, playlistPath := playlistPath } w.jobs
      arcs := w.arcs + 1 }
  | .trackSegmentDownload playlist file endingTicks => some { w with
      jobs := trackSegmentDownload playlist file endingTicks w.jobs }
  | .beginRequestGuard path jobType =>
    some (w.withGuard (beginRequestGuard w.now path jobType w.jobs))
  | .streamProgress file => some (w.withObserver (streamProgress w.now file w.jobs))
  | .segmentProgress playlist => some (w.withObserver (segmentProgress w.now playlist w.jobs))
  | .dropGuard i => w.guards[i]?.map fun g => { w with
      jobs := endRequestSync w.now g.handle w.jobs
      guards := w.guards.eraseIdx i }
  | .dropObserver i => w.observers[i]?.map fun o => { w with
      jobs := endDownload w.now o.progress w.jobs
      observers := w.observers.eraseIdx i }
  | .pingTranscodingJob playSessionId isUserPaused => some { w with
      jobs := (pingTranscodingJob w.now playSessionId isUserPaused w.jobs).getD w.jobs }
  | .killAndRemove handle => some { w with jobs := (killAndRemove handle w.jobs).2 }
  | .removeJobByPath path jobType => some { w with jobs := removeJobByPath path jobType w.jobs }
  | .reapSelect => some { w with
      sweeps := w.sweeps ++ [(idleJobs w.now w.jobs).map RegisteredJob.selected] }
  | .reapKill i => (w.nextReap i).map fun s => { w with
      jobs := (killAndRemove s.handle w.jobs).2
      sweeps := w.sweeps.modify i List.tail }

end World

def transcodeRegistry : Machine World Event where
  init := {}
  step := World.step

/-! ### What a section does to the list -/

/-- What the counters and the reaper read of a job. -/
structure Vitals where
  serial : Nat
  handle : TranscodingJobHandle
  activeRequestCount : Int
  pingTimeoutMs : Int
  lastActivity : Nat

def RegisteredJob.vitals (j : RegisteredJob) : Vitals where
  serial := j.serial
  handle := j.handle
  activeRequestCount := j.activeRequestCount
  pingTimeoutMs := j.pingTimeoutMs
  lastActivity := j.lastActivity

section Vitals

variable {jobs : List RegisteredJob}

theorem vitals_modifyFirst {p : RegisteredJob → Bool} {f : RegisteredJob → RegisteredJob}
    (hf : ∀ j, (f j).vitals = j.vitals) :
    (modifyFirst p f jobs).map RegisteredJob.vitals = jobs.map RegisteredJob.vitals :=
  map_modifyFirst (fun j _ => hf j) jobs

theorem vitals_setJobDisplay (handle : TranscodingJobHandle) (display : String) :
    (setJobDisplay handle display jobs).map RegisteredJob.vitals =
      jobs.map RegisteredJob.vitals := by
  rw [setJobDisplay]
  split
  · rfl
  · exact vitals_modifyFirst fun _ => rfl

theorem vitals_attachRunning (handle : TranscodingJobHandle) (running : RunningJob) :
    (attachRunning handle running jobs).map RegisteredJob.vitals =
      jobs.map RegisteredJob.vitals :=
  vitals_modifyFirst fun _ => rfl

theorem vitals_trackSegmentDownload (playlist file : String) (endingTicks : Int) :
    (trackSegmentDownload playlist file endingTicks jobs).map RegisteredJob.vitals =
      jobs.map RegisteredJob.vitals :=
  vitals_modifyFirst fun _ => rfl

end Vitals

/-- The change a section other than `register_job` makes to the list, apart from
what the counters and the reaper do not read. -/
inductive JobsChange (now : Nat) (jobs : List RegisteredJob) : List RegisteredJob → Prop
  | quiet {jobs' : List RegisteredJob}
      (h : jobs'.map RegisteredJob.vitals = jobs.map RegisteredJob.vitals) :
      JobsChange now jobs jobs'
  | removed {jobs' : List RegisteredJob} (h : jobs'.Sublist jobs) : JobsChange now jobs jobs'
  | began (p : RegisteredJob → Bool) : JobsChange now jobs (modifyFirst p (begin now) jobs)
  | released (p : RegisteredJob → Bool) : JobsChange now jobs (modifyFirst p (release now) jobs)
  | pinged (p : RegisteredJob → Bool) (isUserPaused : Option Bool) :
      JobsChange now jobs (jobs.map fun j => if p j then j.ping now isUserPaused else j)

section Change

variable {now : Nat} {jobs jobs' : List RegisteredJob}

theorem JobsChange.refl : JobsChange now jobs jobs := .quiet rfl

theorem JobsChange.handles (h : JobsChange now jobs jobs') :
    (jobs'.map RegisteredJob.handle).Sublist (jobs.map RegisteredJob.handle) := by
  cases h with
  | quiet h =>
    have hs := congrArg (List.map Vitals.handle) h
    rw [map_map, map_map] at hs
    exact hs ▸ List.Sublist.refl _
  | removed h => exact h.map _
  | began p =>
    rw [map_modifyFirst (f := begin now) (g := RegisteredJob.handle) fun _ _ => rfl]
  | released p =>
    rw [map_modifyFirst (f := release now) (g := RegisteredJob.handle) fun _ _ => rfl]
  | pinged p isUserPaused =>
    have hs : RegisteredJob.handle ∘ (fun j => if p j then j.ping now isUserPaused else j) =
        RegisteredJob.handle := by
      funext j
      rw [Function.comp_apply]
      split <;> rfl
    rw [map_map, hs]

theorem JobsChange.serials (h : JobsChange now jobs jobs') :
    (jobs'.map RegisteredJob.serial).Sublist (jobs.map RegisteredJob.serial) := by
  cases h with
  | quiet h =>
    have hs := congrArg (List.map Vitals.serial) h
    rw [map_map, map_map] at hs
    exact hs ▸ List.Sublist.refl _
  | removed h => exact h.map _
  | began p =>
    rw [map_modifyFirst (f := begin now) (g := RegisteredJob.serial) fun _ _ => rfl]
  | released p =>
    rw [map_modifyFirst (f := release now) (g := RegisteredJob.serial) fun _ _ => rfl]
  | pinged p isUserPaused =>
    have hs : RegisteredJob.serial ∘ (fun j => if p j then j.ping now isUserPaused else j) =
        RegisteredJob.serial := by
      funext j
      rw [Function.comp_apply]
      split <;> rfl
    rw [map_map, hs]

theorem JobsChange.job (h : JobsChange now jobs jobs') {j' : RegisteredJob} (hj' : j' ∈ jobs') :
    (∃ j ∈ jobs, j'.vitals = j.vitals) ∨
      (j'.lastActivity = now ∧ (j'.pingTimeoutMs = pingTimeoutFor j'.handle.jobType ∨
        ∃ j ∈ jobs, j'.pingTimeoutMs = j.pingTimeoutMs)) := by
  cases h with
  | quiet h =>
    have hm : j'.vitals ∈ jobs.map RegisteredJob.vitals := h ▸ List.mem_map_of_mem hj'
    obtain ⟨j, hj, he⟩ := mem_map.mp hm
    exact .inl ⟨j, hj, he.symm⟩
  | removed h => exact .inl ⟨j', h.subset hj', rfl⟩
  | began p | released p =>
    rcases mem_modifyFirst hj' with hj' | ⟨j, hj, -, rfl⟩
    · exact .inl ⟨j', hj', rfl⟩
    · exact .inr ⟨rfl, .inr ⟨j, hj, rfl⟩⟩
  | pinged p isUserPaused =>
    obtain ⟨j, hj, rfl⟩ := mem_map.mp hj'
    split
    · exact .inr ⟨rfl, .inl rfl⟩
    · exact .inl ⟨j, hj, rfl⟩

theorem pingTranscodingJob_change (playSessionId : String) (isUserPaused : Option Bool) :
    JobsChange now jobs
      ((pingTranscodingJob now playSessionId isUserPaused jobs).getD jobs) := by
  rw [pingTranscodingJob]
  split
  · exact .refl
  · exact .pinged _ _

end Change

theorem mem_flatten_modify_tail {sweeps : List (List Selected)} {i : Nat} {s : Selected}
    (h : s ∈ (sweeps.modify i List.tail).flatten) : s ∈ sweeps.flatten := by
  induction sweeps generalizing i with
  | nil => simp at h
  | cons sweep rest ih =>
    cases i with
    | zero =>
      rw [List.modify_zero_cons, flatten_cons, mem_append] at h
      rw [flatten_cons, mem_append]
      exact h.imp_left List.mem_of_mem_tail
    | succ i =>
      rw [List.modify_succ_cons, flatten_cons, mem_append] at h
      rw [flatten_cons, mem_append]
      exact h.imp_right ih

namespace World

variable {w w' : World} {e : Event}

theorem withGuard_cases (w : World) (path : String) (jobType : TranscodingJobType) :
    w.withGuard (beginRequestGuard w.now path jobType w.jobs) = w ∨
      ∃ j, w.jobs.find? (isFor jobType path) = some j ∧
        w.withGuard (beginRequestGuard w.now path jobType w.jobs) = { w with
          jobs := modifyFirst (isFor jobType path) (begin w.now) w.jobs
          guards := w.guards ++ [{ handle := j.handle, job := j.serial }] } := by
  rw [beginRequestGuard]
  cases hj : w.jobs.find? (isFor jobType path) with
  | none => exact .inl rfl
  | some j => exact .inr ⟨j, rfl, rfl⟩

theorem withObserver_cases (w : World) (p : RegisteredJob → Bool) :
    w.withObserver (bindObserver w.now p w.jobs) = w ∨
      ∃ j, ∃ running : RunningJob, w.jobs.find? p = some j ∧
        w.withObserver (bindObserver w.now p w.jobs) = { w with
          jobs := modifyFirst p (begin w.now) w.jobs
          observers := w.observers ++ [{ progress := running.progress, job := j.serial }] } := by
  rw [bindObserver]
  cases hj : w.jobs.find? p with
  | none => exact .inl rfl
  | some j =>
    rw [Option.bind_some]
    cases hr : j.running with
    | none => exact .inl rfl
    | some running => exact .inr ⟨j, running, rfl, rfl⟩

def held (w : World) : List Nat :=
  w.guards.map TranscodeRequestGuard.job ++ w.observers.map DownloadObserver.job

/-- What a step does to each part of the state. -/
structure StepOf (w : World) (e : Event) (w' : World) : Prop where
  /-- The clock does not go back. -/
  now : w.now ≤ w'.now
  /-- A job is registered, or the list changes without. -/
  jobs : (∃ handle, e = .registerJob handle ∧
      w'.jobs = registerJob w.now w.registrations handle w.jobs ∧
      w'.registrations = w.registrations + 1) ∨
    (JobsChange w.now w.jobs w'.jobs ∧ w'.registrations = w.registrations)
  /-- A mark was held before, or is taken on a registered job. -/
  held : ∀ s ∈ w'.held, s ∈ w.held ∨ s ∈ w.jobs.map RegisteredJob.serial
  /-- A handle was selected before, or is one of a job idle now. -/
  sweeps : ∀ s ∈ w'.sweeps.flatten, s ∈ w.sweeps.flatten ∨
    (e = .reapSelect ∧ w'.jobs = w.jobs ∧ ∃ j ∈ idleJobs w.now w.jobs, s = j.selected)

theorem StepOf.of_jobs {jobs : List RegisteredJob} (h : JobsChange w.now w.jobs jobs) :
    StepOf w e { w with jobs := jobs } where
  now := Nat.le_refl _
  jobs := .inr ⟨h, rfl⟩
  held _ hs := .inl hs
  sweeps _ hs := .inl hs

theorem stepOf_withGuard (path : String) (jobType : TranscodingJobType) :
    StepOf w e (w.withGuard (beginRequestGuard w.now path jobType w.jobs)) := by
  rcases w.withGuard_cases path jobType with he | ⟨j, hj, he⟩ <;> rw [he]
  · exact .of_jobs .refl
  · refine ⟨Nat.le_refl _, .inr ⟨.began _, rfl⟩, fun s hs => ?_, fun _ hs => .inl hs⟩
    simp only [World.held, mem_append, List.map_append, List.map_singleton,
      mem_singleton] at hs ⊢
    rcases hs with (hs | rfl) | hs
    · exact .inl (.inl hs)
    · exact .inr (List.mem_map_of_mem (List.mem_of_find?_eq_some hj))
    · exact .inl (.inr hs)

theorem stepOf_withObserver (p : RegisteredJob → Bool) :
    StepOf w e (w.withObserver (bindObserver w.now p w.jobs)) := by
  rcases w.withObserver_cases p with he | ⟨j, running, hj, he⟩ <;> rw [he]
  · exact .of_jobs .refl
  · refine ⟨Nat.le_refl _, .inr ⟨.began _, rfl⟩, fun s hs => ?_, fun _ hs => .inl hs⟩
    simp only [World.held, mem_append, List.map_append, List.map_singleton,
      mem_singleton] at hs ⊢
    rcases hs with hs | hs | rfl
    · exact .inl (.inl hs)
    · exact .inl (.inr hs)
    · exact .inr (List.mem_map_of_mem (List.mem_of_find?_eq_some hj))

/-- **What one step can do.** -/
theorem step_of (h : w.step e = some w') : StepOf w e w' := by
  cases e with
  | elapse nanos =>
    cases h
    exact ⟨Nat.le_add_right _ _, .inr ⟨.refl, rfl⟩, fun _ hs => .inl hs, fun _ hs => .inl hs⟩
  | registerJob handle =>
    cases h
    exact ⟨Nat.le_refl _, .inl ⟨handle, rfl, rfl, rfl⟩, fun _ hs => .inl hs, fun _ hs => .inl hs⟩
  | setJobDisplay handle display =>
    cases h; exact .of_jobs (.quiet (vitals_setJobDisplay handle display))
  | attachRunning handle playlistPath =>
    cases h
    exact ⟨Nat.le_refl _, .inr ⟨.quiet (vitals_attachRunning handle _), rfl⟩,
      fun _ hs => .inl hs, fun _ hs => .inl hs⟩
  | trackSegmentDownload playlist file endingTicks =>
    cases h; exact .of_jobs (.quiet (vitals_trackSegmentDownload playlist file endingTicks))
  | beginRequestGuard path jobType =>
    cases h
    exact stepOf_withGuard path jobType
  | streamProgress file | segmentProgress playlist =>
    cases h
    exact stepOf_withObserver _
  | dropGuard i =>
    obtain ⟨g, -, rfl⟩ := Option.map_eq_some_iff.mp h
    refine ⟨Nat.le_refl _, .inr ⟨.released _, rfl⟩, fun s hs => .inl ?_, fun _ hs => .inl hs⟩
    exact (((List.eraseIdx_sublist _ i).map _).append_right _).subset hs
  | dropObserver i =>
    obtain ⟨o, -, rfl⟩ := Option.map_eq_some_iff.mp h
    refine ⟨Nat.le_refl _, .inr ⟨.released _, rfl⟩, fun s hs => .inl ?_, fun _ hs => .inl hs⟩
    exact (((List.eraseIdx_sublist _ i).map _).append_left _).subset hs
  | pingTranscodingJob playSessionId isUserPaused =>
    cases h; exact .of_jobs (pingTranscodingJob_change playSessionId isUserPaused)
  | killAndRemove handle => cases h; exact .of_jobs (.removed List.eraseP_sublist)
  | removeJobByPath path jobType => cases h; exact .of_jobs (.removed List.filter_sublist)
  | reapSelect =>
    cases h
    refine ⟨Nat.le_refl _, .inr ⟨.refl, rfl⟩, fun _ hs => .inl hs, fun s hs => ?_⟩
    rw [List.flatten_append, mem_append, List.flatten_singleton] at hs
    rcases hs with hs | hs
    · exact .inl hs
    · obtain ⟨j, hj, rfl⟩ := mem_map.mp hs
      exact .inr ⟨rfl, rfl, j, hj, rfl⟩
  | reapKill i =>
    obtain ⟨c, -, rfl⟩ := Option.map_eq_some_iff.mp h
    exact ⟨Nat.le_refl _, .inr ⟨.removed List.eraseP_sublist, rfl⟩, fun _ hs => .inl hs,
      fun _ hs => .inl (mem_flatten_modify_tail hs)⟩

/-! ### Registrations -/

/-- Every registration has its own number, below the next one. -/
structure Numbered (w : World) : Prop where
  nodup : (w.jobs.map RegisteredJob.serial).Nodup
  jobs : ∀ s ∈ w.jobs.map RegisteredJob.serial, s < w.registrations
  held : ∀ s ∈ w.held, s < w.registrations

theorem Numbered.init : Numbered {} where
  nodup := List.nodup_nil
  jobs := by simp
  held := by simp [World.held]

/-- **Registrations keep their numbers.** -/
theorem Numbered.step (hn : w.Numbered) (h : w.step e = some w') : w'.Numbered := by
  have hstep := step_of h
  have hheld : ∀ s ∈ w'.held, s < w.registrations := fun s hs =>
    (hstep.held s hs).elim (hn.held s) (hn.jobs s)
  rcases hstep.jobs with ⟨handle, -, hjobs, hr⟩ | ⟨hchange, hr⟩
  · have hmap : w'.jobs.map RegisteredJob.serial =
        w.jobs.map RegisteredJob.serial ++ [w.registrations] := by
      rw [hjobs, registerJob, List.map_append, List.map_singleton]
    refine ⟨?_, fun s hs => ?_, fun s hs => ?_⟩
    · rw [hmap]
      refine List.nodup_append.mpr ⟨hn.nodup, List.nodup_singleton _, ?_⟩
      intro s hs t ht he
      have hlt := hn.jobs s hs
      rw [mem_singleton] at ht
      omega
    · rw [hmap, mem_append, mem_singleton] at hs
      rcases hs with hs | rfl
      · have hlt := hn.jobs s hs
        omega
      · omega
    · have hlt := hheld s hs
      omega
  · have hs := hchange.serials
    exact ⟨hs.nodup hn.nodup, fun s hm => hr ▸ hn.jobs s (hs.subset hm),
      fun s hm => hr ▸ hheld s hm⟩

theorem numbered_of_reachable (h : transcodeRegistry.Reachable w) : w.Numbered :=
  h.invariant Numbered.init fun _ _ _ hn _ hs => hn.step hs

end World

end Ferrofin.Transcode
