import Ferrofin.Transcode.Consumers

/-!
# The idle reaper

`reap_idle_jobs` reads which jobs are idle under the lock, and kills them later,
one after another, each found again by type and path.  What it kills is the job
it selected, and still idle, when no other job stands first under the key by then
and nothing has stamped the activity of the selected one in between.
-/

namespace Ferrofin.Transcode

open Lib
open RegisteredJob

/-! ### Being idle -/

namespace RegisteredJob

variable {j j' : RegisteredJob} {now now' : Nat}

theorem isIdle_iff :
    j.isIdle now = true ↔ j.activeRequestCount ≤ 0 ∧ j.pingTimeoutMs < j.elapsedMillis now := by
  rw [isIdle, Bool.and_eq_true, decide_eq_true_iff, decide_eq_true_iff, gt_iff_lt]

theorem elapsedMillis_mono (h : now ≤ now') : j.elapsedMillis now ≤ j.elapsedMillis now' := by
  have hd : (now - j.lastActivity) / 1000000 ≤ (now' - j.lastActivity) / 1000000 :=
    Nat.div_le_div_right (by omega)
  unfold elapsedMillis
  omega

theorem isIdle_mono (h : now ≤ now') (hi : j.isIdle now = true) : j.isIdle now' = true := by
  rw [isIdle_iff] at hi ⊢
  have he := elapsedMillis_mono (j := j) h
  omega

theorem isIdle_congr (h : j'.vitals = j.vitals) (hi : j.isIdle now = true) :
    j'.isIdle now = true := by
  have hc : j'.activeRequestCount = j.activeRequestCount := congrArg Vitals.activeRequestCount h
  have ht : j'.pingTimeoutMs = j.pingTimeoutMs := congrArg Vitals.pingTimeoutMs h
  have hl : j'.lastActivity = j.lastActivity := congrArg Vitals.lastActivity h
  rw [isIdle_iff, elapsedMillis] at hi ⊢
  rwa [hc, ht, hl]

theorem lastActivity_lt (ht : 0 < j.pingTimeoutMs) (hi : j.isIdle now = true) :
    j.lastActivity < now := by
  rw [isIdle_iff, elapsedMillis] at hi
  have hpos : 0 < (now - j.lastActivity) / 1000000 := by omega
  have hle : (now - j.lastActivity) / 1000000 ≤ now - j.lastActivity := Nat.div_le_self _ _
  omega

end RegisteredJob

/-! ### What a sweep knows of a selected job -/

/-- The selected job was last active before now; and a job under its key that
carries the stamp the sweep read is the selected one, and idle. -/
structure Remembers (now : Nat) (jobs : List RegisteredJob) (s : Selected) : Prop where
  past : s.lastActivity < now
  idle : ∀ j ∈ jobs, j.isOf s.handle = true → j.lastActivity = s.lastActivity →
    j.serial = s.job ∧ j.isIdle now = true

section Remembers

variable {now now' : Nat} {jobs jobs' : List RegisteredJob} {s : Selected}

theorem Remembers.later (h : Remembers now jobs s) (hle : now ≤ now') :
    Remembers now' jobs s where
  past := Nat.lt_of_lt_of_le h.past hle
  idle j hj hk hl := (h.idle j hj hk hl).imp_right (isIdle_mono hle)

/-- Whatever stamps a job stamps it with a later time than the one the sweep read. -/
theorem Remembers.change (h : Remembers now jobs s) (hc : JobsChange now jobs jobs') :
    Remembers now jobs' s where
  past := h.past
  idle j' hj' hk hl := by
    rcases hc.job hj' with ⟨j, hj, hv⟩ | ⟨hnow, -⟩
    · have hserial : j'.serial = j.serial := congrArg Vitals.serial hv
      have hhandle : j'.handle = j.handle := congrArg Vitals.handle hv
      have hstamp : j'.lastActivity = j.lastActivity := congrArg Vitals.lastActivity hv
      have hk' : j.isOf s.handle = true := by rwa [isOf, isFor, ← hhandle]
      obtain ⟨hs, hi⟩ := h.idle j hj hk' (hstamp ▸ hl)
      exact ⟨hserial ▸ hs, isIdle_congr hv hi⟩
    · have hpast := h.past
      omega

theorem Remembers.register (h : Remembers now jobs s) (serial : Nat)
    (handle : TranscodingJobHandle) : Remembers now (registerJob now serial handle jobs) s where
  past := h.past
  idle j hj hk hl := by
    rcases List.mem_append.mp hj with hj | hj
    · exact h.idle j hj hk hl
    · obtain rfl := List.mem_singleton.mp hj
      exact absurd hl (Nat.ne_of_gt h.past)

theorem remembers_selected {j : RegisteredJob} (ht : 0 < j.pingTimeoutMs)
    (hidle : j.isIdle now = true)
    (honly : ∀ j' ∈ jobs, j'.isOf j.handle = true → j'.serial = j.serial ∧ j'.vitals = j.vitals) :
    Remembers now jobs j.selected where
  past := lastActivity_lt ht hidle
  idle j' hj' hk _ := ⟨(honly j' hj' hk).1, isIdle_congr (honly j' hj' hk).2 hidle⟩

end Remembers

namespace World

variable {w w' : World} {e : Event}

def selecting (w : World) : Event → List RegisteredJob
  | .reapSelect => idleJobs w.now w.jobs
  | _ => []

def reaping (w : World) : Event → Option Selected
  | .reapKill i => w.nextReap i
  | _ => none

/-- The condition on a step: a drop releases its own mark; a job is selected only
when no other is registered under its type and path; and the job a sweep kills, if
any, carries the activity stamp the sweep read. -/
def Undisturbed (w : World) (e : Event) : Prop :=
  w.ReleasesOwn e ∧
    (∀ j ∈ w.selecting e, ∀ j' ∈ w.jobs, j'.isOf j.handle = true → j'.serial = j.serial) ∧
    ∀ s ∈ w.reaping e, ∀ j ∈ w.jobs.find? (isOf s.handle), j.lastActivity = s.lastActivity

instance (w : World) (e : Event) : Decidable (w.Undisturbed e) :=
  inferInstanceAs (Decidable (_ ∧ _ ∧ _))

/-- The sweeps remember what they selected; the timeouts are positive. -/
structure Swept (w : World) : Prop where
  timeouts : ∀ j ∈ w.jobs, 0 < j.pingTimeoutMs
  sweeps : ∀ s ∈ w.sweeps.flatten, Remembers w.now w.jobs s

theorem Swept.init : Swept {} where
  timeouts := by simp
  sweeps := by simp

/-- The timeouts a step leaves are the old ones, or those of the job type. -/
theorem StepOf.timeouts (h : StepOf w e w') (ht : ∀ j ∈ w.jobs, 0 < j.pingTimeoutMs) :
    ∀ j ∈ w'.jobs, 0 < j.pingTimeoutMs := by
  intro j' hj'
  rcases h.jobs with ⟨handle, -, hjobs, -⟩ | ⟨hc, -⟩
  · rw [hjobs, registerJob, List.mem_append, List.mem_singleton] at hj'
    rcases hj' with hj' | rfl
    · exact ht j' hj'
    · exact pingTimeoutFor_pos handle.jobType
  · rcases hc.job hj' with ⟨j, hj, hv⟩ | ⟨-, hp | ⟨j, hj, hp⟩⟩
    · have hp : j'.pingTimeoutMs = j.pingTimeoutMs := congrArg Vitals.pingTimeoutMs hv
      exact hp ▸ ht j hj
    · exact hp ▸ pingTimeoutFor_pos _
    · exact hp ▸ ht j hj

/-- **What the sweeps remember stays true.** -/
theorem Swept.step (hw : w.Swept) (hn : w.Numbered) (hok : w.Undisturbed e)
    (h : w.step e = some w') : w'.Swept := by
  have hstep := step_of h
  refine ⟨hstep.timeouts hw.timeouts, fun s hs => Remembers.later ?_ hstep.now⟩
  rcases hstep.sweeps s hs with hs | ⟨rfl, hjobs, j, hj, rfl⟩
  · have hr := hw.sweeps s hs
    rcases hstep.jobs with ⟨handle, -, hjobs, -⟩ | ⟨hc, -⟩
    · exact hjobs ▸ hr.register _ handle
    · exact hr.change hc
  · obtain ⟨hmem, hidle⟩ := List.mem_filter.mp hj
    rw [hjobs]
    refine remembers_selected (hw.timeouts j hmem) hidle fun j' hj' hk => ?_
    have hs := hok.2.1 j hj j' hj' hk
    exact ⟨hs, congrArg vitals (List.inj_on_of_nodup_map hn.nodup hj' hmem hs)⟩

theorem swept_of_reaches (h : transcodeRegistry.Reaches Undisturbed w) : w.Swept := by
  have hboth := h.invariant (I := fun w => w.Numbered ∧ w.Swept) ⟨Numbered.init, Swept.init⟩
    fun _ _ _ hI hok hs => ⟨hI.1.step hs, hI.2.step hI.1 hok hs⟩
  exact hboth.2

theorem mem_flatten_of_nextReap {i : Nat} {s : Selected} (h : w.nextReap i = some s) :
    s ∈ w.sweeps.flatten := by
  obtain ⟨sweep, hsweep, hs⟩ := Option.bind_eq_some_iff.mp h
  exact List.mem_flatten.mpr ⟨sweep, List.mem_of_getElem? hsweep, List.mem_of_mem_head? hs⟩

end World

/-- **The reaper spares what is consumed.**  In a run whose steps are undisturbed,
a job the reaper removes is the one it selected, no guard or observer holds a mark
on it, and it was not active within its ping timeout. -/
theorem reaper_spares_consumed {w : World} {i : Nat} {s : Selected} {j : RegisteredJob}
    (h : transcodeRegistry.Reaches World.Undisturbed w) (hk : w.Undisturbed (.reapKill i))
    (hs : w.nextReap i = some s) (hj : (killAndRemove s.handle w.jobs).1 = some j) :
    j.serial = s.job ∧ w.marks j.serial = 0 ∧ j.activeRequestCount = 0 ∧
      j.elapsedMillis w.now > j.pingTimeoutMs := by
  have hmem : j ∈ w.jobs := List.mem_of_find?_eq_some hj
  have hkey : j.isOf s.handle = true := List.find?_some hj
  have hremembers := (World.swept_of_reaches h).sweeps s (World.mem_flatten_of_nextReap hs)
  obtain ⟨hserial, hidle⟩ := hremembers.idle j hmem hkey (hk.2.2 s hs j hj)
  obtain ⟨hcount, helapsed⟩ := isIdle_iff.mp hidle
  -- the count the sweep read is the number of the job's guards and observers
  have hmarks := World.accurate_of_reaches (h.mono fun _ _ hok => hok.1) j hmem
  refine ⟨hserial, ?_, ?_, helapsed⟩ <;> omega

private def idleJob : TranscodingJobHandle := { path := "/t/a.m3u8", jobType := .hls }

/-- A guard is held and dropped, a minute passes, and the sweep kills the job. -/
theorem reaper_spares_consumed_idle :
    ∃ (w : World) (s : Selected) (j : RegisteredJob), w.nextReap 0 = some s ∧
      (killAndRemove s.handle w.jobs).1 = some j ∧ j.serial = s.job ∧ w.marks j.serial = 0 ∧
      j.activeRequestCount = 0 ∧ j.elapsedMillis w.now > j.pingTimeoutMs := by
  obtain ⟨w, hw⟩ : ∃ w, transcodeRegistry.runWhile World.Undisturbed transcodeRegistry.init
      [.registerJob idleJob, .beginRequestGuard "/t/a.m3u8" .hls, .dropGuard 0,
        .elapse 61000000000, .reapSelect] = some w :=
      Option.isSome_iff_exists.mp (by decide +kernel)
  have hr : transcodeRegistry.Reaches World.Undisturbed w := Machine.path_of_runWhile _ hw
  obtain rfl := Option.some.inj hw
  refine ⟨_, _, _, rfl, rfl, reaper_spares_consumed (i := 0) hr ?_ rfl rfl⟩
  decide

/-- Between the selection and the kill the job is replaced and a request begins on
the new one; the sweep kills that. -/
theorem reaper_kills_consumed :
    ∃ (w : World) (s : Selected) (j : RegisteredJob), transcodeRegistry.Reachable w ∧
      w.nextReap 0 = some s ∧ (killAndRemove s.handle w.jobs).1 = some j ∧
      ¬ (j.serial = s.job ∧ w.marks j.serial = 0 ∧ j.activeRequestCount = 0 ∧
        j.elapsedMillis w.now > j.pingTimeoutMs) := by
  refine ⟨_, _, _, Machine.reachable_of_run [.registerJob idleJob, .elapse 61000000000,
    .reapSelect, .killAndRemove idleJob, .registerJob idleJob,
    .beginRequestGuard "/t/a.m3u8" .hls] rfl, rfl, rfl, ?_⟩
  intro h
  exact absurd h.1 (by decide)

end Ferrofin.Transcode
