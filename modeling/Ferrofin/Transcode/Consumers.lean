import Mathlib.Data.List.Perm.Basic
import Ferrofin.Lib.Counted
import Ferrofin.Transcode.Registry

/-!
# The consumer counts of the transcode registry

`active_request_count` is meant to be the number of live guards and observers of
the job.  A guard gives its mark back to the first job registered under its type
and path by then, an observer to the job that runs its process by then.  When
that is another job than the one the mark was taken on, the count of one of the
two goes wrong.
-/

namespace Ferrofin.Transcode

open Lib
open RegisteredJob

namespace World

variable {w w' : World} {e : Event}

/-- The live guards and observers that were taken on a registration. -/
def marks (w : World) (serial : Nat) : Nat :=
  w.guards.countP (fun g => g.job == serial) + w.observers.countP (fun o => o.job == serial)

/-- Each count is the number of guards and observers of that very job. -/
def Accurate (w : World) : Prop :=
  ∀ j ∈ w.jobs, j.activeRequestCount = w.marks j.serial

def tally (j : RegisteredJob) : Nat × Int := (j.serial, j.activeRequestCount)

theorem accurate_iff :
    w.Accurate ↔ Counted RegisteredJob.serial RegisteredJob.activeRequestCount w.jobs w.marks :=
  Iff.rfl

/-- What a drop looks for, and the registration whose mark it gives back. -/
def released (w : World) : Event → Option ((RegisteredJob → Bool) × Nat)
  | .dropGuard i => w.guards[i]?.map fun g => (isOf g.handle, g.job)
  | .dropObserver i => w.observers[i]?.map fun o => (runs o.progress, o.job)
  | _ => none

/-- The condition on a drop: the job it finds is the one its mark was taken on;
or that one is gone, and the one it finds, if any, has no active request. -/
def ReleasesOwn (w : World) (e : Event) : Prop :=
  ∀ r ∈ w.released e,
    (∃ j ∈ w.jobs.find? r.1, j.serial = r.2) ∨
      (r.2 ∉ w.jobs.map RegisteredJob.serial ∧
        ∀ j ∈ w.jobs.find? r.1, j.activeRequestCount = 0)

instance (w : World) (e : Event) : Decidable (w.ReleasesOwn e) :=
  inferInstanceAs (Decidable (∀ r ∈ w.released e, _))

/-! ### The marks a step takes and gives back -/

section Marks

variable {serial : Nat}

theorem Numbered.marks_eq_zero (hn : w.Numbered) : w.marks w.registrations = 0 := by
  have hlt : ∀ s ∈ w.held, s ≠ w.registrations := fun s hs => Nat.ne_of_lt (hn.held s hs)
  rw [marks, Nat.add_eq_zero_iff, List.countP_eq_zero, List.countP_eq_zero]
  constructor
  · intro g hg
    simpa using hlt g.job (List.mem_append_left _ (List.mem_map_of_mem hg))
  · intro o ho
    simpa using hlt o.job (List.mem_append_right _ (List.mem_map_of_mem ho))

theorem marks_guard_append {jobs : List RegisteredJob} {g : TranscodeRequestGuard} :
    marks { w with jobs := jobs, guards := w.guards ++ [g] } serial =
      w.marks serial + if g.job = serial then 1 else 0 := by
  simp only [marks, List.countP_append, List.countP_singleton, beq_iff_eq]
  omega

theorem marks_observer_append {jobs : List RegisteredJob} {o : DownloadObserver} :
    marks { w with jobs := jobs, observers := w.observers ++ [o] } serial =
      w.marks serial + if o.job = serial then 1 else 0 := by
  simp only [marks, List.countP_append, List.countP_singleton, beq_iff_eq]
  omega

theorem countP_eraseIdx {α : Type*} {p : α → Bool} {l : List α} {i : Nat} {a : α}
    (h : l[i]? = some a) : l.countP p = (l.eraseIdx i).countP p + if p a then 1 else 0 := by
  obtain ⟨hi, rfl⟩ := List.getElem?_eq_some_iff.mp h
  have hp := List.Perm.countP_eq p (List.getElem_cons_eraseIdx_perm hi)
  rw [List.countP_cons] at hp
  exact hp.symm

theorem marks_guard_erase {jobs : List RegisteredJob} {i : Nat} {g : TranscodeRequestGuard}
    (h : w.guards[i]? = some g) :
    w.marks serial = marks { w with jobs := jobs, guards := w.guards.eraseIdx i } serial +
      if g.job = serial then 1 else 0 := by
  simp only [marks, countP_eraseIdx h, beq_iff_eq]
  omega

theorem marks_observer_erase {jobs : List RegisteredJob} {i : Nat} {o : DownloadObserver}
    (h : w.observers[i]? = some o) :
    w.marks serial = marks { w with jobs := jobs, observers := w.observers.eraseIdx i } serial +
      if o.job = serial then 1 else 0 := by
  simp only [marks, countP_eraseIdx h, beq_iff_eq]
  omega

end Marks

/-! ### One step -/

theorem Accurate.began {p : RegisteredJob → Bool} {j : RegisteredJob} (h : w.Accurate)
    (hn : w.Numbered) (hj : w.jobs.find? p = some j)
    (hjobs : w'.jobs = modifyFirst p (begin w.now) w.jobs)
    (hmarks : ∀ s, w'.marks s = w.marks s + if j.serial = s then 1 else 0) : w'.Accurate := by
  rw [accurate_iff, hjobs]
  refine Counted.begin h hn.nodup hj rfl rfl ?_ fun s hs => ?_
  · rw [hmarks, if_pos rfl]
  · rw [hmarks, if_neg (Ne.symm hs), Nat.add_zero]

theorem Accurate.released_iff {p : RegisteredJob → Bool} {serial : Nat} (h : w.Accurate)
    (hn : w.Numbered) (hjobs : w'.jobs = modifyFirst p (release w.now) w.jobs)
    (hmarks : ∀ s, w.marks s = w'.marks s + if serial = s then 1 else 0) :
    w'.Accurate ↔ (∃ j ∈ w.jobs.find? p, j.serial = serial) ∨
      (serial ∉ w.jobs.map RegisteredJob.serial ∧
        ∀ j ∈ w.jobs.find? p, j.activeRequestCount = 0) := by
  rw [accurate_iff, hjobs]
  refine counted_release_iff h hn.nodup (fun _ => rfl) (fun _ => rfl) ?_ fun s hs => ?_
  · rw [hmarks, if_pos rfl]
  · rw [hmarks, if_neg (Ne.symm hs), Nat.add_zero]

theorem Accurate.of_tally (h : w.Accurate) (hmarks : w'.marks = w.marks)
    (hjobs : w'.jobs.map tally = w.jobs.map tally) : w'.Accurate := by
  rw [accurate_iff, hmarks]
  exact Counted.congr h hjobs

theorem Accurate.of_vitals (h : w.Accurate) (hmarks : w'.marks = w.marks)
    (hjobs : w'.jobs.map RegisteredJob.vitals = w.jobs.map RegisteredJob.vitals) :
    w'.Accurate := by
  refine h.of_tally hmarks ?_
  have hp := congrArg (List.map fun v => (v.serial, v.activeRequestCount)) hjobs
  rwa [List.map_map, List.map_map] at hp

theorem Accurate.of_sublist (h : w.Accurate) (hmarks : w'.marks = w.marks)
    (hjobs : w'.jobs.Sublist w.jobs) : w'.Accurate := by
  rw [accurate_iff, hmarks]
  exact Counted.sublist h hjobs

theorem tally_pingTranscodingJob {now : Nat} {jobs : List RegisteredJob} (playSessionId : String)
    (isUserPaused : Option Bool) :
    ((pingTranscodingJob now playSessionId isUserPaused jobs).getD jobs).map tally =
      jobs.map tally := by
  rw [pingTranscodingJob]
  split
  · rfl
  · rw [Option.getD_some, List.map_map]
    refine List.map_congr_left fun j _ => ?_
    rw [Function.comp_apply]
    split <;> rfl

/-- **When a step keeps the counts true**: exactly when it meets the condition. -/
theorem accurate_step_iff (hn : w.Numbered) (h : w.Accurate) (hs : w.step e = some w') :
    w'.Accurate ↔ w.ReleasesOwn e := by
  have hnone : w.released e = none → w'.Accurate → (w'.Accurate ↔ w.ReleasesOwn e) := by
    intro hr ha
    refine iff_of_true ha ?_
    rw [ReleasesOwn, hr]
    intro r hr'
    cases hr'
  cases e with
  | elapse | reapSelect => cases hs; exact hnone rfl (h.of_vitals rfl rfl)
  | registerJob handle =>
    cases hs
    exact hnone rfl (Counted.append h rfl hn.marks_eq_zero)
  | setJobDisplay handle display =>
    cases hs
    exact hnone rfl (h.of_vitals rfl (vitals_setJobDisplay handle display))
  | attachRunning handle playlistPath =>
    cases hs
    exact hnone rfl (h.of_vitals rfl (vitals_attachRunning handle _))
  | trackSegmentDownload playlist file endingTicks =>
    cases hs
    exact hnone rfl (h.of_vitals rfl (vitals_trackSegmentDownload playlist file endingTicks))
  | beginRequestGuard path jobType =>
    cases hs
    refine hnone rfl ?_
    rcases w.withGuard_cases path jobType with he | ⟨j, hj, he⟩ <;> rw [he]
    · exact h
    · exact h.began hn hj rfl fun _ => marks_guard_append
  | streamProgress file | segmentProgress file =>
    cases hs
    refine hnone rfl ?_
    simp only [streamProgress, segmentProgress]
    rcases w.withObserver_cases _ with he | ⟨j, running, hj, he⟩ <;> rw [he]
    · exact h
    · exact h.began hn hj rfl fun _ => marks_observer_append
  | dropGuard i =>
    obtain ⟨g, hg, rfl⟩ := Option.map_eq_some_iff.mp hs
    refine (h.released_iff hn rfl fun _ => marks_guard_erase hg).trans ?_
    simp only [ReleasesOwn, released, hg, Option.map_some, Option.mem_some_iff, forall_eq']
  | dropObserver i =>
    obtain ⟨o, ho, rfl⟩ := Option.map_eq_some_iff.mp hs
    refine (h.released_iff hn rfl fun _ => marks_observer_erase ho).trans ?_
    simp only [ReleasesOwn, released, ho, Option.map_some, Option.mem_some_iff, forall_eq']
  | pingTranscodingJob playSessionId isUserPaused =>
    cases hs
    exact hnone rfl (h.of_tally rfl (tally_pingTranscodingJob playSessionId isUserPaused))
  | killAndRemove handle => cases hs; exact hnone rfl (h.of_sublist rfl List.eraseP_sublist)
  | removeJobByPath path jobType =>
    cases hs
    exact hnone rfl (h.of_sublist rfl List.filter_sublist)
  | reapKill i =>
    obtain ⟨s, -, rfl⟩ := Option.map_eq_some_iff.mp hs
    exact hnone rfl (h.of_sublist rfl List.eraseP_sublist)

theorem Accurate.init : Accurate {} := counted_nil

theorem accurate_of_reaches (h : transcodeRegistry.Reaches ReleasesOwn w) : w.Accurate := by
  have hboth : w.Numbered ∧ w.Accurate := by
    refine h.invariant (I := fun w => w.Numbered ∧ w.Accurate)
      ⟨Numbered.init, Accurate.init⟩ fun _ _ _ hI hok hs => ?_
    exact ⟨hI.1.step hs, (accurate_step_iff hI.1 hI.2 hs).mpr hok⟩
  exact hboth.2

end World

/-- **The consumer counts.**  In every state of a run whose drops release their own
mark, each job's count is the number of guards and observers taken on that very
job; and a drop that does not breaks this at once. -/
theorem consumer_counts (w : World) :
    (transcodeRegistry.Reaches World.ReleasesOwn w →
      ∀ j ∈ w.jobs, j.activeRequestCount = w.marks j.serial) ∧
    ∀ e w', transcodeRegistry.Reachable w → w.Accurate → w.step e = some w' →
      ¬ w.ReleasesOwn e → ∃ j ∈ w'.jobs, j.activeRequestCount ≠ w'.marks j.serial := by
  refine ⟨World.accurate_of_reaches, fun e w' h ha hs hno => ?_⟩
  have hbad : ¬ w'.Accurate := fun ha' =>
    hno ((World.accurate_step_iff (World.numbered_of_reachable h) ha hs).mp ha')
  simpa [World.Accurate] using hbad

private def hlsJob : TranscodingJobHandle := { path := "/t/a.m3u8", jobType := .hls }

/-- A guard on a job that runs, killed and registered again: the observer of the
first process is dropped while a guard is held on the second job. -/
theorem consumer_counts_replaced :
    ∃ w, transcodeRegistry.Reaches World.ReleasesOwn w ∧ w.jobs.length = 1 ∧ w.guards.length = 1 ∧
      ∀ j ∈ w.jobs, j.activeRequestCount = w.marks j.serial := by
  obtain ⟨w, hw⟩ : ∃ w, transcodeRegistry.runWhile World.ReleasesOwn transcodeRegistry.init
      [.registerJob hlsJob, .attachRunning hlsJob "/t/a.m3u8", .segmentProgress "/t/a.m3u8",
        .killAndRemove hlsJob, .registerJob hlsJob, .beginRequestGuard "/T/A.m3u8" .hls,
        .dropObserver 0] = some w :=
      Option.isSome_iff_exists.mp (by decide +kernel)
  have hr : transcodeRegistry.Reaches World.ReleasesOwn w := Machine.path_of_runWhile _ hw
  obtain rfl := Option.some.inj hw
  exact ⟨_, hr, rfl, rfl, (consumer_counts _).1 hr⟩

/-- A guard outlives its job, and its drop takes the mark of the guard on the job
registered after it. -/
theorem consumer_counts_fail :
    ∃ w, transcodeRegistry.Reachable w ∧
      ¬ ∀ j ∈ w.jobs, j.activeRequestCount = w.marks j.serial := by
  refine ⟨_, Machine.reachable_of_run [.registerJob hlsJob, .beginRequestGuard "/t/a.m3u8" .hls,
    .killAndRemove hlsJob, .registerJob hlsJob, .beginRequestGuard "/t/a.m3u8" .hls,
    .dropGuard 0] rfl, ?_⟩
  intro h
  exact absurd (h _ List.mem_cons_self) (by decide)

end Ferrofin.Transcode
