import Ferrofin.Hls.StreamManager

/-!
# One writer for each playlist

The lock of a playlist is held from the look for a running job until the new one is
started, and whoever starts one has found none or evicted the one found.  Only
`live_playlist` does not look.  As long as it starts `ffmpeg` with no job registered
(`World.Cleared`), a playlist has one registered job at most.
-/

namespace Ferrofin.Hls

open Lib Transcode Util
open RegisteredJob (isFor isOf)

/-! ### The jobs of a key -/

section Keys

variable {jobs jobs' : List RegisteredJob} {jobType : TranscodingJobType} {path path' : String}

theorem countP_isFor_le (jobType : TranscodingJobType) (path : String)
    (h : (jobs'.map RegisteredJob.handle).Sublist (jobs.map RegisteredJob.handle)) :
    jobs'.countP (isFor jobType path) ≤ jobs.countP (isFor jobType path) := by
  have hmap : ∀ l : List RegisteredJob, l.countP (isFor jobType path) =
      (l.map RegisteredJob.handle).countP fun handle =>
        handle.jobType == jobType && eqIgnoreAsciiCase handle.path path := by
    intro l
    rw [List.countP_map]
    rfl
  rw [hmap, hmap]
  exact h.countP_le

theorem isFor_congr (h : eqIgnoreAsciiCase path path' = true) :
    isFor jobType path = isFor jobType path' := by
  rw [eqIgnoreAsciiCase_iff] at h
  funext j
  rw [isFor, isFor, eqIgnoreAsciiCase, eqIgnoreAsciiCase, h]

theorem countP_killAndRemove {handle : TranscodingJobHandle}
    (h : jobs.countP (isOf handle) ≤ 1) :
    (killAndRemove handle jobs).2.countP (isOf handle) = 0 := by
  induction jobs with
  | nil => rfl
  | cons j rest ih =>
    rw [killAndRemove] at ih ⊢
    rw [List.countP_cons] at h
    cases hj : isOf handle j with
    | true =>
      rw [hj] at h
      rw [List.eraseP_cons_of_pos hj]
      have hrest : rest.countP (isOf handle) + 1 ≤ 1 := h
      show rest.countP (isOf handle) = 0
      omega
    | false =>
      rw [hj] at h
      rw [List.eraseP_cons_of_neg (by simp [hj]), List.countP_cons_of_neg (by simp [hj])]
      exact ih (by simpa using h)

end Keys

namespace World

/-! ### The condition -/

def Cleared (root : String) (w : World) : Event → Prop
  | .advance i false => ∀ t ∈ w.tasks.lookup i, t.target = .live → t.phase = .starting →
      w.registry.jobs.any (isFor .hls (t.plan.playlistPath root)) = false
  | _ => True

instance (root : String) (w : World) (e : Event) : Decidable (w.Cleared root e) :=
  match e with
  | .advance _ false => inferInstanceAs (Decidable (∀ _ ∈ _, _ → _ → _))
  | .advance _ true | .dynamicSegment _ _ _ _ | .livePlaylist _ _ | .disconnect _ | .registry _
  | .exit _ _ | .write _ _ | .delete _ _ => inferInstanceAs (Decidable True)

end World

def Phase.foundJob : Phase → Option TranscodingJobHandle
  | .waiting handle | .evicting handle => some handle
  | _ => none

namespace World

/-- A playlist has one job at most, its lock one holder, and a request that decided
to start found no job, unless it is `live_playlist`'s. -/
structure Sole (root : String) (w : World) : Prop where
  exclusive : Exclusive (Task.lock root) w.tasks
  count : ∀ jobType path, w.registry.jobs.countP (isFor jobType path) ≤ 1
  decided : ∀ i t, w.tasks.lookup i = some t → t.phase.isDecided = true → t.target ≠ .live →
    w.registry.jobs.countP (isFor .hls (t.plan.playlistPath root)) = 0
  found : ∀ i t, w.tasks.lookup i = some t → ∀ handle, t.phase.foundJob = some handle →
    isOf handle = isFor .hls (t.plan.playlistPath root)

variable {root : String} {w w' : World} {i : Nat} {t : Task}

theorem Sole.init : Sole root {} where
  exclusive := .empty
  count _ _ := Nat.zero_le _
  decided _ _ h := by cases h
  found _ _ h := by cases h

theorem lock_of_isLocked (h : t.phase.isLocked = true) :
    t.lock root = some (t.plan.playlistPath root) := by
  rw [Task.lock, if_pos h]

theorem isLocked_of_isDecided {phase : Phase} (h : phase.isDecided = true) :
    phase.isLocked = true := by
  cases phase <;> first | rfl | cases h

theorem isOf_of_jobByPath {path : String} {handle : TranscodingJobHandle}
    (h : w.jobByPath path = some handle) : isOf handle = isFor .hls path := by
  obtain ⟨j, hj, rfl⟩ := Option.map_eq_some_iff.mp h
  have hfor := List.find?_some hj
  rw [isFor, Bool.and_eq_true, beq_iff_eq] at hfor
  have hkey : isOf j.handle = isFor j.handle.jobType j.handle.path := rfl
  rw [hkey, hfor.1, isFor_congr hfor.2]

theorem Sole.congr (h : w.Sole root) (hr : w'.registry = w.registry) (ht : w'.tasks = w.tasks) :
    w'.Sole root := by
  refine ⟨ht ▸ h.exclusive, hr ▸ h.count, ?_, ht ▸ h.found⟩
  rw [hr, ht]
  exact h.decided

theorem Sole.frame (h : w.Sole root) {r : Transcode.World}
    (hr : (r.jobs.map RegisteredJob.handle).Sublist (w.registry.jobs.map RegisteredJob.handle)) :
    Sole root { w with registry := r } where
  exclusive := h.exclusive
  count jobType path := Nat.le_trans (countP_isFor_le jobType path hr) (h.count jobType path)
  decided i t ht hd hl :=
    Nat.le_zero.mp (h.decided i t ht hd hl ▸ countP_isFor_le .hls _ hr)
  found := h.found

theorem Sole.erase (h : w.Sole root) (i : Nat) :
    Sole root { w with tasks := w.tasks.erase i } := by
  have hold : ∀ j b, (w.tasks.erase i).lookup j = some b → w.tasks.lookup j = some b := by
    intro j b hb
    rw [KeyedMap.lookup_erase_eq] at hb
    split at hb
    · cases hb
    · exact hb
  exact ⟨h.exclusive.erase, h.count, fun j b hb => h.decided j b (hold j b hb),
    fun j b hb => h.found j b (hold j b hb)⟩

theorem Sole.insert (h : w.Sole root) (hlock : Exclusive (Task.lock root) (w.tasks.insert i t))
    (hdecided : t.phase.isDecided = true → t.target ≠ .live →
      w.registry.jobs.countP (isFor .hls (t.plan.playlistPath root)) = 0)
    (hfound : ∀ handle, t.phase.foundJob = some handle →
      isOf handle = isFor .hls (t.plan.playlistPath root)) :
    Sole root { w with tasks := w.tasks.insert i t } := by
  have hold : ∀ j b, (w.tasks.insert i t).lookup j = some b →
      b = t ∨ w.tasks.lookup j = some b := by
    intro j b hb
    rw [KeyedMap.lookup_insert_eq] at hb
    split at hb
    · exact .inl (Option.some.inj hb).symm
    · exact .inr hb
  refine ⟨hlock, h.count, fun j b hb => ?_, fun j b hb => ?_⟩
  · rcases hold j b hb with rfl | hb
    · exact hdecided
    · exact h.decided j b hb
  · rcases hold j b hb with rfl | hb
    · exact hfound
    · exact h.found j b hb

theorem Sole.enter (h : w.Sole root) (ht : w.tasks.lookup i = some t) (phase : Phase)
    (hlock : phase.isLocked = true → t.phase.isLocked = true ∨
      lockFree (Task.lock root) (t.plan.playlistPath root) w.tasks = true)
    (hdecided : phase.isDecided = true → t.target ≠ .live →
      w.registry.jobs.countP (isFor .hls (t.plan.playlistPath root)) = 0)
    (hfound : ∀ handle, phase.foundJob = some handle →
      isOf handle = isFor .hls (t.plan.playlistPath root)) :
    Sole root { w with tasks := w.tasks.insert i { t with phase := phase } } := by
  refine h.insert ?_ hdecided hfound
  cases hp : phase.isLocked with
  | false =>
    refine h.exclusive.update ht fun k hk => ?_
    rw [Task.lock, hp] at hk
    cases hk
  | true =>
    have hk : Task.lock root { t with phase := phase } = some (t.plan.playlistPath root) :=
      lock_of_isLocked hp
    rcases hlock hp with hlocked | hfree
    · refine h.exclusive.update ht fun k hk' => ?_
      rw [← hk', hk]
      exact lock_of_isLocked hlocked
    · exact h.exclusive.take hk hfree

theorem Sole.register (h : w.Sole root) (ht : w.tasks.lookup i = some t)
    (hphase : t.phase = .starting) (job : Nat)
    (hzero : w.registry.jobs.countP (isFor .hls (t.plan.playlistPath root)) = 0)
    {r : Transcode.World} (hr : w.registry.step (.registerJob (t.plan.handle root)) = some r) :
    Sole root { w with
      registry := r
      tasks := w.tasks.insert i { t with phase := .registered job } } := by
  cases hr
  have hcount : ∀ jobType path,
      (registerJob w.registry.now w.registry.registrations (t.plan.handle root)
        w.registry.jobs).countP (isFor jobType path) = w.registry.jobs.countP (isFor jobType path) +
          if TranscodingJobType.hls == jobType &&
            eqIgnoreAsciiCase (t.plan.playlistPath root) path then 1 else 0 := by
    intro jobType path
    rw [registerJob, List.countP_append, List.countP_singleton]
    rfl
  have hlocked : t.lock root = some (t.plan.playlistPath root) :=
    lock_of_isLocked (by rw [hphase]; rfl)
  have hold := h.enter ht (.registered job) (fun _ => .inl (by rw [hphase]; rfl))
    (fun hd => by cases hd) fun _ hf => by cases hf
  refine ⟨hold.exclusive, fun jobType path => ?_, fun j b hb hd hl => ?_, hold.found⟩
  · show (registerJob _ _ _ _).countP _ ≤ 1
    rw [hcount]
    split
    · next hkey =>
      rw [Bool.and_eq_true, beq_iff_eq] at hkey
      obtain ⟨rfl, hpath⟩ := hkey
      rw [isFor_congr hpath] at hzero
      rw [hzero]
    · exact h.count jobType path
  · have hb' := hold.decided j b hb hd hl
    show (registerJob _ _ _ _).countP _ = 0
    rw [hcount, show w.registry.jobs.countP _ = 0 from hb', Nat.zero_add, if_neg]
    -- Else both hold the lock of one playlist.
    intro hkey
    have hpath := playlistPath_eq_of_eqIgnoreAsciiCase (Bool.and_eq_true_iff.mp hkey).2
    have hb0 : b.phase.isDecided = true := hd
    rw [KeyedMap.lookup_insert_eq] at hb
    split at hb
    · cases hb
      cases hd
    · next hne =>
      refine hne (h.exclusive j i b t hb ht _ ?_ hlocked)
      rw [lock_of_isLocked (isLocked_of_isDecided hd)]
      exact congrArg some hpath.symm

theorem jobByPath_eq_none {path : String} (h : w.jobByPath path = none) :
    w.registry.jobs.countP (isFor .hls path) = 0 := by
  rw [jobByPath, Option.map_eq_none_iff, List.find?_eq_none] at h
  exact List.countP_eq_zero.mpr h

theorem handles_sublist {r r' : Transcode.World} {e : Transcode.Event}
    (he : ∀ handle, e ≠ .registerJob handle) (hr : r.step e = some r') :
    (r'.jobs.map RegisteredJob.handle).Sublist (r.jobs.map RegisteredJob.handle) := by
  rcases (Transcode.World.step_of hr).jobs with ⟨handle, hreg, -⟩ | ⟨hchange, -⟩
  · exact absurd hreg (he handle)
  · exact hchange.handles

/-- **A step of a request keeps the playlists to one job each.** -/
theorem Sole.advance (h : w.Sole root) (ht : w.tasks.lookup i = some t) {next : Option Phase}
    (ha : Advanced root w t w' next) (hlive : t.target = .live → t.phase = .starting →
      next ≠ none → w.registry.jobs.countP (isFor .hls (t.plan.playlistPath root)) = 0) :
    Sole root { w' with tasks := goOn w.tasks i t next } := by
  cases ha with
  | queued hphase =>
    exact h.enter ht .queued (fun hl => by cases hl) (fun hd => by cases hd)
      fun _ hf => by cases hf
  | locked hphase hfree =>
    exact h.enter ht .locked (fun _ => .inr hfree) (fun hd => by cases hd) fun _ hf => by cases hf
  | found hphase hjob | stale hphase hjob =>
    refine h.enter ht _ (fun _ => .inl (by rw [hphase]; rfl)) (fun hd => by cases hd) fun _ hf => ?_
    cases hf
    exact isOf_of_jobByPath hjob
  | decided hphase hjob =>
    exact h.enter ht .asking (fun _ => .inl (by rw [hphase]; rfl))
      (fun _ hl => jobByPath_eq_none (hjob.resolve_left hl)) fun _ hf => by cases hf
  | gaveUp hphase =>
    refine h.enter ht _ (fun _ => .inl (by rw [hphase]; rfl)) (fun hd => by cases hd) fun _ hf => ?_
    cases hf
    exact h.found i t ht _ (by rw [hphase]; rfl)
  | @evicted handle r hphase hr =>
    have hframe := h.frame (handles_sublist (by simp) hr)
    refine hframe.enter ht _ (fun _ => .inl (by rw [hphase]; rfl)) (fun _ _ => ?_)
      fun _ hf => by cases hf
    have hkey := h.found i t ht handle (by rw [hphase]; rfl)
    cases hr
    have hcount := h.count .hls (t.plan.playlistPath root)
    rw [← hkey] at hcount ⊢
    exact countP_killAndRemove hcount
  | asked hphase =>
    refine h.enter ht _ (fun _ => .inl (by rw [hphase]; rfl)) (fun _ hl => ?_)
      fun _ hf => by cases hf
    exact h.decided i t ht (by rw [hphase]; rfl) hl
  | registered hphase hr =>
    refine h.register ht hphase _ ?_ hr
    by_cases hl : t.target = .live
    · exact hlive hl hphase (by simp)
    · exact h.decided i t ht (by rw [hphase]; rfl) hl
  | launched hphase =>
    have hstep := h.enter ht (.launched w.processes.length) (fun _ => .inl (by rw [hphase]; rfl))
      (fun hd => by cases hd) fun _ hf => by cases hf
    exact hstep.congr rfl rfl
  | attached hphase hr =>
    have hframe := h.frame (handles_sublist (by simp) hr)
    have hstep := hframe.enter ht .spawned (fun _ => .inl (by rw [hphase]; rfl))
      (fun hd => by cases hd) fun _ hf => by cases hf
    exact hstep.congr rfl rfl
  | settling hphase | started hphase =>
    exact h.enter ht _ (fun _ => .inl (by rw [hphase]; rfl)) (fun hd => by cases hd)
      fun _ hf => by cases hf
  | returned => exact h.erase i
  | removed he hr => exact (h.frame (handles_sublist he hr)).erase i

theorem Sole.begin (h : w.Sole root) {plan : Plan} {target : Target}
    (hs : w.begin i plan target = some w') : w'.Sole root := by
  rw [World.begin] at hs
  split at hs
  · cases hs
  · cases hs
    refine h.insert (h.exclusive.insert fun k hk => ?_) (fun hd => by cases hd)
      fun _ hf => by cases hf
    rw [Task.lock] at hk
    cases hk

/-- **Every step keeps the playlists to one job each**, `live_playlist`'s as long as
it starts with none. -/
theorem Sole.step {e : Event} (h : w.Sole root) (hok : w.Cleared root e)
    (hs : w.step root e = some w') : w'.Sole root := by
  cases e with
  | dynamicSegment i plan segmentId resume => exact h.begin hs
  | livePlaylist i plan => exact h.begin hs
  | advance i fails =>
    obtain ⟨t, ht, hmap⟩ := Option.bind_eq_some_iff.mp hs
    obtain ⟨⟨w₁, next⟩, hadvance, rfl⟩ := Option.map_eq_some_iff.mp hmap
    refine h.advance ht (advance_cases hadvance) fun hl hphase hnext => ?_
    cases fails with
    | true =>
      simp only [World.advance, hphase, if_true, Option.some.injEq, Prod.mk.injEq] at hadvance
      exact absurd hadvance.2.symm hnext
    | false =>
      have hnone := hok t ht hl hphase
      rw [List.any_eq_false] at hnone
      exact List.countP_eq_zero.mpr hnone
  | disconnect i =>
    cases hs
    exact h.erase i
  | registry e =>
    rw [World.step] at hs
    split at hs
    · next hshared =>
      obtain ⟨r, hr, rfl⟩ := Option.map_eq_some_iff.mp hs
      refine h.frame (handles_sublist (fun handle he => ?_) hr)
      rw [he] at hshared
      cases hshared
    · cases hs
  | exit | write | delete =>
    cases hs
    exact h.congr rfl rfl

theorem sole_of_reaches (h : (hlsManager root).Reaches (Cleared root) w) : w.Sole root :=
  h.invariant .init fun _ _ _ hsole hok hs => hsole.step hok hs

def processOf (w : World) (j : RegisteredJob) : Option Process :=
  w.processes.find? fun p => p.job = j.serial

/-- The job's `ffmpeg` has not exited; it may not be spawned yet. -/
def isLive (w : World) (j : RegisteredJob) : Bool :=
  match w.processOf j with
  | none => true
  | some p => p.exit.isNone

end World

/-- **One live `ffmpeg` for each playlist.** -/
theorem single_writer {root : String} {w : World}
    (h : (hlsManager root).Reaches (World.Cleared root) w) (jobType : TranscodingJobType)
    (path : String) :
    w.registry.jobs.countP (fun j => isFor jobType path j && w.isLive j) ≤ 1 := by
  have hcount := (World.sole_of_reaches h).count jobType path
  refine Nat.le_trans (List.countP_mono_left fun j _ hj => ?_) hcount
  exact (Bool.and_eq_true_iff.mp hj).1

private def film : Plan := { outputId := 7, playSessionId := some "s1" }

private def firstStart : List Event :=
  Event.dynamicSegment 0 film 0 0 :: List.replicate 7 (.advance 0 false) ++
    Event.write 7 (.segment 0) :: List.replicate 3 (.advance 0 false)

/-- A seek evicts the running job and starts another one. -/
theorem single_writer_seek : ∃ w : World, w.registry.registrations = 2 ∧
    w.registry.jobs.countP
      (fun j => isFor .hls (film.playlistPath "/t") j && w.isLive j) ≤ 1 := by
  obtain ⟨w, hw⟩ : ∃ w, (hlsManager "/t").runWhile (World.Cleared "/t") (hlsManager "/t").init
      (firstStart ++ Event.dynamicSegment 1 film 40 0 :: List.replicate 8 (.advance 1 false)) =
        some w :=
      Option.isSome_iff_exists.mp (by decide +kernel)
  have hr : (hlsManager "/t").Reaches (World.Cleared "/t") w := Machine.path_of_runWhile _ hw
  have hsingle := single_writer hr .hls (film.playlistPath "/t")
  obtain rfl := Option.some.inj hw
  exact ⟨_, rfl, hsingle⟩

/-- While a segment's job runs, `live_playlist` finds no playlist on disk and starts
a second one: both are registered, each with an `ffmpeg` of its own that runs. -/
theorem two_writers : ∃ w : World, (hlsManager "/t").Reachable w ∧
    w.registry.jobs.countP (fun j => isFor .hls (film.playlistPath "/t") j &&
      ((w.processOf j).isSome && w.isLive j)) = 2 := by
  obtain ⟨w, hw⟩ : ∃ w, (hlsManager "/t").run (hlsManager "/t").init
      (firstStart ++ Event.livePlaylist 1 film :: List.replicate 6 (.advance 1 false)) = some w :=
      Option.isSome_iff_exists.mp (by decide +kernel)
  refine ⟨w, Machine.reachable_of_run _ hw, ?_⟩
  obtain rfl := Option.some.inj hw
  rfl

end Ferrofin.Hls
