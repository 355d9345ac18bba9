import Ferrofin.SyncPlay.GroupStep

/-!
# A paused group does not start by itself

`resume_playing` says whether a wait ends in `Playing`.  It outlives the wait, so
every entry into `Waiting` from `Paused` has to reset it.  All of them do but one:
a Buffer report that names another item than the one playing enters `Waiting`
with the flag as the last wait left it.
-/

namespace Ferrofin.SyncPlay

open Lib

namespace Group

variable {g : Group}

structure Calm (g : Group) : Prop where
  state : g.state = .paused ∨ g.state = .waiting
  settles : g.state = .waiting → g.resumePlaying = false

theorem calm_of_paused (h : g.state = .paused) : g.Calm where
  state := .inl h
  settles hw := by rw [h] at hw; cases hw

theorem calm_of_waiting (hs : g.state = .waiting) (hr : g.resumePlaying = false) : g.Calm where
  state := .inr hs
  settles _ := hr

theorem Calm.not_playing (h : g.Calm) : g.state ≠ .playing := by
  rcases h.state with hs | hs <;> rw [hs] <;> decide

theorem Calm.not_idle (h : g.Calm) : g.state ≠ .idle := by
  rcases h.state with hs | hs <;> rw [hs] <;> decide

theorem Calm.congr {g' : Group} (h : g.Calm) (hs : g'.state = g.state)
    (hr : g'.resumePlaying = g.resumePlaying) : g'.Calm where
  state := by rw [hs]; exact h.state
  settles := by rw [hs, hr]; exact h.settles

/-! ### The methods -/

theorem Calm.updateGroupWaitDeadline (h : g.Calm) (start : Bool) (now : Clock) :
    (g.updateGroupWaitDeadline start now).Calm := by
  unfold Group.updateGroupWaitDeadline
  split_ifs <;> exact h.congr rfl rfl

theorem Calm.setBuffering (h : g.Calm) (sessionId : String) (buffering : Bool) (now : Clock) :
    (g.setBuffering sessionId buffering now).Calm := by
  refine Calm.updateGroupWaitDeadline ?_ _ _
  exact h.congr rfl rfl

theorem Calm.setAllBuffering (h : g.Calm) (buffering : Bool) (now : Clock) :
    (g.setAllBuffering buffering now).Calm := by
  refine Calm.updateGroupWaitDeadline ?_ _ _
  exact h.congr rfl rfl

theorem Calm.removeMember (h : g.Calm) (sessionId : String) (now : Clock) :
    (g.removeMember sessionId now).Calm := by
  refine Calm.updateGroupWaitDeadline ?_ _ _
  exact h.congr rfl rfl

/-- The entries that reset the flag: `resume_playing_from`, then `Waiting`. -/
theorem Calm.resumePlayingFrom_eq (h : g.Calm) (g' : Group)
    (hr : g'.resumePlaying = g.resumePlaying) :
    (g'.resumePlayingFrom g.state).resumePlaying = false := by
  rcases h.state with hs | hs
  · rw [hs]; rfl
  · rw [hs]; exact hr.trans (h.settles hs)

theorem Calm.enterWaiting (h : g.Calm) (hstale : g.state = .paused → g.resumePlaying = false) :
    (g.enterWaiting g.state).Calm := by
  refine calm_of_waiting rfl ?_
  rcases h.state with hs | hs
  · exact hstale hs
  · exact h.settles hs

/-! ### The handlers -/

theorem Calm.handlePause (h : g.Calm) (now : Clock) : (g.handlePause g.state now).1.Calm := by
  rcases h.state with hs | hs
  · rw [hs]; exact h
  · rw [hs]; exact calm_of_waiting hs rfl

theorem Calm.handleSeek (h : g.Calm) (positionTicks : Int) (now : Clock) :
    (g.handleSeek g.state positionTicks now).1.Calm := by
  unfold Group.handleSeek
  rw [if_neg h.not_idle]
  refine Calm.setAllBuffering (calm_of_waiting ?_ ?_) true now
  · rcases h.state with hs | hs <;> rw [hs] <;> rfl
  · exact h.resumePlayingFrom_eq (g.enterWaiting g.state) rfl

/-- A Buffer report from a client that is not on the playing item, while the group
is paused and the flag of the last wait still says resume. -/
def ResumesStale (g : Group) : PlaybackRequest → Prop
  | .buffer report =>
    g.state = .paused ∧ report.playlistItemId ≠ g.queue.playingItemId ∧ g.resumePlaying = true
  | _ => False

instance (g : Group) (request : PlaybackRequest) : Decidable (g.ResumesStale request) := by
  unfold ResumesStale
  split <;> infer_instance

theorem Calm.handleBuffer (h : g.Calm) (sessionId : String) {report : ReadyReport}
    (hstale : ¬ g.ResumesStale (.buffer report)) (now : Clock) :
    (g.handleBuffer g.state sessionId report.playlistItemId now).1.Calm := by
  unfold Group.handleBuffer
  rw [if_neg h.not_idle, if_neg fun hp => h.not_playing hp.1]
  dsimp only
  split
  · next hid =>
    refine (h.enterWaiting fun hs => ?_).setBuffering _ _ _
    by_contra hr
    exact hstale ⟨hs, hid, by simpa using hr⟩
  · rcases h.state with hs | hs
    · rw [hs]
      refine Calm.setBuffering (calm_of_waiting ?_ ?_) _ _ _ <;> rfl
    · rw [hs]
      refine Calm.setBuffering (calm_of_waiting ?_ ?_) _ _ _
      · rfl
      · exact h.settles hs

theorem Calm.handleReadySettling (h : g.Calm) (sessionId : String) (requestTicks : Int)
    (now : Clock) : (g.handleReadySettling sessionId requestTicks now).1.Calm := by
  unfold Group.handleReadySettling
  dsimp only
  split_ifs
  · exact h.setBuffering _ _ _
  · exact h.setBuffering _ _ _
  · split <;> exact calm_of_paused rfl

theorem Calm.handleReady (h : g.Calm) (sessionId : String) (report : ReadyReport) (now : Clock) :
    (g.handleReady g.state sessionId report now).1.Calm := by
  rcases h.state with hs | hs
  · rw [hs]; exact h
  · rw [hs]
    unfold Group.handleReady
    dsimp only
    split
    · exact h.setBuffering _ _ _
    · rw [if_neg (by simp [h.settles hs])]
      exact h.handleReadySettling ..

/-- A calm group that waits on nobody settles into `Paused`. -/
theorem Calm.releaseWait (h : g.Calm) (hs : g.state = .waiting) (now : Clock) :
    (g.releaseWait now).1.Calm := by
  unfold Group.releaseWait
  split
  · exact h
  · rw [if_neg (by simp [h.settles hs])]
    exact calm_of_paused rfl

theorem Calm.handleIgnoreWait (h : g.Calm) (now : Clock) :
    (g.handleIgnoreWait g.state now).1.Calm := by
  unfold Group.handleIgnoreWait
  split
  · exact h
  · next hs => exact h.releaseWait (not_not.mp hs) now

/-! ### The steps -/

/-- The requests that do not ask a paused group to play, nor to stop. -/
def KeepsPause : PlaybackRequest → Prop
  | .pause | .seek _ | .buffer _ | .ready _ | .ignoreWait _ | .ping _ | .queue .. => True
  | .movePlaylistItem .. | .setRepeatMode _ | .setShuffleMode _ => True
  | .play .. | .setPlaylistItem _ | .nextItem _ | .previousItem _ | .unpause => False
  | .stop | .removeFromPlaylist .. => False

instance (request : PlaybackRequest) : Decidable (KeepsPause request) := by
  unfold KeepsPause
  split <;> infer_instance

theorem Calm.handle (h : g.Calm) (sessionId : String) {request : PlaybackRequest}
    (hkeeps : KeepsPause request) (hstale : ¬ g.ResumesStale request) (draws : Draws)
    (now : Clock) : (g.handle sessionId request draws now).1.Calm := by
  cases request with
  | pause => exact h.handlePause now
  | seek => exact h.handleSeek ..
  | buffer report => exact h.handleBuffer sessionId hstale now
  | ready report => exact h.handleReady ..
  | ignoreWait => exact h.handleIgnoreWait now
  | ping => exact h
  | queue =>
    show (g.handleQueue ..).1.Calm
    unfold handleQueue
    split
    · exact h
    · exact h.congr rfl rfl
  | movePlaylistItem =>
    show (g.handleMovePlaylistItem ..).1.Calm
    unfold handleMovePlaylistItem
    dsimp only
    split <;> exact h.congr rfl rfl
  | setRepeatMode => exact h.congr rfl rfl
  | setShuffleMode => exact h.congr rfl rfl
  | play => exact hkeeps.elim
  | setPlaylistItem => exact hkeeps.elim
  | nextItem => exact hkeeps.elim
  | previousItem => exact hkeeps.elim
  | unpause => exact hkeeps.elim
  | stop => exact hkeeps.elim
  | removeFromPlaylist => exact hkeeps.elim

theorem Calm.applyToMember (h : g.Calm) (sessionId : String) (request : PlaybackRequest)
    (now : Clock) : (g.applyToMember sessionId request now).Calm := by
  unfold Group.applyToMember
  split
  · exact h.congr rfl rfl
  · refine Calm.updateGroupWaitDeadline ?_ _ _
    exact h.congr rfl rfl
  · exact h

theorem Calm.applyRequest (h : g.Calm) (sessionId : String) {request : PlaybackRequest}
    (hkeeps : KeepsPause request) (hstale : ¬ g.ResumesStale request)
    (runtimes : List (Uuid × Int)) (draws : Draws) (now : Clock) :
    (g.applyRequest sessionId request runtimes draws now).1.Calm := by
  have hpre : ((g.applyToMember sessionId request now).extendItemRuntimes runtimes).Calm :=
    (h.applyToMember sessionId request now).congr rfl rfl
  refine hpre.handle sessionId hkeeps ?_ draws now
  cases request <;> exact hstale

theorem Calm.join (h : g.Calm) (session : SyncPlaySession) (now : Clock) :
    (g.join session now).1.Calm := by
  have hadd : (g.addMember session).Calm := by
    unfold addMember
    split <;> exact h.congr rfl rfl
  unfold Group.join sessionJoined
  dsimp only
  rw [if_neg hadd.not_idle, if_neg hadd.not_playing]
  refine Calm.setBuffering (calm_of_waiting rfl ?_) _ _ _
  exact hadd.resumePlayingFrom_eq _ rfl

theorem Calm.leave (h : g.Calm) (sessionId : String) (now : Clock) :
    (g.leave sessionId now).Calm := by
  refine Calm.removeMember ?_ sessionId now
  unfold sessionLeaving
  split
  · exact h
  · next hs =>
    have hset := h.setBuffering sessionId false now
    refine hset.releaseWait ?_ now
    unfold Group.setBuffering Group.updateGroupWaitDeadline
    split_ifs <;> exact not_not.mp hs

theorem Calm.handleGroupWaitTimeout (h : g.Calm) (now : Clock) :
    (g.handleGroupWaitTimeout now).1.Calm := by
  unfold Group.handleGroupWaitTimeout
  split
  · exact h
  · dsimp only
    split
    · exact h
    split
    · exact h.congr rfl rfl
    · next hs =>
      split
      · exact h.congr rfl rfl
      · rw [if_neg (by simp [h.settles (not_not.mp hs)])]
        exact calm_of_paused rfl

/-- **A step keeps a calm group calm**, if it is a request that keeps the pause and
is not taken for the stale flag. -/
theorem Calm.apply (h : g.Calm) {s : GroupStep}
    (hs : ∀ sessionId request runtimes draws now,
      s = .request sessionId request runtimes draws now →
        KeepsPause request ∧ ¬ g.ResumesStale request) : (g.apply s).Calm := by
  cases s with
  | request sessionId request runtimes draws now =>
    obtain ⟨hkeeps, hstale⟩ := hs _ _ _ _ _ rfl
    exact h.applyRequest sessionId hkeeps hstale runtimes draws now
  | join session now => exact h.join session now
  | leave sessionId now => exact h.leave sessionId now
  | sweep now => exact h.handleGroupWaitTimeout now

end Group

/-! ### Every run -/

namespace World

/-- The event does not ask the group to play or to stop, nor founds it anew. -/
def KeepsPause (gid : Uuid) (w : World) : Event → Prop
  | .newGroup _ _ _ gid' _ _ => gid' ≠ gid
  | .requestResume index .. => ∀ task ∈ w.requests[index]?,
      w.registry.sessionToGroup.lookup task.session.sessionId = some gid →
        Group.KeepsPause task.request
  | _ => True

instance (gid : Uuid) (w : World) (e : Event) : Decidable (w.KeepsPause gid e) := by
  unfold KeepsPause
  split <;> infer_instance

/-- The event makes the group take a Buffer report for its stale flag. -/
def ResumesStale (gid : Uuid) (w : World) : Event → Prop
  | .requestResume index .. => ∃ task ∈ w.requests[index]?,
      w.registry.sessionToGroup.lookup task.session.sessionId = some gid ∧
        ∃ g ∈ w.registry.groups.lookup gid, g.ResumesStale task.request
  | _ => False

instance (gid : Uuid) (w : World) (e : Event) : Decidable (w.ResumesStale gid e) := by
  unfold ResumesStale
  split <;> infer_instance

theorem calm_of_path {m : Manager} {userOf : String → Uuid} {w w' : World} {gid : Uuid}
    (hw : w.Consistent userOf) (hcalm : ∀ g, w.registry.groups.lookup gid = some g → g.Calm)
    (hpath : (syncPlay m userOf).Path
      (fun w e => w.KeepsPause gid e ∧ ¬ w.ResumesStale gid e) w w') :
    w'.Consistent userOf ∧ ∀ g, w'.registry.groups.lookup gid = some g → g.Calm := by
  refine hpath.invariant (I := fun w => w.Consistent userOf ∧
    ∀ g, w.registry.groups.lookup gid = some g → g.Calm) ⟨hw, hcalm⟩ ?_
  rintro w e w' ⟨hw, hcalm⟩ ⟨hkeeps, hstale⟩ hs
  refine ⟨consistent_step hw hs, fun g' hg' => ?_⟩
  cases group_step hw hs hg' with
  | same hg => exact hcalm g' hg
  | founded hevent _ =>
    subst hevent
    exact absurd rfl hkeeps
  | step hg hperf he =>
    rw [he]
    refine (hcalm _ hg).apply fun sessionId request runtimes draws now heq => ?_
    subst heq
    cases hperf with
    | request ht hgroup =>
      exact ⟨hkeeps _ ht hgroup, fun hs => hstale ⟨_, ht, hgroup, _, hg, hs⟩⟩

end World

/-- **A paused group does not start by itself**: it is not playing after any steps
that keep the pause, if none of them is a Buffer report taken for the stale flag. -/
theorem paused_group_stays {m : Manager} {userOf : String → Uuid} {w w' : World} (gid : Uuid)
    {g g' : Group} (h : (syncPlay m userOf).Reachable w)
    (hg : w.registry.groups.lookup gid = some g) (hpaused : g.state = .paused)
    (hpath : (syncPlay m userOf).Path
      (fun w e => w.KeepsPause gid e ∧ ¬ w.ResumesStale gid e) w w')
    (hg' : w'.registry.groups.lookup gid = some g') : g'.state ≠ .playing := by
  refine Group.Calm.not_playing ((World.calm_of_path (World.consistent_of_reachable h) ?_
    hpath).2 g' hg')
  intro g0 hg0
  rw [hg] at hg0
  cases hg0
  exact Group.calm_of_paused hpaused

/-- A session plays an item, reports ready, and pauses. -/
def pausedRun : List Event :=
  [.newGroup ⟨"tv", 1, "alice"⟩ "film" none 7 (fun _ => 0) ⟨0, 0⟩,
    .handleRequest ⟨"tv", 1, "alice"⟩ (.play [5] 0 0),
    .requestResume 0 (fun _ => false) [] ⟨fun i => 100 + i, fun _ => 0⟩ ⟨0, 0⟩,
    .handleRequest ⟨"tv", 1, "alice"⟩ (.ready ⟨0, 0, false, 100⟩),
    .requestResume 0 (fun _ => false) [] ⟨fun _ => 0, fun _ => 0⟩ ⟨0, 0⟩,
    .handleRequest ⟨"tv", 1, "alice"⟩ .pause,
    .requestResume 0 (fun _ => false) [] ⟨fun _ => 0, fun _ => 0⟩ ⟨0, 0⟩]

/-- A report that the session buffers on the item `id`, and then that it is ready. -/
def bufferReadyRun (id : Uuid) : List Event :=
  [.handleRequest ⟨"tv", 1, "alice"⟩ (.buffer ⟨0, 0, false, id⟩),
    .requestResume 0 (fun _ => false) [] ⟨fun _ => 0, fun _ => 0⟩ ⟨0, 0⟩,
    .handleRequest ⟨"tv", 1, "alice"⟩ (.ready ⟨0, 0, false, 100⟩),
    .requestResume 0 (fun _ => false) [] ⟨fun _ => 0, fun _ => 0⟩ ⟨0, 0⟩]

theorem paused_group_stays_buffering :
    ∃ w w' g', (syncPlay {} fun _ => 1).run {} pausedRun = some w ∧
      (syncPlay {} fun _ => 1).run w (bufferReadyRun 100) = some w' ∧
      w'.registry.groups.lookup 7 = some g' ∧ g'.state ≠ .playing :=
  ⟨_, _, _, rfl, rfl, rfl, paused_group_stays 7 (Machine.reachable_of_run
    (M := syncPlay {} fun _ => 1) pausedRun rfl) rfl rfl
    (Machine.path_of_runWhile (bufferReadyRun 100) rfl) rfl⟩

/-- **A paused group may start by itself**: after a Buffer report that names another
item, the Ready of the same session starts playback. -/
theorem paused_group_starts :
    ¬ ∀ w, (syncPlay {} fun _ => 1).Reachable w →
      ∀ gid g, w.registry.groups.lookup gid = some g → g.state = .paused →
      ∀ w', (syncPlay {} fun _ => 1).Path (fun w e => w.KeepsPause gid e) w w' →
      ∀ g', w'.registry.groups.lookup gid = some g' → g'.state ≠ .playing := by
  intro h
  obtain ⟨w, hw⟩ : ∃ w, (syncPlay {} fun _ => 1).run {} pausedRun = some w :=
      Option.isSome_iff_exists.mp (by decide +kernel)
  have hreach := Machine.reachable_of_run pausedRun hw
  cases hw
  exact h _ hreach 7 _ rfl rfl _ (Machine.path_of_runWhile (bufferReadyRun 99) rfl) _ rfl rfl

end Ferrofin.SyncPlay
