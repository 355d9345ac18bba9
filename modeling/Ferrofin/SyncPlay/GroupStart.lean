import Ferrofin.SyncPlay.GroupWait

/-!
# How a group starts to play

A group enters `Playing` from another state on five ways: an Unpause while it is
paused, an Unpause while it waits (which forces the start), the last Ready, the
last member that is no longer waited for (SetIgnoreWait, or a leave), and the sweep
of a wait that ran out.  Each sends one Unpause command for the moment the group
goes on (`Group.Starts`).
-/

namespace Ferrofin.SyncPlay

open Lib

namespace Group

variable {g : Group}

/-! ### The pings -/

/-- Every member has a ping between 0 and the greatest one that is accepted. -/
def PingsOk (g : Group) : Prop := ∀ m ∈ g.members, 0 ≤ m.pingMs ∧ m.pingMs ≤ maxPingMs

theorem PingsOk.of_settled {g' : Group} (h : g.PingsOk) (hs : g'.settled = g.settled) :
    g'.PingsOk := by
  intro m hm
  have hmem : m.settled ∈ g.settled := hs ▸ List.mem_map_of_mem hm
  obtain ⟨m', hm', he⟩ := List.mem_map.mp hmem
  have hping : m'.settled.pingMs = m.settled.pingMs := congrArg GroupMember.pingMs he
  change m'.pingMs = m.pingMs at hping
  rw [← hping]
  exact h m' hm'

theorem PingsOk.of_members {g' : Group} (h : g.PingsOk) (hm : g'.members = g.members) :
    g'.PingsOk := by
  unfold PingsOk
  rw [hm]
  exact h

theorem PingsOk.applyToMember (h : g.PingsOk) (sessionId : String) (request : PlaybackRequest)
    (now : Clock) : (g.applyToMember sessionId request now).PingsOk := by
  unfold Group.applyToMember
  split
  · exact forall_modifyFirst h fun m hm _ => ⟨le_max_left _ _, by
      simp only [maxPingMs]; omega⟩
  · refine PingsOk.of_members ?_ (members_updateGroupWaitDeadline ..)
    exact forall_modifyFirst h fun m hm _ => h m hm
  · exact h

theorem PingsOk.addMember (h : g.PingsOk) (session : SyncPlaySession) :
    (g.addMember session).PingsOk := by
  unfold Group.addMember
  split
  · exact h
  · intro m hm
    rcases List.mem_append.mp hm with hm | hm
    · exact h m hm
    · rw [List.mem_singleton.mp hm]
      exact ⟨(by decide : 0 ≤ defaultPingMs), (by decide : defaultPingMs ≤ maxPingMs)⟩

/-- **The pings stay in their range.** -/
theorem PingsOk.apply (h : g.PingsOk) (s : GroupStep) : (g.apply s).PingsOk := by
  cases s with
  | request sessionId request runtimes draws now =>
    refine PingsOk.of_settled ?_ (settled_handle _ sessionId request draws now)
    exact h.applyToMember sessionId request now
  | join session now => exact (h.addMember session).of_settled (settled_sessionJoined ..)
  | leave sessionId now =>
    refine PingsOk.of_members ?_ (members_updateGroupWaitDeadline ..)
    have hleft := h.of_settled (g.settled_sessionLeaving sessionId now)
    exact fun m hm => hleft m (List.mem_of_mem_filter hm)
  | sweep now => exact h.of_settled (g.settled_handleGroupWaitTimeout now)

theorem pingsOk_founded (m : Manager) (gid : Uuid) (session : SyncPlaySession) (name : String)
    (nowPlaying : Option (SyncPlayNowPlaying × List (Uuid × Int))) (fresh : Nat → Uuid)
    (now : Clock) : (founded m gid session name nowPlaying fresh now).PingsOk := by
  refine PingsOk.of_settled ?_ (settled_sessionJoined ..)
  have hnew : ∀ g : Group, g.members = [] → (g.addMember session).PingsOk := fun g hg =>
    PingsOk.addMember (fun m hm => by rw [hg] at hm; cases hm) session
  unfold create
  dsimp only
  split
  · exact (hnew _ rfl).of_members rfl
  · exact hnew _ rfl

theorem PingsOk.highestPingMs_nonneg (h : g.PingsOk) : 0 ≤ g.highestPingMs := by
  unfold highestPingMs
  cases hmax : (g.members.map (·.pingMs)).max? with
  | none => decide
  | some ping =>
    obtain ⟨m, hm, rfl⟩ := List.mem_map.mp (List.max?_mem hmax)
    exact (h m hm).1

/-! ### Starting -/

/-- If the step of `g` that ends in `r` starts the group, its messages are one
Unpause for the moment it goes on and a state update.  Only where `mayLag` holds
is the caller left out.  Nobody is waited for then, unless the group was paused. -/
structure Starts (g : Group) (now : Clock) (mayLag : Prop) (r : Group × List Outbound) :
    Prop where
  start : r.1.state = .playing → ∃ target reason,
    r.2 = [⟨target, r.1.commandEnv .unpause r.1.lastActivity now⟩,
      .all (r.1.stateUpdateEnv reason)] ∧
    (target = .allGroup ∨ target = .allExceptCurrentSession ∧ mayLag) ∧
    now.utc ≤ r.1.lastActivity ∧
    (r.1.isBuffering = false ∨ g.state = .paused ∧ r.1.members = g.members)

theorem starts_of_ne {now : Clock} {mayLag : Prop} {r : Group × List Outbound}
    (h : r.1.state ≠ .playing) : g.Starts now mayLag r := ⟨fun hp => absurd hp h⟩

@[simp]
theorem state_setBuffering (sessionId : String) (buffering : Bool) (now : Clock) :
    (g.setBuffering sessionId buffering now).state = g.state := state_updateGroupWaitDeadline _ _

@[simp]
theorem state_setAllBuffering (buffering : Bool) (now : Clock) :
    (g.setAllBuffering buffering now).state = g.state := state_updateGroupWaitDeadline _ _

@[simp]
theorem lastActivity_updateGroupWaitDeadline (start : Bool) (now : Clock) :
    (g.updateGroupWaitDeadline start now).lastActivity = g.lastActivity := by
  unfold updateGroupWaitDeadline
  split_ifs <;> rfl

@[simp]
theorem positionTicks_updateGroupWaitDeadline (start : Bool) (now : Clock) :
    (g.updateGroupWaitDeadline start now).positionTicks = g.positionTicks := by
  unfold updateGroupWaitDeadline
  split_ifs <;> rfl

theorem isBuffering_setAllBuffering (g : Group) (now : Clock) :
    (g.setAllBuffering false now).isBuffering = false := by
  rw [setAllBuffering, isBuffering_updateGroupWaitDeadline]
  simp [isBuffering, GroupMember.blocks]

theorem le_unpauseWhen (g : Group) (now : Clock) : now.utc ≤ g.unpauseWhen now := by
  have hcushion : 0 ≤ max (2 * g.highestPingMs) defaultPingMs := by
    simp only [defaultPingMs]; omega
  have := Int.mul_nonneg hcushion (by decide : 0 ≤ nanosPerMs)
  rw [unpauseWhen]
  omega

theorem ticks_nonneg {count : Int} (h : 0 ≤ count) : 0 ≤ ticks count :=
  Int.mul_nonneg (Int.tdiv_nonneg h (by decide)) (by decide)

theorem restoreAfterFailedQueueChange_state (g : Group) {prev : GroupStateType}
    (h : prev ≠ .playing) : (g.restoreAfterFailedQueueChange prev).state ≠ .playing := by
  cases prev with
  | playing => exact absurd rfl h
  | idle => intro hp; cases hp
  | waiting => intro hp; cases hp
  | paused => intro hp; cases hp

/-- The start that a paused group's Unpause, `handle_ignore_wait` and
`session_leaving` share. -/
theorem starts_startPlaying {g' : Group} {now : Clock} {mayLag : Prop}
    (h : g'.isBuffering = false ∨ g.state = .paused ∧ g'.members = g.members) :
    g.Starts now mayLag (g'.startPlaying now) :=
  ⟨fun _ => ⟨_, _, rfl, .inl rfl, le_unpauseWhen _ now, h⟩⟩

theorem starts_releaseWait {g' : Group} (hnot : g'.state ≠ .playing) (now : Clock)
    {mayLag : Prop} : g.Starts now mayLag (g'.releaseWait now) := by
  unfold releaseWait
  split
  · exact starts_of_ne hnot
  · next hb =>
    split
    · exact starts_startPlaying (.inl (by simpa using hb))
    · exact starts_of_ne (by simp)

theorem starts_handleUnpause (hnot : g.state ≠ .playing) (now : Clock) {mayLag : Prop} :
    g.Starts now mayLag (g.handleUnpause g.state now) := by
  cases hs : g.state with
  | idle => exact starts_of_ne (by simp [handleUnpause, restartCurrentItem])
  | waiting =>
    unfold handleUnpause
    dsimp only
    split
    · exact ⟨fun _ => ⟨_, _, rfl, .inl rfl, le_unpauseWhen _ now,
        .inl (g.isBuffering_setAllBuffering now)⟩⟩
    · exact starts_of_ne (by simp [hs])
  | paused => exact starts_startPlaying (.inr ⟨hs, rfl⟩)
  | playing => exact absurd hs hnot

/-- A Ready starts the group no earlier than now, whatever the client lags. -/
theorem le_resumeTarget (hp : g.PingsOk) (report : ReadyReport) (delayTicks : Int) (now : Clock) :
    now.utc ≤ (g.resumeTarget report delayTicks now).2 := by
  have hping := hp.highestPingMs_nonneg
  unfold resumeTarget
  dsimp only
  split
  · next hlag =>
    have hpos : 0 ≤ delayTicks := by
      have := Int.mul_nonneg (Int.mul_nonneg (by decide : (0 : Int) ≤ 2) hping)
        (by decide : 0 ≤ ticksPerMs)
      omega
    have := ticks_nonneg hpos
    dsimp only
    omega
  · have hrecovered : 0 ≤ max (2 * g.highestPingMs * ticksPerMs) (defaultPingMs * ticksPerMs) := by
      simp only [defaultPingMs, ticksPerMs]; omega
    have := ticks_nonneg hrecovered
    dsimp only
    omega

theorem starts_handleReadyResuming (hp : g.PingsOk) (hnot : g.state ≠ .playing)
    (sessionId : String) (report : ReadyReport) (delayTicks : Int) (now : Clock) :
    g.Starts now (report.isPlaying = true)
      (g.handleReadyResuming sessionId report delayTicks now) := by
  unfold handleReadyResuming
  dsimp only
  split
  · exact starts_of_ne (by simpa [correctClient] using hnot)
  split
  · exact starts_of_ne (by simpa using hnot)
  · next hb =>
    have hquiet : (g.setBuffering sessionId false now).isBuffering = false := by simpa using hb
    refine ⟨fun _ => ⟨_, _, rfl, ?_, ?_, .inl hquiet⟩⟩
    · unfold resumeTarget
      dsimp only
      split
      · cases report.isPlaying with
        | true => exact .inr ⟨rfl, rfl⟩
        | false => exact .inl rfl
      · exact .inl rfl
    · exact le_resumeTarget (hp.of_settled (g.settled_setBuffering sessionId false now)) ..

theorem starts_handleReady (hp : g.PingsOk) (hnot : g.state ≠ .playing) (sessionId : String)
    (report : ReadyReport) (now : Clock) :
    g.Starts now (report.isPlaying = true) (g.handleReady g.state sessionId report now) := by
  cases hs : g.state with
  | idle => exact starts_of_ne (by simp [handleReady, sendStopCommand])
  | waiting =>
    unfold handleReady
    dsimp only
    split
    · exact starts_of_ne (by simpa using hnot)
    split
    · exact starts_handleReadyResuming hp hnot ..
    · refine starts_of_ne ?_
      unfold handleReadySettling
      dsimp only
      split
      · simpa [correctClient] using hnot
      split
      · simpa using hnot
      · split <;> simp
  | paused => exact starts_of_ne (by simp [handleReady, hs])
  | playing => exact absurd hs hnot

/-- The queue requests end in `Waiting`, or where the group was. -/
theorem starts_handlePlay (hnot : g.state ≠ .playing) (fresh : Nat → Uuid) (queue : List Uuid)
    (position start : Int) (now : Clock) {mayLag : Prop} :
    g.Starts now mayLag (g.handlePlay fresh g.state queue position start now) := by
  refine starts_of_ne ?_
  unfold handlePlay
  dsimp only
  split
  · exact restoreAfterFailedQueueChange_state _ hnot
  · simp

theorem starts_handleSetPlaylistItem (hnot : g.state ≠ .playing) (id : Uuid) (now : Clock)
    {mayLag : Prop} : g.Starts now mayLag (g.handleSetPlaylistItem g.state id now) := by
  refine starts_of_ne ?_
  unfold handleSetPlaylistItem
  dsimp only
  split
  · exact restoreAfterFailedQueueChange_state _ hnot
  · simp

theorem starts_handleQueueStep (hnot : g.state ≠ .playing) (id : Uuid) (forward : Bool)
    (now : Clock) {mayLag : Prop} :
    g.Starts now mayLag (g.handleQueueStep g.state id forward now) := by
  refine starts_of_ne ?_
  unfold handleQueueStep
  dsimp only
  split
  · simp
  · generalize (if forward then _ else _ : PlayQueue × Bool) = moved
    split
    · exact restoreAfterFailedQueueChange_state _ hnot
    · simp

theorem starts_handleRemoveFromPlaylist (hnot : g.state ≠ .playing) (ids : List Uuid)
    (clearPlaylist clearPlayingItem : Bool) (now : Clock) {mayLag : Prop} :
    g.Starts now mayLag
      (g.handleRemoveFromPlaylist g.state ids clearPlaylist clearPlayingItem now) := by
  refine starts_of_ne ?_
  unfold handleRemoveFromPlaylist
  dsimp only
  split_ifs <;> first | exact hnot | simp [sendStopCommand]

theorem starts_handleSeek (hnot : g.state ≠ .playing) (positionTicks : Int) (now : Clock)
    {mayLag : Prop} : g.Starts now mayLag (g.handleSeek g.state positionTicks now) := by
  refine starts_of_ne ?_
  unfold handleSeek
  split
  · simp [sendStopCommand]
  · cases hs : g.state with
    | playing => exact absurd hs hnot
    | _ => simp [resumePlayingFrom]

theorem starts_handleBuffer (hnot : g.state ≠ .playing) (sessionId : String) (id : Uuid)
    (now : Clock) {mayLag : Prop} :
    g.Starts now mayLag (g.handleBuffer g.state sessionId id now) := by
  refine starts_of_ne ?_
  unfold handleBuffer
  split
  · simp [sendStopCommand]
  split
  · exact hnot
  dsimp only
  split
  · simp
  · cases hs : g.state with
    | playing => exact absurd hs hnot
    | _ => simp [handleBufferMatched]

theorem starts_handlePause (hnot : g.state ≠ .playing) (now : Clock) {mayLag : Prop} :
    g.Starts now mayLag (g.handlePause g.state now) := by
  refine starts_of_ne ?_
  cases hs : g.state with
  | playing => exact absurd hs hnot
  | _ => simp [handlePause, sendStopCommand, hs]

def ReadyPlaying : PlaybackRequest → Prop
  | .ready report => report.isPlaying = true
  | _ => False

instance : DecidablePred ReadyPlaying := fun request => by
  apply request.casesOn (motive := fun request => Decidable (ReadyPlaying request)) <;>
    intros <;> dsimp only [ReadyPlaying] <;> infer_instance

/-- **Every request that starts the group sends one Unpause for the moment it goes
on.** -/
theorem starts_handle (hp : g.PingsOk) (hnot : g.state ≠ .playing) (sessionId : String)
    (request : PlaybackRequest) (draws : Draws) (now : Clock) :
    g.Starts now (ReadyPlaying request) (g.handle sessionId request draws now) := by
  cases request with
  | play => exact starts_handlePlay hnot ..
  | setPlaylistItem => exact starts_handleSetPlaylistItem hnot ..
  | removeFromPlaylist => exact starts_handleRemoveFromPlaylist hnot ..
  | movePlaylistItem id newIndex =>
    refine starts_of_ne ?_
    show (g.handleMovePlaylistItem id newIndex now).1.state ≠ .playing
    unfold handleMovePlaylistItem
    dsimp only
    split <;> exact hnot
  | queue itemIds mode =>
    refine starts_of_ne ?_
    show (g.handleQueue draws.fresh itemIds mode now).1.state ≠ .playing
    unfold handleQueue
    split <;> exact hnot
  | unpause => exact starts_handleUnpause hnot now
  | pause => exact starts_handlePause hnot now
  | stop => exact starts_of_ne (by simp [handle, sendStopCommand])
  | seek => exact starts_handleSeek hnot ..
  | buffer => exact starts_handleBuffer hnot ..
  | ready => exact starts_handleReady hp hnot ..
  | nextItem id => exact starts_handleQueueStep hnot id true now
  | previousItem id => exact starts_handleQueueStep hnot id false now
  | setRepeatMode => exact starts_of_ne hnot
  | setShuffleMode => exact starts_of_ne hnot
  | ping => exact starts_of_ne hnot
  | ignoreWait =>
    show g.Starts now _ (g.handleIgnoreWait g.state now)
    unfold handleIgnoreWait
    split
    · exact starts_of_ne hnot
    · exact starts_releaseWait hnot now

theorem starts_sessionLeaving (hnot : g.state ≠ .playing) (sessionId : String) (now : Clock)
    {mayLag : Prop} : g.Starts now mayLag (g.sessionLeaving sessionId now) := by
  unfold sessionLeaving
  split
  · exact starts_of_ne hnot
  · exact starts_releaseWait (by simpa using hnot) now

theorem state_sessionJoined (g : Group) (sessionId : String) (now : Clock) :
    (g.sessionJoined sessionId now).1.state ≠ .playing := by
  unfold sessionJoined
  dsimp only
  split
  · simp [sendStopCommand]
  · simp

theorem starts_handleGroupWaitTimeout (hnot : g.state ≠ .playing) (now : Clock) :
    (g.handleGroupWaitTimeout now).1.state = .playing → ∃ sessionId out,
      (g.handleGroupWaitTimeout now).2 = some (sessionId, out) ∧
        g.Starts now False ((g.handleGroupWaitTimeout now).1, out) := by
  unfold handleGroupWaitTimeout
  split
  · exact fun hp => absurd hp hnot
  dsimp only
  split
  · exact fun hp => absurd hp hnot
  split
  · exact fun hp => absurd hp hnot
  · next hs =>
    have hwaiting : g.state = .waiting := by simpa using hs
    split
    · exact fun hp => absurd hp hnot
    · next m _ _ =>
      split
      · intro hp
        have hstart : (g.setWaitDeadline none).Starts now False
            ((g.setWaitDeadline none).handleUnpause (g.setWaitDeadline none).state now) :=
          starts_handleUnpause (by exact hnot) now
        rw [setWaitDeadline_state, hwaiting] at hstart
        exact ⟨m.sessionId, _, rfl, ⟨hstart.start⟩⟩
      · exact fun hp => absurd hp (by simp)

/-! ### Waiting on nobody outside a wait -/

structure Quiet (g : Group) : Prop where
  quiet : g.state = .playing ∨ g.state = .paused → g.isBuffering = false

theorem quiet_of_waiting (h : g.state = .waiting) : g.Quiet where
  quiet hs := by rw [h] at hs; simp at hs

theorem quiet_of_idle (h : g.state = .idle) : g.Quiet where
  quiet hs := by rw [h] at hs; simp at hs

theorem quiet_of_not_buffering (h : g.isBuffering = false) : g.Quiet where
  quiet _ := h

theorem Quiet.congr {g' : Group} (h : g.Quiet) (hs : g'.state = g.state)
    (hm : g'.members = g.members) : g'.Quiet where
  quiet hs' := by
    rw [hs] at hs'
    rw [isBuffering, hm]
    exact h.quiet hs'

theorem Quiet.of_settled {g' : Group} (h : g.Quiet) (hs : g.state = .playing ∨ g.state = .paused)
    (hm : g'.members = g.members) : g'.Quiet :=
  quiet_of_not_buffering (by rw [isBuffering, hm]; exact h.quiet hs)

theorem Quiet.restore (h : g.Quiet) {g' : Group} (hm : g'.members = g.members) :
    (g'.restoreAfterFailedQueueChange g.state).Quiet := by
  cases hs : g.state with
  | idle => exact quiet_of_idle rfl
  | waiting => exact quiet_of_idle rfl
  | paused => exact h.of_settled (.inr hs) hm
  | playing => exact h.of_settled (.inl hs) hm

theorem Quiet.handlePlay (h : g.Quiet) (fresh : Nat → Uuid) (queue : List Uuid)
    (position start : Int) (now : Clock) :
    (g.handlePlay fresh g.state queue position start now).1.Quiet := by
  unfold Group.handlePlay
  dsimp only
  split
  · exact h.restore rfl
  · exact quiet_of_waiting (by simp)

theorem Quiet.handleSetPlaylistItem (h : g.Quiet) (id : Uuid) (now : Clock) :
    (g.handleSetPlaylistItem g.state id now).1.Quiet := by
  unfold Group.handleSetPlaylistItem
  dsimp only
  split
  · exact h.restore rfl
  · exact quiet_of_waiting (by simp)

theorem Quiet.handleQueueStep (h : g.Quiet) (id : Uuid) (forward : Bool) (now : Clock) :
    (g.handleQueueStep g.state id forward now).1.Quiet := by
  unfold Group.handleQueueStep
  dsimp only
  split
  · exact quiet_of_waiting (by simp)
  · generalize (if forward then _ else _ : PlayQueue × Bool) = moved
    split
    · exact h.restore rfl
    · exact quiet_of_waiting (by simp)

theorem Quiet.handleRemoveFromPlaylist (h : g.Quiet) (prev : GroupStateType) (ids : List Uuid)
    (clearPlaylist clearPlayingItem : Bool) (now : Clock) :
    (g.handleRemoveFromPlaylist prev ids clearPlaylist clearPlayingItem now).1.Quiet := by
  unfold Group.handleRemoveFromPlaylist
  dsimp only
  split_ifs <;> first | exact quiet_of_idle rfl | exact h.congr rfl rfl

theorem Quiet.handleUnpause (h : g.Quiet) (now : Clock) :
    (g.handleUnpause g.state now).1.Quiet := by
  cases hs : g.state with
  | idle => exact quiet_of_waiting (by simp [Group.handleUnpause, restartCurrentItem])
  | waiting =>
    unfold Group.handleUnpause
    dsimp only
    split
    · exact quiet_of_not_buffering (g.isBuffering_setAllBuffering now)
    · exact quiet_of_waiting hs
  | paused => exact h.of_settled (.inr hs) rfl
  | playing => exact h

theorem Quiet.handlePause (h : g.Quiet) (now : Clock) : (g.handlePause g.state now).1.Quiet := by
  cases hs : g.state with
  | idle => exact quiet_of_idle rfl
  | waiting => exact quiet_of_waiting hs
  | paused => exact h
  | playing => exact h.of_settled (.inl hs) rfl

theorem quiet_handleSeek (g : Group) (positionTicks : Int) (now : Clock) :
    (g.handleSeek g.state positionTicks now).1.Quiet := by
  unfold handleSeek
  split
  · exact quiet_of_idle rfl
  · exact quiet_of_waiting (by cases g.state <;> simp [resumePlayingFrom])

theorem Quiet.handleBuffer (h : g.Quiet) (sessionId : String) (id : Uuid) (now : Clock) :
    (g.handleBuffer g.state sessionId id now).1.Quiet := by
  unfold Group.handleBuffer
  split
  · exact quiet_of_idle rfl
  split
  · exact h
  dsimp only
  split
  · exact quiet_of_waiting (by simp)
  · exact quiet_of_waiting (by cases g.state <;> simp [handleBufferMatched])

theorem quiet_handleReadyResuming (hs : g.state = .waiting) (sessionId : String)
    (report : ReadyReport) (delayTicks : Int) (now : Clock) :
    (g.handleReadyResuming sessionId report delayTicks now).1.Quiet := by
  unfold handleReadyResuming
  dsimp only
  split
  · exact quiet_of_waiting (by simpa [correctClient] using hs)
  split
  · exact quiet_of_waiting (by simpa using hs)
  · next hb =>
    have hquiet : (g.setBuffering sessionId false now).isBuffering = false := by simpa using hb
    exact quiet_of_not_buffering hquiet

theorem quiet_handleReadySettling (hs : g.state = .waiting) (sessionId : String)
    (requestTicks : Int) (now : Clock) :
    (g.handleReadySettling sessionId requestTicks now).1.Quiet := by
  unfold handleReadySettling
  dsimp only
  split
  · exact quiet_of_waiting (by simpa [correctClient] using hs)
  split
  · exact quiet_of_waiting (by simpa using hs)
  · next hb =>
    have hquiet : (g.setBuffering sessionId false now).isBuffering = false := by simpa using hb
    split <;> exact quiet_of_not_buffering hquiet

theorem Quiet.handleReady (h : g.Quiet) (sessionId : String) (report : ReadyReport)
    (now : Clock) : (g.handleReady g.state sessionId report now).1.Quiet := by
  cases hs : g.state with
  | idle => exact quiet_of_idle rfl
  | waiting =>
    unfold Group.handleReady
    dsimp only
    split
    · exact quiet_of_waiting (by simpa using hs)
    split
    · exact quiet_handleReadyResuming hs ..
    · exact quiet_handleReadySettling hs ..
  | paused => exact h
  | playing => exact h

theorem Quiet.releaseWait (h : g.Quiet) (now : Clock) : (g.releaseWait now).1.Quiet := by
  unfold Group.releaseWait
  split
  · exact h
  · next hb =>
    have hquiet : g.isBuffering = false := by simpa using hb
    split <;> exact quiet_of_not_buffering hquiet

theorem Quiet.handle (h : g.Quiet) (sessionId : String) (request : PlaybackRequest)
    (draws : Draws) (now : Clock) : (g.handle sessionId request draws now).1.Quiet := by
  cases request with
  | play => exact h.handlePlay ..
  | setPlaylistItem => exact h.handleSetPlaylistItem ..
  | removeFromPlaylist => exact h.handleRemoveFromPlaylist ..
  | movePlaylistItem id newIndex =>
    show (g.handleMovePlaylistItem id newIndex now).1.Quiet
    unfold handleMovePlaylistItem
    dsimp only
    split <;> exact h.congr rfl rfl
  | queue itemIds mode =>
    show (g.handleQueue draws.fresh itemIds mode now).1.Quiet
    unfold handleQueue
    split <;> exact h.congr rfl rfl
  | unpause => exact h.handleUnpause now
  | pause => exact h.handlePause now
  | stop => exact quiet_of_idle rfl
  | seek => exact g.quiet_handleSeek ..
  | buffer => exact h.handleBuffer ..
  | ready => exact h.handleReady ..
  | nextItem => exact h.handleQueueStep ..
  | previousItem => exact h.handleQueueStep ..
  | setRepeatMode => exact h.congr rfl rfl
  | setShuffleMode => exact h.congr rfl rfl
  | ping => exact h
  | ignoreWait =>
    show (g.handleIgnoreWait g.state now).1.Quiet
    unfold handleIgnoreWait
    split
    · exact h
    · exact h.releaseWait now

/-- A member that buffers while the group does not wait asks to be waited for again. -/
def SwitchesBack (g : Group) (sessionId : String) : PlaybackRequest → Prop
  | .ignoreWait ignoreWait => ignoreWait = false ∧ (g.state = .playing ∨ g.state = .paused) ∧
      ∃ m ∈ g.members, m.sessionId = sessionId ∧ m.isBuffering = true
  | _ => False

instance (g : Group) (sessionId : String) (request : PlaybackRequest) :
    Decidable (g.SwitchesBack sessionId request) := by
  apply request.casesOn (motive := fun request => Decidable (g.SwitchesBack sessionId request)) <;>
    intros <;> dsimp only [SwitchesBack] <;> infer_instance

theorem isBuffering_eq_false (g : Group) :
    g.isBuffering = false ↔ ∀ m ∈ g.members, m.blocks = false := by
  simp [isBuffering]

theorem Quiet.applyToMember (h : g.Quiet) {sessionId : String} {request : PlaybackRequest}
    (hback : ¬ g.SwitchesBack sessionId request) (now : Clock) :
    (g.applyToMember sessionId request now).Quiet := by
  unfold Group.applyToMember
  split
  · refine ⟨fun hs => ?_⟩
    have hall := (isBuffering_eq_false g).mp (h.quiet hs)
    rw [isBuffering_eq_false]
    exact forall_modifyFirst hall fun m hm _ => hall m hm
  · next ignoreWait =>
    refine ⟨fun hs => ?_⟩
    rw [state_updateGroupWaitDeadline] at hs
    rw [isBuffering_updateGroupWaitDeadline, isBuffering_eq_false]
    refine forall_modifyFirst ((isBuffering_eq_false g).mp (h.quiet hs)) fun m hm hid => ?_
    cases ignoreWait with
    | true => simp [GroupMember.blocks]
    | false =>
      have hbuffers : m.isBuffering = false := by
        by_contra hb
        exact hback ⟨rfl, hs, m, hm, by simpa using hid, by simpa using hb⟩
      simp [GroupMember.blocks, hbuffers]
  · exact h

theorem Quiet.sessionLeaving (h : g.Quiet) (sessionId : String) (now : Clock) :
    (g.sessionLeaving sessionId now).1.Quiet := by
  unfold Group.sessionLeaving
  split
  · exact h
  · next hs =>
    have hwaiting : g.state = .waiting := by simpa using hs
    exact (quiet_of_waiting (by simpa using hwaiting)).releaseWait now

theorem Quiet.leave (h : g.Quiet) (sessionId : String) (now : Clock) :
    (g.leave sessionId now).Quiet := by
  have hleft := h.sessionLeaving sessionId now
  unfold Group.leave removeMember
  refine ⟨fun hs => ?_⟩
  rw [state_updateGroupWaitDeadline] at hs
  rw [isBuffering_updateGroupWaitDeadline, isBuffering_eq_false]
  exact fun m hm => (isBuffering_eq_false _).mp (hleft.quiet hs) m (List.mem_of_mem_filter hm)

theorem Quiet.handleGroupWaitTimeout (h : g.Quiet) (now : Clock) :
    (g.handleGroupWaitTimeout now).1.Quiet := by
  unfold Group.handleGroupWaitTimeout
  split
  · exact h
  dsimp only
  split
  · exact h
  split
  · exact h.congr rfl rfl
  · next hs =>
    have hwaiting : g.state = .waiting := by simpa using hs
    split
    · exact h.congr rfl rfl
    · split
      · have hunset : (g.setWaitDeadline none).Quiet := h.congr rfl rfl
        have hunpause := hunset.handleUnpause now
        rw [setWaitDeadline_state, hwaiting] at hunpause
        exact hunpause
      · exact quiet_of_not_buffering (isBuffering_setAllBuffering _ now)

def StepSwitchesBack (g : Group) : GroupStep → Prop
  | .request sessionId request _ _ _ => g.SwitchesBack sessionId request
  | _ => False

/-- **A group stays quiet** while no member switches back. -/
theorem Quiet.apply (h : g.Quiet) {s : GroupStep} (hback : ¬ g.StepSwitchesBack s) :
    (g.apply s).Quiet := by
  cases s with
  | request sessionId request runtimes draws now =>
    have happlied : ((g.applyToMember sessionId request now).extendItemRuntimes runtimes).Quiet :=
      (h.applyToMember hback now).congr rfl rfl
    exact happlied.handle sessionId request draws now
  | join session now =>
    show ((g.addMember session).sessionJoined session.sessionId now).1.Quiet
    unfold sessionJoined
    dsimp only
    split
    · exact quiet_of_idle rfl
    · exact quiet_of_waiting (by simp)
  | leave sessionId now => exact h.leave sessionId now
  | sweep now => exact h.handleGroupWaitTimeout now

theorem quiet_founded (m : Manager) (gid : Uuid) (session : SyncPlaySession) (name : String)
    (nowPlaying : Option (SyncPlayNowPlaying × List (Uuid × Int))) (fresh : Nat → Uuid)
    (now : Clock) : (founded m gid session name nowPlaying fresh now).Quiet := by
  unfold founded sessionJoined
  dsimp only
  split
  · exact quiet_of_idle rfl
  · exact quiet_of_waiting (by simp)

end Group

end Ferrofin.SyncPlay
