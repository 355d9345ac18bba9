import Ferrofin.SyncPlay.GroupStep

/-!
# The memory of a group wait

A group that waits on a member has a deadline that will release it, and a group
that does not wait remembers nothing of a wait (`Group.WaitOk`).

Every entry of the state machine keeps this but one.  `handle_queue_step` enters
`Waiting` and drops a request that names another item than the one playing, and
does not arm the deadline: a member whose buffering flag outlived an earlier wait
then holds the group for ever.
-/

namespace Ferrofin.SyncPlay

open Lib

namespace Group

variable {g : Group}

/-- The memory of a wait is there while the group waits, and only then. -/
structure Remembers (g : Group) : Prop where
  initial : g.state = .waiting → g.initialState.isSome
  forgotten : g.state ≠ .waiting → g.initialState = none ∧ g.positionJumped = false

/-- **The group-wait invariant**: a deadline runs exactly while the group waits on
a member, and the memory of the wait is that of the state. -/
structure WaitOk (g : Group) : Prop extends Remembers g where
  deadline : g.waitDeadline.isSome ↔ g.state = .waiting ∧ g.isBuffering = true

/-! ### What establishes it -/

theorem remembers_of_waiting (hs : g.state = .waiting) (hi : g.initialState.isSome) :
    g.Remembers where
  initial _ := hi
  forgotten h := absurd hs h

theorem remembers_enterWaiting (g : Group) (prev : GroupStateType) :
    (g.enterWaiting prev).Remembers := by
  refine remembers_of_waiting rfl ?_
  rw [enterWaiting_initialState]
  split
  · rfl
  · next h =>
    rw [not_or, Bool.not_eq_true, Option.isNone_eq_false_iff] at h
    exact h.2

/-- Leaving `Waiting` forgets the wait. -/
theorem waitOk_setState (g : Group) {s : GroupStateType} (hs : s ≠ .waiting) :
    (g.setState s).WaitOk where
  initial h := absurd h hs
  forgotten _ := by simp [hs]
  deadline := by simp [hs]

@[simp]
theorem state_updateGroupWaitDeadline (start : Bool) (now : Clock) :
    (g.updateGroupWaitDeadline start now).state = g.state := by
  unfold updateGroupWaitDeadline
  split_ifs <;> rfl

@[simp]
theorem isBuffering_updateGroupWaitDeadline (start : Bool) (now : Clock) :
    (g.updateGroupWaitDeadline start now).isBuffering = g.isBuffering := by
  rw [isBuffering, members_updateGroupWaitDeadline]
  rfl

@[simp]
theorem initialState_updateGroupWaitDeadline (start : Bool) (now : Clock) :
    (g.updateGroupWaitDeadline start now).initialState = g.initialState := by
  unfold updateGroupWaitDeadline
  split_ifs <;> rfl

@[simp]
theorem positionJumped_updateGroupWaitDeadline (start : Bool) (now : Clock) :
    (g.updateGroupWaitDeadline start now).positionJumped = g.positionJumped := by
  unfold updateGroupWaitDeadline
  split_ifs <;> rfl

theorem Remembers.waitOk_update (h : g.Remembers) (start : Bool) (now : Clock) :
    (g.updateGroupWaitDeadline start now).WaitOk where
  initial := by simpa using h.initial
  forgotten := by simpa using h.forgotten
  deadline := by
    rw [state_updateGroupWaitDeadline, isBuffering_updateGroupWaitDeadline]
    unfold updateGroupWaitDeadline
    by_cases hwait : g.state = .waiting ∧ g.isBuffering = true
    · rw [if_neg (by simp [hwait])]
      refine iff_of_true ?_ hwait
      split
      · rfl
      · next hd =>
        rw [Bool.or_eq_true, not_or, Bool.not_eq_true, Option.isNone_eq_false_iff] at hd
        exact hd.1
    · rw [if_pos (by rcases not_and_or.mp hwait with h | h <;> simp [h])]
      exact iff_of_false (by simp) hwait

theorem Remembers.waitOk_members (h : g.Remembers) (members : List GroupMember) (start : Bool)
    (now : Clock) : ({ g with members } : Group).updateGroupWaitDeadline start now |>.WaitOk :=
  Remembers.waitOk_update (g := { g with members }) ⟨h.initial, h.forgotten⟩ start now

theorem Remembers.waitOk_setBuffering (h : g.Remembers) (sessionId : String) (buffering : Bool)
    (now : Clock) : (g.setBuffering sessionId buffering now).WaitOk :=
  h.waitOk_members _ _ _

theorem Remembers.waitOk_setAllBuffering (h : g.Remembers) (buffering : Bool) (now : Clock) :
    (g.setAllBuffering buffering now).WaitOk :=
  h.waitOk_members _ _ _

theorem Remembers.waitOk_removeMember (h : g.Remembers) (sessionId : String) (now : Clock) :
    (g.removeMember sessionId now).WaitOk :=
  h.waitOk_members _ _ _

theorem Remembers.waitOk_correctClient (h : g.Remembers) (sessionId : String) (now : Clock) :
    (g.correctClient sessionId now).1.WaitOk :=
  h.waitOk_setBuffering sessionId true now

theorem waitOk_restoreAfterFailedQueueChange (g : Group) (prev : GroupStateType) :
    (g.restoreAfterFailedQueueChange prev).WaitOk :=
  g.waitOk_setState (by cases prev <;> decide)

/-! ### The handlers -/

theorem waitOk_sendStopCommand (g : Group) (prev : GroupStateType) (now : Clock) :
    (g.sendStopCommand prev now).1.WaitOk :=
  g.waitOk_setState (by decide)

theorem waitOk_startPlaying (g : Group) (now : Clock) : (g.startPlaying now).1.WaitOk :=
  let h := g.waitOk_setState (s := .playing) (by decide)
  ⟨⟨h.initial, h.forgotten⟩, h.deadline⟩

theorem WaitOk.congr {g' : Group} (h : g.WaitOk) (hs : g'.state = g.state)
    (hm : g'.members = g.members) (hi : g'.initialState = g.initialState)
    (hj : g'.positionJumped = g.positionJumped) (hd : g'.waitDeadline = g.waitDeadline) :
    g'.WaitOk where
  initial := by rw [hs, hi]; exact h.initial
  forgotten := by rw [hs, hi, hj]; exact h.forgotten
  deadline := by rw [hs, hd, isBuffering, hm]; exact h.deadline

theorem WaitOk.handleQueue (h : g.WaitOk) (fresh : Nat → Uuid) (itemIds : List Uuid)
    (mode : GroupQueueMode) (now : Clock) : (g.handleQueue fresh itemIds mode now).1.WaitOk := by
  unfold Group.handleQueue
  split
  · exact h
  · exact h.congr rfl rfl rfl rfl rfl

theorem WaitOk.handleMovePlaylistItem (h : g.WaitOk) (id : Uuid) (newIndex : Int) (now : Clock) :
    (g.handleMovePlaylistItem id newIndex now).1.WaitOk := by
  unfold Group.handleMovePlaylistItem
  dsimp only
  split <;> exact h.congr rfl rfl rfl rfl rfl

theorem WaitOk.handleRemoveFromPlaylist (h : g.WaitOk) (prev : GroupStateType) (ids : List Uuid)
    (clearPlaylist clearPlayingItem : Bool) (now : Clock) :
    (g.handleRemoveFromPlaylist prev ids clearPlaylist clearPlayingItem now).1.WaitOk := by
  unfold Group.handleRemoveFromPlaylist
  dsimp only
  split_ifs <;> dsimp only
  all_goals first
    | exact waitOk_sendStopCommand ..
    | exact h.congr rfl rfl rfl rfl rfl

theorem waitOk_handlePlay (g : Group) (fresh : Nat → Uuid) (prev : GroupStateType)
    (queue : List Uuid) (position start : Int) (now : Clock) :
    (g.handlePlay fresh prev queue position start now).1.WaitOk := by
  unfold handlePlay
  dsimp only
  split
  · exact waitOk_restoreAfterFailedQueueChange ..
  · refine Remembers.waitOk_setAllBuffering (remembers_of_waiting rfl ?_) true now
    exact (g.remembers_enterWaiting prev).initial rfl

theorem waitOk_handleSetPlaylistItem (g : Group) (prev : GroupStateType) (id : Uuid)
    (now : Clock) : (g.handleSetPlaylistItem prev id now).1.WaitOk := by
  unfold handleSetPlaylistItem
  dsimp only
  split
  · exact waitOk_restoreAfterFailedQueueChange ..
  · refine Remembers.waitOk_setAllBuffering (remembers_of_waiting rfl ?_) true now
    exact (g.remembers_enterWaiting prev).initial rfl

theorem waitOk_handleQueueStep (g : Group) (prev : GroupStateType) {id : Uuid}
    (hid : id = g.queue.playingItemId) (forward : Bool) (now : Clock) :
    (g.handleQueueStep prev id forward now).1.WaitOk := by
  unfold handleQueueStep
  dsimp only
  split
  · next hne => exact absurd hid hne
  · have hi := (g.remembers_enterWaiting prev).initial rfl
    generalize (if forward then _ else _ : PlayQueue × Bool) = moved
    split
    · exact waitOk_restoreAfterFailedQueueChange ..
    · refine Remembers.waitOk_setAllBuffering (remembers_of_waiting rfl ?_) true now
      exact hi

theorem handleQueueStep_of_ne {id : Uuid} (hid : id ≠ g.queue.playingItemId)
    (prev : GroupStateType) (forward : Bool) (now : Clock) :
    (g.handleQueueStep prev id forward now).1 = (g.enterWaiting prev).setResumePlaying true := by
  unfold handleQueueStep
  dsimp only
  split
  · rfl
  · next hne => exact absurd hid hne

/-- **A dropped queue step keeps the wait right exactly when the group was waiting
already, or waits on nobody.** -/
theorem WaitOk.handleQueueStep_iff (h : g.WaitOk) {id : Uuid}
    (hid : id ≠ g.queue.playingItemId) (forward : Bool) (now : Clock) :
    (g.handleQueueStep g.state id forward now).1.WaitOk ↔
      (g.state ≠ .waiting → g.isBuffering = false) := by
  rw [handleQueueStep_of_ne hid]
  constructor
  · intro h' hs
    -- the deadline is the one of the state before, and there is none
    have hd : g.waitDeadline.isSome = false := by
      rw [Bool.eq_false_iff]
      exact fun hsome => hs (h.deadline.mp hsome).1
    by_contra hb
    have := h'.deadline.mpr ⟨rfl, by simpa [isBuffering] using hb⟩
    rw [show ((g.enterWaiting g.state).setResumePlaying true).waitDeadline = g.waitDeadline
      from rfl, hd] at this
    cases this
  · intro hb
    have hr := g.remembers_enterWaiting g.state
    refine ⟨⟨hr.initial, hr.forgotten⟩, ?_⟩
    change g.waitDeadline.isSome ↔ GroupStateType.waiting = .waiting ∧ g.isBuffering = true
    rw [h.deadline]
    by_cases hs : g.state = .waiting
    · simp [hs]
    · simp [hs, hb hs]

theorem WaitOk.handleUnpause (h : g.WaitOk) (now : Clock) :
    (g.handleUnpause g.state now).1.WaitOk := by
  cases hs : g.state with
  | idle =>
    refine Remembers.waitOk_setAllBuffering (remembers_of_waiting rfl ?_) true now
    exact (g.remembers_enterWaiting .idle).initial rfl
  | waiting =>
    unfold Group.handleUnpause
    dsimp only
    split
    · exact (waitOk_setState (g.setAllBuffering false now) (s := .playing) (by decide)).congr
        rfl rfl rfl rfl rfl
    · exact h.congr rfl rfl rfl rfl rfl
  | paused => exact waitOk_startPlaying ..
  | playing => exact h

theorem WaitOk.handlePause (h : g.WaitOk) (now : Clock) :
    (g.handlePause g.state now).1.WaitOk := by
  cases hs : g.state with
  | idle => exact waitOk_sendStopCommand ..
  | waiting => exact h.congr rfl rfl rfl rfl rfl
  | paused => exact h
  | playing => exact waitOk_setState _ (by decide)

theorem waitOk_handleSeek (g : Group) (prev : GroupStateType) (positionTicks : Int)
    (now : Clock) : (g.handleSeek prev positionTicks now).1.WaitOk := by
  unfold handleSeek
  split
  · exact waitOk_sendStopCommand ..
  · refine Remembers.waitOk_setAllBuffering (remembers_of_waiting ?_ ?_) true now
    · cases prev <;> rfl
    · have hi := (g.remembers_enterWaiting prev).initial rfl
      cases prev <;> exact hi

theorem Remembers.waitOk_handleBufferMatched (h : g.Remembers) {prev : GroupStateType}
    (hprev : prev ≠ .idle) (sessionId : String) (now : Clock) :
    (g.handleBufferMatched prev sessionId now).1.WaitOk := by
  have hset : ∀ flag, ((g.setResumePlaying flag).setBuffering sessionId true now).WaitOk :=
    fun flag => Remembers.waitOk_setBuffering (g := g.setResumePlaying flag)
      ⟨h.initial, h.forgotten⟩ _ _ _
  cases prev with
  | idle => exact absurd rfl hprev
  | waiting => exact h.waitOk_setBuffering _ _ _
  | paused => exact hset false
  | playing => exact (hset true).congr rfl rfl rfl rfl rfl

theorem WaitOk.handleBuffer (h : g.WaitOk) (prev : GroupStateType) (sessionId : String)
    (id : Uuid) (now : Clock) : (g.handleBuffer prev sessionId id now).1.WaitOk := by
  unfold Group.handleBuffer
  split
  · exact waitOk_sendStopCommand ..
  · next hidle =>
    split
    · exact h
    · have hr := g.remembers_enterWaiting prev
      dsimp only
      split
      · exact hr.waitOk_setBuffering _ _ _
      · exact hr.waitOk_handleBufferMatched hidle _ _

theorem Remembers.waitOk_handleReadyResuming (h : g.Remembers) (sessionId : String)
    (report : ReadyReport) (delayTicks : Int) (now : Clock) :
    (g.handleReadyResuming sessionId report delayTicks now).1.WaitOk := by
  have hset := h.waitOk_setBuffering sessionId false now
  unfold handleReadyResuming
  dsimp only
  split_ifs
  · exact h.waitOk_correctClient _ _
  · exact hset
  · exact waitOk_setState _ (by decide)

theorem Remembers.waitOk_handleReadySettling (h : g.Remembers) (sessionId : String)
    (requestTicks : Int) (now : Clock) :
    (g.handleReadySettling sessionId requestTicks now).1.WaitOk := by
  have hset := h.waitOk_setBuffering sessionId false now
  have hpaused := (g.setBuffering sessionId false now).waitOk_setState (s := .paused) (by decide)
  unfold handleReadySettling
  dsimp only
  split_ifs
  · exact h.waitOk_correctClient _ _
  · exact hset
  · split
    · exact hpaused.congr rfl rfl rfl rfl rfl
    · exact hpaused
    · exact hpaused

theorem WaitOk.handleReady (h : g.WaitOk) (sessionId : String) (report : ReadyReport)
    (now : Clock) : (g.handleReady g.state sessionId report now).1.WaitOk := by
  cases hs : g.state with
  | idle => exact waitOk_sendStopCommand ..
  | waiting =>
    unfold Group.handleReady
    dsimp only
    split_ifs
    · exact h.toRemembers.waitOk_setBuffering _ _ _
    · exact h.toRemembers.waitOk_handleReadyResuming ..
    · exact h.toRemembers.waitOk_handleReadySettling ..
  | paused => exact h
  | playing => exact h

theorem WaitOk.releaseWait (h : g.WaitOk) (now : Clock) : (g.releaseWait now).1.WaitOk := by
  unfold Group.releaseWait
  split_ifs
  · exact h
  · exact waitOk_startPlaying ..
  · exact waitOk_setState _ (by decide)

/-! ### The steps -/

/-- The request is a queue step that the state machine drops, in a group that does
not wait yet but has a member flagged as buffering. -/
def SkipsDeadline (g : Group) : PlaybackRequest → Prop
  | .nextItem id | .previousItem id =>
    g.state ≠ .waiting ∧ id ≠ g.queue.playingItemId ∧ g.isBuffering = true
  | _ => False

instance (g : Group) (request : PlaybackRequest) : Decidable (g.SkipsDeadline request) := by
  apply request.casesOn (motive := fun request => Decidable (g.SkipsDeadline request)) <;>
    intros <;> dsimp only [SkipsDeadline] <;> infer_instance

theorem WaitOk.handle_iff (h : g.WaitOk) (sessionId : String) (request : PlaybackRequest)
    (draws : Draws) (now : Clock) :
    (g.handle sessionId request draws now).1.WaitOk ↔ ¬ g.SkipsDeadline request := by
  have hstep : ∀ id forward, (g.handleQueueStep g.state id forward now).1.WaitOk ↔
      ¬ (g.state ≠ .waiting ∧ id ≠ g.queue.playingItemId ∧ g.isBuffering = true) := by
    intro id forward
    by_cases hid : id = g.queue.playingItemId
    · exact iff_of_true (g.waitOk_handleQueueStep g.state hid forward now) fun hskip =>
        hskip.2.1 hid
    · rw [h.handleQueueStep_iff hid]
      simp [hid]
  cases request with
  | nextItem id => exact hstep id true
  | previousItem id => exact hstep id false
  | play => exact iff_of_true (g.waitOk_handlePlay ..) not_false
  | setPlaylistItem => exact iff_of_true (g.waitOk_handleSetPlaylistItem ..) not_false
  | removeFromPlaylist => exact iff_of_true (h.handleRemoveFromPlaylist ..) not_false
  | movePlaylistItem => exact iff_of_true (h.handleMovePlaylistItem ..) not_false
  | queue => exact iff_of_true (h.handleQueue ..) not_false
  | unpause => exact iff_of_true (h.handleUnpause now) not_false
  | pause => exact iff_of_true (h.handlePause now) not_false
  | stop => exact iff_of_true (g.waitOk_sendStopCommand ..) not_false
  | seek => exact iff_of_true (g.waitOk_handleSeek ..) not_false
  | buffer => exact iff_of_true (h.handleBuffer ..) not_false
  | ready => exact iff_of_true (h.handleReady ..) not_false
  | setRepeatMode => exact iff_of_true (h.congr rfl rfl rfl rfl rfl) not_false
  | setShuffleMode => exact iff_of_true (h.congr rfl rfl rfl rfl rfl) not_false
  | ping => exact iff_of_true h not_false
  | ignoreWait =>
    refine iff_of_true ?_ not_false
    show (g.handleIgnoreWait g.state now).1.WaitOk
    unfold handleIgnoreWait
    split
    · exact h
    · exact h.releaseWait now

theorem isBuffering_updateMember (sessionId : String) {f : GroupMember → GroupMember}
    (hf : ∀ m, (f m).blocks = m.blocks) :
    (g.updateMember sessionId f).isBuffering = g.isBuffering := by
  have hmap := map_modifyFirst (p := fun m : GroupMember => m.sessionId == sessionId)
    (fun m _ => hf m) g.members
  have hany : ∀ l : List GroupMember, l.any (·.blocks) = (l.map (·.blocks)).any fun b => b := by
    intro l
    simp [Function.comp_def]
  rw [isBuffering, isBuffering, hany, hany]
  exact congrArg (fun l : List Bool => l.any fun b => b) hmap

theorem WaitOk.applyToMember (h : g.WaitOk) (sessionId : String) (request : PlaybackRequest)
    (now : Clock) : (g.applyToMember sessionId request now).WaitOk := by
  unfold Group.applyToMember
  split
  · next ping =>
    have hb := isBuffering_updateMember (g := g) sessionId
      (f := fun m => { m with pingMs := max 0 (min ping maxPingMs) }) fun _ => rfl
    refine ⟨⟨h.initial, h.forgotten⟩, ?_⟩
    rw [hb]
    exact h.deadline
  · exact h.toRemembers.waitOk_members _ _ _
  · exact h

/-- **A request keeps the wait right unless it skips the deadline.** -/
theorem WaitOk.applyRequest_iff (h : g.WaitOk) (sessionId : String) (request : PlaybackRequest)
    (runtimes : List (Uuid × Int)) (draws : Draws) (now : Clock) :
    (g.applyRequest sessionId request runtimes draws now).1.WaitOk ↔
      ¬ g.SkipsDeadline request := by
  have hpre : ((g.applyToMember sessionId request now).extendItemRuntimes runtimes).WaitOk :=
    (h.applyToMember sessionId request now).congr rfl rfl rfl rfl rfl
  rw [applyRequest, hpre.handle_iff]
  cases request <;> exact Iff.rfl

theorem waitOk_sessionJoined (g : Group) (sessionId : String) (now : Clock) :
    (g.sessionJoined sessionId now).1.WaitOk := by
  unfold sessionJoined
  dsimp only
  split
  · exact waitOk_sendStopCommand ..
  · exact (remembers_enterWaiting _ _).waitOk_setBuffering _ _ _

theorem WaitOk.leave (h : g.WaitOk) (sessionId : String) (now : Clock) :
    (g.leave sessionId now).WaitOk := by
  refine Remembers.waitOk_removeMember ?_ sessionId now
  unfold sessionLeaving
  split
  · exact h.toRemembers
  · exact ((h.toRemembers.waitOk_setBuffering _ _ _).releaseWait now).toRemembers

theorem WaitOk.handleGroupWaitTimeout (h : g.WaitOk) (now : Clock) :
    (g.handleGroupWaitTimeout now).1.WaitOk := by
  unfold Group.handleGroupWaitTimeout
  cases hd : g.waitDeadline with
  | none => exact h
  | some deadline =>
    obtain ⟨hs, hb⟩ := h.deadline.mp (by rw [hd]; rfl)
    dsimp only
    split
    · exact h
    · split
      · next hne => exact absurd hs hne
      split
      · next hnil =>
        obtain ⟨m, hm, hblocks⟩ := List.any_eq_true.mp hb
        have hmem : m ∈ g.members.filter (·.blocks) := List.mem_filter.mpr ⟨hm, hblocks⟩
        rw [show g.members.filter (·.blocks) = [] from hnil] at hmem
        cases hmem
      · split
        · next hr =>
          unfold Group.handleUnpause
          dsimp only
          rw [if_pos hr]
          exact (waitOk_setState _ (s := .playing) (by decide)).congr rfl rfl rfl rfl rfl
        · exact waitOk_setState _ (by decide)

def StepSkips (g : Group) : GroupStep → Prop
  | .request _ request _ _ _ => g.SkipsDeadline request
  | _ => False

/-- **A step of a group keeps the wait right unless it skips the deadline.** -/
theorem WaitOk.apply_iff (h : g.WaitOk) (s : GroupStep) :
    (g.apply s).WaitOk ↔ ¬ g.StepSkips s := by
  cases s with
  | request => exact h.applyRequest_iff ..
  | join => exact iff_of_true (waitOk_sessionJoined ..) not_false
  | leave => exact iff_of_true (h.leave ..) not_false
  | sweep => exact iff_of_true (h.handleGroupWaitTimeout ..) not_false

theorem waitOk_founded (m : Manager) (gid : Uuid) (session : SyncPlaySession) (name : String)
    (nowPlaying : Option (SyncPlayNowPlaying × List (Uuid × Int))) (fresh : Nat → Uuid)
    (now : Clock) : (founded m gid session name nowPlaying fresh now).WaitOk :=
  waitOk_sessionJoined ..

end Group

/-! ### Every run -/

/-- The event makes the state machine drop a queue step of a group that does not
wait yet but has a member flagged as buffering. -/
def World.SkipsDeadline (w : World) : Event → Prop
  | .requestResume index .. => ∃ task ∈ w.requests[index]?,
      ∃ g ∈ w.registry.groupOf task.session.sessionId, g.SkipsDeadline task.request
  | _ => False

instance (w : World) (e : Event) : Decidable (w.SkipsDeadline e) :=
  match e with
  | .requestResume index .. => inferInstanceAs (Decidable (∃ task ∈ w.requests[index]?,
      ∃ g ∈ w.registry.groupOf task.session.sessionId, g.SkipsDeadline task.request))
  | .newGroup .. | .joinGroup .. | .joinResume .. | .leaveGroup .. | .handleRequest ..
  | .sweep .. => inferInstanceAs (Decidable False)

theorem Group.SkipsDeadline.incoming {g : Group} {request : PlaybackRequest}
    (h : g.SkipsDeadline request) : Registry.incoming request = [] := by
  cases request <;> first | rfl | exact h.elim

theorem World.Performs.skipsDeadline {m : Manager} {w : World} {e : Event} {gid : Uuid}
    {g : Group} {s : GroupStep} (hs : w.Performs m e gid s)
    (hg : w.registry.groups.lookup gid = some g) (hskip : g.StepSkips s) : w.SkipsDeadline e := by
  cases hs with
  | request ht hgroup =>
    refine ⟨_, ht, g, ?_, hskip⟩
    rw [Registry.groupOf, hgroup]
    exact hg
  | join => exact hskip.elim
  | leave => exact hskip.elim
  | sweep => exact hskip.elim

theorem World.not_waitOk_of_skipsDeadline {m : Manager} {userOf : String → Uuid} {w w' : World}
    {e : Event} (h : w.Consistent userOf)
    (hwait : ∀ gid g, w.registry.groups.lookup gid = some g → g.WaitOk)
    (hs : (syncPlay m userOf).step w e = some w') (hskip : w.SkipsDeadline e) :
    ∃ gid g, w'.registry.groups.lookup gid = some g ∧ ¬ g.WaitOk := by
  change World.step m userOf w e = some w' at hs
  unfold World.step at hs
  split at hs
  case isFalse => cases hs
  case isTrue =>
  cases e with
  | requestResume index fault runtimes draws now =>
    obtain ⟨task, ht, rfl⟩ := Option.map_eq_some_iff.mp hs
    obtain ⟨task', ht', g, hgroup, hskip⟩ := hskip
    rw [ht] at ht'
    cases ht'
    obtain ⟨gid, hl, hg⟩ := Option.bind_eq_some_iff.mp hgroup
    have hnone : task.checkedMembers = none := by
      rw [h.checked task (List.mem_of_getElem? ht), hskip.incoming]
      rfl
    refine ⟨gid, (g.applyRequest task.session.sessionId task.request runtimes draws now).1, ?_, ?_⟩
    · have hrefused : Registry.requestRefused m task fault = false := by
        rw [Registry.requestRefused, hnone]
        rfl
      simp only [Registry.requestCommit, hrefused, hl, hg, hnone]
      exact AList.lookup_insert _
    · rw [(hwait gid g hg).applyRequest_iff]
      exact not_not.mpr hskip
  | newGroup => exact hskip.elim
  | joinGroup => exact hskip.elim
  | joinResume => exact hskip.elim
  | leaveGroup => exact hskip.elim
  | handleRequest => exact hskip.elim
  | sweep => exact hskip.elim

/-- **The memory of a group wait.**  While no event skips the deadline, every group
has a deadline exactly while it waits on a member, remembers the state it started
to wait in, and forgets it all with the wait.  An event that skips the deadline
breaks it at once. -/
theorem group_wait_memory {m : Manager} {userOf : String → Uuid} {w : World}
    (h : (syncPlay m userOf).Reaches (fun w e => ¬ w.SkipsDeadline e) w) :
    (∀ gid g, w.registry.groups.lookup gid = some g → g.WaitOk) ∧
    ∀ e w', (syncPlay m userOf).step w e = some w' → w.SkipsDeadline e →
      ∃ gid g, w'.registry.groups.lookup gid = some g ∧ ¬ g.WaitOk := by
  have hwait : ∀ gid g, w.registry.groups.lookup gid = some g → g.WaitOk :=
    World.forall_groups_of_reaches h (Group.waitOk_founded m)
      fun w e gid g s _ hok hperf hg hP =>
        (hP.apply_iff s).mpr fun hskip => hok (hperf.skipsDeadline hg hskip)
  exact ⟨hwait, fun e w' hs hskip =>
    World.not_waitOk_of_skipsDeadline (World.consistent_of_reachable h.reachable) hwait hs hskip⟩

/-- A session plays an item, which flags it as buffering, and stops. -/
def staleFlagRun : List Event :=
  [.newGroup ⟨"tv", 1, "alice"⟩ "film" none 7 (fun _ => 0) ⟨0, 0⟩,
    .handleRequest ⟨"tv", 1, "alice"⟩ (.play [5] 0 0),
    .requestResume 0 (fun _ => false) [] ⟨fun i => 100 + i, fun _ => 0⟩ ⟨0, 0⟩,
    .handleRequest ⟨"tv", 1, "alice"⟩ .stop,
    .requestResume 0 (fun _ => false) [] ⟨fun _ => 0, fun _ => 0⟩ ⟨0, 0⟩]

def staleNextRun : List Event :=
  staleFlagRun ++ [Event.handleRequest ⟨"tv", 1, "alice"⟩ (.nextItem 99),
    .requestResume 0 (fun _ => false) [] ⟨fun _ => 0, fun _ => 0⟩ ⟨0, 0⟩]

theorem group_wait_memory_stale_flag :
    ∃ w, (syncPlay {} fun _ => 1).runWhile (fun w e => ¬ w.SkipsDeadline e) {} staleFlagRun =
        some w ∧
      (∀ gid g, w.registry.groups.lookup gid = some g → g.WaitOk) ∧
      ∀ e w', (syncPlay {} fun _ => 1).step w e = some w' → w.SkipsDeadline e →
        ∃ gid g, w'.registry.groups.lookup gid = some g ∧ ¬ g.WaitOk :=
  ⟨_, rfl, group_wait_memory (Machine.path_of_runWhile (M := syncPlay {} fun _ => 1)
    staleFlagRun rfl)⟩

/-- **A group may wait for ever**: after `staleNextRun` it waits on a member and has
no deadline. -/
theorem group_wait_memory_fails :
    ¬ ∀ w, (syncPlay {} fun _ => 1).Reachable w →
      ∀ gid g, w.registry.groups.lookup gid = some g → g.WaitOk := by
  intro h
  obtain ⟨w, hw⟩ : ∃ w, (syncPlay {} fun _ => 1).run {} staleNextRun = some w :=
      Option.isSome_iff_exists.mp (by decide +kernel)
  have hg : (w.registry.groups.lookup 7).map (fun g => (g.state, g.isBuffering, g.waitDeadline)) =
      some (.waiting, true, none) := by
    cases hw
    rfl
  obtain ⟨g, hlookup, heq⟩ := Option.map_eq_some_iff.mp hg
  simp only [Prod.mk.injEq] at heq
  have hdeadline := (h w (Machine.reachable_of_run staleNextRun hw) 7 g hlookup).deadline.mpr
    ⟨heq.1, heq.2.1⟩
  rw [heq.2.2] at hdeadline
  cases hdeadline

end Ferrofin.SyncPlay
