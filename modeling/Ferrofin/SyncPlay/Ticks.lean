import Ferrofin.SyncPlay.GroupStart

/-!
# The arithmetic of positions

The position of a group is an `i64` of ticks.  `Group.tickOps` lists what the
additions, subtractions and absolute values of a step come to before they are cut
down to an `i64`; `Group.stored` lists the positions a step takes over from
outside or sets to 0.
-/

namespace Ferrofin.SyncPlay

open Lib

/-! ### Ticks -/

theorem i64_of_fits {x : Int} (h : FitsI64 x) : i64 x = x := by
  obtain ⟨h1, h2⟩ := h
  rw [i64]
  simp only [Int.bmod_def]
  omega

theorem absI64_of_fits {x : Int} (h : FitsI64 x) (hmin : x ≠ -2 ^ 63) : absI64 x = x.natAbs := by
  obtain ⟨h1, h2⟩ := h
  exact i64_of_fits ⟨by omega, by omega⟩

theorem tdiv_mul_le {d : Int} (h : 0 ≤ d) {k : Int} (hk : 0 < k) :
    0 ≤ d.tdiv k ∧ d.tdiv k * k ≤ d := by
  refine ⟨Int.tdiv_nonneg h hk.le, ?_⟩
  rw [Int.tdiv_eq_ediv_of_nonneg h]
  exact Int.ediv_mul_le d hk.ne'

theorem durationTicks_le {d : Int} (h : 0 ≤ d) :
    0 ≤ durationTicks d ∧ 100 * durationTicks d ≤ d := by
  have h1 := tdiv_mul_le h (k := 100) (by decide)
  have h2 := tdiv_mul_le h (k := 1000) (by decide)
  have h3 := tdiv_mul_le h (k := nanosPerMs) (by decide)
  unfold durationTicks
  split
  · omega
  split
  · rw [saturateI64]
    omega
  · rw [saturateI64]
    simp only [nanosPerMs, ticksPerMs] at h3 ⊢
    omega

theorem durationTicks_nonpos {d : Int} (h : d ≤ 0) : durationTicks d ≤ 0 := by
  have htdiv : ∀ k : Int, 0 < k → d.tdiv k ≤ 0 := fun k hk => by
    have := Int.tdiv_nonneg (a := -d) (by omega) hk.le
    rw [Int.neg_tdiv] at this
    omega
  have h1 := htdiv 100 (by decide)
  have h2 := htdiv 1000 (by decide)
  have h3 := htdiv nanosPerMs (by decide)
  unfold durationTicks
  split
  · exact h1
  split
  · rw [saturateI64]
    omega
  · rw [saturateI64]
    simp only [ticksPerMs]
    omega

/-- The instants of a `DateTime`, from the year 1 to the year 9999. -/
def InDateTime (t : Int) : Prop := -62135596800 * 10 ^ 9 ≤ t ∧ t < 253402300800 * 10 ^ 9

instance (t : Int) : Decidable (InDateTime t) := inferInstanceAs (Decidable (_ ∧ _))

/-- Two such instants are fewer ticks apart than an `i64` holds. -/
theorem durationTicks_inDateTime {t u : Int} (ht : InDateTime t) (hu : InDateTime u) :
    (durationTicks (t - u)).natAbs < 2 ^ 62 := by
  obtain ⟨ht1, ht2⟩ := ht
  obtain ⟨hu1, hu2⟩ := hu
  have hd : (t - u).natAbs < 315537897600 * 10 ^ 9 := by omega
  generalize t - u = d at hd ⊢
  have h1 : (d.tdiv 100).natAbs = d.natAbs / 100 := Int.natAbs_tdiv d 100
  have h2 : (d.tdiv 1000).natAbs = d.natAbs / 1000 := Int.natAbs_tdiv d 1000
  have h3 : (d.tdiv nanosPerMs).natAbs = d.natAbs / 1000000 := Int.natAbs_tdiv d nanosPerMs
  unfold durationTicks
  split
  · omega
  split
  · rw [saturateI64]
    omega
  · rw [saturateI64]
    simp only [ticksPerMs]
    omega

namespace Group

variable {g : Group}

theorem elapsedTicks_le (g : Group) (now : Clock) :
    0 ≤ g.elapsedTicks now ∧ 100 * g.elapsedTicks now ≤ max 0 (now.utc - g.lastActivity) := by
  unfold elapsedTicks
  by_cases h : 0 ≤ now.utc - g.lastActivity
  · have := durationTicks_le h
    omega
  · have := durationTicks_nonpos (Int.le_of_not_le h)
    omega

/-! ### The operations -/

/-- `advance_position`. -/
def advanceOps (g : Group) (now : Clock) : List Int := [g.positionTicks + g.elapsedTicks now]

def playQueueOps (g : Group) (now : Clock) : List Int :=
  if g.state = .playing then [g.positionTicks + g.elapsedTicks now] else []

/-- `handle_ready` of a waiting group, for a client on the playing item; the last sum
is made when the group settles into `Paused`. -/
def readyOps (g : Group) (report : ReadyReport) (now : Clock) : List Int :=
  let elapsedTicks := durationTicks (now.utc - report.when)
  let requestTicks := g.sanitizePositionTicks report.positionTicks
  let reported := requestTicks + reportElapsedTicks report now
  let delayTicks := i64 (g.positionTicks - i64 reported)
  [(elapsedTicks.natAbs : Int), reported, g.positionTicks - i64 reported] ++
    if g.resumePlaying then [(delayTicks.natAbs : Int)]
    else
      [g.positionTicks - requestTicks, ((i64 (g.positionTicks - requestTicks)).natAbs : Int)] ++
        if g.initialState = some .playing then g.advanceOps now else []

def removed (g : Group) (ids : List Uuid) (clearPlaylist clearPlayingItem : Bool) (now : Clock) :
    Group :=
  if clearPlaylist then
    let g := g.setQueue (g.queue.clear clearPlayingItem)
    if clearPlayingItem then g.restartCurrentItem now else g
  else
    let (queue, removed) := g.queue.remove ids
    let g := g.setQueue queue
    if removed then g.restartCurrentItem now else g

/-- The operations on ticks of a request, each before it is cut down to an `i64`.
The requests that change the playing item, Seek and Unpause announce the queue of a
group that waits, which takes no sum. -/
def requestOps (g : Group) (request : PlaybackRequest) (now : Clock) : List Int :=
  match request with
  | .removeFromPlaylist ids clearPlaylist clearPlayingItem =>
    (g.removed ids clearPlaylist clearPlayingItem now).playQueueOps now
  | .movePlaylistItem id newIndex =>
    if (g.queue.moveItem id newIndex).2 then g.playQueueOps now else []
  | .queue itemIds _ => if itemIds.isEmpty then [] else g.playQueueOps now
  | .setRepeatMode _ | .setShuffleMode _ => g.playQueueOps now
  | .pause => if g.state = .playing then g.advanceOps now else []
  | .buffer report =>
    if g.state = .playing ∧ ¬ g.ignoreBuffering ∧ report.playlistItemId = g.queue.playingItemId then
      g.advanceOps now
    else []
  | .ready report =>
    if g.state = .waiting ∧ report.playlistItemId = g.queue.playingItemId then g.readyOps report now
    else []
  | .play .. | .setPlaylistItem _ | .nextItem _ | .previousItem _ | .unpause | .stop | .seek _
  | .ping _ | .ignoreWait _ => []

def storedBy (g : Group) (request : PlaybackRequest) : List Int :=
  match request with
  | .play queue position startPositionTicks =>
    if position < 0 ∨ queue = [] ∨ queue.length ≤ position.toNat then [] else [startPositionTicks]
  | .seek positionTicks => if g.state = .idle then [] else [g.sanitizePositionTicks positionTicks]
  | .setPlaylistItem _ | .nextItem _ | .previousItem _ | .removeFromPlaylist .. | .unpause => [0]
  | _ => []

/-- The group a request meets: the member's own change and the run times come first. -/
def prepared (g : Group) (sessionId : String) (request : PlaybackRequest)
    (runtimes : List (Uuid × Int)) (now : Clock) : Group :=
  (g.applyToMember sessionId request now).extendItemRuntimes runtimes

def tickOps (g : Group) : GroupStep → List Int
  | .request sessionId request runtimes _ now =>
    (g.prepared sessionId request runtimes now).requestOps request now
  | .join _ now => if g.state = .playing then g.advanceOps now else []
  | .leave _ _ | .sweep _ => []

def stored (g : Group) : GroupStep → List Int
  | .request sessionId request runtimes _ now =>
    (g.prepared sessionId request runtimes now).storedBy request
  | .join _ _ | .leave _ _ | .sweep _ => []

/-! ### What a step does to the position -/

inductive TickStep (g : Group) (now : Clock) (ops stored : List Int) (g' : Group) : Prop
  | kept (hpos : g'.positionTicks = g.positionTicks)
      (hactive : g'.lastActivity = g.lastActivity ∨ now.utc ≤ g'.lastActivity)
  | advanced (hop : g.positionTicks + g.elapsedTicks now ∈ ops)
      (hpos : g'.positionTicks = i64 (g.positionTicks + g.elapsedTicks now))
      (hactive : now.utc ≤ g'.lastActivity)
  | stored (hpos : g'.positionTicks ∈ stored) (hactive : now.utc ≤ g'.lastActivity)

theorem tickStep_refl (now : Clock) (ops stored : List Int) : g.TickStep now ops stored g :=
  .kept rfl (.inl rfl)

theorem TickStep.congr {now : Clock} {ops stored : List Int} {g' g'' : Group}
    (h : g.TickStep now ops stored g') (hpos : g''.positionTicks = g'.positionTicks)
    (hactive : g''.lastActivity = g'.lastActivity) : g.TickStep now ops stored g'' := by
  cases h with
  | kept h1 h2 => exact .kept (hpos.trans h1) (by rw [hactive]; exact h2)
  | advanced h1 h2 h3 => exact .advanced h1 (hpos.trans h2) (by rw [hactive]; exact h3)
  | stored h1 h2 => exact .stored (by rw [hpos]; exact h1) (by rw [hactive]; exact h2)

theorem TickStep.of_eq {now : Clock} {ops stored : List Int} {g₀ g' : Group}
    (h : g₀.TickStep now ops stored g') (hpos : g₀.positionTicks = g.positionTicks)
    (hactive : g₀.lastActivity = g.lastActivity) : g.TickStep now ops stored g' := by
  have helapsed : g₀.elapsedTicks now = g.elapsedTicks now := by
    rw [elapsedTicks, elapsedTicks, hactive]
  cases h with
  | kept h1 h2 => exact .kept (h1.trans hpos) (by rw [← hactive]; exact h2)
  | advanced h1 h2 h3 =>
    rw [hpos, helapsed] at h1 h2
    exact .advanced h1 h2 h3
  | stored h1 h2 => exact .stored h1 h2

theorem tickStep_handlePlay (fresh : Nat → Uuid) (prev : GroupStateType) (queue : List Uuid)
    (position start : Int) (now : Clock) (ops : List Int) :
    g.TickStep now ops (g.storedBy (.play queue position start))
      (g.handlePlay fresh prev queue position start now).1 := by
  unfold handlePlay
  dsimp only
  split
  · exact .kept rfl (.inl rfl)
  · next hrange =>
    refine .stored ?_ ?_
    · have hstored : g.storedBy (.play queue position start) = [start] := by
        simp only [Bool.or_eq_true, decide_eq_true_eq, List.isEmpty_iff] at hrange
        rw [storedBy, if_neg (by tauto)]
      simp [hstored, setAllBuffering]
    · simp [setAllBuffering]

theorem tickStep_handleSetPlaylistItem (prev : GroupStateType) (id : Uuid) (now : Clock)
    (ops : List Int) : g.TickStep now ops [0] (g.handleSetPlaylistItem prev id now).1 := by
  unfold handleSetPlaylistItem
  dsimp only
  split
  · exact .stored (List.mem_singleton.mpr rfl) le_rfl
  · exact .stored (by simp [setAllBuffering]) (by simp [setAllBuffering])

theorem tickStep_handleQueueStep (prev : GroupStateType) (id : Uuid) (forward : Bool)
    (now : Clock) (ops : List Int) :
    g.TickStep now ops [0] (g.handleQueueStep prev id forward now).1 := by
  unfold handleQueueStep
  dsimp only
  split
  · exact .kept rfl (.inl rfl)
  · generalize (if forward then _ else _ : PlayQueue × Bool) = moved
    split
    · exact .kept rfl (.inl rfl)
    · exact .stored (by simp [setAllBuffering]) (by simp [setAllBuffering])

theorem tickStep_handleRemoveFromPlaylist (prev : GroupStateType) (ids : List Uuid)
    (clearPlaylist clearPlayingItem : Bool) (now : Clock) (ops : List Int) :
    g.TickStep now ops [0]
      (g.handleRemoveFromPlaylist prev ids clearPlaylist clearPlayingItem now).1 := by
  unfold handleRemoveFromPlaylist
  dsimp only
  split_ifs <;>
    first
    | exact .stored (List.mem_singleton.mpr rfl) le_rfl
    | exact .kept rfl (.inl rfl)

theorem tickStep_handleUnpause (prev : GroupStateType) (now : Clock) (ops : List Int) :
    g.TickStep now ops [0] (g.handleUnpause prev now).1 := by
  cases prev with
  | idle => exact .stored (by simp [handleUnpause, setAllBuffering]) (by
      simp [handleUnpause, setAllBuffering])
  | waiting =>
    unfold handleUnpause
    dsimp only
    split
    · refine .kept ?_ (.inr ?_)
      · simp [setAllBuffering]
      · exact le_unpauseWhen _ now
    · exact .kept rfl (.inl rfl)
  | paused => exact .kept rfl (.inr (le_unpauseWhen _ now))
  | playing => exact .kept rfl (.inl rfl)

theorem tickStep_advancePosition (now : Clock) {ops : List Int} (stored : List Int)
    (hops : ∀ x ∈ g.advanceOps now, x ∈ ops) :
    g.TickStep now ops stored ((g.advancePosition now).setLastActivity now.utc) :=
  .advanced (hops _ (List.mem_singleton.mpr rfl)) rfl le_rfl

theorem tickStep_handlePause (now : Clock) (stored : List Int) :
    g.TickStep now (g.requestOps .pause now) stored (g.handlePause g.state now).1 := by
  cases hs : g.state with
  | idle => exact .kept rfl (.inl rfl)
  | waiting => exact .kept rfl (.inl rfl)
  | paused => exact .kept rfl (.inl rfl)
  | playing =>
    refine (tickStep_advancePosition now stored fun x hx => ?_).congr rfl rfl
    rw [requestOps, if_pos hs]
    exact hx

theorem tickStep_handleSeek (positionTicks : Int) (now : Clock) (ops : List Int) :
    g.TickStep now ops (g.storedBy (.seek positionTicks))
      (g.handleSeek g.state positionTicks now).1 := by
  unfold handleSeek
  split
  · exact .kept rfl (.inl rfl)
  · next hidle =>
    have hsanitize : ((g.enterWaiting g.state).resumePlayingFrom g.state).sanitizePositionTicks
        positionTicks = g.sanitizePositionTicks positionTicks := by
      cases g.state <;> rfl
    refine .stored ?_ ?_
    · rw [storedBy, if_neg hidle]
      simp [setAllBuffering, hsanitize]
    · simp [setAllBuffering]

theorem tickStep_handleBuffer (sessionId : String) (report : ReadyReport) (now : Clock)
    (stored : List Int) :
    g.TickStep now (g.requestOps (.buffer report) now) stored
      (g.handleBuffer g.state sessionId report.playlistItemId now).1 := by
  unfold handleBuffer
  split
  · exact .kept rfl (.inl rfl)
  split
  · exact .kept rfl (.inl rfl)
  · next hignored =>
    dsimp only
    split
    · exact .kept (by simp [setBuffering, updateMember])
        (.inl (by simp [setBuffering, updateMember]))
    · next hid =>
      cases hs : g.state with
      | playing =>
        have hops : g.requestOps (.buffer report) now = g.advanceOps now := by
          rw [requestOps, if_pos ⟨hs, fun hi => hignored ⟨hs, hi⟩, not_not.mp hid⟩]
        rw [hops]
        -- the member is flagged first, which changes neither the position nor the clock
        have hkept : (((g.enterWaiting .playing).setResumePlaying true).setBuffering
            sessionId true now).advanceOps now = g.advanceOps now := by
          simp [advanceOps, elapsedTicks, setBuffering, updateMember]
        have hadvanced := tickStep_advancePosition now stored fun x hx => hkept ▸ hx
        exact (hadvanced.congr rfl rfl).of_eq (by simp [setBuffering, updateMember])
          (by simp [setBuffering, updateMember])
      | idle => exact .kept rfl (.inl rfl)
      | waiting =>
        refine .kept ?_ (.inl ?_) <;> simp [handleBufferMatched, setBuffering, updateMember]
      | paused =>
        refine .kept ?_ (.inl ?_) <;> simp [handleBufferMatched, setBuffering, updateMember]

theorem tickStep_handleReadyResuming (hp : g.PingsOk) (sessionId : String) (report : ReadyReport)
    (delayTicks : Int) (now : Clock) (ops stored : List Int) :
    g.TickStep now ops stored (g.handleReadyResuming sessionId report delayTicks now).1 := by
  unfold handleReadyResuming
  dsimp only
  split
  · exact .kept (by simp [correctClient, setBuffering, updateMember])
      (.inl (by simp [correctClient, setBuffering, updateMember]))
  split
  · exact .kept (by simp [setBuffering, updateMember])
      (.inl (by simp [setBuffering, updateMember]))
  · exact .kept (by simp [setBuffering, updateMember])
      (.inr (le_resumeTarget (hp.of_settled (g.settled_setBuffering sessionId false now)) ..))

theorem tickStep_handleReadySettling (sessionId : String) (requestTicks : Int) (now : Clock)
    {ops : List Int} (stored : List Int)
    (hops : g.initialState = some .playing → ∀ x ∈ g.advanceOps now, x ∈ ops) :
    g.TickStep now ops stored (g.handleReadySettling sessionId requestTicks now).1 := by
  unfold handleReadySettling
  dsimp only
  split
  · exact .kept (by simp [correctClient, setBuffering, updateMember])
      (.inl (by simp [correctClient, setBuffering, updateMember]))
  split
  · exact .kept (by simp [setBuffering, updateMember])
      (.inl (by simp [setBuffering, updateMember]))
  · split
    · next hinitial =>
      have hi : g.initialState = some .playing := by
        simpa [setBuffering, updateMember] using hinitial
      have hkept : ((g.setBuffering sessionId false now).setState .paused).advanceOps now =
          g.advanceOps now := by
        simp [advanceOps, elapsedTicks, setBuffering, updateMember]
      exact (tickStep_advancePosition now stored fun x hx => hops hi x (hkept ▸ hx)).of_eq
        (by simp [setBuffering, updateMember]) (by simp [setBuffering, updateMember])
    · exact .kept (by simp [setBuffering, updateMember])
        (.inl (by simp [setBuffering, updateMember]))
    · exact .kept (by simp [setBuffering, updateMember])
        (.inl (by simp [setBuffering, updateMember]))

theorem tickStep_handleReady (hp : g.PingsOk) (sessionId : String) (report : ReadyReport)
    (now : Clock) (stored : List Int) :
    g.TickStep now (g.requestOps (.ready report) now) stored
      (g.handleReady g.state sessionId report now).1 := by
  cases hs : g.state with
  | idle => exact .kept rfl (.inl rfl)
  | paused => exact .kept rfl (.inl rfl)
  | playing => exact .kept rfl (.inl rfl)
  | waiting =>
    unfold handleReady
    dsimp only
    split
    · exact .kept (by simp [setBuffering, updateMember])
        (.inl (by simp [setBuffering, updateMember]))
    · next hid =>
      split
      · exact tickStep_handleReadyResuming hp ..
      · next hresume =>
        refine tickStep_handleReadySettling _ _ _ _ fun hinitial x hx => ?_
        rw [requestOps, if_pos ⟨hs, not_not.mp hid⟩, readyOps, if_neg hresume, if_pos hinitial]
        exact List.mem_append_right _ (List.mem_append_right _ hx)

theorem tickStep_releaseWait (now : Clock) (ops stored : List Int) :
    g.TickStep now ops stored (g.releaseWait now).1 := by
  unfold releaseWait
  split
  · exact .kept rfl (.inl rfl)
  split
  · exact .kept rfl (.inr (le_unpauseWhen _ now))
  · exact .kept rfl (.inl rfl)

/-- **What a request does to the position.** -/
theorem tickStep_handle (hp : g.PingsOk) (sessionId : String) (request : PlaybackRequest)
    (draws : Draws) (now : Clock) :
    g.TickStep now (g.requestOps request now) (g.storedBy request)
      (g.handle sessionId request draws now).1 := by
  cases request with
  | play => exact tickStep_handlePlay ..
  | setPlaylistItem => exact tickStep_handleSetPlaylistItem ..
  | removeFromPlaylist => exact tickStep_handleRemoveFromPlaylist ..
  | movePlaylistItem id newIndex =>
    show g.TickStep now _ _ (g.handleMovePlaylistItem id newIndex now).1
    unfold handleMovePlaylistItem
    dsimp only
    split <;> exact .kept rfl (.inl rfl)
  | queue itemIds mode =>
    show g.TickStep now _ _ (g.handleQueue draws.fresh itemIds mode now).1
    unfold handleQueue
    split <;> exact .kept rfl (.inl rfl)
  | unpause => exact tickStep_handleUnpause ..
  | pause => exact tickStep_handlePause ..
  | stop => exact .kept rfl (.inl rfl)
  | seek => exact tickStep_handleSeek ..
  | buffer => exact tickStep_handleBuffer ..
  | ready => exact tickStep_handleReady hp ..
  | nextItem => exact tickStep_handleQueueStep ..
  | previousItem => exact tickStep_handleQueueStep ..
  | setRepeatMode => exact .kept rfl (.inl rfl)
  | setShuffleMode => exact .kept rfl (.inl rfl)
  | ping => exact .kept rfl (.inl rfl)
  | ignoreWait =>
    show g.TickStep now _ _ (g.handleIgnoreWait g.state now).1
    unfold handleIgnoreWait
    split
    · exact .kept rfl (.inl rfl)
    · exact tickStep_releaseWait ..

/-! ### The steps -/

@[simp]
theorem positionTicks_prepared (sessionId : String) (request : PlaybackRequest)
    (runtimes : List (Uuid × Int)) (now : Clock) :
    (g.prepared sessionId request runtimes now).positionTicks = g.positionTicks := by
  rw [prepared, extendItemRuntimes_positionTicks]
  unfold applyToMember
  split <;> simp [updateMember]

@[simp]
theorem lastActivity_prepared (sessionId : String) (request : PlaybackRequest)
    (runtimes : List (Uuid × Int)) (now : Clock) :
    (g.prepared sessionId request runtimes now).lastActivity = g.lastActivity := by
  rw [prepared, extendItemRuntimes_lastActivity]
  unfold applyToMember
  split <;> simp [updateMember]

theorem PingsOk.prepared (hp : g.PingsOk) (sessionId : String) (request : PlaybackRequest)
    (runtimes : List (Uuid × Int)) (now : Clock) :
    (g.prepared sessionId request runtimes now).PingsOk :=
  hp.applyToMember sessionId request now

theorem tickStep_sessionJoined (sessionId : String) (now : Clock) (stored : List Int) :
    g.TickStep now (if g.state = .playing then g.advanceOps now else []) stored
      (g.sessionJoined sessionId now).1 := by
  unfold sessionJoined
  dsimp only
  cases hs : g.state with
  | idle => exact .kept rfl (.inl rfl)
  | playing =>
    rw [if_pos rfl]
    exact (tickStep_advancePosition now stored fun x hx => hx).congr
      (by simp [setBuffering, updateMember, resumePlayingFrom])
      (by simp [setBuffering, updateMember, resumePlayingFrom])
  | waiting => refine .kept ?_ (.inl ?_) <;> simp [setBuffering, updateMember, resumePlayingFrom]
  | paused => refine .kept ?_ (.inl ?_) <;> simp [setBuffering, updateMember, resumePlayingFrom]

theorem tickStep_join (session : SyncPlaySession) (now : Clock) (stored : List Int) :
    g.TickStep now (if g.state = .playing then g.advanceOps now else []) stored
      (g.join session now).1 := by
  have hadd : (g.addMember session).positionTicks = g.positionTicks ∧
      (g.addMember session).lastActivity = g.lastActivity ∧
      (g.addMember session).state = g.state := by
    unfold addMember
    split <;> exact ⟨rfl, rfl, rfl⟩
  obtain ⟨hpos, hactive, hstate⟩ := hadd
  have hops : (g.addMember session).advanceOps now = g.advanceOps now := by
    rw [advanceOps, advanceOps, elapsedTicks, elapsedTicks, hpos, hactive]
  rw [← hops, ← hstate]
  exact (tickStep_sessionJoined session.sessionId now stored).of_eq hpos hactive

theorem tickStep_leave (sessionId : String) (now : Clock) (ops stored : List Int) :
    g.TickStep now ops stored (g.leave sessionId now) := by
  suffices h : g.TickStep now ops stored (g.sessionLeaving sessionId now).1 from
    h.congr (positionTicks_updateGroupWaitDeadline ..) (lastActivity_updateGroupWaitDeadline ..)
  unfold sessionLeaving
  split
  · exact .kept rfl (.inl rfl)
  · exact (tickStep_releaseWait (g := g.setBuffering sessionId false now) now ops stored).of_eq
      (by simp [setBuffering, updateMember]) (by simp [setBuffering, updateMember])

theorem tickStep_handleGroupWaitTimeout (now : Clock) (ops stored : List Int) :
    g.TickStep now ops stored (g.handleGroupWaitTimeout now).1 := by
  unfold handleGroupWaitTimeout
  split
  · exact tickStep_refl ..
  dsimp only
  split
  · exact tickStep_refl ..
  split
  · exact .kept rfl (.inl rfl)
  split
  · exact .kept rfl (.inl rfl)
  · split
    · next hresume =>
      -- the forced Unpause stores nothing
      unfold handleUnpause
      dsimp only
      rw [if_pos hresume]
      exact .kept (by simp [setAllBuffering]) (.inr (le_unpauseWhen _ now))
    · exact .kept (by simp [setAllBuffering]) (.inl (by simp [setAllBuffering]))

/-- **What a step does to the position.** -/
theorem tickStep_apply (hp : g.PingsOk) (s : GroupStep) :
    g.TickStep s.now (g.tickOps s) (g.stored s) (g.apply s) := by
  cases s with
  | request sessionId request runtimes draws now =>
    exact (tickStep_handle (hp.prepared sessionId request runtimes now) sessionId request draws
      now).of_eq (positionTicks_prepared ..) (lastActivity_prepared ..)
  | join session now => exact tickStep_join session now _
  | leave sessionId now => exact tickStep_leave ..
  | sweep now => exact tickStep_handleGroupWaitTimeout ..

/-! ### Staying in range -/

/-- The offset within which a client's clock is trusted, in ticks. -/
def syncTicks : Int := timeSyncOffsetMs * ticksPerMs

def maxTicks : Int := 2 ^ 63 - 1 - syncTicks

/-- A position, or the run time it is clamped to, is at most `limit`. -/
def LimitedTo (g : Group) (limit ticks : Int) : Prop :=
  ticks ≤ limit ∨ ∃ runTime ∈ g.runTimeTicks, runTime ≤ limit

instance (g : Group) (limit ticks : Int) : Decidable (g.LimitedTo limit ticks) :=
  inferInstanceAs (Decidable (_ ∨ _))

/-- The values of a request are in range: an accepted Play starts between 0 and
`limit`, a Seek is limited, and the report of a client on the playing item of a
waiting group shows a `DateTime` and a position that leaves room for the offset. -/
def RequestOk (g : Group) (limit : Int) : PlaybackRequest → Prop
  | .play queue position startPositionTicks =>
    position < 0 ∨ queue = [] ∨ queue.length ≤ position.toNat ∨
      (0 ≤ startPositionTicks ∧ startPositionTicks ≤ limit)
  | .seek positionTicks => g.state = .idle ∨ g.LimitedTo limit positionTicks
  | .ready report => g.state = .waiting → report.playlistItemId = g.queue.playingItemId →
      InDateTime report.when ∧ g.LimitedTo maxTicks report.positionTicks
  | _ => True

instance (g : Group) (limit : Int) (request : PlaybackRequest) :
    Decidable (g.RequestOk limit request) := by
  apply request.casesOn (motive := fun request => Decidable (g.RequestOk limit request)) <;>
    intros <;> dsimp only [RequestOk] <;> infer_instance

def StepOk (g : Group) (limit : Int) : GroupStep → Prop
  | .request sessionId request runtimes _ now =>
    (g.prepared sessionId request runtimes now).RequestOk limit request
  | .join .. | .leave .. | .sweep _ => True

instance (g : Group) (limit : Int) (s : GroupStep) : Decidable (g.StepOk limit s) := by
  unfold StepOk
  split <;> infer_instance

theorem sanitizePositionTicks_nonneg (g : Group) (ticks : Int) :
    0 ≤ g.sanitizePositionTicks ticks := by
  unfold sanitizePositionTicks
  split <;> omega

theorem reportElapsedTicks_le {report : ReadyReport} {now : Clock} (hnow : InDateTime now.utc)
    (hwhen : InDateTime report.when) : (reportElapsedTicks report now).natAbs ≤ syncTicks := by
  have hrange := durationTicks_inDateTime hnow hwhen
  have habs : absI64 (durationTicks (now.utc - report.when)) =
      (durationTicks (now.utc - report.when)).natAbs :=
    absI64_of_fits ⟨by omega, by omega⟩ (by omega)
  unfold reportElapsedTicks
  dsimp only
  split
  · decide
  · next htrusted =>
    rw [habs] at htrusted
    have : ¬ ((durationTicks (now.utc - report.when)).natAbs : Int) > syncTicks :=
      fun h => htrusted (.inl h)
    omega

theorem LimitedTo.sanitize_le {limit ticks : Int} (h : g.LimitedTo limit ticks) (h0 : 0 ≤ limit) :
    g.sanitizePositionTicks ticks ≤ limit := by
  unfold sanitizePositionTicks
  rcases h with h | ⟨runTime, hr, h⟩
  · split <;> omega
  · rw [Option.mem_def.mp hr]
    dsimp only
    omega

theorem forall_mem_ite {p : Int → Prop} {c : Prop} [Decidable c] {ops ops' : List Int}
    (h : c → ∀ x ∈ ops, p x) (h' : ¬ c → ∀ x ∈ ops', p x) : ∀ x ∈ if c then ops else ops', p x := by
  split
  · next hc => exact h hc
  · next hc => exact h' hc

theorem storedBy_mem {limit : Int} (h0 : 0 ≤ limit) {request : PlaybackRequest}
    (hreq : g.RequestOk limit request) : ∀ x ∈ g.storedBy request, 0 ≤ x ∧ x ≤ limit := by
  have hzero : ∀ x ∈ [(0 : Int)], 0 ≤ x ∧ x ≤ limit := fun x hx => by
    rw [List.mem_singleton.mp hx]
    exact ⟨le_rfl, h0⟩
  cases request with
  | play queue position start =>
    refine forall_mem_ite (fun _ x hx => by cases hx) fun hrange x hx => ?_
    rw [List.mem_singleton.mp hx]
    simp only [RequestOk] at hreq
    tauto
  | seek ticks =>
    refine forall_mem_ite (fun _ x hx => by cases hx) fun hidle x hx => ?_
    rw [List.mem_singleton.mp hx]
    exact ⟨g.sanitizePositionTicks_nonneg ticks, (hreq.resolve_left hidle).sanitize_le h0⟩
  | setPlaylistItem => exact hzero
  | nextItem => exact hzero
  | previousItem => exact hzero
  | removeFromPlaylist => exact hzero
  | unpause => exact hzero
  | movePlaylistItem => exact fun x hx => by cases hx
  | queue => exact fun x hx => by cases hx
  | pause => exact fun x hx => by cases hx
  | stop => exact fun x hx => by cases hx
  | buffer => exact fun x hx => by cases hx
  | ready => exact fun x hx => by cases hx
  | setRepeatMode => exact fun x hx => by cases hx
  | setShuffleMode => exact fun x hx => by cases hx
  | ping => exact fun x hx => by cases hx
  | ignoreWait => exact fun x hx => by cases hx

theorem stored_mem {limit : Int} (h0 : 0 ≤ limit) {s : GroupStep} (hs : g.StepOk limit s) :
    ∀ x ∈ g.stored s, 0 ≤ x ∧ x ≤ limit := by
  cases s with
  | request sessionId request runtimes draws now =>
    exact storedBy_mem h0 hs
  | join => exact fun x hx => by cases hx
  | leave => exact fun x hx => by cases hx
  | sweep => exact fun x hx => by cases hx

/-- The position is not negative, and the time since the last activity can be added
to it, with room for the offset. -/
structure TicksOk (g : Group) (now : Clock) : Prop where
  nonneg : 0 ≤ g.positionTicks
  bound : g.positionTicks + g.elapsedTicks now ≤ maxTicks

variable {now : Clock}

theorem TicksOk.congr {g' : Group} (h : g.TicksOk now) (hpos : g'.positionTicks = g.positionTicks)
    (hactive : g'.lastActivity = g.lastActivity) : g'.TicksOk now where
  nonneg := by rw [hpos]; exact h.nonneg
  bound := by rw [elapsedTicks, hpos, hactive]; exact h.bound

theorem TicksOk.fits_advanceOps (h : g.TicksOk now) : ∀ x ∈ g.advanceOps now, FitsI64 x := by
  intro x hx
  have hpos := h.nonneg
  have hbound := h.bound
  have helapsed := (g.elapsedTicks_le now).1
  have hmax : maxTicks ≤ 2 ^ 63 - 1 := by decide
  rw [List.mem_singleton.mp hx]
  exact ⟨by omega, by omega⟩

theorem TicksOk.fits_playQueueOps (h : g.TicksOk now) : ∀ x ∈ g.playQueueOps now, FitsI64 x := by
  unfold playQueueOps
  split
  · exact h.fits_advanceOps
  · exact fun x hx => by cases hx

theorem TicksOk.removed (h : g.TicksOk now) (ids : List Uuid)
    (clearPlaylist clearPlayingItem : Bool) :
    (g.removed ids clearPlaylist clearPlayingItem now).TicksOk now := by
  have hrestart : ∀ g' : Group, (g'.restartCurrentItem now).TicksOk now := fun g' => by
    have hzero : (g'.restartCurrentItem now).elapsedTicks now = 0 := by
      rw [elapsedTicks, restartCurrentItem_lastActivity, Int.sub_self]
      decide
    refine ⟨le_rfl, ?_⟩
    rw [hzero, restartCurrentItem_positionTicks]
    decide
  unfold Group.removed
  dsimp only
  split_ifs
  · exact hrestart _
  · exact h.congr rfl rfl
  · exact hrestart _
  · exact h.congr rfl rfl

theorem TicksOk.fits_readyOps (h : g.TicksOk now) (hnow : InDateTime now.utc)
    {report : ReadyReport} (hwhen : InDateTime report.when)
    (hlimit : g.LimitedTo maxTicks report.positionTicks) :
    ∀ x ∈ g.readyOps report now, FitsI64 x := by
  have hpos := h.nonneg
  have hbound := h.bound
  have hrequest := hlimit.sanitize_le (by decide)
  have hrequest0 := g.sanitizePositionTicks_nonneg report.positionTicks
  have helapsed0 := (g.elapsedTicks_le now).1
  have hrange := durationTicks_inDateTime hnow hwhen
  have hvouched := reportElapsedTicks_le hnow hwhen
  unfold readyOps
  dsimp only
  generalize durationTicks (now.utc - report.when) = elapsed at hrange ⊢
  generalize reportElapsedTicks report now = vouched at hvouched ⊢
  generalize g.sanitizePositionTicks report.positionTicks = request at hrequest hrequest0 ⊢
  simp only [maxTicks, syncTicks, timeSyncOffsetMs, ticksPerMs] at hbound hrequest hvouched
  have hreported : i64 (request + vouched) = request + vouched :=
    i64_of_fits ⟨by omega, by omega⟩
  have hdelay : i64 (g.positionTicks - (request + vouched)) =
      g.positionTicks - (request + vouched) := i64_of_fits ⟨by omega, by omega⟩
  have hdiff : i64 (g.positionTicks - request) = g.positionTicks - request :=
    i64_of_fits ⟨by omega, by omega⟩
  rw [hreported, hdelay, hdiff]
  intro x hx
  rcases List.mem_append.mp hx with hx | hx
  · simp only [List.mem_cons, List.not_mem_nil, or_false] at hx
    rcases hx with rfl | rfl | rfl <;> exact ⟨by omega, by omega⟩
  · split at hx
    · rw [List.mem_singleton.mp hx]
      exact ⟨by omega, by omega⟩
    · rcases List.mem_append.mp hx with hx | hx
      · simp only [List.mem_cons, List.not_mem_nil, or_false] at hx
        rcases hx with rfl | rfl <;> exact ⟨by omega, by omega⟩
      · split at hx
        · exact h.fits_advanceOps x hx
        · cases hx

theorem TicksOk.fits_requestOps (h : g.TicksOk now) (hnow : InDateTime now.utc) {limit : Int}
    {request : PlaybackRequest} (hreq : g.RequestOk limit request) :
    ∀ x ∈ g.requestOps request now, FitsI64 x := by
  have hnil : ∀ x ∈ ([] : List Int), FitsI64 x := fun x hx => by cases hx
  cases request with
  | removeFromPlaylist ids clearPlaylist clearPlayingItem =>
    exact (h.removed ids clearPlaylist clearPlayingItem).fits_playQueueOps
  | movePlaylistItem => exact forall_mem_ite (fun _ => h.fits_playQueueOps) fun _ => hnil
  | queue => exact forall_mem_ite (fun _ => hnil) fun _ => h.fits_playQueueOps
  | setRepeatMode => exact h.fits_playQueueOps
  | setShuffleMode => exact h.fits_playQueueOps
  | pause => exact forall_mem_ite (fun _ => h.fits_advanceOps) fun _ => hnil
  | buffer => exact forall_mem_ite (fun _ => h.fits_advanceOps) fun _ => hnil
  | ready report =>
    exact forall_mem_ite (fun hc => h.fits_readyOps hnow (hreq hc.1 hc.2).1 (hreq hc.1 hc.2).2)
      fun _ => hnil
  | play => exact hnil
  | setPlaylistItem => exact hnil
  | nextItem => exact hnil
  | previousItem => exact hnil
  | unpause => exact hnil
  | stop => exact hnil
  | seek => exact hnil
  | ping => exact hnil
  | ignoreWait => exact hnil

/-- **The operations of a step stay in range.** -/
theorem TicksOk.fits_tickOps {s : GroupStep} (h : g.TicksOk s.now) (hnow : InDateTime s.now.utc)
    {limit : Int} (hs : g.StepOk limit s) : ∀ x ∈ g.tickOps s, FitsI64 x := by
  cases s with
  | request sessionId request runtimes draws now =>
    exact (h.congr (positionTicks_prepared sessionId request runtimes now)
      (lastActivity_prepared ..)).fits_requestOps hnow hs
  | join session now =>
    exact forall_mem_ite (fun _ => h.fits_advanceOps) fun _ x hx => by cases hx
  | leave => exact fun x hx => by cases hx
  | sweep => exact fun x hx => by cases hx

end Group

end Ferrofin.SyncPlay
