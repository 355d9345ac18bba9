import Ferrofin.SyncPlay.StartAgreement
import Ferrofin.SyncPlay.Ticks

/-!
# Positions over a whole run

A Seek and a Ready are clamped, but a Play stores the start it is given and
`new_group` the position its creator shows.  What is stored is later added to the
time since the last activity, so the sums stay in range only if what was stored,
and the way the clock went forward, do.
-/

namespace Ferrofin.SyncPlay

open Lib

/-- How far the clock went forward, and what it showed last. -/
structure Odometer where
  last : Option Int := none
  total : Int := 0

def Odometer.read (o : Odometer) (e : Event) : Odometer :=
  match e.clock with
  | none => o
  | some now => { last := some now.utc, total := o.total + max 0 (now.utc - o.last.getD now.utc) }

theorem Odometer.total_le_read (o : Odometer) (e : Event) : o.total ≤ (o.read e).total := by
  unfold Odometer.read
  split
  · exact le_rfl
  · dsimp only
    omega

namespace Group

variable {g g' : Group} {limit : Int} {o : Odometer}

/-- The position is not negative, and what it is above `limit`, with the time since
the last activity, is at most the way the clock went. -/
structure Tracks (g : Group) (limit : Int) (o : Odometer) : Prop where
  nonneg : 0 ≤ g.positionTicks
  bound : ∃ t ∈ o.last, 100 * (g.positionTicks - limit) + max 0 (t - g.lastActivity) ≤ o.total

theorem Tracks.read (h : g.Tracks limit o) (e : Event) : g.Tracks limit (o.read e) := by
  obtain ⟨t, ht, hbound⟩ := h.bound
  refine ⟨h.nonneg, ?_⟩
  unfold Odometer.read
  split
  · exact ⟨t, ht, hbound⟩
  · next now _ =>
    refine ⟨now.utc, rfl, ?_⟩
    rw [Option.mem_def.mp ht, Option.getD_some]
    dsimp only
    omega

/-- What the clock shows leaves room for the time since the last activity. -/
theorem Tracks.ticksOk {travel : Int} {now : Clock} (h : g.Tracks limit o)
    (hlast : o.last = some now.utc) (htotal : o.total ≤ 100 * travel)
    (hmax : limit + travel ≤ maxTicks) : g.TicksOk now where
  nonneg := h.nonneg
  bound := by
    obtain ⟨t, ht, hbound⟩ := h.bound
    rw [Option.mem_def, hlast] at ht
    cases ht
    have helapsed := (g.elapsedTicks_le now).2
    omega

theorem Tracks.step {now : Clock} {ops stored : List Int} (h : g.Tracks limit o)
    (hlast : o.last = some now.utc) (hok : g.TicksOk now) (htotal : 0 ≤ o.total)
    (hstored : ∀ x ∈ stored, 0 ≤ x ∧ x ≤ limit) (hs : g.TickStep now ops stored g') :
    g'.Tracks limit o := by
  obtain ⟨t, ht, hbound⟩ := h.bound
  have hnonneg := h.nonneg
  rw [Option.mem_def, hlast] at ht
  cases ht
  have helapsed := g.elapsedTicks_le now
  cases hs with
  | kept hpos hactive =>
    refine ⟨by rw [hpos]; exact hnonneg, now.utc, hlast, ?_⟩
    rcases hactive with hactive | hactive
    · rw [hpos, hactive]
      exact hbound
    · rw [hpos]
      omega
  | advanced _ hpos hactive =>
    have hfits : FitsI64 (g.positionTicks + g.elapsedTicks now) :=
      hok.fits_advanceOps _ (List.mem_singleton.mpr rfl)
    rw [i64_of_fits hfits] at hpos
    refine ⟨by omega, now.utc, hlast, ?_⟩
    omega
  | stored hpos hactive =>
    obtain ⟨h0, hle⟩ := hstored _ hpos
    refine ⟨h0, now.utc, hlast, ?_⟩
    omega

def seedTicks (nowPlaying : Option (SyncPlayNowPlaying × List (Uuid × Int))) : Int :=
  (nowPlaying.bind fun np => np.1.positionTicks).getD 0

theorem tracks_founded (m : Manager) (gid : Uuid) (session : SyncPlaySession) (name : String)
    (nowPlaying : Option (SyncPlayNowPlaying × List (Uuid × Int))) (fresh : Nat → Uuid)
    {now : Clock} (hlast : o.last = some now.utc) (htotal : 0 ≤ o.total)
    (h0 : 0 ≤ seedTicks nowPlaying) (hle : seedTicks nowPlaying ≤ limit) :
    (founded m gid session name nowPlaying fresh now).Tracks limit o := by
  have hcreate : (create gid name m.groupWaitTimeout session nowPlaying fresh now).positionTicks =
      seedTicks nowPlaying ∧
      (create gid name m.groupWaitTimeout session nowPlaying fresh now).lastActivity = now.utc ∧
      (create gid name m.groupWaitTimeout session nowPlaying fresh now).state ≠ .playing := by
    cases nowPlaying with
    | none => exact ⟨rfl, rfl, nofun⟩
    | some np => exact ⟨rfl, rfl, nofun⟩
  unfold founded
  generalize create gid name m.groupWaitTimeout session nowPlaying fresh now = g at hcreate ⊢
  obtain ⟨hpos, hactive, hstate⟩ := hcreate
  have hstep := tickStep_sessionJoined (g := g) session.sessionId now []
  rw [if_neg hstate] at hstep
  cases hstep with
  | kept hpos' hactive' =>
    refine ⟨by rw [hpos', hpos]; exact h0, now.utc, hlast, ?_⟩
    rw [hpos', hpos]
    omega
  | advanced hop => cases hop
  | stored hpos' => cases hpos'

end Group

namespace World

variable {m : Manager} {userOf : String → Uuid} {gid : Uuid} {limit travel : Int}

def ValuesOk (gid : Uuid) (limit : Int) (w : World) : Event → Prop
  | .newGroup _ _ nowPlaying gid' _ _ =>
    gid' = gid → 0 ≤ Group.seedTicks nowPlaying ∧ Group.seedTicks nowPlaying ≤ limit
  | .requestResume index _ runtimes draws now => ∀ task ∈ w.requests[index]?,
      w.registry.sessionToGroup.lookup task.session.sessionId = some gid →
        ∀ g ∈ w.registry.groups.lookup gid,
          g.StepOk limit (.request task.session.sessionId task.request runtimes draws now)
  | _ => True

instance (gid : Uuid) (limit : Int) (w : World) (e : Event) :
    Decidable (w.ValuesOk gid limit e) := by
  apply e.casesOn (motive := fun e => Decidable (w.ValuesOk gid limit e)) <;>
    intros <;> dsimp only [ValuesOk] <;> infer_instance

/-- The values are in range, the clock shows a `DateTime`, and it went forward by at
most `travel` ticks so far. -/
structure PositionsOk (gid : Uuid) (limit travel : Int) (s : World × Odometer) (e : Event) :
    Prop where
  values : s.1.ValuesOk gid limit e
  clock : ∀ now ∈ e.clock, InDateTime now.utc
  travel : (s.2.read e).total ≤ 100 * travel

instance (gid : Uuid) (limit travel : Int) (s : World × Odometer) (e : Event) :
    Decidable (PositionsOk gid limit travel s e) :=
  decidable_of_iff (s.1.ValuesOk gid limit e ∧ (∀ now ∈ e.clock, InDateTime now.utc) ∧
      (s.2.read e).total ≤ 100 * travel)
    ⟨fun ⟨h1, h2, h3⟩ => ⟨h1, h2, h3⟩, fun h => ⟨h.values, h.clock, h.travel⟩⟩

theorem PositionsOk.stepOk {s : World × Odometer} {e : Event} {step : GroupStep} {g : Group}
    (h : PositionsOk gid limit travel s e) (hg : s.1.registry.groups.lookup gid = some g)
    (hs : s.1.Performs m e gid step) : g.StepOk limit step := by
  have hvalues := h.values
  cases hs with
  | request ht hgroup => exact hvalues _ ht hgroup _ hg
  | join => trivial
  | leave => trivial
  | sweep => trivial

theorem last_read {w : World} {o : Odometer} {e : Event} {step : GroupStep}
    (hs : w.Performs m e gid step) : (o.read e).last = some step.now.utc := by
  rw [Odometer.read, hs.clock]

/-- In a run whose values and clock are in range, the group keeps up with the clock. -/
theorem tracks_of_reaches {s : World × Odometer} (hlimit : 0 ≤ limit)
    (hmax : limit + travel ≤ Group.maxTicks)
    (h : ((syncPlay m userOf).observed Odometer.read {}).Reaches
      (PositionsOk gid limit travel) s) :
    0 ≤ s.2.total ∧ ∀ g, s.1.registry.groups.lookup gid = some g → g.Tracks limit s.2 := by
  have hinv : (syncPlay m userOf).Reachable s.1 ∧ 0 ≤ s.2.total ∧
      ∀ g, s.1.registry.groups.lookup gid = some g → g.Tracks limit s.2 := by
    refine h.invariant (I := fun s => (syncPlay m userOf).Reachable s.1 ∧ 0 ≤ s.2.total ∧
      ∀ g, s.1.registry.groups.lookup gid = some g → g.Tracks limit s.2) ?_ ?_
    · refine ⟨Machine.Reaches.start, le_rfl, fun g hg => ?_⟩
      simp [Machine.observed, syncPlay] at hg
    · rintro ⟨w, o⟩ e s' ⟨hw, htotal, htracks⟩ hok hs
      obtain ⟨w', hw', rfl⟩ := Option.map_eq_some_iff.mp hs
      have htotal' : 0 ≤ (o.read e).total := htotal.trans (o.total_le_read e)
      refine ⟨hw.next trivial hw', htotal', fun g' hg' => ?_⟩
      cases group_step (consistent_of_reachable hw) hw' hg' with
      | same hg => exact (htracks g' hg).read e
      | @step g step hg hperf he =>
        have hread := (htracks g hg).read e
        have hticks := hread.ticksOk (last_read hperf) hok.travel hmax
        rw [he]
        exact hread.step (last_read hperf) hticks htotal'
          (Group.stored_mem hlimit (hok.stepOk hg hperf))
          (Group.tickStep_apply (pingsOk_of_reachable hw hg) step)
      | @founded session name nowPlaying fresh now hevent he =>
        subst hevent
        obtain ⟨h0, hle⟩ := hok.values rfl
        rw [he]
        exact Group.tracks_founded _ _ _ _ _ _ rfl htotal' h0 hle
  exact hinv.2

end World

/-- **Positions stay in range**, in every run whose stored positions lie between 0 and
`limit` and whose clock goes forward by at most `travel` ticks, where the two leave
room for the offset of a report: the position of a group is never negative, and no
operation of a step leaves the `i64` range. -/
theorem positions_in_range {m : Manager} {userOf : String → Uuid} {gid : Uuid}
    {limit travel : Int} (hlimit : 0 ≤ limit) (hmax : limit + travel ≤ Group.maxTicks)
    {w : World} {o : Odometer}
    (h : ((syncPlay m userOf).observed Odometer.read {}).Reaches
      (World.PositionsOk gid limit travel) (w, o))
    {g : Group} (hg : w.registry.groups.lookup gid = some g) :
    0 ≤ g.positionTicks ∧ ∀ e s, World.PositionsOk gid limit travel (w, o) e →
      w.Performs m e gid s → ∀ x ∈ g.tickOps s, FitsI64 x := by
  have htracks := (World.tracks_of_reaches hlimit hmax h).2 g hg
  refine ⟨htracks.nonneg, fun e s hok hs => ?_⟩
  have hticks := (htracks.read e).ticksOk (World.last_read hs) hok.travel hmax
  exact hticks.fits_tickOps (hok.clock _ hs.clock) (hok.stepOk hg hs)

/-- A session plays an item from the position it gives. -/
def playFrom (startPositionTicks : Int) : List Event :=
  [.newGroup ⟨"tv", 1, "alice"⟩ "film" none 7 (fun _ => 0) ⟨0, 0⟩,
    .handleRequest ⟨"tv", 1, "alice"⟩ (.play [5] 0 startPositionTicks),
    .requestResume 0 (fun _ => false) [] ⟨fun i => 100 + i, fun _ => 0⟩ ⟨0, 0⟩]

def pauseLater : Event :=
  .requestResume 0 (fun _ => false) [] ⟨fun _ => 0, fun _ => 0⟩ ⟨10 ^ 10, 0⟩

/-- The session reports ready, which starts playback, and asks for a pause. -/
def readyThenPause : List Event :=
  [.handleRequest ⟨"tv", 1, "alice"⟩ (.ready ⟨0, 600, false, 100⟩),
    .requestResume 0 (fun _ => false) [] ⟨fun _ => 0, fun _ => 0⟩ ⟨0, 0⟩,
    .handleRequest ⟨"tv", 1, "alice"⟩ .pause]

theorem positions_in_range_pause :
    ∃ s g, ((syncPlay {} fun _ => 1).observed Odometer.read {}).runWhile
        (World.PositionsOk 7 600 (10 ^ 9)) ({}, {}) (playFrom 600 ++ readyThenPause) = some s ∧
      s.1.registry.groups.lookup 7 = some g ∧ g.state = .playing ∧ 0 ≤ g.positionTicks ∧
      ∀ x ∈ g.tickOps (.request "tv" .pause [] ⟨fun _ => 0, fun _ => 0⟩ ⟨10 ^ 10, 0⟩),
        FitsI64 x := by
  obtain ⟨s, g, hs, hg, hplaying, htask, hgroup, hok⟩ : ∃ s g,
      ((syncPlay {} fun _ => 1).observed Odometer.read {}).runWhile
        (World.PositionsOk 7 600 (10 ^ 9)) ({}, {}) (playFrom 600 ++ readyThenPause) = some s ∧
      s.1.registry.groups.lookup 7 = some g ∧ g.state = .playing ∧
      s.1.requests[0]? = some ⟨⟨"tv", 1, "alice"⟩, .pause, none⟩ ∧
      s.1.registry.sessionToGroup.lookup "tv" = some 7 ∧
      World.PositionsOk 7 600 (10 ^ 9) s pauseLater :=
    ⟨_, _, rfl, rfl, rfl, rfl, rfl, by decide⟩
  have h := positions_in_range (m := {}) (by decide) (by decide)
    (Machine.path_of_runWhile _ hs) hg
  have hperf : s.1.Performs {} pauseLater 7
      (.request "tv" .pause [] ⟨fun _ => 0, fun _ => 0⟩ ⟨10 ^ 10, 0⟩) :=
    World.Performs.request htask hgroup rfl fun _ hmembers => by cases hmembers
  exact ⟨s, g, hs, hg, hplaying, h.1, h.2 pauseLater _ hok hperf⟩

/-- **A position may become negative**: a Play is not clamped. -/
theorem position_negative :
    ¬ ∀ w, (syncPlay {} fun _ => 1).Reaches (fun _ e => ∀ now ∈ e.clock, InDateTime now.utc) w →
      ∀ gid g, w.registry.groups.lookup gid = some g → 0 ≤ g.positionTicks ∧
        ∀ e s, (∀ now ∈ e.clock, InDateTime now.utc) → w.Performs {} e gid s →
          ∀ x ∈ g.tickOps s, FitsI64 x := by
  intro h
  obtain ⟨w, hw⟩ : ∃ w, (syncPlay {} fun _ => 1).runWhile
      (fun _ e => ∀ now ∈ e.clock, InDateTime now.utc) {} (playFrom (-1)) = some w :=
      Option.isSome_iff_exists.mp (by decide +kernel)
  have hreach := Machine.path_of_runWhile (playFrom (-1)) hw
  cases hw
  exact absurd (h _ hreach 7 _ rfl).1 (by decide)

end Ferrofin.SyncPlay
