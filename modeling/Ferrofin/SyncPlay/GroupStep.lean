import Ferrofin.SyncPlay.Consistent

/-!
# What a step of the manager does to one group

A group changes by four kinds of steps (`GroupStep`): a request of a session, a
join, a leave and a sweep of the group waits.
-/

namespace Ferrofin.SyncPlay

open Lib
open Registry (PendingJoin PendingRequest)

inductive GroupStep
  | request (sessionId : String) (request : PlaybackRequest) (runtimes : List (Uuid × Int))
      (draws : Draws) (now : Clock)
  | join (session : SyncPlaySession) (now : Clock)
  | leave (sessionId : String) (now : Clock)
  | sweep (now : Clock)

def GroupStep.now : GroupStep → Clock
  | .request _ _ _ _ now | .join _ now | .leave _ now | .sweep now => now

def Group.apply (g : Group) : GroupStep → Group
  | .request sessionId request runtimes draws now =>
    (g.applyRequest sessionId request runtimes draws now).1
  | .join session now => (g.join session now).1
  | .leave sessionId now => g.leave sessionId now
  | .sweep now => (g.handleGroupWaitTimeout now).1

/-- The group as `new_group` puts it in the registry: created, and joined by its
creator. -/
def Group.founded (m : Manager) (groupId : Uuid) (session : SyncPlaySession) (name : String)
    (nowPlaying : Option (SyncPlayNowPlaying × List (Uuid × Int))) (fresh : Nat → Uuid)
    (now : Clock) : Group :=
  ((create groupId name m.groupWaitTimeout session nowPlaying fresh now).sessionJoined
    session.sessionId now).1

namespace World

variable {m : Manager} {userOf : String → Uuid} {w w' : World} {e : Event}

inductive Performs (w : World) (m : Manager) : Event → Uuid → GroupStep → Prop
  | request {index : Nat} {fault : Uuid → Bool} {runtimes : List (Uuid × Int)} {draws : Draws}
      {now : Clock} {task : PendingRequest} {gid : Uuid} (ht : w.requests[index]? = some task)
      (hgroup : w.registry.sessionToGroup.lookup task.session.sessionId = some gid)
      (hallowed : Registry.requestRefused m task fault = false)
      (hmembers : ∀ members ∈ task.checkedMembers, ∀ g ∈ w.registry.groups.lookup gid,
        members = g.memberUserIds) :
      Performs w m (.requestResume index fault runtimes draws now) gid
        (.request task.session.sessionId task.request runtimes draws now)
  | join {index : Nat} {fault : Bool} {now : Clock} {join : PendingJoin}
      (hj : w.joins[index]? = some join)
      (hadmitted : w.registry.joinRefusal m join fault = none) :
      Performs w m (.joinResume index fault now) join.groupId (.join join.session now)
  | leave {e : Event} {session : SyncPlaySession} {gid : Uuid} {now : Clock}
      (hclock : e.clock = some now)
      (hgroup : w.registry.sessionToGroup.lookup session.sessionId = some gid) :
      Performs w m e gid (.leave session.sessionId now)
  | sweep {now : Clock} {gid : Uuid} : Performs w m (.sweep now) gid (.sweep now)

/-- How a group of the state `w'` came about in the step of `e`. -/
inductive Evolves (w : World) (m : Manager) (e : Event) (gid : Uuid) (g' : Group) : Prop
  | same (hg : w.registry.groups.lookup gid = some g')
  | step {g : Group} {s : GroupStep} (hg : w.registry.groups.lookup gid = some g)
      (hs : w.Performs m e gid s) (he : g' = g.apply s)
  | founded {session : SyncPlaySession} {name : String}
      {nowPlaying : Option (SyncPlayNowPlaying × List (Uuid × Int))} {fresh : Nat → Uuid}
      {now : Clock} (hevent : e = .newGroup session name nowPlaying gid fresh now)
      (he : g' = Group.founded m gid session name nowPlaying fresh now)

theorem Performs.clock {gid : Uuid} {s : GroupStep} (h : w.Performs m e gid s) :
    e.clock = some s.now := by
  cases h with
  | request => rfl
  | join => rfl
  | leave hclock => exact hclock
  | sweep => rfl

theorem evolves_leave (h : w.registry.Consistent userOf) {session : SyncPlaySession}
    {now : Clock} (hclock : e.clock = some now) {k : Uuid} {g' : Group}
    (hk : (w.registry.leaveLockedWithNotices session now).1.groups.lookup k = some g') :
    w.Evolves m e k g' := by
  rcases h.leave_cases session now with ⟨_, he⟩ | ⟨gid, g, hg, _, hl, he⟩
  · rw [he] at hk
    exact .same hk
  · rw [he] at hk
    simp only [Registry.without, Registry.lookup_putOrDrop] at hk
    by_cases hkg : k = gid
    · subst hkg
      rw [if_pos rfl] at hk
      split at hk
      · cases hk
      · cases hk
        exact .step hg (.leave hclock hl) rfl
    · rw [if_neg hkg] at hk
      exact .same hk

theorem evolves_put {reg : Registry} {gid k : Uuid} {g g' : Group}
    (hput : gid = k → g = g' → w.Evolves m e k g')
    (hrest : reg.groups.lookup k = some g' → w.Evolves m e k g')
    (hk : (reg.putGroup gid g).groups.lookup k = some g') : w.Evolves m e k g' := by
  rw [Registry.putGroup, KeyedMap.lookup_insert_eq] at hk
  by_cases hkg : k = gid
  · rw [if_pos hkg] at hk
    exact hput hkg.symm (Option.some.inj hk)
  · rw [if_neg hkg] at hk
    exact hrest hk

/-- **In one step a group stays, takes one of the four steps, or is new.** -/
theorem group_step (h : w.Consistent userOf) (hs : step m userOf w e = some w') {k : Uuid}
    {g' : Group} (hk : w'.registry.groups.lookup k = some g') : w.Evolves m e k g' := by
  unfold step at hs
  split at hs
  case isFalse => cases hs
  case isTrue =>
  cases e with
  | newGroup session name nowPlaying gid fresh now =>
    simp only [advance] at hs
    split at hs
    · cases hs
    · cases hs
      refine evolves_put (fun hgid hg => ?_) (evolves_leave h.registry rfl) hk
      subst hgid
      exact .founded rfl hg.symm
  | joinGroup session gid =>
    cases hs
    exact .same hk
  | joinResume index fault now =>
    obtain ⟨join, hj, rfl⟩ := Option.map_eq_some_iff.mp hs
    dsimp only at hk
    unfold Registry.joinCommit at hk
    cases hr : w.registry.joinRefusal m join fault with
    | some update =>
      rw [hr] at hk
      exact .same hk
    | none =>
      rw [hr] at hk
      obtain ⟨g, hg, _⟩ := Registry.lookup_of_joinRefusal_none hr
      dsimp only at hk
      unfold Registry.joinAdmitted at hk
      dsimp only at hk
      by_cases hrestore :
          w.registry.sessionToGroup.lookup join.session.sessionId = some join.groupId
      · simp only [if_pos hrestore, hg] at hk
        refine evolves_put (fun hgid he => ?_) (fun hk => .same hk) hk
        subst hgid
        exact .step hg (.join hj hr) he.symm
      · have hsame := h.registry.lookup_leave_group join.session now hrestore
        rw [hg] at hsame
        simp only [if_neg hrestore, hsame] at hk
        refine evolves_put (fun hgid he => ?_) (evolves_leave h.registry rfl) hk
        subst hgid
        exact .step hg (.join hj hr) he.symm
  | leaveGroup session now =>
    cases hs
    rw [Registry.leaveGroup_fst] at hk
    exact evolves_leave h.registry rfl hk
  | handleRequest session request =>
    cases hs
    exact .same hk
  | requestResume index fault runtimes draws now =>
    obtain ⟨task, ht, rfl⟩ := Option.map_eq_some_iff.mp hs
    dsimp only at hk
    rcases w.registry.requestCommit_cases m task fault runtimes draws now with
      ⟨he, _⟩ | ⟨gid, g, hl, hg, hallowed, hmembers, he, _⟩
    · rw [he] at hk
      exact .same hk
    · rw [he] at hk
      refine evolves_put (fun hgid heq => ?_) (fun hk => .same hk) hk
      subst hgid
      refine .step hg (.request ht hl hallowed fun members hm g' hg' => ?_) heq.symm
      rw [hg] at hg'
      cases hg'
      exact hmembers members hm
  | sweep now =>
    cases hs
    dsimp only at hk
    unfold Registry.sweepGroupWaits at hk
    split at hk
    · exact .same hk
    · simp only [KeyedMap.lookup_mapValues, Option.map_eq_some_iff] at hk
      obtain ⟨g, hg, rfl⟩ := hk
      exact .step hg .sweep rfl

/-- **The invariant rule for groups**: what a new group has, and every step that
meets `ok` keeps, holds of every group in every state reached by such steps. -/
theorem forall_groups_of_reaches {ok : World → Event → Prop} {P : Group → Prop}
    (h : (syncPlay m userOf).Reaches ok w)
    (hnew : ∀ gid session name nowPlaying fresh now,
      P (Group.founded m gid session name nowPlaying fresh now))
    (hstep : ∀ w e gid g s, w.Consistent userOf → ok w e → w.Performs m e gid s →
      w.registry.groups.lookup gid = some g → P g → P (g.apply s)) :
    ∀ gid g, w.registry.groups.lookup gid = some g → P g := by
  have hinv : w.Consistent userOf ∧ ∀ gid g, w.registry.groups.lookup gid = some g → P g := by
    refine h.invariant (I := fun w => w.Consistent userOf ∧
      ∀ gid g, w.registry.groups.lookup gid = some g → P g) ?_ ?_
    · refine ⟨consistent_of_reachable (m := m) Machine.Reaches.start, fun gid g hg => ?_⟩
      simp [syncPlay] at hg
    · rintro w e w' ⟨hw, hP⟩ hok hs
      refine ⟨consistent_step hw hs, fun gid g' hg' => ?_⟩
      cases group_step hw hs hg' with
      | same hg => exact hP gid g' hg
      | step hg hperf he =>
        rw [he]
        exact hstep w e gid _ _ hw hok hperf hg (hP gid _ hg)
      | founded _ he =>
        rw [he]
        exact hnew ..
  exact hinv.2

end World

end Ferrofin.SyncPlay
