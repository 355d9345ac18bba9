import Ferrofin.SyncPlay.GroupStart

/-!
# The members agree on the start

When a step of the manager takes a group into `Playing`, every session that was a
member when the step began is sent one Unpause, and all of them the same: for the
moment the group goes on, at the position it has.  A client that reported Ready
while it was already playing may be left out.
-/

namespace Ferrofin.SyncPlay

open Lib
open Registry (PendingJoin PendingRequest)

/-! ### What a session is told -/

def Envelope.unpause? : Envelope → Option SendCommand
  | .command data => if data.command = .unpause then some data else none
  | .groupUpdate _ => none

def unpausesTo (sent : List Sent) (sessionId : String) : List SendCommand :=
  sent.filterMap fun s => if s.1 = sessionId then s.2.unpause? else none

theorem unpausesTo_append (sent sent' : List Sent) (sessionId : String) :
    unpausesTo (sent ++ sent') sessionId =
      unpausesTo sent sessionId ++ unpausesTo sent' sessionId := List.filterMap_append

theorem unpausesTo_eq_nil {sent : List Sent} {sessionId : String}
    (h : ∀ s ∈ sent, s.1 = sessionId → s.2.unpause? = none) : unpausesTo sent sessionId = [] := by
  rw [unpausesTo, List.filterMap_eq_nil_iff]
  intro s hs
  split
  · next hid => exact h s hs hid
  · rfl

theorem mem_deliverTo {members : List (String × Bool)} {fromSession : String}
    {outbound : List Outbound} {s : Sent} (h : s ∈ deliverTo members fromSession outbound) :
    s.1 ∈ members.map Prod.fst ∧ ∃ msg ∈ outbound, msg.body = s.2 := by
  obtain ⟨msg, hmsg, hs⟩ := List.mem_flatMap.mp h
  obtain ⟨member, hmember, rfl⟩ := List.mem_map.mp hs
  exact ⟨List.mem_map_of_mem (List.mem_of_mem_filter hmember), msg, hmsg, rfl⟩

theorem unpausesTo_deliverTo_of_not_mem {members : List (String × Bool)} {fromSession : String}
    {outbound : List Outbound} {sessionId : String} (h : sessionId ∉ members.map Prod.fst) :
    unpausesTo (deliverTo members fromSession outbound) sessionId = [] :=
  unpausesTo_eq_nil fun _ hs hid => absurd (hid ▸ (mem_deliverTo hs).1) h

theorem unpausesTo_map {body : Envelope} {c : SendCommand} (hb : body.unpause? = some c)
    (members : List (String × Bool)) (sessionId : String) :
    unpausesTo (members.map fun m => (m.1, body)) sessionId =
      (members.filter fun m => m.1 = sessionId).map fun _ => c := by
  induction members with
  | nil => rfl
  | cons m members ih =>
    rw [unpausesTo] at ih ⊢
    by_cases hid : m.1 = sessionId
    · rw [List.map_cons, List.filterMap_cons_some (b := c) (by rw [if_pos hid, hb]), ih,
        List.filter_cons, if_pos (decide_eq_true hid), List.map_cons]
    · rw [List.map_cons, List.filterMap_cons_none (by rw [if_neg hid]), ih,
        List.filter_cons_of_neg (by simpa using hid)]

/-- One Unpause addressed to members with distinct sessions reaches a session once,
if it is addressed at all. -/
theorem unpausesTo_start {members : List (String × Bool)} (hn : (members.map Prod.fst).Nodup)
    (fromSession : String) (target : Target) {c : SendCommand} (hc : c.command = .unpause)
    (update : GroupUpdate) {member : String × Bool} (hm : member ∈ members) :
    unpausesTo (deliverTo members fromSession
        [⟨target, .command c⟩, .all (.groupUpdate update)]) member.1 =
      if target.admits fromSession member then [c] else [] := by
  have hcommand : unpausesTo ((members.filter (target.admits fromSession)).map
      fun m => (m.1, Envelope.command c)) member.1 =
        (([member].filter (target.admits fromSession)).map fun _ => c) := by
    rw [unpausesTo_map (c := c) (by simp [Envelope.unpause?, hc]), List.filter_comm,
      filter_key hn hm]
  have hupdate : unpausesTo ((members.filter (Target.allGroup.admits fromSession)).map
      fun m => (m.1, Envelope.groupUpdate update)) member.1 = [] :=
    unpausesTo_eq_nil fun _ hs _ => by
      obtain ⟨_, _, rfl⟩ := List.mem_map.mp hs
      rfl
  calc unpausesTo (deliverTo members fromSession
        [⟨target, .command c⟩, .all (.groupUpdate update)]) member.1
    _ = unpausesTo ((members.filter (target.admits fromSession)).map
          fun m => (m.1, Envelope.command c)) member.1 ++
        unpausesTo ((members.filter (Target.allGroup.admits fromSession)).map
          fun m => (m.1, Envelope.groupUpdate update)) member.1 := by
      rw [← unpausesTo_append]
      simp [deliverTo, Outbound.all]
    _ = if target.admits fromSession member then [c] else [] := by
      rw [hcommand, hupdate, List.append_nil]
      split
      · next hadmits => rw [List.filter_cons_of_pos hadmits]; rfl
      · next hadmits => rw [List.filter_cons_of_neg hadmits]; rfl

/-! ### The agreement -/

/-- The sessions of `g` are all told to go on, by one command each and all the same:
for the moment `g'` goes on, at its position.  Those that lag may be left out. -/
def StartAgreed (sent : List Sent) (now : Clock) (lags : String → Prop) (g g' : Group) : Prop :=
  ∃ c : SendCommand, c.command = .unpause ∧ c.when = g'.lastActivity ∧
    c.positionTicks = some g'.positionTicks ∧ now.utc ≤ c.when ∧
    ∀ sessionId ∈ g.sessions, unpausesTo sent sessionId = [c] ∨
      lags sessionId ∧ unpausesTo sent sessionId = []

theorem StartAgreed.congr {sent sent' : List Sent} {now : Clock} {lags lags' : String → Prop}
    {g g' : Group} (h : StartAgreed sent now lags g g')
    (hsent : ∀ sessionId ∈ g.sessions, unpausesTo sent' sessionId = unpausesTo sent sessionId)
    (hlags : ∀ sessionId, lags sessionId → lags' sessionId) :
    StartAgreed sent' now lags' g g' := by
  obtain ⟨c, h1, h2, h3, h4, hall⟩ := h
  refine ⟨c, h1, h2, h3, h4, fun sessionId hs => ?_⟩
  rw [hsent sessionId hs]
  exact (hall sessionId hs).imp_right fun ⟨hl, he⟩ => ⟨hlags _ hl, he⟩

theorem map_fst_memberTargets (g : Group) : (memberTargets g).map Prod.fst = g.sessions := by
  simp [memberTargets, Group.sessions, GroupMember.entry, Function.comp_def]

theorem Group.Starts.agreed {g g₀ g' : Group} {r : Group × List Outbound} {now : Clock}
    {mayLag : Prop} (h : g₀.Starts now mayLag r) (hplaying : r.1.state = .playing)
    (hroster : r.1.roster = g.roster) (hn : g.sessions.Nodup)
    (hwhen : g'.lastActivity = r.1.lastActivity) (hpos : g'.positionTicks = r.1.positionTicks)
    (fromSession : String) :
    StartAgreed (deliverTo (memberTargets r.1) fromSession r.2) now
      (fun sessionId => mayLag ∧ sessionId = fromSession) g g' := by
  obtain ⟨target, reason, hout, htarget, hdue, -⟩ := h.start hplaying
  have hsessions : r.1.sessions = g.sessions := by rw [Group.sessions, Group.sessions, hroster]
  let c : SendCommand := {
    groupId := r.1.id, playlistItemId := r.1.queue.playingItemId, when := r.1.lastActivity,
    positionTicks := some r.1.positionTicks, command := .unpause, emittedAt := now.utc }
  refine ⟨c, rfl, hwhen.symm, congrArg some hpos.symm, hdue, fun sessionId hs => ?_⟩
  rw [← hsessions, ← map_fst_memberTargets] at hs
  rw [← hsessions, ← map_fst_memberTargets] at hn
  obtain ⟨member, hm, rfl⟩ := List.mem_map.mp hs
  have hone := unpausesTo_start hn fromSession target (c := c) rfl
    (.stateUpdate r.1.id { state := r.1.state, reason }) hm
  rw [hout]
  rcases htarget with rfl | ⟨rfl, hlag⟩
  · exact .inl hone
  · by_cases hid : member.1 = fromSession
    · refine .inr ⟨⟨hlag, hid⟩, ?_⟩
      rw [if_neg (by simp [Target.admits, hid])] at hone
      exact hone
    · rw [if_pos (by simp [Target.admits, hid])] at hone
      exact .inl hone

/-! ### Leaving -/

/-- A leave tells the members what the state machine said, and nobody to go on
besides. -/
theorem unpausesTo_deliverLeave {sessionId : String} {notices : LeaveNotices}
    (hleft : notices.leftEnv.unpause? = none) (huser : notices.userLeftEnv.unpause? = none)
    (s : String) : unpausesTo (deliverLeave sessionId notices) s =
      unpausesTo (deliverTo notices.targets sessionId notices.outbound) s := by
  rw [deliverLeave, unpausesTo_append]
  have hnil : unpausesTo ((sessionId, notices.leftEnv) ::
      notices.others.map fun sid => (sid, notices.userLeftEnv)) s = [] :=
    unpausesTo_eq_nil fun sent hmem _ => by
      rcases List.mem_cons.mp hmem with rfl | hmem
      · exact hleft
      · obtain ⟨_, _, rfl⟩ := List.mem_map.mp hmem
        exact huser
  rw [hnil, List.append_nil]

namespace Registry

variable {userOf : String → Uuid} {reg : Registry}

theorem Consistent.start_of_leave (h : reg.Consistent userOf) (session : SyncPlaySession)
    (now : Clock) {gid : Uuid} {g g' : Group} (hg : reg.groups.lookup gid = some g)
    (hg' : (reg.leaveLockedWithNotices session now).1.groups.lookup gid = some g')
    (hnot : g.state ≠ .playing) (hplaying : g'.state = .playing) :
    (∃ notices, (reg.leaveLockedWithNotices session now).2 = some notices ∧
      ∀ lags, StartAgreed (deliverLeave session.sessionId notices) now lags g g') ∧
      g'.isBuffering = false := by
  have hchanged : g ≠ g' := fun he => hnot (he ▸ hplaying)
  rcases h.leave_cases session now with ⟨_, he⟩ | ⟨gid', g₀, hg₀, hmem, hl, he⟩
  · rw [he, hg] at hg'
    exact absurd (Option.some.inj hg') hchanged
  · have hgid : gid = gid' := by
      by_contra hne
      rw [he] at hg'
      simp only [Registry.without, lookup_putOrDrop, if_neg hne, hg] at hg'
      exact hchanged (Option.some.inj hg')
    subst hgid
    rw [hg] at hg₀
    cases hg₀
    rw [he] at hg'
    simp only [Registry.without, lookup_putOrDrop, if_true] at hg'
    split at hg'
    · cases hg'
    cases hg'
    have hleave : (g.leave session.sessionId now).state =
        (g.sessionLeaving session.sessionId now).1.state := Group.state_updateGroupWaitDeadline ..
    have hstate : (g.sessionLeaving session.sessionId now).1.state = .playing :=
      hleave.symm.trans hplaying
    have hstarts : g.Starts now False _ :=
      Group.starts_sessionLeaving hnot session.sessionId now
    have hquiet : (g.sessionLeaving session.sessionId now).1.isBuffering = false := by
      obtain ⟨_, _, -, -, -, hb⟩ := hstarts.start hstate
      rcases hb with hb | ⟨hpaused, -⟩
      · exact hb
      · -- a leave does nothing to a paused group
        unfold Group.sessionLeaving at hstate
        rw [if_pos (by simp [hpaused])] at hstate
        exact absurd hstate hnot
    refine ⟨⟨_, by simp only [leaveLockedWithNotices, hl, decrementUser, hg]; rfl, fun lags => ?_⟩,
      ?_⟩
    · have hactive : (g.leave session.sessionId now).lastActivity = _ :=
        Group.lastActivity_updateGroupWaitDeadline ..
      have hagreed := hstarts.agreed hstate
        (Group.roster_of_settled (g.settled_sessionLeaving session.sessionId now))
        (h.sound gid g hg).nodup hactive (Group.positionTicks_updateGroupWaitDeadline ..)
        session.sessionId
      refine hagreed.congr (fun s _ => ?_) fun _ hl => hl.1.elim
      rw [unpausesTo_deliverLeave rfl rfl]
    · rw [Group.leave, Group.removeMember, Group.isBuffering_updateGroupWaitDeadline,
        Group.isBuffering_eq_false]
      exact fun m hm => (Group.isBuffering_eq_false _).mp hquiet m (List.mem_of_mem_filter hm)

end Registry

/-! ### The steps of the manager -/

def World.sent (w : World) (m : Manager) : Event → List Sent
  | .newGroup session name nowPlaying groupId fresh now =>
    (w.registry.newGroup m session name nowPlaying groupId fresh now).2.2
  | .joinGroup _ _ | .handleRequest _ _ => []
  | .joinResume index fault now =>
    ((w.joins[index]?).map fun join => (w.registry.joinCommit m join fault now).2.sent).getD []
  | .leaveGroup session now => (w.registry.leaveGroup session now).2
  | .requestResume index fault runtimes draws now =>
    ((w.requests[index]?).map fun task =>
      (w.registry.requestCommit m task fault runtimes draws now).2.sent).getD []
  | .sweep now => (w.registry.sweepGroupWaits now).2

def World.ReadyPlaying (w : World) : Event → String → Prop
  | .requestResume index .., sessionId => ∃ task ∈ w.requests[index]?,
      task.session.sessionId = sessionId ∧ Group.ReadyPlaying task.request
  | _, _ => False

theorem Group.unpause_sessionJoined (g : Group) (sessionId : String) (now : Clock) :
    ∀ msg ∈ (g.sessionJoined sessionId now).2, msg.body.unpause? = none := by
  unfold sessionJoined
  dsimp only
  split
  · simp [sendStopCommand, commandEnv, Envelope.unpause?]
  · simp [commandEnv, playQueueEnv, Envelope.unpause?]

namespace World

variable {m : Manager} {userOf : String → Uuid} {w w' : World} {e : Event} {gid : Uuid}
  {g g' : Group}

/-- What a step that starts the group does: its members agree on the start, and
nobody is waited for, unless the group was paused. -/
def StepStarts (w : World) (m : Manager) (e : Event) (g g' : Group) : Prop :=
  (∃ now, e.clock = some now ∧ StartAgreed (w.sent m e) now (w.ReadyPlaying e) g g') ∧
    (g.state ≠ .paused → g'.isBuffering = false)

theorem stepStarts_of_leave (h : w.Consistent userOf) (session : SyncPlaySession) {now : Clock}
    (hclock : e.clock = some now)
    (hsent : ∀ notices, (w.registry.leaveLockedWithNotices session now).2 = some notices →
      ∀ s, unpausesTo (w.sent m e) s = unpausesTo (deliverLeave session.sessionId notices) s)
    (hg : w.registry.groups.lookup gid = some g)
    (hg' : (w.registry.leaveLockedWithNotices session now).1.groups.lookup gid = some g')
    (hnot : g.state ≠ .playing) (hplaying : g'.state = .playing) : w.StepStarts m e g g' := by
  obtain ⟨⟨notices, hnotices, hagreed⟩, hquiet⟩ :=
    h.registry.start_of_leave session now hg hg' hnot hplaying
  exact ⟨⟨now, hclock, (hagreed _).congr (fun s _ => hsent notices hnotices s) fun _ hl => hl⟩,
    fun _ => hquiet⟩

theorem pingsOk_of_reachable (h : (syncPlay m userOf).Reachable w)
    (hg : w.registry.groups.lookup gid = some g) : g.PingsOk :=
  forall_groups_of_reaches (P := Group.PingsOk) h
    (Group.pingsOk_founded m)
    (fun _ _ _ _ s _ _ _ _ hP => hP.apply s) gid g hg

theorem stepStarts_of_request (h : w.Consistent userOf) (hp : g.PingsOk) {index : Nat}
    {fault : Uuid → Bool} {runtimes : List (Uuid × Int)} {draws : Draws} {now : Clock}
    {task : PendingRequest} (ht : w.requests[index]? = some task)
    (hg : w.registry.groups.lookup gid = some g) (hnot : g.state ≠ .playing)
    (hg' : (w.registry.requestCommit m task fault runtimes draws now).1.groups.lookup gid = some g')
    (hplaying : g'.state = .playing) :
    w.StepStarts m (.requestResume index fault runtimes draws now) g g' := by
  have hchanged : g ≠ g' := fun he => hnot (he ▸ hplaying)
  rcases w.registry.requestCommit_cases m task fault runtimes draws now with
    ⟨he, _⟩ | ⟨gid', g₀, hl, hg₀, hallowed, hmembers, he, _⟩
  · rw [he, hg] at hg'
    exact absurd (Option.some.inj hg') hchanged
  · have hgid : gid = gid' := by
      by_contra hne
      rw [he, Registry.putGroup, KeyedMap.lookup_insert_eq, if_neg hne, hg] at hg'
      exact hchanged (Option.some.inj hg')
    subst hgid
    rw [hg] at hg₀
    cases hg₀
    rw [he, Registry.putGroup, AList.lookup_insert] at hg'
    cases hg'
    -- the member's own change comes first, and leaves the state alone
    have hstate : ((g.applyToMember task.session.sessionId task.request now).extendItemRuntimes
        runtimes).state = g.state := by
      unfold Group.applyToMember
      split <;> simp [Group.updateMember]
    have hstarts := Group.starts_handle (g := (g.applyToMember task.session.sessionId task.request
      now).extendItemRuntimes runtimes) (hp.applyToMember task.session.sessionId task.request now)
      (by rw [hstate]; exact hnot) task.session.sessionId task.request draws now
    refine ⟨⟨now, rfl, ?_⟩, fun hpaused => ?_⟩
    · have hagreed := hstarts.agreed (g := g) hplaying
        (g.roster_applyRequest task.session.sessionId task.request runtimes draws now)
        (h.registry.sound gid g hg).nodup rfl rfl task.session.sessionId
      have hchecked : task.checkedMembers.any (· ≠ g.memberUserIds) = false := by
        cases hc : task.checkedMembers with
        | none => rfl
        | some members => simpa using hmembers members hc
      have hsent : (w.registry.requestCommit m task fault runtimes draws now).2.sent =
          deliverTo (memberTargets (g.applyRequest task.session.sessionId task.request runtimes
            draws now).1) task.session.sessionId (g.applyRequest task.session.sessionId
            task.request runtimes draws now).2 := by
        simp only [Registry.requestCommit, hallowed, hl, hg, hchecked]
        rfl
      refine hagreed.congr (fun s _ => ?_) fun s hs => ⟨task, ht, hs.2.symm, hs.1⟩
      simp only [World.sent, ht, Option.map_some, Option.getD_some, hsent]
      rfl
    · obtain ⟨_, _, -, -, -, hb⟩ := hstarts.start hplaying
      rcases hb with hb | ⟨hp, -⟩
      · exact hb
      · exact absurd (hstate.symm.trans hp) hpaused

theorem stepStarts_of_sweep (h : w.Consistent userOf) {now : Clock}
    (hg : w.registry.groups.lookup gid = some g) (hnot : g.state ≠ .playing)
    (hplaying : (g.handleGroupWaitTimeout now).1.state = .playing) :
    w.StepStarts m (.sweep now) g (g.handleGroupWaitTimeout now).1 := by
  obtain ⟨sessionId, out, hout, hstarts⟩ :=
    Group.starts_handleGroupWaitTimeout hnot now hplaying
  refine ⟨⟨now, rfl, ?_⟩, fun hpaused => ?_⟩
  · have hagreed := hstarts.agreed (g := g) hplaying (g.roster_handleGroupWaitTimeout now)
      (h.registry.sound gid g hg).nodup rfl rfl sessionId
    refine hagreed.congr (fun s hs => ?_) fun _ hl => hl.1.elim
    have hne : w.registry.groups.entries.isEmpty = false := by
      rw [List.isEmpty_eq_false_iff]
      exact List.ne_nil_of_mem (AList.mem_lookup_iff.mp hg)
    let sent (r : Group × Option (String × List Outbound)) := r.2.elim [] fun from' =>
      deliverTo (memberTargets r.1) from'.1 from'.2
    -- of all the groups, only this one has the session
    have hothers : ∀ k v, w.registry.groups.lookup k = some v → k ≠ gid →
        unpausesTo (sent (v.handleGroupWaitTimeout now)) s = [] := by
      intro k v hk hkg
      have hnotmem : s ∉ v.sessions := fun hmem =>
        hkg (h.registry.group_unique ⟨v, hk, hmem⟩ ⟨g, hg, hs⟩)
      have hroster := v.roster_handleGroupWaitTimeout now
      rcases hr : v.handleGroupWaitTimeout now with ⟨group, _ | out⟩
      · rfl
      · rw [hr] at hroster
        refine unpausesTo_deliverTo_of_not_mem ?_
        rw [map_fst_memberTargets, Group.sessions, hroster]
        exact hnotmem
    have hflat : unpausesTo (w.registry.sweepGroupWaits now).2 s =
        w.registry.groups.entries.flatMap fun e =>
          unpausesTo (sent (e.2.handleGroupWaitTimeout now)) s := by
      simp only [Registry.sweepGroupWaits, hne, Bool.false_eq_true, if_false]
      rw [unpausesTo, List.filterMap_flatMap]
      refine congrArg (w.registry.groups.entries.flatMap ·) (funext fun e => ?_)
      rcases e.2.handleGroupWaitTimeout now with ⟨group, _ | out⟩ <;> rfl
    rw [World.sent, hflat, KeyedMap.flatMap_entries hg hothers]
    have hpair : g.handleGroupWaitTimeout now =
        ((g.handleGroupWaitTimeout now).1, some (sessionId, out)) := by rw [← hout]
    rw [hpair]
    rfl
  · obtain ⟨_, _, -, -, -, hb⟩ := hstarts.start hplaying
    rcases hb with hb | ⟨hp, -⟩
    · exact hb
    · exact absurd hp hpaused

theorem stepStarts_of_joinResume {index : Nat} {join : PendingJoin} {fault : Bool}
    {now : Clock} (h : w.Consistent userOf) (hj : w.joins[index]? = some join)
    (hg : w.registry.groups.lookup gid = some g)
    (hg' : (w.registry.joinCommit m join fault now).1.groups.lookup gid = some g')
    (hnot : g.state ≠ .playing) (hplaying : g'.state = .playing) :
    w.StepStarts m (.joinResume index fault now) g g' := by
  unfold Registry.joinCommit at hg'
  cases hr : w.registry.joinRefusal m join fault with
  | some update =>
    rw [hr] at hg'
    exact absurd hplaying (Option.some.inj (hg.symm.trans hg') ▸ hnot)
  | none =>
    rw [hr] at hg'
    obtain ⟨g₀, hg₀, _⟩ := Registry.lookup_of_joinRefusal_none hr
    -- the group that is joined waits, or stays idle
    have hjoined : ∀ reg : Registry, gid = join.groupId →
        (reg.putGroup join.groupId (g₀.join join.session now).1).groups.lookup gid ≠ some g' := by
      rintro reg rfl he
      rw [Registry.putGroup, AList.lookup_insert] at he
      cases he
      exact Group.state_sessionJoined _ _ now hplaying
    dsimp only at hg'
    unfold Registry.joinAdmitted at hg'
    dsimp only at hg'
    by_cases hrestore :
        w.registry.sessionToGroup.lookup join.session.sessionId = some join.groupId
    · simp only [if_pos hrestore, hg₀] at hg'
      by_cases hk : gid = join.groupId
      · exact absurd hg' (hjoined w.registry hk)
      · rw [Registry.putGroup, KeyedMap.lookup_insert_eq, if_neg hk, hg] at hg'
        exact absurd hplaying (Option.some.inj hg' ▸ hnot)
    · have hsame := h.registry.lookup_leave_group join.session now hrestore
      rw [hg₀] at hsame
      simp only [if_neg hrestore, hsame] at hg'
      by_cases hk : gid = join.groupId
      · exact absurd hg' (hjoined _ hk)
      · have hleft : (w.registry.leaveLockedWithNotices join.session now).1.groups.lookup gid =
            some g' := (AList.lookup_insert_ne hk).symm.trans hg'
        refine stepStarts_of_leave h join.session rfl (fun notices hnotices s => ?_) hg hleft hnot
          hplaying
        simp only [World.sent, hj, Option.map_some, Option.getD_some, Registry.joinCommit, hr,
          Registry.joinAdmitted, if_neg hrestore, hsame, hnotices]
        rw [List.append_assoc, unpausesTo_append]
        refine (congrArg _ (unpausesTo_eq_nil fun sent hmem _ => ?_)).trans (List.append_nil _)
        rcases List.mem_cons.mp hmem with rfl | hmem
        · rfl
        rcases List.mem_append.mp hmem with hmem | hmem
        · obtain ⟨_, _, rfl⟩ := List.mem_map.mp hmem
          rfl
        · obtain ⟨-, msg, hmsg, hbody⟩ := mem_deliverTo hmem
          rw [← hbody]
          exact Group.unpause_sessionJoined _ _ _ msg hmsg

theorem stepStarts_of_step (h : w.Consistent userOf) (hp : g.PingsOk)
    (hs : step m userOf w e = some w') (hg : w.registry.groups.lookup gid = some g)
    (hg' : w'.registry.groups.lookup gid = some g') (hnot : g.state ≠ .playing)
    (hplaying : g'.state = .playing) : w.StepStarts m e g g' := by
  have hchanged : w'.registry.groups.lookup gid ≠ w.registry.groups.lookup gid := by
    rw [hg, hg']
    exact fun he => hnot (Option.some.inj he ▸ hplaying)
  unfold step at hs
  split at hs
  case isFalse => cases hs
  case isTrue =>
  cases e with
  | newGroup session name nowPlaying gid' fresh now =>
    simp only [advance] at hs
    split at hs
    · cases hs
    · next hfresh =>
      cases hs
      have hne : gid ≠ gid' := fun he => hfresh (he ▸ KeyedMap.mem_of_lookup hg)
      rw [show (w.registry.newGroup m session name nowPlaying gid' fresh now).1.groups.lookup gid
        = (w.registry.leaveLockedWithNotices session now).1.groups.lookup gid from
          AList.lookup_insert_ne hne] at hg'
      refine stepStarts_of_leave h session rfl (fun notices hnotices s => ?_) hg hg' hnot hplaying
      -- what the new group sends starts nothing
      simp only [World.sent, Registry.newGroup, hnotices, Option.map_some, Option.getD_some]
      rw [unpausesTo_append]
      have hnil : unpausesTo ((session.sessionId, Envelope.groupUpdate (.groupJoined gid'
          ((Group.create gid' name m.groupWaitTimeout session nowPlaying fresh now).info now))) ::
          deliverTo (memberTargets ((Group.create gid' name m.groupWaitTimeout session nowPlaying
            fresh now).sessionJoined session.sessionId now).1) session.sessionId
            ((Group.create gid' name m.groupWaitTimeout session nowPlaying fresh
              now).sessionJoined session.sessionId now).2) s = [] :=
        unpausesTo_eq_nil fun sent hmem _ => by
          rcases List.mem_cons.mp hmem with rfl | hmem
          · rfl
          · obtain ⟨-, msg, hmsg, hbody⟩ := mem_deliverTo hmem
            rw [← hbody]
            exact Group.unpause_sessionJoined _ _ _ msg hmsg
      rw [hnil, List.append_nil]
  | joinGroup session gid' =>
    cases hs
    exact absurd rfl hchanged
  | joinResume index fault now =>
    obtain ⟨join, hj, rfl⟩ := Option.map_eq_some_iff.mp hs
    exact stepStarts_of_joinResume h hj hg hg' hnot hplaying
  | leaveGroup session now =>
    cases hs
    rw [Registry.leaveGroup_fst] at hg'
    refine stepStarts_of_leave h session rfl (fun notices hnotices s => ?_) hg hg' hnot hplaying
    simp only [World.sent]
    unfold Registry.leaveGroup
    split
    · next heq => rw [heq] at hnotices; cases hnotices; rfl
    · next heq => rw [heq] at hnotices; cases hnotices
  | handleRequest session request =>
    cases hs
    exact absurd rfl hchanged
  | requestResume index fault runtimes draws now =>
    obtain ⟨task, ht, rfl⟩ := Option.map_eq_some_iff.mp hs
    exact stepStarts_of_request h hp ht hg hnot hg' hplaying
  | sweep now =>
    cases hs
    dsimp only at hg' hchanged
    unfold Registry.sweepGroupWaits at hg' hchanged
    split at hg'
    · exact absurd (hg'.symm.trans hg) fun he => hnot (Option.some.inj he ▸ hplaying)
    · simp only [KeyedMap.lookup_mapValues, hg, Option.map_some, Option.some.injEq] at hg'
      subst hg'
      exact stepStarts_of_sweep h hg hnot hplaying

/-! ### Runs without a switch back -/

/-- The event is a SetIgnoreWait that makes a buffering member of the group wait for
itself again, while the group plays or is paused. -/
def SwitchesBack (gid : Uuid) (w : World) : Event → Prop
  | .requestResume index .. => ∃ task ∈ w.requests[index]?,
      w.registry.sessionToGroup.lookup task.session.sessionId = some gid ∧
        ∃ g ∈ w.registry.groups.lookup gid,
          g.SwitchesBack task.session.sessionId task.request
  | _ => False

instance (gid : Uuid) (w : World) (e : Event) : Decidable (w.SwitchesBack gid e) :=
  match e with
  | .requestResume index .. => inferInstanceAs (Decidable (∃ task ∈ w.requests[index]?,
      w.registry.sessionToGroup.lookup task.session.sessionId = some gid ∧
        ∃ g ∈ w.registry.groups.lookup gid, g.SwitchesBack task.session.sessionId task.request))
  | .newGroup .. | .joinGroup .. | .joinResume .. | .leaveGroup .. | .handleRequest ..
  | .sweep .. => inferInstanceAs (Decidable False)

theorem quiet_of_reaches (h : (syncPlay m userOf).Reaches (fun w e => ¬ w.SwitchesBack gid e) w)
    (hg : w.registry.groups.lookup gid = some g) : g.Quiet := by
  have hinv : w.Consistent userOf ∧ ∀ g, w.registry.groups.lookup gid = some g → g.Quiet := by
    refine h.invariant (I := fun w => w.Consistent userOf ∧
      ∀ g, w.registry.groups.lookup gid = some g → g.Quiet) ?_ ?_
    · exact ⟨consistent_of_reachable (m := m) Machine.Reaches.start,
        fun g hg => by simp [syncPlay] at hg⟩
    · rintro w e w' ⟨hw, hquiet⟩ hok hs
      refine ⟨consistent_step hw hs, fun g' hg' => ?_⟩
      cases group_step hw hs hg' with
      | same hg => exact hquiet g' hg
      | founded _ he =>
        rw [he]
        exact Group.quiet_founded ..
      | step hg hperf he =>
        rw [he]
        refine (hquiet _ hg).apply fun hback => hok ?_
        cases hperf with
        | request ht hgroup => exact ⟨_, ht, hgroup, _, hg, hback⟩
        | join => exact hback.elim
        | leave => exact hback.elim
        | sweep => exact hback.elim
  exact hinv.2 g hg

end World

/-- **The members agree on the start.**  A step that takes a group from another state
into `Playing` sends every session that was a member when it began one Unpause, the
same for all of them: for the group's new last activity, which is not before now,
and its position.  Only the caller of a Ready that reports playing may be left out.
Nobody is waited for then, unless the group was paused; and not then either, in a
run in which no buffering member switches its IgnoreWait off outside a wait. -/
theorem start_agreed {m : Manager} {userOf : String → Uuid} {w w' : World} {e : Event}
    (h : (syncPlay m userOf).Reachable w) (hs : (syncPlay m userOf).step w e = some w')
    {gid : Uuid} {g g' : Group} (hg : w.registry.groups.lookup gid = some g)
    (hg' : w'.registry.groups.lookup gid = some g') (hnot : g.state ≠ .playing)
    (hplaying : g'.state = .playing) :
    (∃ now, e.clock = some now ∧ StartAgreed (w.sent m e) now (w.ReadyPlaying e) g g') ∧
    (g.state ≠ .paused → g'.isBuffering = false) ∧
    ((syncPlay m userOf).Reaches (fun w e => ¬ w.SwitchesBack gid e) w' →
      g'.isBuffering = false) := by
  have hstarts := World.stepStarts_of_step (World.consistent_of_reachable h)
    (World.pingsOk_of_reachable h hg) hs hg hg' hnot hplaying
  exact ⟨hstarts.1, hstarts.2, fun hrun =>
    (World.quiet_of_reaches hrun hg').quiet (.inl hplaying)⟩

/-- Two sessions in a group; one plays an item, the other does not want to be waited
for, and the first reports ready, which starts playback. -/
def startRun : List Event :=
  [.newGroup ⟨"tv", 1, "alice"⟩ "film" none 7 (fun _ => 0) ⟨0, 0⟩,
    .joinGroup ⟨"pad", 1, "alice"⟩ 7,
    .joinResume 0 false ⟨0, 0⟩,
    .handleRequest ⟨"tv", 1, "alice"⟩ (.play [5] 0 0),
    .requestResume 0 (fun _ => false) [] ⟨fun i => 100 + i, fun _ => 0⟩ ⟨0, 0⟩,
    .handleRequest ⟨"pad", 1, "alice"⟩ (.ignoreWait true),
    .requestResume 0 (fun _ => false) [] ⟨fun _ => 0, fun _ => 0⟩ ⟨0, 0⟩,
    .handleRequest ⟨"tv", 1, "alice"⟩ (.ready ⟨0, 0, false, 100⟩)]

/-- The Ready, and what follows it: the group is paused, the other session wants to
be waited for again while it is still buffering, and the first asks to go on. -/
def switchBackRun : List Event :=
  startRun ++ [Event.requestResume 0 (fun _ => false) [] ⟨fun _ => 0, fun _ => 0⟩ ⟨0, 0⟩,
    .handleRequest ⟨"tv", 1, "alice"⟩ .pause,
    .requestResume 0 (fun _ => false) [] ⟨fun _ => 0, fun _ => 0⟩ ⟨0, 0⟩,
    .handleRequest ⟨"pad", 1, "alice"⟩ (.ignoreWait false),
    .requestResume 0 (fun _ => false) [] ⟨fun _ => 0, fun _ => 0⟩ ⟨0, 0⟩,
    .handleRequest ⟨"tv", 1, "alice"⟩ .unpause]

/-- The last step of both runs: the request is handled. -/
def resumeEvent : Event :=
  .requestResume 0 (fun _ => false) [] ⟨fun _ => 0, fun _ => 0⟩ ⟨0, 0⟩

theorem start_agreed_ready :
    ∃ w w' g g', (syncPlay {} fun _ => 1).run {} startRun = some w ∧
      (syncPlay {} fun _ => 1).step w resumeEvent = some w' ∧
      w.registry.groups.lookup 7 = some g ∧ w'.registry.groups.lookup 7 = some g' ∧
      ∃ now, resumeEvent.clock = some now ∧
        StartAgreed (w.sent {} resumeEvent) now (w.ReadyPlaying resumeEvent) g g' :=
  ⟨_, _, _, _, rfl, rfl, rfl, rfl, (start_agreed (Machine.reachable_of_run
    (M := syncPlay {} fun _ => 1) startRun rfl) rfl (rfl : AList.lookup 7 _ = _) rfl (by decide)
    rfl).1⟩

/-- **A paused group may start with a member it should wait for**: the Unpause of a
paused group asks nobody, though a member has switched its IgnoreWait off. -/
theorem start_waits_for_nobody_fails :
    ¬ ∀ w, (syncPlay {} fun _ => 1).Reachable w →
      ∀ e w', (syncPlay {} fun _ => 1).step w e = some w' →
      ∀ gid g g', w.registry.groups.lookup gid = some g →
        w'.registry.groups.lookup gid = some g' → g.state ≠ .playing → g'.state = .playing →
        (g.state = .waiting ∧ ∃ task ∈ w.requests, task.request = .unpause) ∨
          (∃ now, e = .sweep now) ∨ g'.isBuffering = false := by
  intro h
  obtain ⟨w, hw⟩ : ∃ w, (syncPlay {} fun _ => 1).run {} switchBackRun = some w :=
      Option.isSome_iff_exists.mp (by decide +kernel)
  have hreach := Machine.reachable_of_run switchBackRun hw
  cases hw
  rcases h _ hreach resumeEvent _ rfl 7 _ _ rfl rfl (by decide) rfl with hf | hf | hf
  · cases hf.1
  · obtain ⟨_, hf⟩ := hf
    cases hf
  · cases hf

end Ferrofin.SyncPlay
