import Ferrofin.SyncPlay.Roster

/-!
# The SyncPlay registry stays consistent

Three maps say who is in which group: the member lists of the groups, the group
of each session, and the session count of each user.  They agree in every
reachable state.
-/

namespace Ferrofin.SyncPlay

open Lib

abbrev Group.sessions (g : Group) : List String := g.roster.map Prod.fst

/-- A group somebody is in: its sessions are distinct, and each has the user its
session id stands for. -/
structure Group.RosterOk (userOf : String → Uuid) (g : Group) : Prop where
  nodup : g.sessions.Nodup
  nonempty : g.members ≠ []
  users : ∀ e ∈ g.roster, e.2 = userOf e.1

theorem Group.RosterOk.congr {userOf : String → Uuid} {g g' : Group} (h : g.RosterOk userOf)
    (hr : g'.roster = g.roster) : g'.RosterOk userOf where
  nodup := by rw [sessions, hr]; exact h.nodup
  nonempty := by
    intro he
    have : g.roster = [] := by rw [← hr, roster, he]; rfl
    exact h.nonempty (List.map_eq_nil_iff.mp this)
  users := by rw [hr]; exact h.users

/-- How many member sessions of a group have the user. -/
def Group.countUser (g : Group) (userId : Uuid) : Nat := g.roster.countP fun e => e.2 == userId

/-- What a counter map holds for a count: the key is absent at 0. -/
def counted (n : Nat) : Option Nat := if n = 0 then none else some n

namespace Registry

variable {userOf : String → Uuid} {reg : Registry}

def HasMember (reg : Registry) (sessionId : String) (groupId : Uuid) : Prop :=
  ∃ g, reg.groups.lookup groupId = some g ∧ sessionId ∈ g.sessions

/-- How many member sessions of all groups have the user. -/
def memberCount (reg : Registry) (userId : Uuid) : Nat :=
  KeyedMap.total (fun g => g.countUser userId) reg.groups

/-- **The registry's maps agree**: a session is mapped to the group it occurs in,
every group has a member and each member once, and every user is counted. -/
structure Consistent (userOf : String → Uuid) (reg : Registry) : Prop where
  mapped : ∀ s gid, reg.sessionToGroup.lookup s = some gid ↔ reg.HasMember s gid
  sound : ∀ gid g, reg.groups.lookup gid = some g → g.RosterOk userOf
  counted : ∀ u, reg.activeUsers.lookup u = counted (reg.memberCount u)

theorem consistent_empty : Consistent userOf {} where
  mapped s gid := by simp [HasMember]
  sound gid g h := by simp at h
  counted u := rfl

theorem Consistent.group_unique (h : reg.Consistent userOf) {s : String} {gid gid' : Uuid}
    (h1 : reg.HasMember s gid) (h2 : reg.HasMember s gid') : gid = gid' := by
  have e1 := (h.mapped s gid).mpr h1
  have e2 := (h.mapped s gid').mpr h2
  exact Option.some.inj (e1.symm.trans e2)

/-! ### The counters -/

theorem lookup_countUser (reg : Registry) {n : Nat} {u v : Uuid}
    (h : reg.activeUsers.lookup u = SyncPlay.counted n) :
    (reg.countUser v).activeUsers.lookup u = SyncPlay.counted (n + if u = v then 1 else 0) := by
  rw [countUser, KeyedMap.lookup_insert_eq]
  by_cases huv : u = v
  · subst huv
    rw [if_pos rfl, if_pos rfl, h]
    by_cases hn : n = 0 <;> simp [SyncPlay.counted, hn]
  · rw [if_neg huv, if_neg huv, h, Nat.add_zero]

theorem lookup_decrement {counts : KeyedMap Uuid Nat} {n : Nat} {u v : Uuid}
    (h : counts.lookup u = SyncPlay.counted n) :
    (decrement counts v).lookup u = SyncPlay.counted (n - if u = v then 1 else 0) := by
  unfold decrement
  by_cases huv : u = v
  · subst huv
    rw [if_pos rfl, h]
    unfold SyncPlay.counted
    by_cases hn : n = 0
    · simp [hn, h, SyncPlay.counted]
    · rw [if_neg hn]
      dsimp only
      split_ifs with h1
      · exact AList.lookup_erase _ _
      · exact AList.lookup_insert _
  · rw [if_neg huv, Nat.sub_zero]
    split
    · exact h
    · split_ifs
      · rw [AList.lookup_erase_ne huv, h]
      · rw [AList.lookup_insert_ne huv, h]

/-! ### One group changes, its roster stays -/

/-- Putting a group back with the roster it had keeps the registry consistent. -/
theorem Consistent.putGroup (h : reg.Consistent userOf) {gid : Uuid} {g g' : Group}
    (hg : reg.groups.lookup gid = some g) (hr : g'.roster = g.roster) :
    (reg.putGroup gid g').Consistent userOf where
  mapped s k := by
    rw [show (reg.putGroup gid g').sessionToGroup = reg.sessionToGroup from rfl, h.mapped]
    simp only [HasMember, Registry.putGroup, KeyedMap.lookup_insert_eq]
    by_cases hk : k = gid
    · subst hk
      simp only [if_true, hg, Option.some.injEq, exists_eq_left', Group.sessions, hr]
    · simp [hk]
  sound k g'' hk := by
    simp only [Registry.putGroup, KeyedMap.lookup_insert_eq] at hk
    by_cases he : k = gid
    · rw [if_pos he] at hk
      cases hk
      exact (h.sound gid g hg).congr hr
    · rw [if_neg he] at hk
      exact h.sound k g'' hk
  counted u := by
    have hcount : (reg.putGroup gid g').memberCount u = reg.memberCount u := by
      have := KeyedMap.total_insert_add (fun g => g.countUser u) (w := g') hg
      simp only [Group.countUser, hr] at this
      exact Nat.add_right_cancel this
    rw [hcount]
    exact h.counted u

theorem Consistent.sweep (h : reg.Consistent userOf) (now : Clock) :
    (reg.sweepGroupWaits now).1.Consistent userOf := by
  unfold sweepGroupWaits
  split
  · exact ⟨h.mapped, h.sound, h.counted⟩
  refine ⟨fun s gid => ?_, fun gid g hg => ?_, fun u => ?_⟩
  · simp only [h.mapped, HasMember, KeyedMap.lookup_mapValues, Option.map_eq_some_iff]
    constructor
    · rintro ⟨g, hg, hs⟩
      exact ⟨_, ⟨g, hg, rfl⟩, by rwa [Group.sessions, Group.roster_handleGroupWaitTimeout]⟩
    · rintro ⟨_, ⟨g, hg, rfl⟩, hs⟩
      exact ⟨g, hg, by rwa [Group.sessions, Group.roster_handleGroupWaitTimeout] at hs⟩
  · simp only [KeyedMap.lookup_mapValues, Option.map_eq_some_iff] at hg
    obtain ⟨g0, hg0, rfl⟩ := hg
    exact (h.sound gid g0 hg0).congr (g0.roster_handleGroupWaitTimeout now)
  · have hcount : KeyedMap.total (fun g => g.countUser u)
        (reg.groups.mapValues fun _ g => (g.handleGroupWaitTimeout now).1) = reg.memberCount u := by
      refine KeyedMap.total_mapValues_of_eq (fun _ g => ?_) reg.groups
      simp only [Group.countUser, Group.roster_handleGroupWaitTimeout]
    rw [memberCount, hcount]
    exact h.counted u

/-! ### A session leaves -/

theorem countP_filter_session {roster : List (String × Uuid)} {s : String} (u : Uuid)
    (hnodup : (roster.map Prod.fst).Nodup) (hs : s ∈ roster.map Prod.fst)
    (husers : ∀ e ∈ roster, e.2 = userOf e.1) :
    (roster.filter fun e => e.1 != s).countP (fun e => e.2 == u) =
      roster.countP (fun e => e.2 == u) - if u = userOf s then 1 else 0 := by
  induction roster with
  | nil => simp at hs
  | cons e roster ih =>
    rw [List.map_cons, List.nodup_cons] at hnodup
    have he : e.2 = userOf e.1 := husers e List.mem_cons_self
    by_cases hes : e.1 = s
    · -- the session stands at the head, and nowhere else
      have hrest : roster.filter (fun e => e.1 != s) = roster := by
        rw [List.filter_eq_self]
        intro e' he'
        have hne : e'.1 ≠ s := fun h => hnodup.1 (hes ▸ h ▸ List.mem_map_of_mem he')
        simpa using hne
      rw [List.filter_cons_of_neg (by simp [hes]), hrest, List.countP_cons, he, hes]
      simp only [beq_iff_eq, eq_comm (a := userOf s)]
      omega
    · have hs' : s ∈ roster.map Prod.fst := by
        rcases List.mem_cons.mp hs with h | h
        · exact absurd h.symm hes
        · exact h
      have hpos : u = userOf s → 0 < roster.countP fun e => e.2 == u := by
        intro hu
        obtain ⟨e', he', hes'⟩ := List.mem_map.mp hs'
        refine List.countP_pos_iff.mpr ⟨e', he', ?_⟩
        rw [husers e' (List.mem_cons_of_mem _ he'), hes', hu]
        exact beq_self_eq_true _
      rw [List.filter_cons_of_pos (by simpa using hes), List.countP_cons, List.countP_cons,
        ih hnodup.2 hs' fun e' he' => husers e' (List.mem_cons_of_mem _ he')]
      by_cases hu : u = userOf s
      · have := hpos hu
        rw [if_pos hu]
        omega
      · rw [if_neg hu]
        omega

theorem mem_sessions_leave (g : Group) (s s' : String) (now : Clock) :
    s' ∈ (g.leave s now).sessions ↔ s' ∈ g.sessions ∧ s' ≠ s := by
  rw [Group.sessions, Group.roster_leave, Group.sessions]
  simp only [List.mem_map, List.mem_filter, bne_iff_ne]
  constructor
  · rintro ⟨e, ⟨he, hne⟩, rfl⟩
    exact ⟨⟨e, he, rfl⟩, hne⟩
  · rintro ⟨⟨e, he, rfl⟩, hne⟩
    exact ⟨e, ⟨he, hne⟩, rfl⟩

theorem countUser_leave {g : Group} (h : g.RosterOk userOf) {s : String} (hs : s ∈ g.sessions)
    (now : Clock) (u : Uuid) :
    (g.leave s now).countUser u = g.countUser u - if u = userOf s then 1 else 0 := by
  rw [Group.countUser, Group.roster_leave]
  exact countP_filter_session u h.nodup hs h.users

theorem countUser_pos {g : Group} (h : g.RosterOk userOf) {s : String} (hs : s ∈ g.sessions) :
    0 < g.countUser (userOf s) := by
  obtain ⟨e, he, rfl⟩ := List.mem_map.mp hs
  exact List.countP_pos_iff.mpr ⟨e, he, by rw [h.users e he]; exact beq_self_eq_true _⟩

theorem countUser_of_isEmpty {g : Group} (h : g.isEmpty) (u : Uuid) : g.countUser u = 0 := by
  have hm : g.members = [] := List.isEmpty_iff.mp h
  simp [Group.countUser, hm]

theorem lookup_putOrDrop (groups : KeyedMap Uuid Group) (gid k : Uuid) (g : Group) :
    (putOrDrop groups gid g).lookup k =
      if k = gid then (if g.isEmpty then none else some g) else groups.lookup k := by
  unfold putOrDrop
  by_cases he : g.isEmpty
  · rw [if_pos he, KeyedMap.lookup_erase_eq, if_pos he]
  · rw [if_neg he, KeyedMap.lookup_insert_eq, if_neg he]

/-- The count over all groups, once one of them has lost a session or is gone. -/
theorem total_putOrDrop {groups : KeyedMap Uuid Group} {gid : Uuid} {g : Group} (g' : Group)
    (u : Uuid) (hg : groups.lookup gid = some g) :
    KeyedMap.total (fun g => g.countUser u) (putOrDrop groups gid g') + g.countUser u
      = KeyedMap.total (fun g => g.countUser u) groups + g'.countUser u := by
  unfold putOrDrop
  by_cases he : g'.isEmpty
  · rw [if_pos he, countUser_of_isEmpty he,
      KeyedMap.total_eq_add_erase (fun g => g.countUser u) hg]
    omega
  · rw [if_neg he]
    exact KeyedMap.total_insert_add (fun g => g.countUser u) hg

def without (reg : Registry) (session : SyncPlaySession) (gid : Uuid) (g : Group)
    (now : Clock) : Registry :=
  { reg with
    sessionToGroup := reg.sessionToGroup.erase session.sessionId
    activeUsers := decrement reg.activeUsers session.userId
    groups := putOrDrop reg.groups gid (g.leave session.sessionId now) }

theorem Consistent.hasMember_without (h : reg.Consistent userOf) {session : SyncPlaySession}
    {gid : Uuid} {g : Group} (hg : reg.groups.lookup gid = some g)
    (hs : session.sessionId ∈ g.sessions) (now : Clock) (s : String) (k : Uuid) :
    (reg.without session gid g now).HasMember s k ↔
      reg.HasMember s k ∧ s ≠ session.sessionId := by
  simp only [HasMember, without, lookup_putOrDrop]
  by_cases hk : k = gid
  · subst hk
    simp only [if_true, hg, Option.some.injEq, exists_eq_left',
      ← mem_sessions_leave g session.sessionId s now]
    split
    · next he =>
      have hm : (g.leave session.sessionId now).members = [] := List.isEmpty_iff.mp he
      simp [hm]
    · simp only [Option.some.injEq, exists_eq_left']
  · rw [if_neg hk]
    refine ⟨fun hm => ⟨hm, fun he => hk ?_⟩, fun hm => hm.1⟩
    exact h.group_unique (he ▸ hm) ⟨g, hg, hs⟩

theorem Consistent.memberCount_without (h : reg.Consistent userOf) {session : SyncPlaySession}
    (hu : session.userId = userOf session.sessionId) {gid : Uuid} {g : Group}
    (hg : reg.groups.lookup gid = some g) (hs : session.sessionId ∈ g.sessions) (now : Clock)
    (u : Uuid) :
    (reg.without session gid g now).memberCount u =
      reg.memberCount u - if u = session.userId then 1 else 0 := by
  have hok := h.sound gid g hg
  have hsum := total_putOrDrop (g.leave session.sessionId now) u hg
  have hle : g.countUser u ≤ reg.memberCount u := by
    rw [memberCount, KeyedMap.total_eq_add_erase (fun g => g.countUser u) hg]
    exact Nat.le_add_right _ _
  rw [countUser_leave hok hs] at hsum
  have hpos := countUser_pos hok hs
  simp only [memberCount, without] at hle ⊢
  rw [hu]
  by_cases he : u = userOf session.sessionId
  · subst he
    rw [if_pos rfl] at hsum ⊢
    omega
  · rw [if_neg he] at hsum ⊢
    omega

theorem Consistent.without (h : reg.Consistent userOf) {session : SyncPlaySession}
    (hu : session.userId = userOf session.sessionId) {gid : Uuid} {g : Group}
    (hg : reg.groups.lookup gid = some g) (hs : session.sessionId ∈ g.sessions) (now : Clock) :
    (reg.without session gid g now).Consistent userOf where
  mapped s k := by
    rw [h.hasMember_without hg hs, ← h.mapped]
    rw [show (reg.without session gid g now).sessionToGroup.lookup s = _ from
      KeyedMap.lookup_erase_eq _ _ _]
    split
    · next he => simp [he]
    · next he => simp [he]
  sound k g' hk := by
    have hok := h.sound gid g hg
    simp only [Registry.without, lookup_putOrDrop] at hk
    by_cases hkg : k = gid
    · rw [if_pos hkg] at hk
      split at hk
      · cases hk
      · next he =>
        cases hk
        refine ⟨?_, fun hm => he (List.isEmpty_iff.mpr hm), ?_⟩
        · rw [Group.sessions, Group.roster_leave]
          exact hok.nodup.sublist (List.filter_sublist.map _)
        · rw [Group.roster_leave]
          exact fun e hmem => hok.users e (List.mem_of_mem_filter hmem)
    · rw [if_neg hkg] at hk
      exact h.sound k g' hk
  counted u := by
    rw [h.memberCount_without hu hg hs]
    exact lookup_decrement (h.counted u)

theorem Consistent.leave_cases (h : reg.Consistent userOf) (session : SyncPlaySession)
    (now : Clock) :
    (reg.sessionToGroup.lookup session.sessionId = none ∧
      (reg.leaveLockedWithNotices session now).1 = reg) ∨
    ∃ gid g, reg.groups.lookup gid = some g ∧ session.sessionId ∈ g.sessions ∧
      reg.sessionToGroup.lookup session.sessionId = some gid ∧
      (reg.leaveLockedWithNotices session now).1 = reg.without session gid g now := by
  unfold leaveLockedWithNotices
  cases hl : reg.sessionToGroup.lookup session.sessionId with
  | none => exact .inl ⟨rfl, rfl⟩
  | some gid =>
    obtain ⟨g, hg, hs⟩ := (h.mapped _ _).mp hl
    refine .inr ⟨gid, g, hg, hs, rfl, ?_⟩
    simp only [decrementUser, hg]
    rfl

/-- **A leave keeps the registry consistent.** -/
theorem Consistent.leave (h : reg.Consistent userOf) {session : SyncPlaySession}
    (hu : session.userId = userOf session.sessionId) (now : Clock) :
    (reg.leaveLockedWithNotices session now).1.Consistent userOf := by
  rcases h.leave_cases session now with ⟨_, he⟩ | ⟨gid, g, hg, hs, _, he⟩
  · rw [he]; exact h
  · rw [he]; exact h.without hu hg hs now

theorem Consistent.lookup_leave_self (h : reg.Consistent userOf) (session : SyncPlaySession)
    (now : Clock) :
    (reg.leaveLockedWithNotices session now).1.sessionToGroup.lookup session.sessionId = none := by
  rcases h.leave_cases session now with ⟨hn, he⟩ | ⟨gid, g, _, _, _, he⟩
  · rw [he]; exact hn
  · rw [he]; exact AList.lookup_erase _ _

theorem Consistent.lookup_leave_group (h : reg.Consistent userOf) (session : SyncPlaySession)
    (now : Clock) {k : Uuid} (hk : reg.sessionToGroup.lookup session.sessionId ≠ some k) :
    (reg.leaveLockedWithNotices session now).1.groups.lookup k = reg.groups.lookup k := by
  rcases h.leave_cases session now with ⟨_, he⟩ | ⟨gid, g, _, _, hl, he⟩
  · rw [he]
  · have hne : k ≠ gid := fun hkg => hk (by rw [hl, hkg])
    rw [he]
    simp only [Registry.without, lookup_putOrDrop, if_neg hne]

/-! ### A session comes -/

/-- **A session that is mapped nowhere may be added** to a group, old or new. -/
theorem Consistent.add (h : reg.Consistent userOf) {session : SyncPlaySession}
    (hu : session.userId = userOf session.sessionId)
    (hnone : reg.sessionToGroup.lookup session.sessionId = none) (gid : Uuid) (g' : Group)
    (hr : g'.roster = ((reg.groups.lookup gid).map (·.roster)).getD [] ++
      [(session.sessionId, session.userId)]) :
    ((reg.putGroup gid g').mapSession session gid).Consistent userOf := by
  have hnot : ∀ k, ¬ reg.HasMember session.sessionId k := by
    intro k hm
    rw [← h.mapped, hnone] at hm
    cases hm
  have hsessions : ∀ s, s ∈ g'.sessions ↔ reg.HasMember s gid ∨ s = session.sessionId := by
    intro s
    rw [Group.sessions, hr]
    cases hg : reg.groups.lookup gid <;> simp [HasMember, hg]
  have hgroups : ∀ k, ((reg.putGroup gid g').mapSession session gid).groups.lookup k =
      if k = gid then some g' else reg.groups.lookup k :=
    fun k => KeyedMap.lookup_insert_eq _ _ _ _
  refine ⟨fun s k => ?_, fun k g hk => ?_, fun u => ?_⟩
  · rw [show ((reg.putGroup gid g').mapSession session gid).sessionToGroup.lookup s = _ from
      KeyedMap.lookup_insert_eq _ _ _ _]
    simp only [HasMember, hgroups]
    by_cases hk : k = gid
    · subst hk
      simp only [if_true, Option.some.injEq, exists_eq_left', hsessions]
      split
      · next he => simp [he]
      · next he =>
        rw [show (reg.putGroup k g').sessionToGroup = reg.sessionToGroup from rfl, h.mapped]
        simp [he]
    · rw [if_neg hk]
      split
      · next he =>
        subst he
        exact ⟨fun heq => absurd (Option.some.inj heq).symm hk, fun hm => absurd hm (hnot k)⟩
      · exact h.mapped s k
  · rw [hgroups] at hk
    by_cases hkg : k = gid
    · rw [if_pos hkg] at hk
      cases hk
      refine ⟨?_, fun hm => ?_, ?_⟩
      · rw [Group.sessions, hr, List.map_append, List.nodup_append]
        refine ⟨?_, List.nodup_singleton _, ?_⟩
        · cases hg : reg.groups.lookup gid with
          | none => exact List.nodup_nil
          | some g0 => exact (h.sound gid g0 hg).nodup
        · rintro a ha b hb rfl
          cases hg : reg.groups.lookup gid with
          | none => simp [hg] at ha
          | some g0 =>
            rw [List.mem_singleton.mp hb] at ha
            exact hnot gid ⟨g0, hg, by simpa [hg] using ha⟩
      · rw [Group.roster, hm] at hr
        simp at hr
      · rw [hr]
        intro e he
        rcases List.mem_append.mp he with he | he
        · cases hg : reg.groups.lookup gid with
          | none => simp [hg] at he
          | some g0 => exact (h.sound gid g0 hg).users e (by simpa [hg] using he)
        · rw [List.mem_singleton.mp he]
          exact hu
    · rw [if_neg hkg] at hk
      exact h.sound k g hk
  · have hcount : ((reg.putGroup gid g').mapSession session gid).memberCount u =
        reg.memberCount u + if u = session.userId then 1 else 0 := by
      have hg' : g'.countUser u = ((reg.groups.lookup gid).map (·.countUser u)).getD 0 +
          if u = session.userId then 1 else 0 := by
        rw [Group.countUser, hr, List.countP_append]
        cases hg : reg.groups.lookup gid <;>
          simp [Group.countUser, eq_comm (a := session.userId)]
      change KeyedMap.total (fun g => g.countUser u) (reg.groups.insert gid g') = _
      cases hg : reg.groups.lookup gid with
      | none =>
        rw [KeyedMap.total_insert_of_lookup_none _ hg, hg', hg]
        simp [memberCount, Nat.add_comm]
      | some g0 =>
        have hsum := KeyedMap.total_insert_add (fun g => g.countUser u) (w := g') hg
        rw [hg', hg] at hsum
        simp only [Option.map_some, Option.getD_some] at hsum
        simp only [memberCount]
        omega
    rw [hcount]
    exact lookup_countUser (reg.putGroup gid g') (h.counted u)

/-! ### The calls -/

theorem Consistent.newGroup (h : reg.Consistent userOf) (m : Manager) {session : SyncPlaySession}
    (hu : session.userId = userOf session.sessionId) (name : String)
    (nowPlaying : Option (SyncPlayNowPlaying × List (Uuid × Int))) {gid : Uuid}
    (hgid : gid ∉ reg.groups) (fresh : Nat → Uuid) (now : Clock) :
    (reg.newGroup m session name nowPlaying gid fresh now).1.Consistent userOf := by
  have hnone : reg.groups.lookup gid = none := AList.lookup_eq_none.mpr hgid
  have hgone : (reg.leaveLockedWithNotices session now).1.groups.lookup gid = none := by
    rw [h.lookup_leave_group session now, hnone]
    intro hl
    obtain ⟨g, hg, _⟩ := (h.mapped _ _).mp hl
    rw [hnone] at hg
    cases hg
  have hadd := (h.leave hu now).add hu (h.lookup_leave_self session now) gid
    ((Group.create gid name m.groupWaitTimeout session nowPlaying fresh now).sessionJoined
      session.sessionId now).1
    (by rw [Group.roster_sessionJoined, Group.roster_create, hgone]; rfl)
  exact ⟨hadd.mapped, hadd.sound, hadd.counted⟩

theorem lookup_of_joinRefusal_none {m : Manager} {join : PendingJoin} {fault : Bool}
    (h : reg.joinRefusal m join fault = none) :
    ∃ g, reg.groups.lookup join.groupId = some g ∧
      join.checkedQueue = some g.queue.itemIds ∧
      m.hasAccessToQueue fault join.session.userId g.queue.itemIds := by
  unfold joinRefusal at h
  split at h
  · cases h
  · next haccess =>
    split at h
    · cases h
    · next g hg =>
      split at h
      · cases h
      · next hq =>
        have hq' : join.checkedQueue = some g.queue.itemIds := (not_not.mp hq).symm
        refine ⟨g, hg, hq', ?_⟩
        rw [hq'] at haccess
        simpa using haccess

theorem Consistent.joinAdmitted (h : reg.Consistent userOf) {join : PendingJoin}
    (hu : join.session.userId = userOf join.session.sessionId) {g : Group}
    (hg : reg.groups.lookup join.groupId = some g) (now : Clock) :
    (reg.joinAdmitted join now).1.Consistent userOf ∧
      (reg.joinAdmitted join now).2.result = .ok () := by
  unfold Registry.joinAdmitted
  dsimp only
  by_cases hrestore : reg.sessionToGroup.lookup join.session.sessionId = some join.groupId
  · -- the session is a member: the roster stays
    obtain ⟨g', hg', hs⟩ := (h.mapped _ _).mp hrestore
    rw [hg] at hg'
    cases hg'
    simp only [if_pos hrestore, hg]
    refine ⟨h.putGroup hg ?_, trivial⟩
    rw [Group.roster_join, if_pos hs]
  · have hsame := h.lookup_leave_group join.session now hrestore
    rw [hg] at hsame
    simp only [if_neg hrestore, hsame]
    have hself := h.lookup_leave_self join.session now
    have hnot : join.session.sessionId ∉ g.sessions := by
      intro hs
      have hm := ((h.leave hu now).mapped _ _).mpr ⟨g, hsame, hs⟩
      rw [hself] at hm
      cases hm
    refine ⟨(h.leave hu now).add hu hself _ _ ?_, trivial⟩
    rw [Group.roster_join, if_neg hnot, hsame]
    rfl

theorem Consistent.lookup_joinAdmitted (h : reg.Consistent userOf) {join : PendingJoin}
    {g : Group} (hg : reg.groups.lookup join.groupId = some g) (now : Clock) :
    (reg.joinAdmitted join now).1.sessionToGroup.lookup join.session.sessionId =
      some join.groupId := by
  unfold Registry.joinAdmitted
  dsimp only
  by_cases hrestore : reg.sessionToGroup.lookup join.session.sessionId = some join.groupId
  · simp only [if_pos hrestore, hg]
    exact hrestore
  · have hsame := h.lookup_leave_group join.session now hrestore
    rw [hg] at hsame
    simp only [if_neg hrestore, hsame]
    exact AList.lookup_insert _

/-- **A join keeps the registry consistent and its group does not vanish.** -/
theorem Consistent.joinCommit (h : reg.Consistent userOf) (m : Manager) {join : PendingJoin}
    (hu : join.session.userId = userOf join.session.sessionId) (fault : Bool) (now : Clock) :
    (reg.joinCommit m join fault now).1.Consistent userOf ∧
      (reg.joinCommit m join fault now).2.result = .ok () := by
  unfold Registry.joinCommit
  cases hr : reg.joinRefusal m join fault with
  | some update => exact ⟨h, rfl⟩
  | none =>
    obtain ⟨g, hg, _⟩ := lookup_of_joinRefusal_none hr
    exact h.joinAdmitted hu hg now

theorem leaveGroup_fst (reg : Registry) (session : SyncPlaySession) (now : Clock) :
    (reg.leaveGroup session now).1 = (reg.leaveLockedWithNotices session now).1 := by
  unfold Registry.leaveGroup
  split <;> next heq => rw [heq]

theorem Consistent.leaveGroup (h : reg.Consistent userOf) {session : SyncPlaySession}
    (hu : session.userId = userOf session.sessionId) (now : Clock) :
    (reg.leaveGroup session now).1.Consistent userOf := by
  rw [leaveGroup_fst]
  exact h.leave hu now

/-- What a request does under the lock: nothing, unless the items were checked
against the group's members; then the group of the session handles it. -/
theorem requestCommit_cases (reg : Registry) (m : Manager) (task : PendingRequest)
    (fault : Uuid → Bool) (runtimes : List (Uuid × Int)) (draws : Draws) (now : Clock) :
    ((reg.requestCommit m task fault runtimes draws now).1 = reg ∧
      ((reg.requestCommit m task fault runtimes draws now).2.result = .ok () ∨
        ∃ gid, reg.sessionToGroup.lookup task.session.sessionId = some gid ∧
          reg.groups.lookup gid = none)) ∨
    ∃ gid g, reg.sessionToGroup.lookup task.session.sessionId = some gid ∧
      reg.groups.lookup gid = some g ∧
      requestRefused m task fault = false ∧
      (∀ members ∈ task.checkedMembers, members = g.memberUserIds) ∧
      (reg.requestCommit m task fault runtimes draws now).1 = reg.putGroup gid
        (g.applyRequest task.session.sessionId task.request runtimes draws now).1 ∧
      (reg.requestCommit m task fault runtimes draws now).2.result = .ok () := by
  unfold requestCommit
  dsimp only
  split
  · exact .inl ⟨rfl, .inl rfl⟩
  · next hrefused =>
    cases hl : reg.sessionToGroup.lookup task.session.sessionId with
    | none => exact .inl ⟨rfl, .inl rfl⟩
    | some gid =>
      cases hg : reg.groups.lookup gid with
      | none => exact .inl ⟨by simp only [hg], .inr ⟨gid, rfl, hg⟩⟩
      | some g =>
        simp only [hg]
        split
        · exact .inl ⟨rfl, .inl rfl⟩
        · next hmembers =>
          refine .inr ⟨gid, g, rfl, hg, by simpa using hrefused, fun members hm => ?_, rfl, rfl⟩
          rw [Option.mem_def.mp hm] at hmembers
          simpa using hmembers

/-- **A request keeps the registry consistent and finds the group it is mapped to.** -/
theorem Consistent.requestCommit (h : reg.Consistent userOf) (m : Manager)
    (task : PendingRequest) (fault : Uuid → Bool) (runtimes : List (Uuid × Int)) (draws : Draws)
    (now : Clock) :
    (reg.requestCommit m task fault runtimes draws now).1.Consistent userOf ∧
      (reg.requestCommit m task fault runtimes draws now).2.result = .ok () := by
  rcases reg.requestCommit_cases m task fault runtimes draws now with
    ⟨he, hr⟩ | ⟨gid, g, _, hg, _, _, he, hr⟩
  · rw [he]
    refine ⟨h, hr.resolve_right ?_⟩
    rintro ⟨gid, hl, hg⟩
    obtain ⟨g, hg', _⟩ := (h.mapped _ _).mp hl
    rw [hg] at hg'
    cases hg'
  · rw [he]
    exact ⟨h.putGroup hg (g.roster_applyRequest ..), hr⟩

end Registry

/-! ### Every run -/

namespace World

/-- The consistency of the whole state: the registry's, every call in flight is of
the user its session id stands for, and a request has a snapshot of the members
if it puts items in the queue. -/
structure Consistent (userOf : String → Uuid) (w : World) : Prop where
  registry : w.registry.Consistent userOf
  joins : ∀ join ∈ w.joins, join.session.userId = userOf join.session.sessionId
  requests : ∀ task ∈ w.requests, task.session.userId = userOf task.session.sessionId
  checked : ∀ task ∈ w.requests,
    task.checkedMembers = none ↔ (Registry.incoming task.request).isEmpty

theorem consistent_step {m : Manager} {userOf : String → Uuid} {w w' : World} {e : Event}
    (h : w.Consistent userOf) (hs : step m userOf w e = some w') : w'.Consistent userOf := by
  unfold step at hs
  split at hs
  case isFalse => cases hs
  case isTrue hcaller =>
  cases e with
  | newGroup session name nowPlaying gid fresh now =>
    have hu : session.userId = userOf session.sessionId := by simpa [Event.caller] using hcaller
    simp only [advance] at hs
    split at hs
    · cases hs
    · next hgid =>
      cases hs
      exact ⟨h.registry.newGroup m hu name nowPlaying hgid fresh now, h.joins, h.requests,
        h.checked⟩
  | joinGroup session gid =>
    have hu : session.userId = userOf session.sessionId := by simpa [Event.caller] using hcaller
    cases hs
    refine ⟨h.registry, fun join hj => ?_, h.requests, h.checked⟩
    rcases List.mem_append.mp hj with hj | hj
    · exact h.joins join hj
    · rw [List.mem_singleton.mp hj]
      exact hu
  | joinResume index fault now =>
    obtain ⟨join, hj, rfl⟩ := Option.map_eq_some_iff.mp hs
    have hu := h.joins join (List.mem_of_getElem? hj)
    exact ⟨(h.registry.joinCommit m hu fault now).1,
      fun j hj' => h.joins j (List.mem_of_mem_eraseIdx hj'), h.requests, h.checked⟩
  | leaveGroup session now =>
    have hu : session.userId = userOf session.sessionId := by simpa [Event.caller] using hcaller
    cases hs
    exact ⟨h.registry.leaveGroup hu now, h.joins, h.requests, h.checked⟩
  | handleRequest session request =>
    have hu : session.userId = userOf session.sessionId := by simpa [Event.caller] using hcaller
    cases hs
    refine ⟨h.registry, h.joins, fun task ht => ?_, fun task ht => ?_⟩
    · rcases List.mem_append.mp ht with ht | ht
      · exact h.requests task ht
      · rw [List.mem_singleton.mp ht]
        exact hu
    · rcases List.mem_append.mp ht with ht | ht
      · exact h.checked task ht
      · rw [List.mem_singleton.mp ht]
        simp [Registry.requestSnapshot]
  | requestResume index fault runtimes draws now =>
    obtain ⟨task, ht, rfl⟩ := Option.map_eq_some_iff.mp hs
    exact ⟨(h.registry.requestCommit m task fault runtimes draws now).1, h.joins,
      fun t ht' => h.requests t (List.mem_of_mem_eraseIdx ht'),
      fun t ht' => h.checked t (List.mem_of_mem_eraseIdx ht')⟩
  | sweep now =>
    cases hs
    exact ⟨h.registry.sweep now, h.joins, h.requests, h.checked⟩

theorem consistent_of_reachable {m : Manager} {userOf : String → Uuid} {w : World}
    (h : (syncPlay m userOf).Reachable w) : w.Consistent userOf :=
  h.invariant ⟨Registry.consistent_empty, by simp [syncPlay], by simp [syncPlay],
      by simp [syncPlay]⟩
    fun _ _ _ hw _ hs => consistent_step hw hs

end World

/-- **The SyncPlay registry is consistent in every reachable state**: a session is
mapped to a group exactly when it occurs there, once and in no other group; no
group is empty; a user's count is the number of member sessions with that user,
and absent at 0; and no call in flight ends in an error. -/
theorem registry_consistent {m : Manager} {userOf : String → Uuid} {w : World}
    (h : (syncPlay m userOf).Reachable w) :
    (∀ s gid, w.registry.sessionToGroup.lookup s = some gid ↔
      ∃ g, w.registry.groups.lookup gid = some g ∧
        (g.members.map (·.sessionId)).count s = 1) ∧
    (∀ s gid g, w.registry.groups.lookup gid = some g → s ∈ g.members.map (·.sessionId) →
      (g.members.map (·.sessionId)).count s = 1 ∧
      ∀ gid' g', w.registry.groups.lookup gid' = some g' →
        s ∈ g'.members.map (·.sessionId) → gid' = gid) ∧
    (∀ gid g, w.registry.groups.lookup gid = some g → g.members ≠ []) ∧
    (∀ u, w.registry.activeUsers.lookup u =
      counted (KeyedMap.total (fun g => g.members.countP (·.userId == u)) w.registry.groups)) ∧
    (∀ join ∈ w.joins, ∀ fault now,
      (w.registry.joinCommit m join fault now).2.result = .ok ()) ∧
    ∀ task ∈ w.requests, ∀ fault runtimes draws now,
      (w.registry.requestCommit m task fault runtimes draws now).2.result = .ok () := by
  have hw := World.consistent_of_reachable h
  have hreg := hw.registry
  have hsessions : ∀ g : Group, g.members.map (·.sessionId) = g.sessions := by
    intro g
    simp [GroupMember.entry, Function.comp_def]
  have hone : ∀ gid g s, w.registry.groups.lookup gid = some g → s ∈ g.sessions →
      g.sessions.count s = 1 :=
    fun gid g s hg hs => List.count_eq_one_of_mem (hreg.sound gid g hg).nodup hs
  have hcount : ∀ (u : Uuid) (g : Group), g.members.countP (·.userId == u) = g.countUser u := by
    intro u g
    rw [Group.countUser, Group.roster, List.countP_map]
    rfl
  simp only [hsessions, hcount]
  refine ⟨fun s gid => ?_, fun s gid g hg hs => ⟨hone gid g s hg hs, fun gid' g' hg' hs' => ?_⟩,
    fun gid g hg => (hreg.sound gid g hg).nonempty, hreg.counted,
    fun join hj fault now => (hreg.joinCommit m (hw.joins join hj) fault now).2,
    fun task _ fault runtimes draws now =>
      (hreg.requestCommit m task fault runtimes draws now).2⟩
  · rw [hreg.mapped]
    constructor
    · rintro ⟨g, hg, hs⟩
      exact ⟨g, hg, hone gid g s hg hs⟩
    · rintro ⟨g, hg, hs⟩
      exact ⟨g, hg, List.one_le_count_iff.mp hs.ge⟩
  · exact hreg.group_unique ⟨g', hg', hs'⟩ ⟨g, hg, hs⟩

def twoSessions : List Event :=
  [.newGroup ⟨"tv", 1, "alice"⟩ "film" none 7 (fun _ => 0) ⟨0, 0⟩,
    .joinGroup ⟨"phone", 1, "alice"⟩ 7, .joinResume 0 false ⟨0, 0⟩,
    .handleRequest ⟨"tv", 1, "alice"⟩ .stop]

theorem registry_consistent_two_sessions :
    ∃ w, (syncPlay {} fun _ => 1).run {} twoSessions = some w ∧
      w.registry.activeUsers.lookup 1 = some 2 ∧
      counted (KeyedMap.total (fun g => g.members.countP (·.userId == 1)) w.registry.groups) =
        some 2 ∧
      ∀ task ∈ w.requests, ∀ fault runtimes draws now,
        (w.registry.requestCommit {} task fault runtimes draws now).2.result = .ok () := by
  refine ⟨_, rfl, rfl, ?_⟩
  have h := registry_consistent (Machine.reachable_of_run (M := syncPlay {} fun _ => 1)
    twoSessions rfl)
  exact ⟨(h.2.2.2.1 1).symm.trans rfl, h.2.2.2.2.2⟩

end Ferrofin.SyncPlay
