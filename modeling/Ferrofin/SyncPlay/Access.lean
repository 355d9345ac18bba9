import Mathlib.Data.List.Dedup
import Ferrofin.SyncPlay.GroupQueue

/-!
# The access gate of the SyncPlay queue

No member of a group has an item in its queue that the library does not show to
its user.  The check runs off the lock, on a snapshot; the commit compares the
snapshot with the state it changes, and refuses when the two differ.

The queue a group is created with comes from what its creator plays, and is not
checked against the creator (`History`).
-/

namespace Ferrofin.SyncPlay

open Lib
open Registry (PendingJoin PendingRequest)

/-! ### The entries of a queue -/

namespace PlayQueue

variable {P : SyncPlayQueueItem → Prop} {q : PlayQueue}

/-- Every entry of the queue is a `P`; the shuffled ones are entries of `sorted`. -/
structure Within (P : SyncPlayQueueItem → Prop) (q : PlayQueue) : Prop where
  sorted : ∀ i ∈ q.sorted, P i
  shuffled : ∀ i ∈ q.shuffled, i ∈ q.sorted

theorem Within.congr {q' : PlayQueue} (h : q.Within P) (hs : q'.sorted = q.sorted)
    (hh : q'.shuffled = q.shuffled) : q'.Within P where
  sorted := by rw [hs]; exact h.sorted
  shuffled := by rw [hs, hh]; exact h.shuffled

theorem Within.playlist (h : q.Within P) : ∀ i ∈ q.playlist, i ∈ q.sorted := by
  intro i hi
  unfold PlayQueue.playlist at hi
  split at hi
  · exact h.shuffled i hi
  · exact hi

/-- The entries made for `itemIds` are entries of these items. -/
theorem mem_newQueueItems {fresh : Nat → Uuid} {itemIds : List Uuid} {i : SyncPlayQueueItem}
    (h : i ∈ newQueueItems fresh itemIds) : i.itemId ∈ itemIds := by
  obtain ⟨k, hk, rfl⟩ := List.mem_mapIdx.mp h
  exact List.getElem_mem hk

theorem mem_splice {list items : List SyncPlayQueueItem} {at' : Nat} {i : SyncPlayQueueItem} :
    i ∈ splice list at' items ↔ i ∈ list ∨ i ∈ items := by
  rw [(splice_perm list items at').mem_iff, List.mem_append, or_comm]

theorem Within.enqueue (h : q.Within P) {fresh : Nat → Uuid} {itemIds : List Uuid}
    (hnew : ∀ i ∈ newQueueItems fresh itemIds, P i) (mode : GroupQueueMode) :
    (q.enqueue fresh itemIds mode).Within P := by
  have happend : Within P { q with
      shuffled := if q.shuffle = .shuffle then q.shuffled ++ newQueueItems fresh itemIds
        else q.shuffled
      sorted := q.sorted ++ newQueueItems fresh itemIds } := by
    refine ⟨fun i hi => ?_, fun i hi => ?_⟩
    · exact (List.mem_append.mp hi).elim (h.sorted i) (hnew i)
    · dsimp only at hi ⊢
      rw [List.mem_append]
      split at hi
      · exact (List.mem_append.mp hi).imp (h.shuffled i) id
      · exact .inl (h.shuffled i hi)
  unfold PlayQueue.enqueue
  cases mode with
  | queue => exact happend
  | unrecognized => exact happend
  | queueNext =>
    dsimp only
    split
    · refine ⟨fun i hi => ?_, fun i hi => ?_⟩
      · exact (mem_splice.mp hi).elim (h.sorted i) (hnew i)
      · exact mem_splice.mpr ((mem_splice.mp hi).imp (h.shuffled i) id)
    · refine ⟨fun i hi => ?_, fun i hi => ?_⟩
      · exact (mem_splice.mp hi).elim (h.sorted i) (hnew i)
      · exact mem_splice.mpr (.inl (h.shuffled i hi))

theorem Within.clear (h : q.Within P) (clearPlayingItem : Bool) :
    (q.clear clearPlayingItem).Within P := by
  unfold PlayQueue.clear
  split
  · next item hc =>
    have hitem := h.playlist item (mem_of_current hc)
    refine ⟨fun i hi => ?_, fun i hi => ?_⟩
    · rw [List.mem_singleton.mp hi]
      exact h.sorted item hitem
    · dsimp only at hi ⊢
      split at hi
      · exact hi
      · cases hi
  · exact ⟨by simp, by simp⟩

theorem Within.retain (h : q.Within P) (ids : List Uuid) : (q.retain ids).Within P where
  sorted i hi := h.sorted i (List.mem_of_mem_filter hi)
  shuffled i hi := by
    obtain ⟨hm, hid⟩ := List.mem_filter.mp hi
    exact List.mem_filter.mpr ⟨h.shuffled i hm, hid⟩

theorem Within.remove (h : q.Within P) (ids : List Uuid) : (q.remove ids).1.Within P := by
  unfold PlayQueue.remove
  split
  · exact h.retain ids
  · dsimp only
    split <;> exact (h.retain ids).congr rfl rfl

theorem Within.setPlaylist (h : q.Within P) {list : List SyncPlayQueueItem}
    (hperm : list.Perm q.playlist) : (q.setPlaylist list).Within P := by
  have hmem : ∀ i, i ∈ list ↔ i ∈ q.playlist := fun i => hperm.mem_iff
  unfold PlayQueue.setPlaylist
  split
  · exact ⟨h.sorted, fun i hi => h.playlist i ((hmem i).mp hi)⟩
  · next hs =>
    rw [playlist_of_ne hs] at hmem
    exact ⟨fun i hi => h.sorted i ((hmem i).mp hi), fun i hi => (hmem i).mpr (h.shuffled i hi)⟩

theorem Within.moveItem (h : q.Within P) (id : Uuid) (newIndex : Int) :
    (q.moveItem id newIndex).1.Within P := by
  unfold PlayQueue.moveItem
  dsimp only
  split
  · exact h
  · next hsource =>
    refine (h.setPlaylist ?_).congr rfl rfl
    have hlt := indexOf_lt q.playlist id
    have hget : (indexOf q.playlist id).toNat < q.playlist.length := by omega
    rw [List.getElem?_eq_getElem hget]
    exact eraseIdx_insertIdx_perm (List.getElem?_eq_getElem hget) _

theorem Within.setShuffleMode (h : q.Within P) (pick : Nat → Nat) (mode : GroupShuffleMode) :
    (q.setShuffleMode pick mode).Within P := by
  have hperm : ∀ list : List SyncPlayQueueItem, (Util.shuffle pick list).Perm list :=
    fun list => Util.shuffle_perm pick list
  unfold PlayQueue.setShuffleMode
  split
  · unfold PlayQueue.shufflePlaylist
    split
    · exact ⟨h.sorted, fun i hi => (hperm _).mem_iff.mp hi⟩
    · next playing hc =>
      refine ⟨h.sorted, fun i hi => ?_⟩
      rcases List.mem_cons.mp hi with rfl | hi
      · exact h.playlist _ (mem_of_current hc)
      · exact h.playlist i (List.mem_of_mem_eraseIdx ((hperm _).mem_iff.mp hi))
  · exact ⟨h.sorted, by simp [PlayQueue.restoreSortedPlaylist]⟩

end PlayQueue

def QueueOp.newItems : QueueOp → List SyncPlayQueueItem
  | .set fresh itemIds _ | .enqueue fresh itemIds _ => newQueueItems fresh itemIds
  | _ => []

/-- **An operation keeps what holds of every entry**, if it holds of the new ones. -/
theorem PlayQueue.Within.apply {P : SyncPlayQueueItem → Prop} {q : PlayQueue} (h : q.Within P)
    (op : QueueOp) (hnew : ∀ i ∈ op.newItems, P i) : (q.apply op).Within P := by
  cases op with
  | set fresh itemIds position => exact ⟨hnew, by simp [PlayQueue.apply, PlayQueue.set]⟩
  | setPlaying id => exact h.congr rfl rfl
  | next =>
    show q.next.1.Within P
    unfold PlayQueue.next
    split_ifs <;> exact h.congr rfl rfl
  | previous =>
    show q.previous.1.Within P
    unfold PlayQueue.previous
    split_ifs <;> exact h.congr rfl rfl
  | enqueue fresh itemIds mode => exact h.enqueue hnew mode
  | clear b => exact h.clear b
  | remove ids => exact h.remove ids
  | moveItem id newIndex => exact h.moveItem id newIndex
  | setShuffleMode pick mode => exact h.setShuffleMode pick mode
  | setRepeatMode mode => exact h.congr rfl rfl

theorem incoming_of_newItems {request : PlaybackRequest} {draws : Draws} {op : QueueOp}
    (hop : op ∈ request.queueOps draws) {i : SyncPlayQueueItem} (hi : i ∈ op.newItems) :
    i.itemId ∈ Registry.incoming request := by
  cases request with
  | play =>
    rw [List.mem_singleton.mp hop] at hi
    exact PlayQueue.mem_newQueueItems hi
  | queue =>
    rw [List.mem_singleton.mp hop] at hi
    exact PlayQueue.mem_newQueueItems hi
  | removeFromPlaylist =>
    rcases List.mem_pair.mp hop with rfl | rfl <;> cases hi
  | setPlaylistItem | movePlaylistItem | nextItem | previousItem | setRepeatMode
  | setShuffleMode =>
    rw [List.mem_singleton.mp hop] at hi
    cases hi
  | unpause | pause | stop | seek | buffer | ready | ping | ignoreWait => cases hop

/-! ### The checks -/

/-- The library shows the item to the user; without a seam it shows everything. -/
def Manager.Sees (m : Manager) (userId itemId : Uuid) : Prop :=
  ∀ visible ∈ m.access, visible userId itemId = true

theorem Manager.sees_of_hasAccess {m : Manager} {fault : Bool} {u : Uuid} {items : List Uuid}
    (h : m.hasAccessToQueue fault u items) : ∀ id ∈ items, m.Sees u id := by
  intro id hid visible hv
  unfold hasAccessToQueue visibleSubset at h
  rw [Option.mem_def.mp hv] at h
  have hmem := List.all_eq_true.mp h id hid
  split at hmem
  · simp at hmem
  · simpa using (List.mem_filter.mp (List.contains_iff_mem.mp hmem)).2

theorem Group.mem_memberUserIds {g : Group} {e : String × Uuid} (he : e ∈ g.roster) :
    e.2 ∈ g.memberUserIds := by
  obtain ⟨mem, hmem, rfl⟩ := List.mem_map.mp he
  rw [memberUserIds, List.mem_dedup, (List.perm_insertionSort _ _).mem_iff]
  exact List.mem_map_of_mem hmem

/-- A request that was not refused puts only items in the queue that every user it
was checked for sees. -/
theorem Registry.sees_of_not_refused {m : Manager} {task : PendingRequest} {fault : Uuid → Bool}
    (h : requestRefused m task fault = false) {members : List Uuid}
    (hm : task.checkedMembers = some members) {u : Uuid} (hu : u ∈ members) :
    ∀ id ∈ incoming task.request, m.Sees u id := by
  rw [requestRefused, hm, Option.any_some, Bool.and_eq_false_iff] at h
  rcases h with h | h
  · have hnil : members = [] := by simpa using h
    rw [hnil] at hu
    cases hu
  · have hall : m.allMembersHaveAccess fault members (incoming task.request) = true := by
      simpa using h
    exact Manager.sees_of_hasAccess (List.all_eq_true.mp hall u hu)

/-! ### The gate -/

namespace World

variable {m : Manager} {userOf : String → Uuid} {w w' : World} {e : Event}

/-- The entry is one the session's own group was created with, and the session has
been there since. -/
def Exempt (w : World) (gid : Uuid) (sessionId : String) (i : SyncPlayQueueItem) : Prop :=
  w.history.founded.lookup sessionId = some gid ∧
    ∃ entries ∈ w.history.seeded.lookup gid, i ∈ entries

/-- Every member may have the entry in the group's queue. -/
def Admits (w : World) (m : Manager) (gid : Uuid) (roster : List (String × Uuid))
    (i : SyncPlayQueueItem) : Prop :=
  ∀ e ∈ roster, m.Sees e.2 i.itemId ∨ w.Exempt gid e.1 i

/-- **The gate is closed**: every member may have every entry of the queue. -/
def Gated (w : World) (m : Manager) : Prop :=
  ∀ gid g, w.registry.groups.lookup gid = some g → g.queue.Within (w.Admits m gid g.roster)

/-- A session that an admitted join put in a group sees the whole queue. -/
theorem sees_of_joined (h : w.Consistent userOf) (hw' : w'.Consistent userOf) {index : Nat}
    {fault : Bool} {now : Clock} {join : PendingJoin} (hj : w.joins[index]? = some join)
    (hadmitted : w.registry.joinRefusal m join fault = none)
    (he : w'.registry = (w.registry.joinCommit m join fault now).1) {gid : Uuid} {g g' : Group}
    (hg : w.registry.groups.lookup gid = some g) (hg' : w'.registry.groups.lookup gid = some g')
    {entry : String × Uuid} (hentry : entry ∈ g'.roster)
    (hjoiner : entry.1 = join.session.sessionId) :
    ∀ i ∈ g.queue.sorted, m.Sees entry.2 i.itemId := by
  have hjoined : w'.registry.sessionToGroup.lookup join.session.sessionId = some join.groupId := by
    obtain ⟨g0, hg0, _⟩ := Registry.lookup_of_joinRefusal_none hadmitted
    rw [he, Registry.joinCommit, hadmitted]
    exact h.registry.lookup_joinAdmitted hg0 now
  have hin : w'.registry.HasMember join.session.sessionId gid :=
    ⟨g', hg', hjoiner ▸ List.mem_map_of_mem hentry⟩
  have hgid := (hw'.registry.mapped _ _).mpr hin
  rw [hjoined] at hgid
  cases hgid
  obtain ⟨g0, hg0, _, haccess⟩ := Registry.lookup_of_joinRefusal_none hadmitted
  rw [hg] at hg0
  cases hg0
  have huser : entry.2 = join.session.userId := by
    rw [(hw'.registry.sound _ _ hg').users entry hentry, hjoiner,
      h.joins join (List.mem_of_getElem? hj)]
  intro i hi
  rw [huser]
  exact Manager.sees_of_hasAccess haccess _ (List.mem_map_of_mem hi)

/-- **An exemption outlasts a step**, unless its session joins and is checked. -/
theorem exempt_step (h : w.Consistent userOf) (hw' : w'.Consistent userOf)
    (hs : step m userOf w e = some w') {gid : Uuid} {g g' : Group}
    (hg : w.registry.groups.lookup gid = some g) (hg' : w'.registry.groups.lookup gid = some g')
    {entry : String × Uuid} (hentry : entry ∈ g'.roster) {i : SyncPlayQueueItem}
    (hi : i ∈ g.queue.sorted) (hex : w.Exempt gid entry.1 i) :
    m.Sees entry.2 i.itemId ∨ w'.Exempt gid entry.1 i := by
  have hmapped : w'.registry.sessionToGroup.lookup entry.1 = some gid :=
    (hw'.registry.mapped _ _).mpr ⟨g', hg', List.mem_map_of_mem hentry⟩
  obtain ⟨hfounded, hseeded⟩ := hex
  unfold step at hs
  split at hs
  case isFalse => cases hs
  case isTrue =>
  cases e with
  | newGroup session name nowPlaying gid' fresh now =>
    simp only [advance] at hs
    split at hs
    · cases hs
    · next hfresh =>
      cases hs
      have hgid : gid ≠ gid' := by
        rintro rfl
        exact hfresh (KeyedMap.mem_of_lookup hg)
      have hne : entry.1 ≠ session.sessionId := by
        intro he
        rw [he] at hmapped
        exact hgid (Option.some.inj (hmapped.symm.trans (AList.lookup_insert _)))
      refine .inr ⟨?_, ?_⟩
      · exact (AList.lookup_insert_ne hne).trans hfounded
      · rw [show (w.history.seeded.insert gid' _).lookup gid = w.history.seeded.lookup gid from
          AList.lookup_insert_ne hgid]
        exact hseeded
  | joinGroup session gid' => cases hs; exact .inr ⟨hfounded, hseeded⟩
  | joinResume index fault now =>
    obtain ⟨join, hj, rfl⟩ := Option.map_eq_some_iff.mp hs
    cases hr : w.registry.joinRefusal m join fault with
    | some update =>
      refine .inr ?_
      simp only [Exempt]
      exact ⟨hfounded, hseeded⟩
    | none =>
      by_cases hjoiner : entry.1 = join.session.sessionId
      · exact .inl (sees_of_joined h hw' hj hr rfl hg hg' hentry hjoiner i hi)
      · refine .inr ?_
        simp only [Exempt]
        exact ⟨(AList.lookup_erase_ne hjoiner).trans hfounded, hseeded⟩
  | leaveGroup session now =>
    cases hs
    have hne : entry.1 ≠ session.sessionId := by
      intro he
      have hgone := h.registry.lookup_leave_self session now
      rw [he] at hmapped
      rw [Registry.leaveGroup_fst, hgone] at hmapped
      cases hmapped
    exact .inr ⟨(AList.lookup_erase_ne hne).trans hfounded, hseeded⟩
  | handleRequest session request => cases hs; exact .inr ⟨hfounded, hseeded⟩
  | requestResume index fault runtimes draws now =>
    obtain ⟨task, ht, rfl⟩ := Option.map_eq_some_iff.mp hs
    exact .inr ⟨hfounded, hseeded⟩
  | sweep now => cases hs; exact .inr ⟨hfounded, hseeded⟩

/-- A new group has the entries it was created with, and its founder is exempt. -/
theorem gated_founded (hs : step m userOf w e = some w') {session : SyncPlaySession}
    {name : String} {nowPlaying : Option (SyncPlayNowPlaying × List (Uuid × Int))} {gid : Uuid}
    {fresh : Nat → Uuid} {now : Clock} (he : e = .newGroup session name nowPlaying gid fresh now) :
    (Group.founded m gid session name nowPlaying fresh now).queue.Within
      (w'.Admits m gid (Group.founded m gid session name nowPlaying fresh now).roster) := by
  subst he
  unfold step at hs
  split at hs
  case isFalse => cases hs
  case isTrue =>
  simp only [advance] at hs
  split at hs
  · cases hs
  · cases hs
    have hshuffled : (Group.create gid name m.groupWaitTimeout session nowPlaying fresh
        now).queue.shuffled = [] := by
      unfold Group.create
      dsimp only
      split <;> rfl
    rw [Group.founded, Group.queue_sessionJoined, Group.roster_sessionJoined, Group.roster_create]
    refine ⟨fun i hi entry hentry => .inr ?_, by simp [hshuffled]⟩
    rw [List.mem_singleton.mp hentry]
    exact ⟨AList.lookup_insert _, _, AList.lookup_insert _, hi⟩

/-- **Every step of the manager keeps the gate closed.** -/
theorem gated_step (h : w.Consistent userOf) (hgate : w.Gated m)
    (hs : step m userOf w e = some w') : w'.Gated m := by
  intro gid g' hg'
  have hw' := consistent_step h hs
  cases group_step h hs hg' with
  | founded hevent he =>
    rw [he]
    exact gated_founded hs hevent
  | same hg =>
    have hbefore := hgate gid g' hg
    refine ⟨fun i hi entry hentry => ?_, hbefore.shuffled⟩
    exact (hbefore.sorted i hi entry hentry).elim .inl
      (exempt_step h hw' hs hg hg' hentry hi)
  | step hg hperf he =>
    next g s =>
    have hbefore := hgate gid g hg
    -- a member that was there may have what was in the queue
    have hkept : ∀ entry ∈ g'.roster, entry ∈ g.roster → ∀ i ∈ g.queue.sorted,
        m.Sees entry.2 i.itemId ∨ w'.Exempt gid entry.1 i := fun entry hentry hwas i hi =>
      (hbefore.sorted i hi entry hwas).elim .inl (exempt_step h hw' hs hg hg' hentry hi)
    -- a step that leaves the queue alone, and whose new members see it
    have hquiet : (g.apply s).queue = g.queue → (∀ entry ∈ g'.roster, entry ∉ g.roster →
        ∀ i ∈ g.queue.sorted, m.Sees entry.2 i.itemId) →
        g'.queue.Within (w'.Admits m gid g'.roster) := by
      intro hqueue hnew
      rw [he, hqueue, ← he]
      refine ⟨fun i hi entry hentry => ?_, hbefore.shuffled⟩
      by_cases hwas : entry ∈ g.roster
      · exact hkept entry hentry hwas i hi
      · exact .inl (hnew entry hentry hwas i hi)
    cases hperf with
    | @request _ fault runtimes draws now task _ ht hgroup hallowed hmembers =>
      have hroster : g'.roster = g.roster := by
        rw [he]
        exact g.roster_applyRequest ..
      rcases g.queue_apply (.request task.session.sessionId task.request runtimes draws now) with
        hqueue | ⟨op, hop, hqueue⟩
      · exact hquiet hqueue fun entry hentry hwas => absurd (hroster ▸ hentry) hwas
      · rw [he, hqueue, ← he]
        have hnow : g.queue.Within (w'.Admits m gid g'.roster) :=
          ⟨fun i hi entry hentry => hkept entry hentry (hroster ▸ hentry) i hi, hbefore.shuffled⟩
        refine hnow.apply op fun i hi entry hentry => .inl ?_
        -- the items were checked for the users the group has now
        have hin := incoming_of_newItems hop hi
        cases hc : task.checkedMembers with
        | none =>
          rw [h.checked task (List.mem_of_getElem? ht), List.isEmpty_iff] at hc
          rw [hc] at hin
          cases hin
        | some members =>
          refine Registry.sees_of_not_refused hallowed hc ?_ _ hin
          rw [hmembers members hc g hg]
          exact Group.mem_memberUserIds (hroster ▸ hentry)
    | @join index fault now join hj hadmitted =>
      refine hquiet (Group.queue_join join.session now) fun entry hentry hwas i hi => ?_
      have hjoiner : entry.1 = join.session.sessionId := by
        rw [he, show g.apply (.join join.session now) = (g.join join.session now).1 from rfl,
          Group.roster_join] at hentry
        split at hentry
        · exact absurd hentry hwas
        · rcases List.mem_append.mp hentry with hentry | hentry
          · exact absurd hentry hwas
          · rw [List.mem_singleton.mp hentry]
      have hregistry : w'.registry = (w.registry.joinCommit m join fault now).1 := by
        unfold step at hs
        split at hs
        case isFalse => cases hs
        case isTrue =>
        obtain ⟨join', hj', rfl⟩ := Option.map_eq_some_iff.mp hs
        rw [hj] at hj'
        cases hj'
        rfl
      exact sees_of_joined h hw' hj hadmitted hregistry hg hg' hentry hjoiner i hi
    | @leave _ session _ now hgroup =>
      refine hquiet (Group.queue_leave session.sessionId now) fun entry hentry hwas => ?_
      rw [he, show g.apply (.leave session.sessionId now) = g.leave session.sessionId now from rfl,
        Group.roster_leave] at hentry
      exact absurd (List.mem_of_mem_filter hentry) hwas
    | @sweep now _ =>
      refine hquiet (Group.queue_handleGroupWaitTimeout now) fun entry hentry hwas => ?_
      rw [he, show g.apply (.sweep now) = (g.handleGroupWaitTimeout now).1 from rfl,
        Group.roster_handleGroupWaitTimeout] at hentry
      exact absurd hentry hwas

theorem gated_of_reachable (h : (syncPlay m userOf).Reachable w) : w.Gated m := by
  have hinv := h.invariant (I := fun w => w.Consistent userOf ∧ w.Gated m)
    ⟨consistent_of_reachable Machine.Reaches.start, fun gid g hg => by simp [syncPlay] at hg⟩
    fun w e w' hw _ hs => ⟨consistent_step hw.1 hs, gated_step hw.1 hw.2 hs⟩
  exact hinv.2

end World

/-- **No member has an item in its group's queue that its user may not see**: in
every reachable state the library shows every item of a group's queue to the user
of every member session, but for the entries the group was created with, which
its creator has as long as it is there without joining again. -/
theorem queue_visible_to_members {m : Manager} {userOf : String → Uuid} {w : World}
    (h : (syncPlay m userOf).Reachable w) (gid : Uuid) {g : Group}
    (hg : w.registry.groups.lookup gid = some g) {i : SyncPlayQueueItem}
    (hi : i ∈ g.queue.sorted ∨ i ∈ g.queue.shuffled) {member : GroupMember}
    (hmember : member ∈ g.members) :
    (∀ visible ∈ m.access, visible member.userId i.itemId = true) ∨
      (w.history.founded.lookup member.sessionId = some gid ∧
        ∃ entries ∈ w.history.seeded.lookup gid, i ∈ entries) := by
  have hgate := World.gated_of_reachable h gid g hg
  have hsorted : i ∈ g.queue.sorted := hi.elim id (hgate.shuffled i)
  exact hgate.sorted i hsorted member.entry (List.mem_map_of_mem hmember)

def smallItems : Manager := { access := some fun _ itemId => itemId < 10 }

/-- A creator brings an item nobody sees, and queues another one. -/
def seededRun : List Event :=
  [.newGroup ⟨"tv", 1, "alice"⟩ "film" (some (⟨50, none, false, []⟩, [])) 7 (fun i => 200 + i)
      ⟨0, 0⟩,
    .handleRequest ⟨"tv", 1, "alice"⟩ (.queue [5] .queue),
    .requestResume 0 (fun _ => false) [] ⟨fun i => 100 + i, fun _ => 0⟩ ⟨0, 0⟩]

theorem queue_visible_to_members_seeded :
    ∃ w g, (syncPlay smallItems fun _ => 1).run {} seededRun = some w ∧
      w.registry.groups.lookup 7 = some g ∧
      ∀ i, i ∈ g.queue.sorted ∨ i ∈ g.queue.shuffled → ∀ member ∈ g.members,
        (∀ visible ∈ smallItems.access, visible member.userId i.itemId = true) ∨
          (w.history.founded.lookup member.sessionId = some 7 ∧
            ∃ entries ∈ w.history.seeded.lookup 7, i ∈ entries) :=
  ⟨_, _, rfl, rfl, fun _ hi _ hmember => queue_visible_to_members (Machine.reachable_of_run
    (M := syncPlay smallItems fun _ => 1) seededRun rfl) 7 rfl hi hmember⟩

end Ferrofin.SyncPlay
