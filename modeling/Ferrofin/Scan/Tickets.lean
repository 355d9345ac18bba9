import Ferrofin.Lib.Ticketing
import Ferrofin.Scan.Single

/-!
# The tickets of the scan queue

Where each locked section puts the tickets of the callers: into the queues, to the
scan running, to the refreshes served, or among the results.
-/

namespace Ferrofin.Scan

open Lib
open List (append_assoc append_nil count_append flatMap_append flatMap_cons perm_append_comm
  perm_iff_count)

variable {Search : Type}

/-! ### The sections -/

/-- The results of a batch of tickets are there, and the others as before. -/
theorem mem_keys_foldl_insert (tickets : List Nat) (result : ScanResult)
    (finished : KeyedMap Nat ScanResult) (ticket : Nat) :
    ticket ∈ (tickets.foldl (fun m t => m.insert t result) finished).keys ↔
      ticket ∈ tickets ∨ ticket ∈ finished.keys := by
  induction tickets generalizing finished with
  | nil => simp
  | cons t rest ih =>
    rw [List.foldl_cons, ih, ← AList.mem_keys, AList.mem_insert, List.mem_cons, AList.mem_keys]
    tauto

theorem mem_keys_erase (finished : KeyedMap Nat ScanResult) (t ticket : Nat) :
    ticket ∈ (finished.erase t).keys ↔ ticket ≠ t ∧ ticket ∈ finished.keys := by
  rw [← AList.mem_keys, AList.mem_erase]
  rfl

theorem mem_keys_erase_of_lookup {finished : KeyedMap Nat ScanResult} {t : Nat}
    (h : finished.lookup t = none) (ticket : Nat) :
    ticket ∈ (finished.erase t).keys ↔ ticket ∈ finished.keys := by
  rw [mem_keys_erase]
  refine and_iff_right_of_imp fun hm he => ?_
  rw [he] at hm
  exact AList.lookup_eq_none.mp h hm

theorem tickets_withdrawFrom (ticket : Nat) (scans : List (PendingScan Search)) :
    viewed Waiters.tickets (ScanQueue.withdrawFrom ticket scans) =
      (viewed Waiters.tickets scans).filter (· != ticket) := by
  induction scans with
  | nil => rfl
  | cons p rest ih =>
    have hp : (p.retain ticket).waiters.tickets = p.waiters.tickets.filter (· != ticket) := rfl
    rw [ScanQueue.withdrawFrom] at ih
    rw [ScanQueue.withdrawFrom, List.map_cons, List.filter_cons, viewed_cons, List.filter_append,
      ← hp]
    split
    · rw [viewed_cons, ih]
    · next hempty =>
      -- Nobody is left in what is dropped.
      rw [Bool.not_eq_true, Bool.not_eq_false', Waiters.isEmpty, Bool.and_eq_true,
        List.isEmpty_iff] at hempty
      rw [hempty.1, List.nil_append, ih]

namespace ScanQueue

def openTickets (q : ScanQueue Search) : List Nat :=
  q.queuedTickets ++ (q.runningTickets ++ q.servingTickets)

variable {q q' : ScanQueue Search}

theorem queuedTickets_eq (q : ScanQueue Search) :
    q.queuedTickets = viewed Waiters.tickets q.entries := rfl

def LaneKeyed (q : ScanQueue Search) : Prop := ∀ key ∈ q.serving.keys, key < q.nextLaneKey

theorem mem_keys_withdraw {ticket key : Nat} :
    key ∈ (q.withdraw ticket).serving.keys ↔ key ∈ q.serving.keys := by
  rw [withdraw_serving, ← AList.mem_keys, ← AList.lookup_isSome, KeyedMap.lookup_mapValues,
    Option.isSome_map, AList.lookup_isSome, AList.mem_keys]

theorem openTickets_withdraw (q : ScanQueue Search) (ticket : Nat) :
    (q.withdraw ticket).openTickets = q.openTickets.filter (· != ticket) := by
  have hserving : (q.withdraw ticket).servingTickets =
      q.servingTickets.filter (· != ticket) := by
    rw [servingTickets, withdraw_serving, KeyedMap.values_mapValues, List.flatMap_map,
      servingTickets, List.filter_flatMap]
    rfl
  have hrunning : (q.withdraw ticket).runningTickets =
      q.runningTickets.filter (· != ticket) := by
    rw [runningTickets, runningTickets, withdraw_running]
    cases q.running <;> rfl
  have hqueued : (q.withdraw ticket).queuedTickets = q.queuedTickets.filter (· != ticket) := by
    rw [queuedTickets_eq, entries_withdraw, tickets_withdrawFrom]
    rfl
  rw [openTickets, hqueued, hrunning, hserving, openTickets, List.filter_append,
    List.filter_append]

theorem openTickets_start {p : PendingScan Search} {pending lane : List (PendingScan Search)}
    (hrunning : q.running = none) (hperm : q.entries.Perm (p :: (pending ++ lane))) :
    q.openTickets.Perm
      (start { q with pending := pending, lane := lane } p).openTickets := by
  have hqueued := hperm.flatMap_right fun p => p.waiters.tickets
  rw [flatMap_cons] at hqueued
  have hnone : q.runningTickets = [] := by
    rw [runningTickets, hrunning]
    rfl
  rw [openTickets, hnone, List.nil_append]
  refine (hqueued.append_right _).trans ?_
  rw [append_assoc]
  refine perm_append_comm.trans ?_
  rw [append_assoc]
  refine List.Perm.append_left _ ?_
  exact perm_append_comm

theorem openTickets_served {p : PendingScan Search} {lane : List (PendingScan Search)}
    (hkeys : q.LaneKeyed) (hlane : q.lane = p :: lane) :
    q.openTickets.Perm (openTickets { q with
      lane := lane
      serving := q.serving.insert q.nextLaneKey
        { request := p.request, waiters := p.waiters, cancel := q.tokens }
      nextLaneKey := q.nextLaneKey + 1
      tokens := q.tokens + 1 }) := by
  have hkey : q.nextLaneKey ∉ q.serving := fun hk => Nat.lt_irrefl _ (hkeys _ hk)
  rw [openTickets, openTickets, servingTickets, servingTickets,
    KeyedMap.values_insert_of_notMem _ hkey, queuedTickets, queuedTickets, hlane,
    flatMap_append, flatMap_append, flatMap_cons, flatMap_cons]
  refine perm_iff_count.mpr fun t => ?_
  simp only [count_append, runningTickets]
  omega

theorem openTickets_finishRunning (q : ScanQueue Search) (result : ScanResult) :
    q.openTickets.Perm (q.runningTickets ++ (q.finishRunning result).openTickets) ∧
      ∀ t, t ∈ (q.finishRunning result).finished.keys ↔
        t ∈ q.runningTickets ∨ t ∈ q.finished.keys := by
  cases hr : q.running with
  | none =>
    have hnone : q.runningTickets = [] := by rw [runningTickets, hr]; rfl
    rw [finishRunning_of_none hr, hnone]
    exact ⟨List.Perm.refl _, fun t => by simp⟩
  | some r =>
    have hsome : q.runningTickets = r.waiters.tickets := by rw [runningTickets, hr]; rfl
    rw [finishRunning_of_some hr, hsome]
    refine ⟨?_, fun t => ?_⟩
    · have hopen : (settle { q with running := none } r.waiters.tickets result).openTickets =
          q.queuedTickets ++ q.servingTickets := rfl
      rw [openTickets, hsome, hopen, ← append_assoc, ← append_assoc]
      exact perm_append_comm.append_right _
    · rw [settle_finished]
      exact mem_keys_foldl_insert _ _ _ _

theorem openTickets_failServing (q : ScanQueue Search) :
    q.openTickets.Perm (q.servingTickets ++ q.failServing.openTickets) ∧
      ∀ t, t ∈ q.failServing.finished.keys ↔ t ∈ q.servingTickets ∨ t ∈ q.finished.keys := by
  refine ⟨?_, fun t => ?_⟩
  · have hopen : q.failServing.openTickets = q.queuedTickets ++ (q.runningTickets ++ []) := rfl
    rw [openTickets, hopen, append_nil, ← append_assoc]
    exact perm_append_comm
  · rw [failServing, settle_finished]
    exact mem_keys_foldl_insert _ _ _ _

theorem openTickets_laneDone {key : Nat} {s : ServingRefresh Search}
    (hs : q.serving.lookup key = some s) (result : ScanResult) :
    q.openTickets.Perm (s.waiters.tickets ++
      openTickets (settle { q with serving := q.serving.erase key } s.waiters.tickets result)) := by
  have hvalues := (KeyedMap.perm_values_of_lookup hs).flatMap_right fun s => s.waiters.tickets
  rw [flatMap_cons] at hvalues
  refine perm_iff_count.mpr fun t => ?_
  have hcount := hvalues.count_eq t
  rw [count_append] at hcount
  rw [openTickets, openTickets, servingTickets, servingTickets, settle_serving]
  simp only [count_append, hcount, queuedTickets, runningTickets, settle_pending,
    settle_lane, settle_running]
  omega

theorem openTickets_shutdown (q : ScanQueue Search) :
    q.openTickets.Perm (q.queuedTickets ++ q.shutdown.openTickets) ∧
      ∀ t, t ∈ q.shutdown.finished.keys ↔ t ∈ q.queuedTickets ∨ t ∈ q.finished.keys := by
  refine ⟨List.Perm.refl _, fun t => ?_⟩
  rw [shutdown, settle_finished]
  exact mem_keys_foldl_insert _ _ _ _

theorem queuedTickets_requeueRunning (request : ScanRequest Search) (hc : q.closed = false) :
    (q.requeueRunning (some request)).queuedTickets.Perm
      (q.queuedTickets ++ q.runningTickets) := by
  cases hr : q.running with
  | none =>
    have hnone : q.runningTickets = [] := by rw [runningTickets, hr]; rfl
    rw [requeueRunning_of_none hr, hnone, append_nil]
    exact List.Perm.refl _
  | some r =>
    have hsome : q.runningTickets = r.waiters.tickets := by rw [runningTickets, hr]; rfl
    rw [requeueRunning_of_some hr, hsome]
    refine perm_iff_count.mpr fun t => ?_
    cases request.priority <;>
      simp only [queuedTickets, hc, Bool.not_false, Bool.not_true, Bool.and_true, Bool.and_false,
        Bool.false_eq_true, if_true, if_false, flatMap_append, flatMap_cons,
        count_append] <;> omega

theorem queuedTickets_requeueServing (hc : q.closed = false) :
    q.requeueServing.queuedTickets.Perm (q.queuedTickets ++ q.servingTickets) := by
  have hserving : (((KeyedMap.values q.serving).map fun s =>
      { request := s.request, waiters := s.waiters : PendingScan Search }).flatMap
        fun p => p.waiters.tickets) = q.servingTickets := by
    rw [List.flatMap_map]
    rfl
  refine perm_iff_count.mpr fun t => ?_
  have hreverse := ((List.reverse_perm ((KeyedMap.values q.serving).map fun s =>
    { request := s.request, waiters := s.waiters : PendingScan Search })).flatMap_right
      fun p => p.waiters.tickets).count_eq t
  rw [hserving] at hreverse
  simp only [queuedTickets, requeueServing_pending, requeueServing_lane, hc, Bool.false_eq_true,
    if_false, flatMap_append, count_append, hreverse]
  omega

/-- A worker that dies leaves its tickets open, unless the host is shutting down: then
those of what it ran and served are gone. -/
theorem openTickets_releaseWorker (q : ScanQueue Search) (request : ScanRequest Search) :
    (q.closed = false → q.openTickets.Perm (q.releaseWorker (some request)).openTickets) ∧
      (q.closed = true → q.openTickets.Perm ((q.runningTickets ++ q.servingTickets) ++
        (q.releaseWorker (some request)).openTickets)) := by
  have hopen : (q.releaseWorker (some request)).openTickets =
      viewed Waiters.tickets (q.releaseWorker (some request)).entries := by
    rw [openTickets, runningTickets, (q.releaseWorker_frame request).2.2]
    exact append_nil _
  refine ⟨fun hc => ?_, fun hc => ?_⟩
  · have hrunning := queuedTickets_requeueRunning request hc
    obtain ⟨-, -, -, hserving, hclosed, -⟩ := q.requeueRunning_frame request
    have hback := queuedTickets_requeueServing (hclosed.trans hc)
    rw [servingTickets, hserving] at hback
    rw [hopen, ← queuedTickets_eq, openTickets, ← append_assoc]
    exact (hback.trans (hrunning.append_right _)).symm
  · rw [hopen, releaseWorker_entries_of_closed hc]
    exact perm_append_comm

end ScanQueue

namespace World

/-! ### The invariant -/

/-- Once the host is shutting down and no worker has a scan, who waits for a refresh
waits for one that an executing scan has. -/
def Attended (w : World Search) : Prop :=
  w.queue.closed = true → w.queue.running.isNone = true →
    ∀ key, w.awaited key = true → w.attended key = true

/-- Every caller's ticket is in one place, and who waits does not wait in vain. -/
structure Ticketed (w : World Search) : Prop where
  ledger : Ticketing w.queue.openTickets w.queue.finished.keys w.callers w.queue.nextTicket
  keyed : w.queue.LaneKeyed
  attended : w.Attended

variable {w w' : World Search}

theorem Ticketed.init : Ticketed ({} : World Search) where
  ledger := .init
  keyed _ h := absurd h List.not_mem_nil
  attended h := by cases h

theorem awaited_iff {key : Nat} : w.awaited key = true ↔ ∃ s, w.queue.serving.lookup key = some s ∧
    ∃ ticket ∈ w.callers, ticket ∈ s.waiters.tickets := by
  rw [awaited]
  cases w.queue.serving.lookup key with
  | none => simp
  | some s => simp

theorem attended_iff {key : Nat} :
    w.attended key = true ↔ ∃ task ∈ w.tasks, task.phase = .serving key := by
  simp [World.attended]

theorem mem_keys_of_awaited {key : Nat} (h : w.awaited key = true) :
    key ∈ w.queue.serving.keys := by
  obtain ⟨s, hs, -⟩ := awaited_iff.mp h
  exact KeyedMap.mem_of_lookup hs

theorem Manned.running_of_idle (h : w.Manned) {i : Nat} (hi : w.workers[i]? = some .idle) :
    w.queue.running = none := by
  have hr := h.running
  rw [(h.only hi).1] at hr
  exact Option.isSome_eq_false_iff.mp hr |> Option.isNone_iff_eq_none.mp

theorem Attended.frame (h : w.Attended) (hclosed : w'.queue.closed = w.queue.closed)
    (hrunning : w'.queue.running.isNone = true → w.queue.running.isNone = true)
    (hcallers : w'.callers ⊆ w.callers)
    (hserving : ∀ key s', w'.queue.serving.lookup key = some s' →
      ∃ s, w.queue.serving.lookup key = some s ∧ s'.waiters.tickets ⊆ s.waiters.tickets)
    (htasks : w'.tasks = w.tasks) : w'.Attended := by
  intro hc hr key ha
  rw [hclosed] at hc
  obtain ⟨s', hs', ticket, hcaller, hticket⟩ := awaited_iff.mp ha
  obtain ⟨s, hs, hsub⟩ := hserving key s' hs'
  have hattended := h hc (hrunning hr) key
    (awaited_iff.mpr ⟨s, hs, ticket, hcallers hcaller, hsub hticket⟩)
  rw [World.attended, htasks]
  exact hattended

theorem Attended.of_only {task : ScanTask} (h : w.Attended) (ht : w.tasks = [task]) {key : Nat}
    (hc : w.queue.closed = true) (hr : w.queue.running.isNone = true)
    (ha : w.awaited key = true) : task.phase = .serving key := by
  obtain ⟨task', ht', hphase⟩ := attended_iff.mp (h hc hr key ha)
  rw [ht] at ht'
  rwa [List.mem_singleton.mp ht'] at hphase

variable [DecidableEq Search]

/-! ### One step -/

/-- **Every caller's ticket stays in one place.** -/
theorem Ticketed.ledger_step {e : ScanEvent Search} (h : w.Ticketed) (hm : w.Manned)
    (hok : w.Disciplined e) (hs : Stepped w e w') :
    Ticketing w'.queue.openTickets w'.queue.finished.keys w'.callers w'.queue.nextTicket := by
  have hl := h.ledger
  cases hs with
  | refused | checked | passed | scanEnded => exact hl
  | @submitted request waiting =>
    have hqueued := w.queue.view_enqueue View.tickets request waiting
    cases waiting with
    | true =>
      refine hl.issue ?_
      refine (hqueued.append_right _).trans ?_
      rw [append_assoc, ScanQueue.openTickets, append_assoc]
      exact perm_append_comm.append_left _
    | false =>
      rw [show (w.queue.asking request false).ticket = none from rfl, Option.toList_none,
        append_nil] at hqueued ⊢
      exact hl.shift (hqueued.symm.append_right _) fun _ => Iff.rfl
  | answered | lost => exact hl.collect fun u => mem_keys_erase _ _ u
  | restarted hmem hresult | unanswered hmem hresult =>
    exact hl.shift (List.Perm.refl _) (mem_keys_erase_of_lookup hresult)
  | withdrawn =>
    exact hl.withdraw (w.queue.openTickets_withdraw _) fun u => mem_keys_erase _ _ u
  | stoodDown hi =>
    have hrunning : w.queue.runningTickets = [] := by
      rw [ScanQueue.runningTickets, hm.running_of_idle hi]
      rfl
    refine hl.shift ?_ fun _ => Iff.rfl
    rw [ScanQueue.openTickets, hrunning]
    exact List.Perm.refl _
  | popped hi hperm =>
    exact hl.shift (ScanQueue.openTickets_start (hm.running_of_idle hi) hperm) fun _ => Iff.rfl
  | @finished i request result =>
    obtain ⟨hrunning, hfinished⟩ := w.queue.openTickets_finishRunning result
    obtain ⟨hserving, hfailed⟩ := (w.queue.finishRunning result).openTickets_failServing
    have hnext : (w.queue.finishRunning result).failServing.nextTicket = w.queue.nextTicket :=
      (w.queue.finishRunning_frame result).1
    have hl' := (hl.move hrunning hfinished).move hserving hfailed
    rw [← hnext] at hl'
    exact hl'
  | @died i worker request scan hi hdying =>
    obtain ⟨hopen, hgone⟩ := w.queue.openTickets_releaseWorker request
    obtain ⟨hnext, -, -, -, -, hfinished⟩ := w.queue.requeueRunning_frame request
    have hl' : Ticketing (w.queue.releaseWorker (some request)).openTickets w.queue.finished.keys
        w.callers w.queue.nextTicket := by
      cases hc : w.queue.closed with
      | false => exact hl.shift (hopen hc) fun _ => Iff.rfl
      | true => exact hl.drop (hgone hc) (hok hc)
    rw [← hnext, ← hfinished] at hl'
    exact hl'
  | served _ _ _ hlane =>
    exact hl.shift (ScanQueue.openTickets_served h.keyed hlane) fun _ => Iff.rfl
  | handedBack =>
    rcases w.queue.laneDone_cases _ _ with ⟨-, he⟩ | ⟨s, hlookup, he⟩ <;> rw [he]
    · exact hl
    · exact hl.move (ScanQueue.openTickets_laneDone hlookup _) fun u =>
        mem_keys_foldl_insert _ _ _ u
  | shutdown =>
    obtain ⟨hqueued, hfinished⟩ := w.queue.openTickets_shutdown
    exact hl.move hqueued hfinished

theorem Ticketed.keyed_step {e : ScanEvent Search} (h : w.Ticketed) (hs : Stepped w e w') :
    w'.queue.LaneKeyed := by
  have hk := h.keyed
  cases hs with
  | refused | submitted | answered | lost | restarted | unanswered | stoodDown | popped | checked
  | passed | scanEnded | shutdown => exact hk
  | withdrawn => exact fun key hkey => hk key (ScanQueue.mem_keys_withdraw.mp hkey)
  | finished | died => exact fun key hkey => absurd hkey List.not_mem_nil
  | served =>
    intro key hkey
    rcases (AList.mem_insert _).mp hkey with rfl | hkey
    · exact Nat.lt_succ_self _
    · exact Nat.lt_succ_of_lt (hk key hkey)
  | handedBack =>
    rcases w.queue.laneDone_cases _ _ with ⟨-, he⟩ | ⟨s, -, he⟩ <;> rw [he]
    · exact hk
    · exact fun key hkey => hk key (AList.mem_erase.mp hkey).2

/-- **No caller is left behind once the host is shutting down.** -/
theorem Ticketed.attended_step {e : ScanEvent Search} (h : w.Ticketed) (hm : w.Manned)
    (h1 : w.Single) (hok : w.Disciplined e) (hs : Stepped w e w') : w'.Attended := by
  have ha := h.attended
  have hsame : ∀ key s', w.queue.serving.lookup key = some s' →
      ∃ s, w.queue.serving.lookup key = some s ∧ s'.waiters.tickets ⊆ s.waiters.tickets :=
    fun key s' hs' => ⟨s', hs', List.Subset.refl _⟩
  cases hs with
  | refused => exact ha
  | submitted hclosed | served _ _ hclosed =>
    intro hc
    have hc' : w.queue.closed = true := hc
    rw [hclosed] at hc'
    cases hc'
  | answered | lost => exact ha.frame rfl id List.erase_subset hsame rfl
  | restarted | unanswered => exact ha.frame rfl id (List.Subset.refl _) hsame rfl
  | withdrawn =>
    refine ha.frame rfl ?_ List.erase_subset (fun key s' hs' => ?_) rfl
    · rw [ScanQueue.withdraw_running, Option.isNone_map]
      exact id
    · rw [ScanQueue.withdraw_serving, KeyedMap.lookup_mapValues] at hs'
      obtain ⟨s, hs, rfl⟩ := Option.map_eq_some_iff.mp hs'
      exact ⟨s, hs, List.filter_sublist.subset⟩
  | stoodDown hi =>
    refine ha.frame rfl (fun _ => ?_) (List.Subset.refl _) hsame rfl
    rw [hm.running_of_idle hi]
    rfl
  | popped hi hperm =>
    intro hc
    rw [ScanQueue.start_closed] at hc
    rw [hm.closed hc] at hperm
    exact absurd hperm.symm.eq_nil (List.cons_ne_nil _ _)
  | finished | died =>
    intro _ _ key hawaited
    obtain ⟨s, hs, -⟩ := awaited_iff.mp hawaited
    cases hs
  | checked hj hphase | passed hj hphase =>
    intro hc hr key hawaited
    have hserving := ha.of_only (h1.only hj).1 hc hr hawaited
    rw [hphase] at hserving
    cases hserving
  | @handedBack j task key ending hj hphase =>
    -- The scan serves no other refresh, and this one is off the list.
    have honly : w.queue.closed = true → w.queue.running.isNone = true → ∀ key',
        w.awaited key' = true → key' = key := by
      intro hc hr key' hawaited
      have hserving := ha.of_only (h1.only hj).1 hc hr hawaited
      rw [hphase] at hserving
      cases hserving
      rfl
    intro hc hr key' hawaited
    exfalso
    obtain ⟨s', hs', hwaits⟩ := awaited_iff.mp hawaited
    rcases w.queue.laneDone_cases key (finishResult ending) with ⟨hnone, he⟩ | ⟨s, -, he⟩
    · simp only [he] at hc hr hs'
      obtain rfl := honly hc hr key' (awaited_iff.mpr ⟨s', hs', hwaits⟩)
      rw [hnone] at hs'
      cases hs'
    · simp only [he] at hc hr hs'
      rw [ScanQueue.settle_serving, KeyedMap.lookup_erase_eq] at hs'
      split at hs'
      · cases hs'
      · next hne => exact hne (honly hc hr key' (awaited_iff.mpr ⟨s', hs', hwaits⟩))
  | @scanEnded j task ending hj =>
    intro hc hr key hawaited
    have hserving := ha.of_only (h1.only hj).1 hc hr hawaited
    have hfree := hok hc hr task hj key (mem_keys_of_awaited hawaited) hserving
    have hawaited' : w.awaited key = true := hawaited
    rw [hfree] at hawaited'
    cases hawaited'
  | shutdown =>
    intro _ hr key hawaited
    exact hok hr key (mem_keys_of_awaited hawaited) hawaited

/-- **A disciplined step keeps every caller's ticket.** -/
theorem Ticketed.step {e : ScanEvent Search} (h : w.Ticketed) (hm : w.Manned) (h1 : w.Single)
    (hok : w.Disciplined e) (hs : Stepped w e w') : w'.Ticketed where
  ledger := h.ledger_step hm hok hs
  keyed := h.keyed_step hs
  attended := h.attended_step hm h1 hok hs

end World

end Ferrofin.Scan
