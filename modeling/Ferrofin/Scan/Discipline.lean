import Ferrofin.Scan.Cancels

/-!
# The discipline of the scan worker

What holds along every run whose steps are `World.Disciplined`: one worker and one
scan at most, no request without a worker, every caller's ticket in one place, no
caller that waits in vain, and no scan cancelled that somebody wants.  Runs in which
no worker dies are such runs; `scan_worker_undisciplined` has two that are not.
-/

namespace Ferrofin.Scan

open Lib

variable {Search : Type}

def ScanQueue.collections (q : ScanQueue Search) : List (List Nat) :=
  [viewed Waiters.tickets q.pending, viewed Waiters.tickets q.lane, q.runningTickets,
    q.servingTickets, q.finished.keys]

def ScanQueue.Check.answers (c : ScanQueue.Check) : Bool := c.result.isSome || c.restart || c.lost

theorem ScanQueue.flatten_collections (q : ScanQueue Search) :
    q.collections.flatten = q.openTickets ++ q.finished.keys := by
  simp only [collections, openTickets, queuedTickets_eq, entries, viewed_append,
    List.flatten_cons, List.flatten_nil, List.append_nil, List.append_assoc]

namespace World

variable [DecidableEq Search] {w w' : World Search}

structure Kept (w : World Search) : Prop where
  manned : w.Manned
  single : w.Single
  ticketed : w.Ticketed
  cancels : w.queue.Cancels

omit [DecidableEq Search] in
theorem Kept.init : Kept ({} : World Search) := ⟨.init, .init, .init, .init⟩

theorem Kept.step {e : ScanEvent Search} (h : w.Kept) (hok : w.Disciplined e)
    (hs : Stepped w e w') : w'.Kept where
  manned := h.manned.step hs
  single := h.single.step h.manned hok hs
  ticketed := h.ticketed.step h.manned h.single hok hs
  cancels := cancels_step h.cancels h.manned h.ticketed.keyed hs

theorem kept_of_reaches (h : (scanWorker Search).Reaches Disciplined w) : w.Kept :=
  h.invariant .init fun _ _ _ hk hok hs => hk.step hok (step_cases hs)

omit [DecidableEq Search] in
theorem Kept.check_answers (h : w.Kept) {ticket : Nat} (ht : ticket ∈ w.callers)
    (hworkers : w.workers = []) (htasks : w.tasks = []) :
    (w.queue.check ticket).1.answers = true := by
  have hworker := h.manned.worker_eq_false hworkers
  have hrunning : w.queue.running.isNone = true := by
    have hr := h.manned.running
    rw [hworkers] at hr
    rw [← Option.not_isSome, hr]
    rfl
  rcases w.queue.check_cases ticket with ⟨result, -, he⟩ | ⟨hnone, hcase⟩
  · rw [he]
    rfl
  · rcases hcase with ⟨-, -, -, he⟩ | ⟨-, -, -, he⟩ | ⟨hw | hclosed, -⟩
    · rw [he]
      rfl
    · rw [he]
      rfl
    · rw [hworker] at hw
      cases hw
    · -- Closed: nothing is queued or running, and what is served is attended.
      exfalso
      have hopen := (h.ticketed.ledger.found ticket ht).resolve_right
        (AList.lookup_eq_none.mp hnone)
      rw [ScanQueue.openTickets, ScanQueue.queuedTickets_eq, h.manned.closed hclosed,
        ScanQueue.runningTickets, Option.isNone_iff_eq_none.mp hrunning] at hopen
      obtain ⟨s, hs, hticket⟩ := List.mem_flatMap.mp hopen
      obtain ⟨key, hkey⟩ := KeyedMap.exists_lookup_of_mem_values hs
      have hattended := h.ticketed.attended hclosed hrunning key
        (awaited_iff.mpr ⟨s, hkey, ticket, ht, hticket⟩)
      rw [World.attended, htasks] at hattended
      cases hattended

/-! ### Runs without a death -/

structure Undisturbed (w : World Search) : Prop where
  aborted : ∀ task ∈ w.tasks, task.aborted = false
  serving : ∀ key ∈ w.queue.serving.keys, w.queue.running.isSome = true

omit [DecidableEq Search] in
theorem Undisturbed.init : Undisturbed ({} : World Search) where
  aborted _ h := absurd h List.not_mem_nil
  serving _ h := absurd h List.not_mem_nil

omit [DecidableEq Search] in
theorem Undisturbed.disciplined (h : w.Undisturbed) {e : ScanEvent Search}
    (hdie : ∀ i, e ≠ .die i) : w.Disciplined e := by
  have hnone : w.queue.running.isNone = true → ∀ key, key ∉ w.queue.serving.keys := by
    intro hr key hkey
    have hsome := h.serving key hkey
    rw [Option.isNone_iff_eq_none.mp hr] at hsome
    cases hsome
  cases e with
  | pop => exact fun _ => h.aborted
  | die i => exact absurd rfl (hdie i)
  | scanEnd => exact fun _ hr _ _ key hkey => absurd hkey (hnone hr key)
  | shutdown => exact fun hr key hkey => absurd hkey (hnone hr key)
  | submit | check | withdraw | finish | laneCheck | laneNext | laneDone => trivial

omit [DecidableEq Search] in
theorem Undisturbed.aborted_set (h : w.Undisturbed) {j : Nat} {task : ScanTask}
    (hj : w.tasks[j]? = some task) (phase : TaskPhase) :
    ∀ task' ∈ w.tasks.set j { task with phase := phase }, task'.aborted = false := by
  intro task' ht
  rcases List.mem_or_eq_of_mem_set ht with ht | rfl
  · exact h.aborted task' ht
  · exact h.aborted task (List.mem_of_getElem? hj)

theorem Undisturbed.step {e : ScanEvent Search} (h : w.Undisturbed) (hk : w.Kept)
    (hdie : ∀ i, e ≠ .die i) (hs : Stepped w e w') : w'.Undisturbed := by
  cases hs with
  | refused | submitted | answered | lost | restarted | unanswered | shutdown =>
    exact ⟨h.aborted, h.serving⟩
  | withdrawn =>
    refine ⟨h.aborted, fun key hkey => ?_⟩
    rw [ScanQueue.withdraw_running, Option.isSome_map]
    exact h.serving key (ScanQueue.mem_keys_withdraw.mp hkey)
  | stoodDown hi =>
    refine ⟨h.aborted, fun key hkey => ?_⟩
    have hsome := h.serving key hkey
    rw [hk.manned.running_of_idle hi] at hsome
    cases hsome
  | popped hi =>
    refine ⟨fun task ht => ?_, fun _ _ => rfl⟩
    rcases List.mem_append.mp ht with ht | ht
    · exact h.aborted task ht
    · rw [List.mem_singleton.mp ht]
  | finished => exact ⟨h.aborted, fun key hkey => absurd hkey List.not_mem_nil⟩
  | @died i => exact absurd rfl (hdie i)
  | checked hj | passed hj => exact ⟨h.aborted_set hj _, h.serving⟩
  | @served j task p lane hj =>
    have ht := List.mem_of_getElem? hj
    obtain ⟨-, r, -, hr, -⟩ := hk.single.owned task ht (h.aborted task ht)
    refine ⟨h.aborted_set hj _, fun _ _ => ?_⟩
    simp only [hr, Option.isSome_some]
  | handedBack hj =>
    refine ⟨h.aborted_set hj _, ?_⟩
    rcases w.queue.laneDone_cases _ _ with ⟨-, he⟩ | ⟨s, -, he⟩ <;> rw [he]
    · exact h.serving
    · exact fun key hkey => h.serving key (AList.mem_erase.mp hkey).2
  | scanEnded => exact ⟨fun task ht => h.aborted task (List.mem_of_mem_eraseIdx ht), h.serving⟩

/-- **A run in which no worker dies is disciplined.** -/
theorem disciplined_of_undied (h : (scanWorker Search).Reaches (fun _ e => ∀ i, e ≠ .die i) w) :
    (scanWorker Search).Reaches Disciplined w := by
  have hboth := h.invariant (I := fun w => (scanWorker Search).Reaches Disciplined w ∧
    w.Undisturbed) ⟨.start, .init⟩ fun w e w' ⟨hr, hu⟩ hdie hs =>
      ⟨hr.next (hu.disciplined hdie) hs, hu.step (kept_of_reaches hr) hdie (step_cases hs)⟩
  exact hboth.1

end World

variable [DecidableEq Search]

/-- **The discipline of the scan worker.** -/
theorem scan_worker_discipline {w : World Search}
    (h : (scanWorker Search).Reaches World.Disciplined w) :
    w.workers.length ≤ 1 ∧ w.tasks.length ≤ 1 ∧
      (w.died = false → w.queue.pending ≠ [] ∨ w.queue.lane ≠ [] → w.workers ≠ []) ∧
      (∀ ticket ∈ w.callers, w.queue.collections.flatten.count ticket = 1) ∧
      (∀ ticket ∈ w.callers, w.workers = [] → w.tasks = [] →
        (w.queue.check ticket).1.answers = true) ∧
      (∀ p ∈ w.queue.taken, p.2 ∈ w.queue.cancelled →
        p.1.isEmpty = true ∨ w.queue.closed = true) ∧
      ∀ task ∈ w.tasks, task.cancel ∈ w.queue.cancelled → task.aborted = true ∨
        ∃ r, w.queue.running = some r ∧ r.cancel = task.cancel ∧
          (r.waiters.isEmpty = true ∨ w.queue.closed = true) := by
  have hk := World.kept_of_reaches h
  refine ⟨hk.manned.length_le_one, hk.single.le_one, fun hd he hw => ?_, fun ticket ht => ?_,
    fun ticket ht => hk.check_answers ht, hk.cancels.unwanted, fun task ht hc => ?_⟩
  · have hentries := hk.manned.undied hd (hk.manned.worker_eq_false hw)
    rw [ScanQueue.entries, List.append_eq_nil_iff] at hentries
    exact he.elim (absurd hentries.1) (absurd hentries.2)
  · rw [ScanQueue.flatten_collections]
    exact hk.ticketed.ledger.count_eq_one w.queue.finished.keys_nodup ht
  · by_cases ha : task.aborted = true
    · exact .inl ha
    · obtain ⟨-, r, -, hr, he⟩ := hk.single.owned task ht (Bool.eq_false_iff.mpr ha)
      rw [← he] at hc
      exact .inr ⟨r, hr, he, hk.cancels.unwanted _ (ScanQueue.mem_taken_of_running hr) hc⟩

private def libraryScan : ScanRequest Unit := .defaults .api .all

private def filmRefresh : ScanRequest Unit := .itemRefresh (.items ["/media/film"]) {}

instance (e : ScanEvent Unit) : Decidable (∀ i, e ≠ .die i) := by
  cases e with
  | die i => exact .isFalse fun h => h i rfl
  | _ => exact .isTrue fun _ h => by cases h

/-- A scan serves a refresh and ends, the next one is aborted by a shutdown. -/
theorem disciplined_of_undied_shutdown : ∃ w : World Unit,
    (scanWorker Unit).Reaches World.Disciplined w ∧ w.scans = 2 ∧ w.queue.closed = true ∧
      w.callers = [0, 1, 2] ∧ w.queue.finished.keys = [0, 1] := by
  obtain ⟨w, hw⟩ : ∃ w, (scanWorker Unit).runWhile (fun _ e => ∀ i, e ≠ .die i)
      (scanWorker Unit).init
      [.submit libraryScan true none, .pop 0, .submit filmRefresh true none, .laneCheck 0,
        .laneNext 0, .laneDone 0 (.outcome false), .submit libraryScan true none,
        .scanEnd 0 (.outcome false), .finish 0, .pop 0, .shutdown,
        .scanEnd 0 .aborted] = some w :=
      Option.isSome_iff_exists.mp (by decide +kernel)
  have hr := World.disciplined_of_undied (Machine.path_of_runWhile _ hw)
  obtain rfl := Option.some.inj hw
  exact ⟨_, hr, rfl, rfl, rfl, rfl⟩

/-- The worker dies while its scan serves a refresh; both are queued again, and the
next worker starts them only when the aborted scan has ended. -/
theorem scan_worker_discipline_dies :
    ∃ w : World Unit, w.died = true ∧ w.callers = [0, 1] ∧ w.tasks.length = 1 ∧
      ∀ ticket ∈ [0, 1], w.queue.collections.flatten.count ticket = 1 := by
  obtain ⟨w, hw⟩ : ∃ w, (scanWorker Unit).runWhile World.Disciplined (scanWorker Unit).init
      [.submit libraryScan true none, .pop 0, .submit filmRefresh true none, .laneCheck 0,
        .laneNext 0, .die 0, .scanEnd 0 .aborted, .check 0, .pop 0] = some w :=
      Option.isSome_iff_exists.mp (by decide +kernel)
  have hr : (scanWorker Unit).Reaches World.Disciplined w := Machine.path_of_runWhile _ hw
  have hcount := (scan_worker_discipline hr).2.2.2.1
  obtain rfl := Option.some.inj hw
  exact ⟨_, rfl, rfl, rfl, hcount⟩

/-- A new worker starts a scan beside the aborted one; a ticket of a worker that
died after the shutdown is nowhere; and so a caller waits in vain, as does one whose
refresh an aborted scan took and did not finish. -/
theorem scan_worker_undisciplined :
    (∃ w : World Unit, (scanWorker Unit).Reachable w ∧ w.tasks.length = 2) ∧
      (∃ w : World Unit, (scanWorker Unit).Reachable w ∧ 0 ∈ w.callers ∧
        w.queue.collections.flatten.count 0 = 0 ∧ (w.queue.check 0).1.answers = false) ∧
      ∃ w : World Unit, (scanWorker Unit).Reachable w ∧ 1 ∈ w.callers ∧ w.workers = [] ∧
        w.tasks = [] ∧ (w.queue.check 1).1.answers = false := by
  refine ⟨⟨_, Machine.reachable_of_run [.submit libraryScan true none, .pop 0, .die 0, .check 0,
      .pop 0] rfl, rfl⟩,
    ⟨_, Machine.reachable_of_run [.submit libraryScan true none, .pop 0, .shutdown, .die 0,
      .scanEnd 0 .aborted] rfl, ?_, rfl, rfl⟩,
    ⟨_, Machine.reachable_of_run [.submit libraryScan true none, .pop 0,
      .submit filmRefresh true none, .laneCheck 0, .die 0, .laneNext 0, .shutdown,
      .scanEnd 0 .aborted] rfl, ?_, rfl, rfl, rfl⟩⟩
  · exact List.mem_cons_self
  · exact List.mem_cons_of_mem _ List.mem_cons_self

end Ferrofin.Scan
