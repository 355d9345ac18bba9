import Ferrofin.Scan.Worker

/-!
# The worker of the scan queue, one scan at a time

At most one worker drains the queue, and the queue's own flag says whether one
does.  As long as no worker has died, requests do not wait in a queue without one;
after the shutdown none wait at all.

A scan that was told to abort executes until its next await, and by then a new
worker can have started the next one.  `World.Disciplined` is the condition on a
step that this does not happen, and that no caller is left behind by a worker that
dies, or by an aborted scan that ends, once the host is shutting down.  Along such
runs one scan executes at most.
-/

namespace Ferrofin.Scan

open Lib

variable {Search : Type}

theorem eq_singleton_of_getElem? {α : Type} {l : List α} {i : Nat} {x : α} (hle : l.length ≤ 1)
    (hi : l[i]? = some x) : l = [x] ∧ i = 0 := by
  obtain ⟨hlt, he⟩ := List.getElem?_eq_some_iff.mp hi
  have hi0 : i = 0 := by omega
  obtain ⟨y, hy⟩ := List.length_eq_one_iff.mp (show l.length = 1 by omega)
  subst hi0
  rw [hy, List.getElem?_cons_zero] at hi
  rw [hy, Option.some.inj hi]
  exact ⟨rfl, rfl⟩

namespace World

/-! ### The invariant -/

/-- One worker exactly when the queue says so, and it has a scan exactly when the
queue has one running. -/
structure Manned (w : World Search) : Prop where
  workers : w.workers.length = if w.queue.worker then 1 else 0
  running : w.queue.running.isSome = w.workers.any WorkerState.isBusy
  undied : w.died = false → w.queue.worker = false → w.queue.entries = []
  closed : w.queue.closed = true → w.queue.entries = []

variable {w w' : World Search} {i : Nat} {worker : WorkerState Search}

theorem Manned.init : Manned ({} : World Search) where
  workers := rfl
  running := rfl
  undied _ _ := rfl
  closed _ := rfl

theorem Manned.length_le_one (h : w.Manned) : w.workers.length ≤ 1 := by
  rw [h.workers]
  split <;> omega

theorem Manned.only (h : w.Manned) (hi : w.workers[i]? = some worker) :
    w.workers = [worker] ∧ i = 0 := eq_singleton_of_getElem? h.length_le_one hi

theorem Manned.worker_eq (h : w.Manned) (hi : w.workers[i]? = some worker) :
    w.queue.worker = true := by
  have hw := h.workers
  rw [(h.only hi).1] at hw
  by_contra hf
  rw [if_neg hf] at hw
  cases hw

theorem Manned.worker_eq_false (h : w.Manned) (hw : w.workers = []) :
    w.queue.worker = false := by
  have hlength := h.workers
  rw [hw] at hlength
  by_contra hf
  rw [if_pos (Bool.not_eq_false _ ▸ hf)] at hlength
  cases hlength

/-! ### One step -/

theorem length_startWorker (start : Bool) (workers : List (WorkerState Search)) :
    (startWorker start workers).length = workers.length + if start then 1 else 0 := by
  rw [startWorker]
  split <;> simp

theorem any_startWorker (start : Bool) (workers : List (WorkerState Search)) :
    (startWorker start workers).any WorkerState.isBusy = workers.any WorkerState.isBusy := by
  rw [startWorker]
  split <;> simp [WorkerState.isBusy]

theorem any_scanEnded (scan : Nat) (ending : ScanEnding) (workers : List (WorkerState Search)) :
    (workers.map (WorkerState.scanEnded scan ending)).any WorkerState.isBusy =
      workers.any WorkerState.isBusy := by
  rw [List.any_map]
  congr 1
  funext worker
  cases worker with
  | awaiting s request =>
    rw [Function.comp_apply, WorkerState.scanEnded]
    split <;> rfl
  | idle | ended => rfl

variable [DecidableEq Search]

/-- **Every step keeps the worker and its flag together.** -/
theorem Manned.step {e : ScanEvent Search} (h : w.Manned) (hs : Stepped w e w') : w'.Manned := by
  cases hs with
  | refused => exact h
  | submitted hclosed =>
    have hworkers := h.workers
    refine ⟨?_, ?_, fun _ hw => ?_, fun hc => ?_⟩
    · rw [length_startWorker, hworkers]
      cases w.queue.worker <;> rfl
    · rw [any_startWorker]
      exact h.running
    · cases hw
    · have hc' : w.queue.closed = true := hc
      rw [hclosed] at hc'
      cases hc'
  | answered | lost | unanswered => exact ⟨h.workers, h.running, h.undied, h.closed⟩
  | restarted _ _ hworker =>
    have hworkers := h.workers
    rw [hworker] at hworkers
    refine ⟨?_, ?_, fun _ hw => ?_, h.closed⟩
    · rw [List.length_append, hworkers]
      rfl
    · rw [List.any_append, ← h.running]
      simp [WorkerState.isBusy]
    · cases hw
  | withdrawn =>
    have hnil : w.queue.entries = [] → ∀ ticket, (w.queue.withdraw ticket).entries = [] := by
      intro he ticket
      rw [ScanQueue.entries_withdraw, he]
      rfl
    refine ⟨h.workers, ?_, fun hd hw => hnil (h.undied hd hw) _, fun hc => hnil (h.closed hc) _⟩
    rw [ScanQueue.withdraw_running, Option.isSome_map]
    exact h.running
  | stoodDown hi hempty =>
    obtain ⟨hw, rfl⟩ := h.only hi
    rw [hw]
    exact ⟨rfl, rfl, fun _ _ => hempty, fun _ => hempty⟩
  | popped hi hperm =>
    obtain ⟨hw, rfl⟩ := h.only hi
    have hworker := h.worker_eq hi
    rw [hw]
    refine ⟨?_, rfl, fun _ hf => ?_, fun hc => ?_⟩
    · rw [ScanQueue.start_worker]
      simp only [hworker]
      rfl
    · rw [ScanQueue.start_worker] at hf
      rw [hworker] at hf
      cases hf
    · rw [ScanQueue.start_closed] at hc
      rw [h.closed hc] at hperm
      exact absurd hperm.symm.eq_nil (List.cons_ne_nil _ _)
  | finished hi =>
    obtain ⟨hw, rfl⟩ := h.only hi
    have hworkers := h.workers
    obtain ⟨hwk, hc, he, hr⟩ := w.queue.finish_frame _
    refine ⟨?_, ?_, fun hd hf => ?_, fun hcl => ?_⟩
    · rw [List.length_set, hwk]
      exact hworkers
    · rw [hr, hw]
      rfl
    · rw [hwk] at hf
      rw [he]
      exact h.undied hd hf
    · rw [hc] at hcl
      rw [he]
      exact h.closed hcl
  | died hi hdying =>
    obtain ⟨hw, rfl⟩ := h.only hi
    obtain ⟨hwk, hc, hr⟩ := w.queue.releaseWorker_frame _
    refine ⟨?_, ?_, fun hd _ => ?_, fun hcl => ?_⟩
    · rw [hwk, hw]
      rfl
    · rw [hr, hw]
      rfl
    · cases hd
    · rw [hc] at hcl
      rw [ScanQueue.releaseWorker_entries_of_closed hcl]
      exact h.closed hcl
  | checked | passed => exact ⟨h.workers, h.running, h.undied, h.closed⟩
  | served hj hphase hclosed hlane =>
    refine ⟨h.workers, h.running, fun hd hw => ?_, fun hc => ?_⟩
    · have he := h.undied hd hw
      rw [ScanQueue.entries, hlane] at he
      exact absurd he (by simp)
    · rw [hclosed] at hc
      cases hc
  | handedBack =>
    rcases w.queue.laneDone_cases _ _ with ⟨-, he⟩ | ⟨s, -, he⟩ <;> rw [he] <;>
      exact ⟨h.workers, h.running, h.undied, h.closed⟩
  | scanEnded hj =>
    refine ⟨?_, ?_, h.undied, h.closed⟩
    · rw [List.length_map]
      exact h.workers
    · rw [any_scanEnded]
      exact h.running
  | shutdown => exact ⟨h.workers, h.running, fun _ _ => rfl, fun _ => rfl⟩

end World

def ScanQueue.runningTickets (q : ScanQueue Search) : List Nat :=
  q.running.elim [] fun r => r.waiters.tickets

namespace World

/-! ### The condition -/

/-- A caller waits for the refresh served under a key. -/
def awaited (w : World Search) (key : Nat) : Bool :=
  match w.queue.serving.lookup key with
  | some s => w.callers.any fun ticket => ticket ∈ s.waiters.tickets
  | none => false

/-- A scan that executes serves the refresh under a key. -/
def attended (w : World Search) (key : Nat) : Bool :=
  w.tasks.any fun task => task.phase = .serving key

/-- No worker takes a request while an aborted scan executes.  Once the host is
shutting down, no worker dies that a caller waits for, and no caller waits for a
refresh that neither a worker nor an executing scan has. -/
def Disciplined (w : World Search) : ScanEvent Search → Prop
  | .pop _ => w.queue.entries.isEmpty = false → ∀ task ∈ w.tasks, task.aborted = false
  | .die _ => w.queue.closed = true →
      ∀ ticket ∈ w.callers, ticket ∉ w.queue.runningTickets ++ w.queue.servingTickets
  | .scanEnd j _ => w.queue.closed = true → w.queue.running.isNone = true →
      ∀ task ∈ w.tasks[j]?, ∀ key ∈ w.queue.serving.keys,
        task.phase = .serving key → w.awaited key = false
  | .shutdown => w.queue.running.isNone = true →
      ∀ key ∈ w.queue.serving.keys, w.awaited key = true → w.attended key = true
  | _ => True

instance (w : World Search) (e : ScanEvent Search) : Decidable (w.Disciplined e) :=
  match e with
  | .pop _ => inferInstanceAs (Decidable (_ → _))
  | .die _ => inferInstanceAs (Decidable (_ → _))
  | .scanEnd _ _ => inferInstanceAs (Decidable (_ → _ → _))
  | .shutdown => inferInstanceAs (Decidable (_ → _))
  | .submit _ _ _ | .check _ | .withdraw _ | .finish _ | .laneCheck _ | .laneNext _
  | .laneDone _ _ => inferInstanceAs (Decidable True)

/-! ### The invariant -/

/-- One scan executes at most, and unless it was aborted the worker waits for it. -/
structure Single (w : World Search) : Prop where
  le_one : w.tasks.length ≤ 1
  owned : ∀ task ∈ w.tasks, task.aborted = false → ∃ request r,
    w.workers = [.awaiting task.scan request] ∧ w.queue.running = some r ∧ r.cancel = task.cancel

variable {w w' : World Search} {j : Nat} {task : ScanTask}

theorem Single.init : Single ({} : World Search) where
  le_one := Nat.zero_le _
  owned _ h := absurd h List.not_mem_nil

theorem Single.only (h : w.Single) (hj : w.tasks[j]? = some task) : w.tasks = [task] ∧ j = 0 :=
  eq_singleton_of_getElem? h.le_one hj

theorem Single.aborted (h : w.Single) {worker : WorkerState Search} (hw : w.workers = [worker])
    (hworker : ∀ scan request, worker ≠ .awaiting scan request) (ht : task ∈ w.tasks) :
    task.aborted = true := by
  by_contra ha
  obtain ⟨request, -, hws, -⟩ := h.owned task ht (Bool.eq_false_iff.mpr ha)
  rw [hw] at hws
  exact hworker _ _ (List.singleton_inj.mp hws)

theorem Single.progress (h : w.Single) (hj : w.tasks[j]? = some task) {phase : TaskPhase}
    (hworkers : w'.workers = w.workers) (hrunning : w'.queue.running = w.queue.running)
    (htasks : w'.tasks = w.tasks.set j { task with phase := phase }) : w'.Single := by
  refine ⟨?_, fun task' ht ha => ?_⟩
  · rw [htasks, List.length_set]
    exact h.le_one
  · rw [hworkers, hrunning]
    rw [htasks] at ht
    rcases List.mem_or_eq_of_mem_set ht with ht | rfl
    · exact h.owned task' ht ha
    · exact h.owned task (List.mem_of_getElem? hj) ha

theorem Single.frame (h : w.Single) (hworkers : w'.workers = w.workers)
    (hrunning : w'.queue.running.map RunningScan.cancel = w.queue.running.map RunningScan.cancel)
    (htasks : w'.tasks = w.tasks) : w'.Single := by
  refine ⟨htasks ▸ h.le_one, fun task ht ha => ?_⟩
  rw [htasks] at ht
  obtain ⟨request, r, hw, hr, hc⟩ := h.owned task ht ha
  rw [hr, Option.map_some] at hrunning
  obtain ⟨r', hr', hc'⟩ := Option.map_eq_some_iff.mp hrunning
  exact ⟨request, r', hworkers.trans hw, hr', hc'.trans hc⟩

variable [DecidableEq Search]

/-- **A disciplined step leaves one scan executing at most.** -/
theorem Single.step {e : ScanEvent Search} (h : w.Single) (hm : w.Manned) (hok : w.Disciplined e)
    (hs : Stepped w e w') : w'.Single := by
  cases hs with
  | refused => exact h
  | submitted =>
    refine ⟨h.le_one, fun task ht ha => ?_⟩
    obtain ⟨request, r, hw, hr, hc⟩ := h.owned task ht ha
    have hworker : w.queue.worker = true := hm.worker_eq (i := 0) (by rw [hw]; rfl)
    refine ⟨request, r, ?_, hr, hc⟩
    rw [hworker]
    exact hw
  | answered | lost | unanswered | shutdown => exact h.frame rfl rfl rfl
  | restarted _ _ hworker =>
    refine ⟨h.le_one, fun task ht ha => ?_⟩
    obtain ⟨request, r, hw, hr, hc⟩ := h.owned task ht ha
    rw [hm.worker_eq (i := 0) (by rw [hw]; rfl)] at hworker
    cases hworker
  | withdrawn =>
    refine h.frame rfl ?_ rfl
    rw [ScanQueue.withdraw_running, Option.map_map]
    rfl
  | stoodDown hi =>
    obtain ⟨hw, -⟩ := hm.only hi
    refine ⟨h.le_one, fun task ht ha => ?_⟩
    rw [h.aborted hw (fun _ _ he => by cases he) ht] at ha
    cases ha
  | popped hi hperm =>
    obtain ⟨hw, rfl⟩ := hm.only hi
    have hentries : w.queue.entries.isEmpty = false := by
      rw [List.isEmpty_eq_false_iff]
      intro he
      rw [he] at hperm
      exact absurd hperm.symm.eq_nil (List.cons_ne_nil _ _)
    -- Those that execute are aborted, as the worker is idle; and none is.
    have htasks : w.tasks = [] := by
      refine List.eq_nil_iff_forall_not_mem.mpr fun task ht => ?_
      have ha := h.aborted hw (fun _ _ he => by cases he) ht
      rw [hok hentries task ht] at ha
      cases ha
    simp only [htasks, hw]
    refine ⟨Nat.le_refl 1, fun task ht _ => ?_⟩
    rw [List.nil_append] at ht
    obtain rfl := List.mem_singleton.mp ht
    exact ⟨_, _, rfl, rfl, rfl⟩
  | finished hi =>
    obtain ⟨hw, -⟩ := hm.only hi
    refine ⟨h.le_one, fun task ht ha => ?_⟩
    rw [h.aborted hw (fun _ _ he => by cases he) ht] at ha
    cases ha
  | @died i worker request scan hi hdying =>
    obtain ⟨hw, -⟩ := hm.only hi
    refine ⟨?_, fun task' ht' ha => ?_⟩
    · rw [List.length_map]
      exact h.le_one
    · obtain ⟨task, ht, rfl⟩ := List.mem_map.mp ht'
      have hab : task.aborted = false := by
        rw [ScanTask.abort] at ha
        split at ha
        · cases ha
        · exact ha
      obtain ⟨request', r, hws, -⟩ := h.owned task ht hab
      obtain rfl := List.singleton_inj.mp (hw.symm.trans hws)
      cases hdying
      rw [ScanTask.abort, if_pos rfl] at ha
      cases ha
  | checked hj | passed hj | served hj => exact h.progress hj rfl rfl rfl
  | handedBack hj =>
    refine h.progress hj rfl ?_ rfl
    rcases w.queue.laneDone_cases _ _ with ⟨-, he⟩ | ⟨s, -, he⟩
    · rw [he]
    · rw [he]
      rfl
  | scanEnded hj =>
    obtain ⟨ht, rfl⟩ := h.only hj
    rw [ht]
    exact ⟨Nat.zero_le 1, fun task ht _ => absurd ht List.not_mem_nil⟩

end World

end Ferrofin.Scan
