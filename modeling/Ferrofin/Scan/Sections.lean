import Ferrofin.Scan.Enqueue

/-!
# The locked sections of the scan queue, by cases

What each section of the worker, the lane and the callers does to the queue, and
what it leaves alone.
-/

namespace Ferrofin.Scan

open Lib

variable {Search : Type}

namespace ScanQueue

variable {q : ScanQueue Search}

theorem entries_withdraw (q : ScanQueue Search) (ticket : Nat) :
    (q.withdraw ticket).entries = withdrawFrom ticket q.entries := by
  simp only [entries, withdraw_pending, withdraw_lane, withdrawFrom, List.map_append,
    List.filter_append]

theorem pop_cases (q : ScanQueue Search) :
    (q.entries = [] ∧ q.pop = (none, { q with worker := false, running := none })) ∨
      ∃ p q', q.pop = (some p, q') ∧ q.entries.Perm (p :: q'.entries) ∧
        ∃ pending lane, q' = { q with pending := pending, lane := lane }.start p := by
  rw [pop]
  split
  · next _ p lane hlane =>
    refine .inr ⟨p, _, rfl, ?_, q.pending, lane, rfl⟩
    rw [entries, hlane]
    exact List.perm_middle
  · next p pending hlane hpending =>
    refine .inr ⟨p, _, rfl, ?_, pending, q.lane, rfl⟩
    rw [entries, hpending]
    exact List.Perm.refl _
  · next hlane hpending =>
    refine .inl ⟨?_, rfl⟩
    rw [entries, hlane, hpending]
    rfl

theorem laneNext_cases (q : ScanQueue Search) :
    q.laneNext = (none, q) ∨
      ∃ p lane, q.closed = false ∧ q.lane = p :: lane ∧
        q.laneNext = (some p, { q with
          lane := lane
          serving := q.serving.insert q.nextLaneKey
            { request := p.request, waiters := p.waiters, cancel := q.tokens }
          nextLaneKey := q.nextLaneKey + 1
          tokens := q.tokens + 1 }) := by
  rw [laneNext]
  split
  · exact .inl rfl
  · exact .inl rfl
  · next p lane hclosed hlane => exact .inr ⟨p, lane, hclosed, hlane, rfl⟩

theorem finishRunning_of_none {result : ScanResult} (h : q.running = none) :
    q.finishRunning result = q := by
  rw [finishRunning, h]

theorem finishRunning_of_some {result : ScanResult} {r : RunningScan Search}
    (h : q.running = some r) :
    q.finishRunning result = { q with running := none }.settle r.waiters.tickets result := by
  rw [finishRunning, h]

theorem laneDone_cases (q : ScanQueue Search) (key : Nat) (result : ScanResult) :
    (q.serving.lookup key = none ∧ q.laneDone key result = q) ∨
      ∃ s, q.serving.lookup key = some s ∧ q.laneDone key result =
        { q with serving := q.serving.erase key }.settle s.waiters.tickets result := by
  rw [laneDone]
  split
  · next hs => exact .inl ⟨hs, rfl⟩
  · next s hs => exact .inr ⟨s, hs, rfl⟩

theorem finish_frame (q : ScanQueue Search) (result : ScanResult) :
    (q.finishRunning result).failServing.worker = q.worker ∧
      (q.finishRunning result).failServing.closed = q.closed ∧
      (q.finishRunning result).failServing.entries = q.entries ∧
      (q.finishRunning result).failServing.running = none := by
  cases hr : q.running with
  | none =>
    rw [finishRunning_of_none hr]
    exact ⟨rfl, rfl, rfl, hr⟩
  | some r =>
    rw [finishRunning_of_some hr]
    exact ⟨rfl, rfl, rfl, rfl⟩

/-- The counters, and the refreshes served, do not change when a scan ends. -/
theorem finishRunning_frame (q : ScanQueue Search) (result : ScanResult) :
    (q.finishRunning result).nextTicket = q.nextTicket ∧
      (q.finishRunning result).nextLaneKey = q.nextLaneKey ∧
      (q.finishRunning result).tokens = q.tokens ∧
      (q.finishRunning result).serving = q.serving ∧
      (q.finishRunning result).cancelled = q.cancelled := by
  cases hr : q.running with
  | none => rw [finishRunning_of_none hr]; exact ⟨rfl, rfl, rfl, rfl, rfl⟩
  | some r => rw [finishRunning_of_some hr]; exact ⟨rfl, rfl, rfl, rfl, rfl⟩

theorem requeueRunning_of_none {request : ScanRequest Search} (h : q.running = none) :
    q.requeueRunning (some request) = { q with worker := false, running := none } := by
  simp only [requeueRunning, h]

theorem requeueRunning_of_some {request : ScanRequest Search} {r : RunningScan Search}
    (h : q.running = some r) :
    q.requeueRunning (some request) = { q with
      worker := false
      running := none
      cancelled := q.cancelled ++ [r.cancel]
      lane := if !q.closed && request.priority
        then { request := request, waiters := r.waiters } :: q.lane else q.lane
      pending := if !q.closed && !request.priority
        then { request := request, waiters := r.waiters } :: q.pending else q.pending } := by
  simp only [requeueRunning, h]

theorem releaseWorker_frame (q : ScanQueue Search) (request : ScanRequest Search) :
    (q.releaseWorker (some request)).worker = false ∧
      (q.releaseWorker (some request)).closed = q.closed ∧
      (q.releaseWorker (some request)).running = none := by
  rw [releaseWorker]
  cases hr : q.running with
  | none => rw [requeueRunning_of_none hr]; exact ⟨rfl, rfl, rfl⟩
  | some r => rw [requeueRunning_of_some hr]; exact ⟨rfl, rfl, rfl⟩

theorem requeueRunning_frame (q : ScanQueue Search) (request : ScanRequest Search) :
    (q.requeueRunning (some request)).nextTicket = q.nextTicket ∧
      (q.requeueRunning (some request)).nextLaneKey = q.nextLaneKey ∧
      (q.requeueRunning (some request)).tokens = q.tokens ∧
      (q.requeueRunning (some request)).serving = q.serving ∧
      (q.requeueRunning (some request)).closed = q.closed ∧
      (q.requeueRunning (some request)).finished = q.finished := by
  cases hr : q.running with
  | none => rw [requeueRunning_of_none hr]; exact ⟨rfl, rfl, rfl, rfl, rfl, rfl⟩
  | some r => rw [requeueRunning_of_some hr]; exact ⟨rfl, rfl, rfl, rfl, rfl, rfl⟩

theorem releaseWorker_entries_of_closed {request : ScanRequest Search} (h : q.closed = true) :
    (q.releaseWorker (some request)).entries = q.entries := by
  rw [releaseWorker]
  cases hr : q.running with
  | none =>
    rw [requeueRunning_of_none hr, entries, requeueServing_lane, requeueServing_pending, if_pos h]
    rfl
  | some r =>
    rw [requeueRunning_of_some hr, entries, requeueServing_lane, requeueServing_pending, if_pos h]
    simp only [h, Bool.not_true, Bool.false_and, Bool.false_eq_true, if_false]
    rfl

/-- What a caller finds: its result; or, with no worker left, that its request must
be restarted or is lost; or nothing yet. -/
theorem check_cases (q : ScanQueue Search) (ticket : Nat) :
    (∃ result, q.finished.lookup ticket = some result ∧ q.check ticket =
        ({ result := some result, restart := false, lost := false },
          { q with finished := q.finished.erase ticket })) ∨
      (q.finished.lookup ticket = none ∧
        ((q.worker = false ∧ q.closed = false ∧ q.isQueued ticket = true ∧ q.check ticket =
            ({ result := none, restart := true, lost := false },
              { q with finished := q.finished.erase ticket, worker := true })) ∨
          (q.worker = false ∧ q.closed = false ∧ q.isQueued ticket = false ∧ q.check ticket =
            ({ result := none, restart := false, lost := true },
              { q with finished := q.finished.erase ticket })) ∨
          ((q.worker = true ∨ q.closed = true) ∧ q.check ticket =
            ({ result := none, restart := false, lost := false },
              { q with finished := q.finished.erase ticket })))) := by
  rw [check]
  cases hr : q.finished.lookup ticket with
  | some result =>
    refine .inl ⟨result, rfl, ?_⟩
    simp
  | none =>
    refine .inr ⟨rfl, ?_⟩
    cases hw : q.worker <;> cases hc : q.closed <;> cases hq : q.isQueued ticket <;> simp

variable [DecidableEq Search]

theorem submit_cases (q : ScanQueue Search) (request : ScanRequest Search) (waiting : Bool)
    (progress : Option Nat) :
    (q.closed = true ∧ q.submit request waiting progress = none) ∨
      (q.closed = false ∧ ∃ sinks, q.submit request waiting progress =
        some ((q.asking request waiting).ticket, !q.worker,
          { q.enqueue request waiting with sinks := sinks, worker := true })) := by
  rw [submit]
  cases hc : q.closed with
  | true => exact .inl ⟨rfl, rfl⟩
  | false => exact .inr ⟨rfl, _, rfl⟩

end ScanQueue

end Ferrofin.Scan
