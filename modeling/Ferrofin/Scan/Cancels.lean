import Ferrofin.Scan.Tickets

/-!
# The cancel tokens of the scan queue

The scan running and the refreshes served each have a token of their own.  It is
cancelled when the last one who wanted the scan withdraws, or at the shutdown, and
else only together with the scan's place in the queue.
-/

namespace Ferrofin.Scan

open Lib
open List (map_map mem_append mem_map mem_map_of_mem not_mem_nil)

variable {Search : Type}

namespace ScanQueue

def taken (q : ScanQueue Search) : List (Waiters Search × Nat) :=
  (q.running.toList.map fun r => (r.waiters, r.cancel)) ++
    (KeyedMap.values q.serving).map fun s => (s.waiters, s.cancel)

structure Cancels (q : ScanQueue Search) : Prop where
  nodup : (q.taken.map Prod.snd).Nodup
  lt_tokens : ∀ p ∈ q.taken, p.2 < q.tokens
  cancelled_lt : ∀ c ∈ q.cancelled, c < q.tokens
  unwanted : ∀ p ∈ q.taken, p.2 ∈ q.cancelled → p.1.isEmpty = true ∨ q.closed = true

variable {q q' : ScanQueue Search}

theorem Cancels.init : Cancels ({} : ScanQueue Search) where
  nodup := List.nodup_nil
  lt_tokens _ h := absurd h not_mem_nil
  cancelled_lt _ h := absurd h not_mem_nil
  unwanted _ h := absurd h not_mem_nil

theorem Cancels.drop (h : q.Cancels) (gone : List (Waiters Search × Nat))
    (hperm : q.taken.Perm (gone ++ q'.taken)) (htokens : q'.tokens = q.tokens)
    (hclosed : q'.closed = q.closed)
    (hcancelled : ∀ c ∈ q'.cancelled, c ∈ q.cancelled ∨ c ∈ gone.map Prod.snd) : q'.Cancels := by
  have hmem : ∀ p, p ∈ q.taken ↔ p ∈ gone ∨ p ∈ q'.taken := by
    intro p
    rw [hperm.mem_iff, mem_append]
  have hnodup := (hperm.map Prod.snd).nodup_iff.mp h.nodup
  rw [List.map_append] at hnodup
  refine ⟨hnodup.of_append_right, fun p hp => ?_, fun c hc => ?_, fun p hp hc => ?_⟩
  · rw [htokens]
    exact h.lt_tokens p ((hmem p).mpr (.inr hp))
  · rw [htokens]
    rcases hcancelled c hc with hc | hc
    · exact h.cancelled_lt c hc
    · obtain ⟨p, hp, rfl⟩ := mem_map.mp hc
      exact h.lt_tokens p ((hmem p).mpr (.inl hp))
  · rw [hclosed]
    rcases hcancelled _ hc with hc | hc
    · exact h.unwanted p ((hmem p).mpr (.inr hp)) hc
    · exact absurd (mem_map_of_mem hp) (List.disjoint_of_nodup_append hnodup hc)

theorem Cancels.take (h : q.Cancels) (waiters : Waiters Search)
    (hperm : q'.taken.Perm ((waiters, q.tokens) :: q.taken)) (htokens : q'.tokens = q.tokens + 1)
    (hclosed : q'.closed = q.closed) (hcancelled : q'.cancelled = q.cancelled) : q'.Cancels := by
  have hmem : ∀ p, p ∈ q'.taken ↔ p = (waiters, q.tokens) ∨ p ∈ q.taken := by
    intro p
    rw [hperm.mem_iff, List.mem_cons]
  refine ⟨?_, fun p hp => ?_, fun c hc => ?_, fun p hp hc => ?_⟩
  · refine (hperm.map Prod.snd).nodup_iff.mpr (List.nodup_cons.mpr ⟨fun hm => ?_, h.nodup⟩)
    obtain ⟨p, hp, he⟩ := mem_map.mp hm
    exact absurd (h.lt_tokens p hp) (by omega)
  · rw [htokens]
    rcases (hmem p).mp hp with rfl | hp
    · exact Nat.lt_succ_self _
    · exact Nat.lt_succ_of_lt (h.lt_tokens p hp)
  · rw [htokens]
    rw [hcancelled] at hc
    exact Nat.lt_succ_of_lt (h.cancelled_lt c hc)
  · rw [hclosed]
    rw [hcancelled] at hc
    rcases (hmem p).mp hp with rfl | hp
    · exact absurd (h.cancelled_lt _ hc) (Nat.lt_irrefl _)
    · exact h.unwanted p hp hc

theorem taken_withdraw (q : ScanQueue Search) (ticket : Nat) :
    (q.withdraw ticket).taken = q.taken.map fun p => (p.1.retain ticket, p.2) := by
  rw [taken, taken, withdraw_running, withdraw_serving, KeyedMap.values_mapValues,
    List.map_append, map_map, map_map, map_map]
  cases q.running <;> rfl

theorem mem_cancelled_withdraw {ticket c : Nat} (h : c ∈ (q.withdraw ticket).cancelled) :
    c ∈ q.cancelled ∨ ∃ p ∈ q.taken, p.2 = c ∧ (p.1.retain ticket).isEmpty = true := by
  have habandoned : ∀ {waiters : Waiters Search} {cancel : Nat},
      c ∈ waiters.abandoned ticket cancel →
        cancel = c ∧ (waiters.retain ticket).isEmpty = true := by
    intro waiters cancel hc
    rw [Waiters.abandoned] at hc
    split at hc
    · next hempty => exact ⟨(List.mem_singleton.mp hc).symm, hempty.2⟩
    · exact absurd hc not_mem_nil
  rw [withdraw_cancelled, mem_append, mem_append] at h
  rcases h with (h | h) | h
  · exact .inl h
  · obtain ⟨s, hs, hc⟩ := List.mem_flatMap.mp h
    exact .inr ⟨(s.waiters, s.cancel),
      List.mem_append_right _ (mem_map_of_mem hs), habandoned hc⟩
  · cases hr : q.running with
    | none =>
      rw [hr] at h
      exact absurd h not_mem_nil
    | some r =>
      rw [hr] at h
      refine .inr ⟨(r.waiters, r.cancel), List.mem_append_left _ ?_, habandoned h⟩
      rw [hr]
      exact List.mem_singleton_self _

theorem isEmpty_retain {waiters : Waiters Search} {ticket : Nat} (h : waiters.isEmpty = true) :
    (waiters.retain ticket).isEmpty = true := by
  rw [Waiters.isEmpty, Bool.and_eq_true, List.isEmpty_iff] at h
  rw [Waiters.isEmpty, Waiters.retain, h.1]
  exact h.2

theorem Cancels.withdraw (h : q.Cancels) (ticket : Nat) : (q.withdraw ticket).Cancels := by
  have hsnd : (q.withdraw ticket).taken.map Prod.snd = q.taken.map Prod.snd := by
    rw [taken_withdraw, map_map]
    rfl
  have hmem : ∀ p ∈ (q.withdraw ticket).taken, ∃ p₀ ∈ q.taken, (p₀.1.retain ticket, p₀.2) = p := by
    intro p hp
    rw [taken_withdraw] at hp
    exact mem_map.mp hp
  refine ⟨hsnd ▸ h.nodup, fun p hp => ?_, fun c hc => ?_, fun p hp hc => ?_⟩
  · obtain ⟨p₀, hp₀, rfl⟩ := hmem p hp
    exact h.lt_tokens p₀ hp₀
  · rcases mem_cancelled_withdraw hc with hc | ⟨p, hp, rfl, -⟩
    · exact h.cancelled_lt c hc
    · exact h.lt_tokens p hp
  · obtain ⟨p₀, hp₀, rfl⟩ := hmem p hp
    rcases mem_cancelled_withdraw hc with hc | ⟨p₁, hp₁, he, hempty⟩
    · exact (h.unwanted p₀ hp₀ hc).imp_left isEmpty_retain
    · -- The token is of this scan only.
      rw [List.inj_on_of_nodup_map h.nodup hp₁ hp₀ he] at hempty
      exact .inl hempty

theorem perm_taken_start {p : PendingScan Search} {pending lane : List (PendingScan Search)}
    (hrunning : q.running = none) :
    (start { q with pending := pending, lane := lane } p).taken.Perm
      ((p.waiters, q.tokens) :: q.taken) := by
  rw [taken, taken, hrunning]
  exact List.Perm.refl _

theorem mem_taken_of_running {r : RunningScan Search} (hr : q.running = some r) :
    (r.waiters, r.cancel) ∈ q.taken := by
  rw [taken, hr]
  exact List.mem_append_left _ (List.mem_singleton_self _)

theorem mem_taken_of_serving {c : Nat} (hc : c ∈ q.servingTokens) : c ∈ q.taken.map Prod.snd := by
  obtain ⟨s, hs, rfl⟩ := mem_map.mp hc
  exact mem_map_of_mem (List.mem_append_right _ (mem_map_of_mem hs))

theorem Cancels.clear (h : q.Cancels) (hrunning : q'.running = none) (hserving : q'.serving = ∅)
    (htokens : q'.tokens = q.tokens) (hclosed : q'.closed = q.closed)
    (hcancelled : ∀ c ∈ q'.cancelled, c ∈ q.cancelled ∨ c ∈ q.taken.map Prod.snd) :
    q'.Cancels := by
  refine h.drop q.taken ?_ htokens hclosed hcancelled
  rw [show q'.taken = [] by rw [taken, hrunning, hserving]; rfl, List.append_nil]

theorem Cancels.finish (h : q.Cancels) (result : ScanResult) :
    (q.finishRunning result).failServing.Cancels := by
  obtain ⟨-, hclosed, -, hrunning⟩ := q.finish_frame result
  obtain ⟨-, -, htokens, hserving, hcancelled⟩ := q.finishRunning_frame result
  refine h.clear hrunning rfl htokens hclosed fun c hc => ?_
  rw [failServing, settle_cancelled, servingTokens, hserving, hcancelled] at hc
  exact (mem_append.mp hc).imp_right mem_taken_of_serving

theorem Cancels.releaseWorker (h : q.Cancels) (request : ScanRequest Search) :
    (q.releaseWorker (some request)).Cancels := by
  obtain ⟨-, hclosed, hrunning⟩ := q.releaseWorker_frame request
  obtain ⟨-, -, htokens, hserving, -⟩ := q.requeueRunning_frame request
  refine h.clear hrunning rfl htokens hclosed fun c hc => ?_
  rw [ScanQueue.releaseWorker, requeueServing_cancelled, servingTokens, hserving] at hc
  rcases mem_append.mp hc with hc | hc
  · cases hr : q.running with
    | none =>
      rw [requeueRunning_of_none hr] at hc
      exact .inl hc
    | some r =>
      rw [requeueRunning_of_some hr] at hc
      refine (mem_append.mp hc).imp_right fun hc => ?_
      rw [List.mem_singleton.mp hc]
      exact mem_map_of_mem (mem_taken_of_running hr)
  · exact .inr (mem_taken_of_serving hc)

theorem Cancels.served (h : q.Cancels) (hk : q.LaneKeyed) (p : PendingScan Search)
    (lane : List (PendingScan Search)) : Cancels { q with
      lane := lane
      serving := q.serving.insert q.nextLaneKey
        { request := p.request, waiters := p.waiters, cancel := q.tokens }
      nextLaneKey := q.nextLaneKey + 1
      tokens := q.tokens + 1 } := by
  have hkey : q.nextLaneKey ∉ q.serving := fun hm => Nat.lt_irrefl _ (hk _ hm)
  refine h.take p.waiters ?_ rfl rfl rfl
  rw [taken, taken, KeyedMap.values_insert_of_notMem _ hkey]
  exact List.perm_middle

theorem Cancels.laneDone (h : q.Cancels) (key : Nat) (result : ScanResult) :
    (q.laneDone key result).Cancels := by
  rcases q.laneDone_cases key result with ⟨-, he⟩ | ⟨s, hs, he⟩ <;> rw [he]
  · exact h
  · refine h.drop [(s.waiters, s.cancel)] ?_ rfl rfl fun c hc => .inl hc
    have hvalues := (KeyedMap.perm_values_of_lookup hs).map fun s => (s.waiters, s.cancel)
    rw [taken, taken, settle_running, settle_serving]
    exact (hvalues.append_left _).trans List.perm_middle

theorem Cancels.shutdown (h : q.Cancels) : q.shutdown.Cancels := by
  refine ⟨h.nodup, h.lt_tokens, fun c hc => ?_, fun _ _ _ => .inr rfl⟩
  have hlt : c ∈ q.taken.map Prod.snd → c < q.tokens := by
    intro hc
    obtain ⟨p, hp, rfl⟩ := mem_map.mp hc
    exact h.lt_tokens p hp
  rw [ScanQueue.shutdown, settle_cancelled, mem_append, mem_append] at hc
  rcases hc with (hc | hc) | hc
  · exact h.cancelled_lt c hc
  · exact hlt (mem_taken_of_serving hc)
  · cases hr : q.running with
    | none =>
      rw [hr] at hc
      exact absurd hc not_mem_nil
    | some r =>
      rw [hr] at hc
      rw [List.mem_singleton.mp hc]
      exact h.lt_tokens _ (mem_taken_of_running hr)

end ScanQueue

namespace World

variable [DecidableEq Search] {w w' : World Search}

/-- **Every step keeps the tokens.** -/
theorem cancels_step {e : ScanEvent Search} (h : w.queue.Cancels) (hm : w.Manned)
    (hk : w.queue.LaneKeyed) (hs : Stepped w e w') : w'.queue.Cancels := by
  cases hs with
  | refused | submitted | answered | lost | restarted | unanswered | checked | passed
  | scanEnded => exact ⟨h.nodup, h.lt_tokens, h.cancelled_lt, h.unwanted⟩
  | withdrawn => exact h.withdraw _
  | stoodDown hi =>
    refine h.drop [] ?_ rfl rfl fun c hc => .inl hc
    rw [ScanQueue.taken, hm.running_of_idle hi]
    exact List.Perm.refl _
  | popped hi =>
    exact h.take _ (ScanQueue.perm_taken_start (hm.running_of_idle hi)) rfl rfl rfl
  | finished => exact h.finish _
  | died => exact h.releaseWorker _
  | served => exact h.served hk _ _
  | handedBack => exact h.laneDone _ _
  | shutdown => exact h.shutdown

end World

end Ferrofin.Scan
