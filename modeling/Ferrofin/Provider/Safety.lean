import Ferrofin.Provider.Pacing

/-!
# What a rate limiter is safe for

How often each caller's request goes out (`World.Counted`), and the result
(`rate_limit_safe`).  A request that is no GET goes out at most once: while the circuit
is open it is refused (`post_refused`).
-/

namespace Ferrofin.Provider

open Lib

namespace World

variable {cal : Calendar} {maxWait : Nat} {w w' : World}

/-! ### How often a request is sent -/

/-- Where a caller stands after its request was sent `n` times. -/
def PhaseOk (gate : Gate) (i n : Nat) (c : Caller) : Prop :=
  match c.phase with
  | .locking attempt => n + 1 = attempt ∧ attempt ≤ c.attempts
  | .holding attempt => n ≤ attempt ∧ attempt ≤ c.attempts ∧ 1 ≤ attempt ∧
      (gate = .sleeping i → n + 1 = attempt) ∧ (gate = .flying i → n = attempt)
  | .finished result => n ≤ c.attempts ∧
      (result = .http ∨ (∃ status, result = .response status) → 1 ≤ n)

/-- The invariant: every caller's request was sent as often as its attempt says. -/
structure Counted (w : World) : Prop where
  fresh : ∀ i, w.callers.lookup i = none → w.sends i = 0
  interval : ∀ i c, w.callers.lookup i = some c → c.interval ≤ maxDelay
  phases : ∀ i c, w.callers.lookup i = some c → PhaseOk w.gate i (w.sends i) c

theorem Counted.init : Counted {} where
  fresh i _ := rfl
  interval i c hc := by cases hc
  phases i c hc := by cases hc

theorem lookup_goOn {i j : Nat} {c c' : Caller} {phase : CallerPhase}
    (h : (w.goOn i c phase).callers.lookup j = some c') :
    (j = i ∧ c' = { c with phase := phase }) ∨ j ≠ i ∧ w.callers.lookup j = some c' := by
  rw [goOn, KeyedMap.lookup_insert_eq] at h
  split at h
  · next heq => exact .inl ⟨heq, (Option.some.inj h).symm⟩
  · next hne => exact .inr ⟨hne, h⟩

theorem PhaseOk.congr {gate gate' : Gate} {i n : Nat} {c : Caller} (h : PhaseOk gate i n c)
    (hsleeping : gate' = .sleeping i → gate = .sleeping i)
    (hflying : gate' = .flying i → gate = .flying i) : PhaseOk gate' i n c := by
  rw [PhaseOk] at h ⊢
  split at h
  · exact h
  · exact ⟨h.1, h.2.1, h.2.2.1, fun hg => h.2.2.2.1 (hsleeping hg),
      fun hg => h.2.2.2.2 (hflying hg)⟩
  · exact h

theorem Counted.goOn (h : w.Counted) {i : Nat} {c : Caller} {phase : CallerPhase}
    (hinterval : c.interval ≤ maxDelay)
    (hcallers : w'.callers = (w.goOn i c phase).callers)
    (hothers : ∀ j, j ≠ i → w'.sends j = w.sends j)
    (hgate : ∀ j, j ≠ i → (w'.gate = .sleeping j → w.gate = .sleeping j) ∧
      (w'.gate = .flying j → w.gate = .flying j))
    (hself : PhaseOk w'.gate i (w'.sends i) { c with phase := phase }) : w'.Counted := by
  refine ⟨fun j hj => ?_, fun j c' hj => ?_, fun j c' hj => ?_⟩
  · rw [hcallers, World.goOn, KeyedMap.lookup_insert_eq] at hj
    split at hj
    · cases hj
    · next hne =>
      rw [hothers j hne]
      exact h.fresh j hj
  · rw [hcallers] at hj
    rcases lookup_goOn hj with ⟨-, rfl⟩ | ⟨-, hj⟩
    · exact hinterval
    · exact h.interval j c' hj
  · rw [hcallers] at hj
    rcases lookup_goOn hj with ⟨rfl, rfl⟩ | ⟨hne, hj⟩
    · exact hself
    · rw [hothers j hne]
      exact (h.phases j c' hj).congr (hgate j hne).1 (hgate j hne).2

theorem Counted.letGo (h : w.Counted) {i : Nat} {c : Caller} {phase : CallerPhase}
    (hc : w.callers.lookup i = some c) (hcallers : w'.callers = (w.goOn i c phase).callers)
    (hsent : w'.dispatched = w.dispatched) (hgate : w'.gate = .free)
    (hself : PhaseOk .free i (w.sends i) { c with phase := phase }) : w'.Counted := by
  have hsends : ∀ j, w'.sends j = w.sends j := fun j => congrArg (List.count j) hsent
  refine h.goOn (h.interval i c hc) hcallers (fun j _ => hsends j) (fun j _ => ?_) ?_
  · rw [hgate]
    exact ⟨(fun hfree => by cases hfree), (fun hfree => by cases hfree)⟩
  · rw [hgate, hsends]
    exact hself

theorem PhaseOk.over {gate : Gate} {i n attempt : Nat} {c : Caller} {phase : CallerPhase}
    {result : Result} (h : PhaseOk gate i n c) (hphase : c.phase = .holding attempt)
    (hgate : gate = .flying i) (hnext : phase = .finished result ∨
      attempt ≠ c.attempts ∧ phase = .locking (attempt + 1)) :
    PhaseOk .free i n { c with phase := phase } := by
  rw [PhaseOk, hphase] at h
  obtain ⟨hle, hattempts, hone, -, hflown⟩ := h
  have hsent : n = attempt := hflown hgate
  rcases hnext with rfl | ⟨hne, rfl⟩
  · exact ⟨Nat.le_trans hle hattempts, fun _ => by omega⟩
  · exact ⟨by omega, Nat.lt_of_le_of_ne hattempts hne⟩

/-- **Every step keeps the count of every caller.** -/
theorem Counted.step {e : Event} (h : w.Counted) (hs : w.step cal maxWait e = some w') :
    w'.Counted := by
  cases e with
  | elapse d =>
    cases hs
    exact ⟨h.fresh, h.interval, h.phases⟩
  | call i isGet interval =>
    rw [World.step, call] at hs
    split at hs
    · cases hs
    · next hnone =>
      cases hs
      have hzero : w.sends i = 0 := h.fresh i (by simpa using hnone)
      refine h.goOn (Nat.min_le_right _ _) rfl (fun _ _ => rfl) (fun _ _ => ⟨id, id⟩) ?_
      refine ⟨?_, ?_⟩
      · show w.sends i + 1 = 1
        rw [hzero]
      · rw [Caller.attempts]
        split <;> decide
  | lock i =>
    obtain ⟨c, attempt, hc, hfree, hphase, hcases⟩ := lock_cases hs
    have hok := h.phases i c hc
    rw [PhaseOk, hphase] at hok
    obtain ⟨hsent, hattempts⟩ := hok
    rcases hcases with rfl | rfl
    · refine h.goOn (h.interval i c hc) rfl (fun _ _ => rfl) (fun j hne => ⟨?_, ?_⟩) ?_
      · intro hgate
        cases hgate
        exact absurd rfl hne
      · intro hgate
        cases hgate
      · refine ⟨?_, hattempts, ?_, fun _ => hsent, fun hgate => by cases hgate⟩
        · show w.sends i ≤ attempt
          omega
        · omega
    · refine h.goOn (h.interval i c hc) rfl (fun _ _ => rfl) (fun _ _ => ⟨id, id⟩) ⟨?_, ?_⟩
      · show w.sends i ≤ c.attempts
        omega
      · rintro (hres | ⟨status, hres⟩) <;> cases hres
  | dispatch i clones =>
    obtain ⟨c, attempt, hc, hgate, hphase, -, hcases⟩ := dispatch_cases hs
    have hok := h.phases i c hc
    rw [PhaseOk, hphase] at hok
    obtain ⟨hle, hattempts, hone, hsent, -⟩ := hok
    rcases hcases with rfl | rfl
    · have hself : (i :: w.dispatched).count i = attempt := by
        rw [List.count_cons_self]
        exact hsent hgate
      refine h.goOn (h.interval i c hc) rfl (fun j hne => ?_) (fun j hne => ⟨?_, ?_⟩) ?_
      · exact List.count_cons_of_ne (Ne.symm hne)
      · intro hgate
        cases hgate
      · intro hgate
        cases hgate
        exact absurd rfl hne
      · refine ⟨Nat.le_of_eq hself, hattempts, hone, fun hgate => ?_, fun _ => hself⟩
        cases hgate
    · refine h.letGo hc rfl rfl rfl ⟨Nat.le_trans hle hattempts, ?_⟩
      rintro (hres | ⟨status, hres⟩) <;> cases hres
  | respond i r wall jitter =>
    obtain ⟨c, attempt, phase, hc, hgate, hphase, hnext, rfl⟩ := respond_cases hs
    exact h.letGo hc rfl rfl rfl ((h.phases i c hc).over hphase hgate hnext)
  | fail i failure jitter =>
    obtain ⟨c, attempt, phase, rate, hc, hgate, hphase, hnext, -, rfl⟩ := fail_cases hs
    exact h.letGo hc rfl rfl rfl ((h.phases i c hc).over hphase hgate hnext)
  | cancel i =>
    obtain ⟨c, hc, hphase, gate, hgate, rfl⟩ := cancel_cases hs
    have hsent : w.sends i ≤ c.attempts := by
      have hok := h.phases i c hc
      rw [PhaseOk] at hok
      split at hok
      · omega
      · omega
      · next result heq => exact absurd heq (hphase result)
    refine h.goOn (h.interval i c hc) rfl (fun _ _ => rfl) (fun j _ => ?_) ⟨hsent, ?_⟩
    · rcases hgate with rfl | rfl
      · constructor
        · intro hgate
          cases hgate
        · intro hgate
          cases hgate
      · exact ⟨id, id⟩
    · rintro (hres | ⟨status, hres⟩) <;> cases hres

theorem counted_of_reachable (h : (limiter cal maxWait).Reachable w) : w.Counted :=
  h.invariant .init fun _ _ _ hcounted _ hs => hcounted.step hs

theorem paced_of_reachable (h : (limiter cal maxWait).Reachable w) : w.Paced := by
  have hinit : Paced {} ∧ Counted {} := ⟨.init, .init⟩
  have hboth : w.Paced ∧ w.Counted :=
    Machine.Reaches.invariant (I := fun w => w.Paced ∧ w.Counted) h hinit fun _ _ _ hw _ hs =>
      ⟨(hw.1.step hw.2.interval hs).1, hw.2.step hs⟩
  exact hboth.1

end World

/-! ### The result -/

/-- **The rate limiter is safe**: a request goes out when every deadline there was is past;
deadlines move forward only; of a reported quota no more is spent before its reset than
remained; a GET goes out at most four times and any other request at most once, and once
when it ends with a response or a transport error. -/
theorem rate_limit_safe {cal : Calendar} {maxWait : Nat} {w : World}
    (h : (limiter cal maxWait).Reachable w) :
    (∀ i clones w', w.step cal maxWait (.dispatch i clones) = some w' →
      ∀ d ∈ w.deadlines, d ≤ w.now) ∧
    (∀ e w', w.step cal maxWait e = some w' → w.rate.Forward w.now w'.rate) ∧
    (∀ rep, w.report = some rep → rep.spent ≤ rep.remaining) ∧
    (∀ i c, w.callers.lookup i = some c → w.sends i ≤ if c.isGet then 4 else 1) ∧
    (∀ i c, w.callers.lookup i = some c → c.isGet = false →
      c.phase = .finished .http ∨ (∃ status, c.phase = .finished (.response status)) →
        w.sends i = 1) := by
  have hpaced := World.paced_of_reachable h
  have hcounted := World.counted_of_reachable h
  have hattempts : ∀ i c, w.callers.lookup i = some c →
      w.sends i ≤ c.attempts := by
    intro i c hc
    have hok := hcounted.phases i c hc
    rw [World.PhaseOk] at hok
    split at hok
    · omega
    · omega
    · exact hok.1
  refine ⟨fun i clones w' hs d hd => ?_, fun e w' hs => ?_, fun rep hrep => ?_, hattempts,
    fun i c hc hget hfinished => ?_⟩
  · obtain ⟨-, -, -, -, -, hnext, -⟩ := World.dispatch_cases hs
    obtain ⟨n, hn, hle⟩ := hpaced.deadlines d hd
    exact Nat.le_trans hle (hnext n hn)
  · exact (hpaced.step hcounted.interval hs).2
  · exact (hpaced.report rep hrep).spent
  · have hle := hattempts i c hc
    rw [Caller.attempts, hget] at hle
    have hok := hcounted.phases i c hc
    rw [World.PhaseOk] at hok
    rcases hfinished with hphase | ⟨status, hphase⟩
    · rw [hphase] at hok
      exact Nat.le_antisymm hle (hok.2 (.inl rfl))
    · rw [hphase] at hok
      exact Nat.le_antisymm hle (hok.2 (.inr ⟨status, rfl⟩))

private def noDates : Calendar where
  parseRfc2822 _ := none
  fromTimestamp _ := none

/-- A response that reports two more requests for the next ten seconds. -/
private def twoRemain : Response where
  status := 200
  headers
    | "x-ratelimit-remaining" => some "2"
    | "x-ratelimit-reset-in" => some "10"
    | _ => none

/-- Of two reported requests one goes out, when half the time to the reset is over. -/
theorem rate_limit_safe_quota : ∃ (w : World) (rep : Report), w.now = 5500000000 ∧
    w.report = some rep ∧ rep.remaining = 2 ∧ rep.reset = 10000000000 ∧ rep.spent = 1 ∧
      rep.spent ≤ rep.remaining ∧ w.sends 1 ≤ 4 := by
  obtain ⟨w, hw⟩ : ∃ w, (limiter noDates (60 * second)).run (limiter noDates (60 * second)).init
      [.call 0 true 0, .lock 0, .dispatch 0 true, .respond 0 twoRemain 0 0, .call 1 true 0,
        .lock 1, .elapse 5500000000, .dispatch 1 true] = some w :=
      Option.isSome_iff_exists.mp (by decide +kernel)
  have hr : (limiter noDates (60 * second)).Reachable w := Machine.reachable_of_run _ hw
  obtain ⟨-, -, hreport, hsends, -⟩ := rate_limit_safe hr
  refine ⟨w, ?_⟩
  obtain rfl := Option.some.inj hw
  exact ⟨_, rfl, rfl, rfl, rfl, rfl, hreport _ rfl, hsends 1 _ rfl⟩

/-- After a failed connection the circuit is open: another caller's POST ends without ever
being sent. -/
theorem post_refused : ∃ w : World, (limiter noDates (60 * second)).Reachable w ∧
    ∃ c, w.callers.lookup 1 = some c ∧ c.isGet = false ∧ c.phase = .finished .cooldown ∧
      w.sends 1 ≠ 1 := by
  obtain ⟨w, hw⟩ : ∃ w, (limiter noDates (60 * second)).run (limiter noDates (60 * second)).init
      [.call 0 true 0, .lock 0, .dispatch 0 true, .fail 0 .connect 0, .call 1 false 0,
        .lock 1] = some w :=
      Option.isSome_iff_exists.mp (by decide +kernel)
  refine ⟨w, Machine.reachable_of_run _ hw, ?_⟩
  obtain rfl := Option.some.inj hw
  exact ⟨_, rfl, rfl, rfl, by decide⟩

end Ferrofin.Provider
