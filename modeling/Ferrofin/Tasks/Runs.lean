import Ferrofin.Tasks.Orderly

/-!
# One run at a time

While nobody stops a run, a task has one run: a claim finds the task idle, and the run that ends
makes it idle.  A run that was stopped and yet comes to its end records a result for the task it
finds by its key, whichever run has it by then (`stale_finish`).  Where no run does
(`Manager.orderly`), a task has one run at a time, is running while it has it, and every run
records one result, in the order of the claims (`one_at_a_time`).
-/

namespace Ferrofin.Tasks

open Lib

theorem TaskResult.upTo_refl (result : TaskResult) : result.upTo result = true := by
  simp only [upTo, Option.all_eq_true, Option.any_eq_true, decide_eq_true_eq]
  exact fun run hrun => ⟨run, hrun, le_rfl⟩

theorem TaskResult.upTo_of_le {old new : TaskResult} {run : Nat} (hnew : new.run = some run)
    (hle : ∀ run', old.run = some run' → run' ≤ run) : old.upTo new = true := by
  simp only [upTo, Option.all_eq_true, Option.any_eq_true, decide_eq_true_eq]
  exact fun run' hold => ⟨run, hnew, hle run' hold⟩

def Follows (tasks tasks' : KeyedMap String Registration) : Prop :=
  ∀ key reg reg' old new, tasks.lookup key = some reg → tasks'.lookup key = some reg' →
    reg.lastResult = some old → reg'.lastResult = some new → old.upTo new = true

def StoreFollows (stored stored' : KeyedMap String TaskResult) : Prop :=
  ∀ key old new, stored.lookup key = some old → stored'.lookup key = some new →
    old.upTo new = true

theorem Follows.refl (tasks : KeyedMap String Registration) : Follows tasks tasks := by
  intro key reg reg' old new hreg hreg' hold hnew
  cases hreg.symm.trans hreg'
  cases hold.symm.trans hnew
  exact old.upTo_refl

theorem Follows.insert {tasks : KeyedMap String Registration} {key : String}
    {reg : Registration} (h : ∀ old result new, tasks.lookup key = some old →
      old.lastResult = some result → reg.lastResult = some new → result.upTo new = true) :
    Follows tasks (tasks.insert key reg) := by
  intro key' old reg' result new hold hreg' hresult hnew
  rw [KeyedMap.lookup_insert_eq] at hreg'
  split at hreg'
  · next heq =>
    cases hreg'
    exact h old result new (heq ▸ hold) hresult hnew
  · exact Follows.refl tasks key' old reg' result new hold hreg' hresult hnew

theorem StoreFollows.refl (stored : KeyedMap String TaskResult) : StoreFollows stored stored := by
  intro key old new hold hnew
  cases hold.symm.trans hnew
  exact old.upTo_refl

theorem StoreFollows.insert {stored : KeyedMap String TaskResult} {key : String}
    {result : TaskResult} (h : ∀ old, stored.lookup key = some old → old.upTo result = true) :
    StoreFollows stored (stored.insert key result) := by
  intro key' old new hold hnew
  rw [KeyedMap.lookup_insert_eq] at hnew
  split at hnew
  · next heq =>
    cases hnew
    exact h old (heq ▸ hold)
  · exact StoreFollows.refl stored key' old new hold hnew

namespace Manager

variable {m m' : Manager} {i : Nat} {w w' : Work}

theorem InOrder.follows_insert (h : m.InOrder) {key : String} {reg reg' : Registration}
    {run : Nat} {result : TaskResult} (hreg : m.tasks.lookup key = some reg)
    (hrun : reg.run = some run) (hresult : result.run = some run)
    (hreg' : reg'.lastResult = some result) : Follows m.tasks (m.tasks.insert key reg') := by
  refine Follows.insert fun old last new hold hlast hnew => ?_
  cases hreg.symm.trans hold
  cases hreg'.symm.trans hnew
  refine TaskResult.upTo_of_le hresult fun run' hrun' => ?_
  obtain ⟨reg'', last', hreg'', hlast', hle⟩ := h.last key reg last run' hreg hlast hrun'
  cases hreg.symm.trans hreg''
  cases hrun.symm.trans hlast'
  exact hle

theorem follows_same {key : String} {reg reg' : Registration}
    (hreg : m.tasks.lookup key = some reg) (hsame : reg'.lastResult = reg.lastResult) :
    Follows m.tasks (m.tasks.insert key reg') := by
  refine Follows.insert fun old last new hold hlast hnew => ?_
  cases hreg.symm.trans hold
  cases hlast.symm.trans (hsame.symm.trans hnew)
  exact last.upTo_refl

theorem InOrder.follows_next {answer : Answer} (h : m.InOrder)
    (ht : m.threads.lookup i = some w) (hset : m.orderly (.step i answer) = true)
    (hn : w.next m answer = some (m', w')) :
    Follows m.tasks m'.tasks ∧ StoreFollows m.stored m'.stored := by
  have hsame : Follows m.tasks m.tasks ∧ StoreFollows m.stored m.stored := ⟨.refl _, .refl _⟩
  simp only [orderly, ht] at hset
  cases w with
  | locking key =>
    cases answer <;> simp only [Work.next, reduceCtorEq] at hn
    split at hn <;> cases hn
    exact hsame
  | asking key =>
    cases answer <;> simp only [Work.next, reduceCtorEq] at hn
    split at hn
    · split at hn <;> cases hn <;> exact hsame
    · cases hn
      exact hsame
  | claiming key after =>
    cases answer <;> simp only [Work.next, reduceCtorEq] at hn
    split at hn
    · next reg hreg =>
      split at hn <;> cases hn
      · exact hsame
      · exact ⟨follows_same hreg rfl, .refl _⟩
    · cases hn
      exact hsame
  | spawning key run after =>
    cases answer <;> simp only [Work.next, reduceCtorEq] at hn
    split at hn <;> cases hn
    exact hsame
  | storing key run after =>
    cases answer <;> cases hn
    unfold storeAbort
    split
    · next reg hreg =>
      split
      · exact ⟨follows_same hreg rfl, .refl _⟩
      · exact hsame
    · exact hsame
  | executing key run =>
    cases answer <;> simp only [Work.next, reduceCtorEq] at hn
    · cases hn
      exact hsame
    · split at hn <;> cases hn
      exact hsame
  | persisting key run status =>
    cases answer <;> cases hn
    obtain ⟨reg, last, hreg, hlast, hle⟩ := h.upTo ht rfl rfl
    obtain ⟨r, -, -, ⟨-, reg', hreg', -, hrun⟩ | ⟨-, hb⟩⟩ := h.flight i _ key run ht rfl
    · cases hreg.symm.trans hreg'
      refine ⟨.refl _, StoreFollows.insert fun old hold => ?_⟩
      refine TaskResult.upTo_of_le rfl fun run' hrun' => ?_
      obtain ⟨reg'', last', hreg'', hlast', hle'⟩ := h.stores key old run' hold hrun'
      cases hreg.symm.trans hreg''
      cases hrun.symm.trans hlast'
      exact hle'
    · cases hb
  | recording key run status =>
    cases answer <;> cases hn
    obtain ⟨r, -, -, ⟨-, reg, hreg, -, hrun⟩ | ⟨-, hb⟩⟩ := h.flight i _ key run ht rfl
    · simp only [recordResult, hreg]
      exact ⟨h.follows_insert hreg hrun rfl rfl, .refl _⟩
    · cases hb
  | stopping key result =>
    cases answer <;> cases hn
    exact ⟨.refl _, StoreFollows.insert fun old hold => by simpa [hold] using hset⟩
  | waiting =>
    cases answer <;> simp only [Work.next, reduceCtorEq] at hn
    split at hn <;> cases hn
    exact hsame
  | draining requests =>
    cases answer <;> cases requests <;> cases hn <;> exact hsame
  | _ => cases answer <;> cases hn <;> exact hsame

theorem InOrder.follows {event : Event} (h : m.InOrder) (hset : m.orderly event = true)
    (hs : m.step event = some m') :
    Follows m.tasks m'.tasks ∧ StoreFollows m.stored m'.stored := by
  have hsame : Follows m.tasks m.tasks ∧ StoreFollows m.stored m.stored := ⟨.refl _, .refl _⟩
  have hstart : ∀ {i w}, m.start i w = some m' →
      Follows m.tasks m'.tasks ∧ StoreFollows m.stored m'.stored := by
    intro i w hs
    unfold start at hs
    split at hs <;> cases hs
    exact hsame
  cases event with
  | register key =>
    simp only [Manager.step] at hs
    split at hs
    · cases hs
    · next hnew =>
      cases hs
      refine ⟨Follows.insert fun old result new hold _ _ => ?_, .refl _⟩
      exact absurd (Option.isSome_of_eq_some hold) hnew
  | runNow i key => exact hstart hs
  | queue i key => exact hstart hs
  | queueScheduled i key => exact hstart hs
  | stop i key status =>
    simp only [Manager.step] at hs
    split at hs
    · cases hs
    split at hs
    · next reg hreg =>
      split at hs <;> cases hs
      · next hstate =>
        obtain ⟨run, -, -, -, hrun, -⟩ := h.running key reg hreg hstate
        exact ⟨h.follows_insert hreg hrun hrun rfl, .refl _⟩
      · exact hsame
    · cases hs
      exact hsame
  | step i answer =>
    obtain ⟨w, ht, hs⟩ := Option.bind_eq_some_iff.mp hs
    obtain ⟨⟨m'', w'⟩, hn, rfl⟩ := Option.map_eq_some_iff.mp hs
    have hfollows := h.follows_next ht hset hn
    exact hfollows

def InFlight (m : Manager) (key : String) : Prop :=
  ∃ i w run r, m.threads.lookup i = some w ∧ w.liveRun = some (key, run) ∧
    m.runs.lookup run = some r ∧ r.results = 0

theorem InOrder.running_iff (h : m.InOrder) {key : String} {reg : Registration}
    (hreg : m.tasks.lookup key = some reg) : reg.state = .running ↔ m.InFlight key := by
  constructor
  · intro hstate
    obtain ⟨run, r, i, w, -, hr, hzero, hi, hl⟩ := h.running key reg hreg hstate
    exact ⟨i, w, run, r, hi, hl, hr, hzero⟩
  · rintro ⟨i, w, run, r, hi, hl, hr, hzero⟩
    obtain ⟨r', hr', -, ⟨-, reg', hreg', hstate, -⟩ | ⟨hone, -⟩⟩ := h.flight i w key run hi hl
    · cases hreg.symm.trans hreg'
      exact hstate
    · cases hr.symm.trans hr'
      cases hzero.symm.trans hone

end Manager

/-- **Where a stop finds the handle of the run whose body executes and the abort reaches it before
its end and the next claim, no two bodies of one task execute at a time, a task is running exactly
while a run of it is in flight, no result takes the place of a later run's, and every run that is
not in flight has one result.** -/
theorem one_at_a_time {stored : KeyedMap String TaskResult} {m : Manager}
    (hstored : ∀ key result, stored.lookup key = some result → result.run = none)
    (hp : taskManager.Path (fun m event => m.orderly event = true) { stored := stored } m) :
    (∀ i j key run run', m.threads.lookup i = some (.executing key run) →
      m.threads.lookup j = some (.executing key run') → i = j) ∧
    (∀ key reg, m.tasks.lookup key = some reg → (reg.state = .running ↔ m.InFlight key)) ∧
    (∀ event m', m.orderly event = true → m.step event = some m' →
      Follows m.tasks m'.tasks ∧ StoreFollows m.stored m'.stored) ∧
    ∀ run r, m.runs.lookup run = some r → r.results = 1 ∨ (r.results = 0 ∧
      ∃ i w, m.threads.lookup i = some w ∧ w.liveRun = some (r.key, run)) := by
  have h : m.InOrder := Machine.Path.invariant (I := Manager.InOrder) hp (Orderly.empty hstored)
    fun _ _ _ hm hset hs => hm.step hset hs
  refine ⟨fun i j key run run' hi hj => h.single i j _ _ hi hj key rfl rfl,
    fun key reg hreg => h.running_iff hreg, fun event m' hset hs => h.follows hset hs,
    fun run r hr => (h.once run r hr).imp_right fun ⟨hzero, _, hlive⟩ => ⟨hzero, hlive⟩⟩

def queued (i j : Nat) (key : String) : List Event :=
  [.queue i key, .step i .nothing, .step i (.spawned j), .step i .nothing]

def finished (j : Nat) : List Event :=
  [.step j (.ended .completed), .step j .nothing, .step j .nothing]

/-- A run is stopped, and another one completes. -/
theorem one_at_a_time_stopped : ∃ m, taskManager.Path (fun m event => m.orderly event = true)
      { stored := ∅ } m ∧ m.runCount = 2 ∧
    ∀ run r, m.runs.lookup run = some r → r.results = 1 ∨ (r.results = 0 ∧
      ∃ i w, m.threads.lookup i = some w ∧ w.liveRun = some (r.key, run)) := by
  obtain ⟨m, hm, hc⟩ : ∃ m, taskManager.runWhile (fun m event => m.orderly event = true)
      { stored := ∅ } (Event.register "Scan" :: queued 0 1 "Scan" ++
        [Event.stop 2 "Scan" .cancelled,
        .step 2 .nothing, .step 1 .dropped] ++ queued 3 4 "Scan" ++ finished 4) = some m ∧
      m.runCount = 2 := ⟨_, rfl, rfl⟩
  have hp := Machine.path_of_runWhile _ hm
  have hstored : ∀ key result, (∅ : KeyedMap String TaskResult).lookup key = some result →
      result.run = none := by
    intro key result hs
    cases hs
  have hall := one_at_a_time hstored hp
  exact ⟨m, hp, hc, hall.2.2.2⟩

/-- **A stopped run may finish a later one**: a body is at its end when the task is cancelled, and
the result that it records makes the task idle that was claimed anew. -/
theorem stale_finish : ¬ ∀ m, taskManager.Reachable m → ∀ key reg,
    m.tasks.lookup key = some reg → (reg.state = .running ↔ m.InFlight key) := by
  intro hall
  obtain ⟨m, hm, hreg, hthread, hrun⟩ : ∃ m, taskManager.run taskManager.init
      (Event.register "Scan" :: queued 0 1 "Scan" ++ [Event.step 1 (.ended .completed),
        .stop 2 "Scan" .cancelled] ++ queued 3 4 "Scan" ++
        [Event.step 1 .nothing, .step 1 .nothing]) = some m ∧
      (m.tasks.lookup "Scan").map Registration.state = some .idle ∧
      (m.threads.lookup 4).bind Work.liveRun = some ("Scan", 1) ∧
      (m.runs.lookup 1).map Run.results = some 0 :=
      Lib.exists_of_decide (by decide +kernel)
  obtain ⟨reg, hlookup, hidle⟩ := Option.map_eq_some_iff.mp hreg
  obtain ⟨w, hw, hl⟩ := Option.bind_eq_some_iff.mp hthread
  obtain ⟨r, hr, hzero⟩ := Option.map_eq_some_iff.mp hrun
  have hrunning := (hall m (Machine.reachable_of_run _ hm) "Scan" reg hlookup).mpr
    ⟨4, w, 1, r, hw, hl, hr, hzero⟩
  cases hidle.symm.trans hrunning

end Ferrofin.Tasks
