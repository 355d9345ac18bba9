import Ferrofin.Tasks.Manager

/-!
# Runs in order

`stop_run` makes the task idle while the body still executes, and what it aborts is the handle that
is stored: a run in the foreground and one that is just being spawned go on, and a body at its end
is not stopped any more.  Where a stop finds the handle of a run whose body executes, the abort
reaches the body before its end and before the next claim, and the result of a stop is stored
before that of a later run (`Manager.orderly`), a task has one run at a time, which is in flight
while no result was recorded for it (`Orderly`): every step of a thread keeps this.
-/

namespace Ferrofin.Tasks

open Lib
open Lib.KeyedMap (lookup_insert_eq lookup_mapValues)

/-- The run that the thread is to execute, executes or ends, with its task. -/
def Work.liveRun : Work → Option (String × Nat)
  | .spawning key run _ | .executing key run => some (key, run)
  | .persisting key run _ | .recording key run _ => some (key, run)
  | _ => none

def Work.live (work : Work) : Option String := work.liveRun.map Prod.fst

def Work.body : Work → Option Nat
  | .executing _ run => some run
  | _ => none

def TaskResult.upTo (old new : TaskResult) : Bool :=
  old.run.all fun run => new.run.any fun run' => run ≤ run'

/-- What keeps runs apart: a stop finds the handle of the run that the task has, whose body
executes; no stopped run comes to its end, or executes when the task is claimed; the result of a
stop is stored before that of a later run. -/
def Manager.orderly (m : Manager) : Event → Bool
  | .stop _ key _ => (m.tasks.lookup key).all fun reg =>
    reg.state == .idle || (reg.abort.isSome && reg.abort == reg.run &&
      (KeyedMap.values m.threads).any fun work => work.body == reg.run)
  | .step i answer =>
    match m.threads.lookup i, answer with
    | some (.claiming key _), _ =>
      !m.isIdle key || (KeyedMap.values m.threads).all fun work => work.live != some key
    | some (.executing _ run), .ended _ => (m.runs.lookup run).all fun r => r.results == 0
    | some (.stopping key result), _ => (m.stored.lookup key).all fun old => old.upTo result
    | _, _ => true
  | _ => true

def Carries (tasks : KeyedMap String Registration) (key : String) (run : Nat) : Prop :=
  ∃ reg, tasks.lookup key = some reg ∧ reg.state = .running ∧ reg.run = some run

/-- The task has been claimed for this run or a later one. -/
def UpTo (tasks : KeyedMap String Registration) (key : String) (run : Nat) : Prop :=
  ∃ reg last, tasks.lookup key = some reg ∧ reg.run = some last ∧ run ≤ last

structure Orderly (tasks : KeyedMap String Registration) (stored : KeyedMap String TaskResult)
    (threads : KeyedMap Nat Work) (runs : KeyedMap Nat Run) (count : Nat) : Prop where
  single : Exclusive Work.live threads
  flight : ∀ i w key run, threads.lookup i = some w → w.liveRun = some (key, run) →
    ∃ r, runs.lookup run = some r ∧ r.key = key ∧
      ((r.results = 0 ∧ Carries tasks key run) ∨ (r.results = 1 ∧ w.body = some run))
  running : ∀ key reg, tasks.lookup key = some reg → reg.state = .running →
    ∃ run r i w, reg.run = some run ∧ runs.lookup run = some r ∧ r.results = 0 ∧
      threads.lookup i = some w ∧ w.liveRun = some (key, run)
  once : ∀ run r, runs.lookup run = some r → r.results = 1 ∨
    (r.results = 0 ∧ r.aborted = false ∧
      ∃ i w, threads.lookup i = some w ∧ w.liveRun = some (r.key, run))
  claimed : ∀ run r, runs.lookup run = some r → run < count
  latest : ∀ key reg run, tasks.lookup key = some reg → reg.run = some run → run < count
  last : ∀ key reg result run, tasks.lookup key = some reg → reg.lastResult = some result →
    result.run = some run → UpTo tasks key run
  stores : ∀ key result run, stored.lookup key = some result → result.run = some run →
    UpTo tasks key run
  stops : ∀ i key result run, threads.lookup i = some (.stopping key result) →
    result.run = some run → UpTo tasks key run

theorem UpTo.insert {tasks : KeyedMap String Registration} {key key' : String} {run : Nat}
    {reg' : Registration} (h : UpTo tasks key run)
    (hup : ∀ reg last, tasks.lookup key' = some reg → reg.run = some last →
      ∃ last', reg'.run = some last' ∧ last ≤ last') : UpTo (tasks.insert key' reg') key run := by
  obtain ⟨reg, last, hreg, hrun, hle⟩ := h
  rw [UpTo]
  simp only [lookup_insert_eq]
  split
  · next heq =>
    obtain ⟨last', hrun', hle'⟩ := hup reg last (heq ▸ hreg) hrun
    exact ⟨reg', last', rfl, hrun', Nat.le_trans hle hle'⟩
  · exact ⟨reg, last, hreg, hrun, hle⟩

theorem Carries.insert {tasks : KeyedMap String Registration} {key key' : String} {run : Nat}
    {reg' : Registration} (h : Carries tasks key run) (hne : key ≠ key') :
    Carries (tasks.insert key' reg') key run := by
  obtain ⟨reg, hreg, hs, hrun⟩ := h
  refine ⟨reg, ?_, hs, hrun⟩
  rw [lookup_insert_eq, if_neg hne]
  exact hreg

namespace Orderly

variable {tasks : KeyedMap String Registration} {stored : KeyedMap String TaskResult}
  {threads : KeyedMap Nat Work} {runs : KeyedMap Nat Run} {count : Nat}
  {i run : Nat} {w w' : Work} {key : String} {reg reg' : Registration} {r : Run}

theorem empty (hstored : ∀ key result, stored.lookup key = some result → result.run = none) :
    Orderly ∅ stored ∅ ∅ 0 := by
  have hthread : ∀ {i w}, (∅ : KeyedMap Nat Work).lookup i ≠ some w := by
    intro i w ht
    cases ht
  have htask : ∀ {key reg}, (∅ : KeyedMap String Registration).lookup key ≠ some reg := by
    intro key reg ht
    cases ht
  have hrun : ∀ {run r}, (∅ : KeyedMap Nat Run).lookup run ≠ some r := by
    intro run r hr
    cases hr
  refine ⟨.empty, fun _ _ _ _ ht => absurd ht hthread, fun _ _ ht => absurd ht htask,
    fun _ _ hr => absurd hr hrun, fun _ _ hr => absurd hr hrun, fun _ _ _ ht => absurd ht htask,
    fun _ _ _ _ ht => absurd ht htask, fun key result run hs hr => ?_,
    fun _ _ _ _ ht => absurd ht hthread⟩
  cases (hstored key result hs).symm.trans hr

theorem rethread (h : Orderly tasks stored threads runs count) {threads' : KeyedMap Nat Work}
    (hsingle : Exclusive Work.live threads')
    (hto : ∀ j b key run, threads'.lookup j = some b → b.liveRun = some (key, run) →
      ∃ k c, threads.lookup k = some c ∧ c.liveRun = some (key, run) ∧ (c.body = some run →
        b.body = some run ∨ ∀ r, runs.lookup run = some r → r.results = 0))
    (hfrom : ∀ j b key run, threads.lookup j = some b → b.liveRun = some (key, run) →
      ∃ k c, threads'.lookup k = some c ∧ c.liveRun = some (key, run))
    (hstop : ∀ j key result run, threads'.lookup j = some (.stopping key result) →
      result.run = some run → UpTo tasks key run) :
    Orderly tasks stored threads' runs count := by
  refine ⟨hsingle, fun j b key run hb hl => ?_, fun key reg hreg hs => ?_, fun run r hr => ?_,
    h.claimed, h.latest, h.last, h.stores, hstop⟩
  · obtain ⟨k, c, hc, hl', hbody⟩ := hto j b key run hb hl
    obtain ⟨r, hr, hkey, hcase⟩ := h.flight k c key run hc hl'
    refine ⟨r, hr, hkey, hcase.imp_right fun ⟨hres, hb'⟩ => ⟨hres, ?_⟩⟩
    rcases hbody hb' with hb'' | hzero
    · exact hb''
    · cases hres.symm.trans (hzero r hr)
  · obtain ⟨run, r, j, w, hrun, hr, hzero, hj, hw⟩ := h.running key reg hreg hs
    obtain ⟨k, c, hc, hl⟩ := hfrom j w key run hj hw
    exact ⟨run, r, k, c, hrun, hr, hzero, hc, hl⟩
  · refine (h.once run r hr).imp_right fun ⟨hzero, hab, j, w, hj, hw⟩ => ⟨hzero, hab, ?_⟩
    exact hfrom j w r.key run hj hw

theorem move (h : Orderly tasks stored threads runs count)
    (hrun : (threads.lookup i).bind Work.liveRun = w'.liveRun)
    (hbody : ∀ w run, threads.lookup i = some w → w.body = some run →
      w'.body = some run ∨ ∀ r, runs.lookup run = some r → r.results = 0)
    (hstop : ∀ key result run, w' = .stopping key result → result.run = some run →
      UpTo tasks key run) :
    Orderly tasks stored (threads.insert i w') runs count := by
  have hold : ∀ {key run}, w'.liveRun = some (key, run) →
      ∃ w, threads.lookup i = some w ∧ w.liveRun = some (key, run) := fun hw =>
    Option.bind_eq_some_iff.mp (hrun.trans hw)
  refine h.rethread (h.single.insert fun key hk j b hb hkb => ?_) (fun j b key run hb hl => ?_)
    (fun j b key run hb hl => ?_) (fun j key result run hj hr => ?_)
  · obtain ⟨⟨key', run⟩, hw, rfl⟩ := Option.map_eq_some_iff.mp hk
    obtain ⟨w, ht, hl⟩ := hold hw
    exact h.single j i b w hb ht key' hkb (congrArg (Option.map Prod.fst) hl)
  · rw [lookup_insert_eq] at hb
    split at hb
    · cases hb
      obtain ⟨w, ht, hw⟩ := hold hl
      exact ⟨i, w, ht, hw, hbody w run ht⟩
    · exact ⟨j, b, hb, hl, .inl⟩
  · by_cases heq : j = i
    · subst heq
      rw [hb] at hrun
      refine ⟨j, w', ?_, hrun.symm.trans hl⟩
      rw [lookup_insert_eq, if_pos rfl]
    · refine ⟨j, b, ?_, hl⟩
      rw [lookup_insert_eq, if_neg heq]
      exact hb
  · rw [lookup_insert_eq] at hj
    split at hj
    · cases hj
      exact hstop key result run rfl hr
    · exact h.stops j key result run hj hr

theorem hand (h : Orderly tasks stored threads runs count) {j : Nat} {after : After}
    (ht : threads.lookup i = some (.spawning key run after)) (hj : threads.lookup j = none) :
    Orderly tasks stored
      ((threads.insert j (.executing key run)).insert i (.storing key run after)) runs count := by
  have hlookup : ∀ k, ((threads.insert j (.executing key run)).insert i
      (.storing key run after)).lookup k =
      if k = i then some (.storing key run after)
      else if k = j then some (.executing key run) else threads.lookup k := by
    intro k
    rw [lookup_insert_eq, lookup_insert_eq]
  have hne : j ≠ i := by
    rintro rfl
    cases hj.symm.trans ht
  -- where a run is in flight now, and where it was
  have hback : ∀ {k b key' run'}, ((threads.insert j (.executing key run)).insert i
      (.storing key run after)).lookup k = some b → b.liveRun = some (key', run') → k ≠ i ∧
      ∃ c, threads.lookup (if k = j then i else k) = some c ∧ c.liveRun = some (key', run') ∧
        (c.body = some run' → b.body = some run') := by
    intro k b key' run' hb hl
    rw [hlookup] at hb
    split at hb
    · cases hb
      cases hl
    · next hki =>
      refine ⟨hki, ?_⟩
      split at hb
      · next hkj =>
        cases hb
        rw [if_pos hkj]
        exact ⟨_, ht, hl, nofun⟩
      · next hkj =>
        rw [if_neg hkj]
        exact ⟨b, hb, hl, id⟩
  refine h.rethread (fun k k' b b' hb hb' key' hl hl' => ?_) (fun k b key' run' hb hl => ?_)
    (fun k b key' run' hb hl => ?_) (fun k key' result run' hk hr => ?_)
  · obtain ⟨⟨_, run₁⟩, hl₁, rfl⟩ := Option.map_eq_some_iff.mp hl
    obtain ⟨⟨key'', run₂⟩, hl₂, heq⟩ := Option.map_eq_some_iff.mp hl'
    cases heq
    obtain ⟨hki, c, hc, hcl, -⟩ := hback hb hl₁
    obtain ⟨hki', c', hc', hcl', -⟩ := hback hb' hl₂
    have hsame := h.single _ _ c c' hc hc' _ (congrArg (Option.map Prod.fst) hcl)
      (congrArg (Option.map Prod.fst) hcl')
    split at hsame <;> split at hsame
    · next hk hk' => exact hk.trans hk'.symm
    · exact absurd hsame.symm hki'
    · exact absurd hsame hki
    · exact hsame
  · obtain ⟨-, c, hc, hl', hbody⟩ := hback hb hl
    exact ⟨_, c, hc, hl', fun hb' => .inl (hbody hb')⟩
  · by_cases hki : k = i
    · subst hki
      cases hb.symm.trans ht
      refine ⟨j, .executing key run, ?_, hl⟩
      rw [hlookup, if_neg hne, if_pos rfl]
    · have hkj : k ≠ j := by
        rintro rfl
        cases hj.symm.trans hb
      refine ⟨k, b, ?_, hl⟩
      rw [hlookup, if_neg hki, if_neg hkj]
      exact hb
  · rw [hlookup] at hk
    split at hk
    · cases hk
    · split at hk
      · cases hk
      · exact h.stops k key' result run' hk hr

theorem drop (h : Orderly tasks stored threads runs count) (ht : threads.lookup i = some w)
    (hw : w.liveRun = some (key, run)) (hr : runs.lookup run = some r) (hres : r.results = 1) :
    Orderly tasks stored (threads.insert i .gone) runs count := by
  have hother : ∀ {j b key' run' r'}, threads.lookup j = some b →
      b.liveRun = some (key', run') → runs.lookup run' = some r' → r'.results = 0 → j ≠ i := by
    rintro j b key' run' r' hb hl hr' hzero rfl
    cases ht.symm.trans hb
    cases hw.symm.trans hl
    cases hr.symm.trans hr'
    cases hres.symm.trans hzero
  refine ⟨h.single.insert nofun, fun j b key' run' hb hl => ?_, fun key' reg hreg hs => ?_,
    fun run' r' hr' => ?_, h.claimed, h.latest, h.last, h.stores,
    fun j key' result run' hj hrun => ?_⟩
  · rw [lookup_insert_eq] at hb
    split at hb
    · cases hb
      cases hl
    · exact h.flight j b key' run' hb hl
  · obtain ⟨run', r', j, b, hrun, hr', hzero, hj, hl⟩ := h.running key' reg hreg hs
    refine ⟨run', r', j, b, hrun, hr', hzero, ?_, hl⟩
    rw [lookup_insert_eq, if_neg (hother hj hl hr' hzero)]
    exact hj
  · refine (h.once run' r' hr').imp_right fun ⟨hzero, hab, j, b, hj, hl⟩ =>
      ⟨hzero, hab, j, b, ?_, hl⟩
    rw [lookup_insert_eq, if_neg (hother hj hl hr' hzero)]
    exact hj
  · rw [lookup_insert_eq] at hj
    split at hj
    · cases hj
    · exact h.stops j key' result run' hj hrun

theorem persist (h : Orderly tasks stored threads runs count) {result : TaskResult}
    (hup : ∀ run, result.run = some run → UpTo tasks key run) :
    Orderly tasks (stored.insert key result) threads runs count := by
  refine ⟨h.single, h.flight, h.running, h.once, h.claimed, h.latest, h.last,
    fun key' result' run' hs hr => ?_, h.stops⟩
  rw [lookup_insert_eq] at hs
  split at hs
  · next heq =>
    cases hs
    exact heq ▸ hup run' hr
  · exact h.stores key' result' run' hs hr

theorem retask (h : Orderly tasks stored threads runs count) (hreg : tasks.lookup key = some reg)
    (hstate : reg'.state = reg.state) (hrun : reg'.run = reg.run)
    (hlast : reg'.lastResult = reg.lastResult) :
    Orderly (tasks.insert key reg') stored threads runs count := by
  have hold : ∀ {key' new}, (tasks.insert key reg').lookup key' = some new → ∃ old,
      tasks.lookup key' = some old ∧ new.state = old.state ∧ new.run = old.run ∧
        new.lastResult = old.lastResult := by
    intro key' new hnew
    rw [lookup_insert_eq] at hnew
    split at hnew
    · next heq =>
      cases hnew
      exact ⟨reg, heq ▸ hreg, hstate, hrun, hlast⟩
    · exact ⟨new, hnew, rfl, rfl, rfl⟩
  have hup : ∀ {key' run'}, UpTo tasks key' run' → UpTo (tasks.insert key reg') key' run' := by
    intro key' run' hup
    refine hup.insert fun old last hold' hlast' => ?_
    cases hreg.symm.trans hold'
    exact ⟨last, hrun.trans hlast', le_rfl⟩
  refine ⟨h.single, fun j b key' run' hb hl => ?_, fun key' new hnew hs => ?_, h.once, h.claimed,
    fun key' new run' hnew hr => ?_, fun key' new result run' hnew hl hr => ?_,
    fun key' result run' hs hr => hup (h.stores key' result run' hs hr),
    fun j key' result run' hj hr => hup (h.stops j key' result run' hj hr)⟩
  · obtain ⟨r, hr, hkey, hcase⟩ := h.flight j b key' run' hb hl
    refine ⟨r, hr, hkey, hcase.imp_left fun ⟨hzero, hc⟩ => ⟨hzero, ?_⟩⟩
    by_cases heq : key' = key
    · subst heq
      obtain ⟨old, hold', hs, hr'⟩ := hc
      cases hreg.symm.trans hold'
      refine ⟨reg', ?_, hstate.trans hs, hrun.trans hr'⟩
      rw [lookup_insert_eq, if_pos rfl]
    · exact hc.insert heq
  · obtain ⟨old, hold', hs', hr', -⟩ := hold hnew
    rw [hr']
    exact h.running key' old hold' (hs' ▸ hs)
  · obtain ⟨old, hold', -, hr', -⟩ := hold hnew
    exact h.latest key' old run' hold' (hr' ▸ hr)
  · obtain ⟨old, hold', -, -, hl'⟩ := hold hnew
    exact hup (h.last key' old result run' hold' (hl' ▸ hl) hr)

theorem register (h : Orderly tasks stored threads runs count) (hnew : tasks.lookup key = none) :
    Orderly (tasks.insert key { lastResult := stored.lookup key }) stored threads runs count := by
  have hold : ∀ {key' reg}, key' ≠ key →
      (tasks.insert key { lastResult := stored.lookup key }).lookup key' = some reg →
      tasks.lookup key' = some reg := by
    intro key' reg hne hreg
    rw [lookup_insert_eq, if_neg hne] at hreg
    exact hreg
  have hself : ∀ {reg}, (tasks.insert key { lastResult := stored.lookup key }).lookup key =
      some reg → reg = { lastResult := stored.lookup key } := by
    intro reg hreg
    rw [lookup_insert_eq, if_pos rfl] at hreg
    exact (Option.some.inj hreg).symm
  have hup : ∀ {key' run'}, UpTo tasks key' run' →
      UpTo (tasks.insert key { lastResult := stored.lookup key }) key' run' := by
    intro key' run' hup
    refine hup.insert fun old last hold' _ => ?_
    cases hnew.symm.trans hold'
  have hcarry : ∀ {key' run'}, Carries tasks key' run' → key' ≠ key := by
    rintro key' run' ⟨reg, hreg, -⟩ rfl
    cases hnew.symm.trans hreg
  refine ⟨h.single, fun j b key' run' hb hl => ?_, fun key' new hreg hs => ?_, h.once, h.claimed,
    fun key' new run' hreg hr => ?_, fun key' new result run' hreg hl hr => ?_,
    fun key' result run' hs hr => hup (h.stores key' result run' hs hr),
    fun j key' result run' hj hr => hup (h.stops j key' result run' hj hr)⟩
  · obtain ⟨r, hr, hkey, hcase⟩ := h.flight j b key' run' hb hl
    exact ⟨r, hr, hkey, hcase.imp_left fun ⟨hzero, hc⟩ => ⟨hzero, hc.insert (hcarry hc)⟩⟩
  all_goals by_cases heq : key' = key
  · subst heq
    cases hself hreg
    cases hs
  · exact h.running key' new (hold heq hreg) hs
  · subst heq
    cases hself hreg
    cases hr
  · exact h.latest key' new run' (hold heq hreg) hr
  · subst heq
    cases hself hreg
    exact hup (h.stores key' result run' hl hr)
  · exact hup (h.last key' new result run' (hold heq hreg) hl hr)

theorem claim (h : Orderly tasks stored threads runs count) (hreg : tasks.lookup key = some reg)
    (ht : (threads.lookup i).bind Work.liveRun = none)
    (hquiet : ∀ j b, threads.lookup j = some b → b.live ≠ some key)
    (hw : w'.liveRun = some (key, count)) (hstop : ∀ key result, w' ≠ .stopping key result)
    {starter : Option Nat} :
    Orderly (tasks.insert key { reg with state := .running, run := some count }) stored
      (threads.insert i w') (runs.insert count { key := key, starter := starter }) (count + 1) := by
  have hself : (runs.insert count { key := key, starter := starter }).lookup count =
      some { key := key, starter := starter } := by
    rw [lookup_insert_eq, if_pos rfl]
  have hruns : ∀ {run r}, runs.lookup run = some r →
      (runs.insert count { key := key, starter := starter }).lookup run = some r := by
    intro run r hr
    rw [lookup_insert_eq, if_neg (Nat.ne_of_lt (h.claimed run r hr))]
    exact hr
  have hup : ∀ {key' run'}, UpTo tasks key' run' →
      UpTo (tasks.insert key { reg with state := .running, run := some count }) key' run' := by
    intro key' run' hup
    refine hup.insert fun old last hold hlast => ⟨count, rfl, ?_⟩
    exact Nat.le_of_lt (h.latest key old last hold hlast)
  have hkeep : ∀ {j b key' run'}, threads.lookup j = some b → b.liveRun = some (key', run') →
      (threads.insert i w').lookup j = some b := by
    intro j b key' run' hb hl
    rw [lookup_insert_eq, if_neg ?_]
    · exact hb
    · rintro rfl
      rw [hb] at ht
      cases hl.symm.trans ht
  refine ⟨h.single.insert fun key' hk j b hb hkb => ?_, fun j b key' run' hb hl => ?_,
    fun key' new hnew hs => ?_, fun run' r hr => ?_, fun run' r hr => ?_,
    fun key' new run' hnew hr => ?_, fun key' new result run' hnew hl hr => ?_,
    fun key' result run' hs hr => hup (h.stores key' result run' hs hr),
    fun j key' result run' hj hr => ?_⟩
  · cases (congrArg (Option.map Prod.fst) hw).symm.trans hk
    exact absurd hkb (hquiet j b hb)
  · rw [lookup_insert_eq] at hb
    split at hb
    · cases hb
      cases hw.symm.trans hl
      refine ⟨_, hself, rfl, .inl ⟨rfl, { reg with state := .running, run := some count }, ?_, rfl,
        rfl⟩⟩
      rw [lookup_insert_eq, if_pos rfl]
    · obtain ⟨r, hr, hkey, hcase⟩ := h.flight j b key' run' hb hl
      refine ⟨r, hruns hr, hkey, hcase.imp_left fun ⟨hzero, hc⟩ => ⟨hzero, hc.insert ?_⟩⟩
      rintro rfl
      exact hquiet j b hb (congrArg (Option.map Prod.fst) hl)
  · rw [lookup_insert_eq] at hnew
    split at hnew
    · next heq =>
      cases hnew
      refine ⟨count, _, i, w', rfl, hself, rfl, ?_, heq ▸ hw⟩
      rw [lookup_insert_eq, if_pos rfl]
    · obtain ⟨run', r, j, b, hrun, hr, hzero, hj, hl⟩ := h.running key' new hnew hs
      exact ⟨run', r, j, b, hrun, hruns hr, hzero, hkeep hj hl, hl⟩
  · rw [lookup_insert_eq] at hr
    split at hr
    · next heq =>
      cases hr
      refine .inr ⟨rfl, rfl, i, w', ?_, heq ▸ hw⟩
      rw [lookup_insert_eq, if_pos rfl]
    · refine (h.once run' r hr).imp_right fun ⟨hzero, hab, j, b, hj, hl⟩ =>
      ⟨hzero, hab, j, b, ?_, hl⟩
      exact hkeep hj hl
  · rw [lookup_insert_eq] at hr
    split at hr
    · next heq => exact heq ▸ Nat.lt_succ_self run'
    · exact Nat.lt_succ_of_lt (h.claimed run' r hr)
  · rw [lookup_insert_eq] at hnew
    split at hnew
    · cases hnew
      cases hr
      exact Nat.lt_succ_self count
    · exact Nat.lt_succ_of_lt (h.latest key' new run' hnew hr)
  · rw [lookup_insert_eq] at hnew
    split at hnew
    · next heq =>
      cases hnew
      exact hup (h.last key' reg result run' (heq ▸ hreg) hl hr)
    · exact hup (h.last key' new result run' hnew hl hr)
  · rw [lookup_insert_eq] at hj
    split at hj
    · cases hj
      exact absurd rfl (hstop key' result)
    · exact hup (h.stops j key' result run' hj hr)

/-- A result is recorded for the run that a task has, and the task is idle: no thread has a run of
it, but for a body that was told to abort. -/
theorem done (h : Orderly tasks stored threads runs count) (hreg : tasks.lookup key = some reg)
    (hrun : reg.run = some run) (hr : runs.lookup run = some r) (hkey : r.key = key)
    {runs' : KeyedMap Nat Run} (r' : Run)
    (hr' : runs'.lookup run = some r') (hkey' : r'.key = key) (hres : r'.results = 1)
    (hruns : ∀ id, id ≠ run → runs'.lookup id = runs.lookup id) {result : TaskResult}
    (hresult : result.run = some run) {threads' : KeyedMap Nat Work}
    (hbody : ∀ j b, threads'.lookup j = some b → b.live = some key → b.body = some run)
    (hto : ∀ j b, threads'.lookup j = some b → threads.lookup j = some b ∨
      (b.liveRun = none ∧ ∀ key result, b ≠ .stopping key result))
    (hfrom : ∀ j b key' run', threads.lookup j = some b → b.liveRun = some (key', run') →
      key' ≠ key → threads'.lookup j = some b) :
    Orderly (tasks.insert key
      { reg with state := .idle, lastResult := some result, abort := none }) stored threads' runs'
      count := by
  have hup : ∀ {key' run'}, UpTo tasks key' run' → UpTo (tasks.insert key
      { reg with state := .idle, lastResult := some result, abort := none }) key' run' := by
    intro key' run' hup
    refine hup.insert fun old last hold hlast => ?_
    cases hreg.symm.trans hold
    exact ⟨last, hlast, le_rfl⟩
  have hlive : ∀ {j b key' run'}, threads'.lookup j = some b → b.liveRun = some (key', run') →
      threads.lookup j = some b := by
    intro j b key' run' hb hl
    rcases hto j b hb with hb' | ⟨hnone, -⟩
    · exact hb'
    · cases hnone.symm.trans hl
  -- another run in flight is another task's
  have hother : ∀ {j b key' run' r'}, threads.lookup j = some b →
      b.liveRun = some (key', run') → runs.lookup run' = some r' → r'.results = 0 → run' ≠ run →
      key' ≠ key := by
    rintro j b key' run' r' hb hl hr' hz hne rfl
    obtain ⟨r'', hr'', -, ⟨-, old, hold, -, hrun'⟩ | ⟨hone, -⟩⟩ := h.flight j b key' run' hb hl
    · cases hreg.symm.trans hold
      exact hne (Option.some.inj (hrun'.symm.trans hrun))
    · cases hr'.symm.trans hr''
      cases hz.symm.trans hone
  refine ⟨fun j k b c hb hc key' hkb hkc => ?_, fun j b key' run' hb hl => ?_,
    fun key' new hnew hs => ?_, fun run' q hq => ?_, fun run' q hq => ?_,
    fun key' new run' hnew hr'' => ?_, fun key' new result' run' hnew hl hr'' => ?_,
    fun key' result' run' hs hr'' => hup (h.stores key' result' run' hs hr''),
    fun j key' result' run' hj hr'' => ?_⟩
  · obtain ⟨⟨_, run₁⟩, hl₁, -⟩ := Option.map_eq_some_iff.mp hkb
    obtain ⟨⟨_, run₂⟩, hl₂, -⟩ := Option.map_eq_some_iff.mp hkc
    exact h.single j k b c (hlive hb hl₁) (hlive hc hl₂) key' hkb hkc
  · obtain ⟨q, hq, hqkey, hcase⟩ := h.flight j b key' run' (hlive hb hl) hl
    by_cases heq : key' = key
    · subst heq
      have hb' := hbody j b hb (congrArg (Option.map Prod.fst) hl)
      obtain rfl : run' = run := by
        cases b <;> cases hl <;> cases hb'
        rfl
      exact ⟨r', hr', hkey', .inr ⟨hres, hb'⟩⟩
    · have hne : run' ≠ run := by
        rintro rfl
        cases hr.symm.trans hq
        exact heq (hqkey.symm.trans hkey)
      exact ⟨q, (hruns run' hne).trans hq, hqkey,
        hcase.imp_left fun ⟨hz, hc⟩ => ⟨hz, hc.insert heq⟩⟩
  · rw [lookup_insert_eq] at hnew
    split at hnew
    · cases hnew
      cases hs
    · next heq =>
      obtain ⟨run', q, j, b, hrun', hq, hz, hj, hl⟩ := h.running key' new hnew hs
      have hne : run' ≠ run := by
        rintro rfl
        obtain ⟨q', hq', hqkey, -⟩ := h.flight j b key' run' hj hl
        cases hr.symm.trans hq'
        exact heq (hqkey.symm.trans hkey)
      exact ⟨run', q, j, b, hrun', (hruns run' hne).trans hq, hz, hfrom j b key' run' hj hl heq, hl⟩
  · by_cases hne : run' = run
    · subst hne
      cases hr'.symm.trans hq
      exact .inl hres
    · rw [hruns run' hne] at hq
      refine (h.once run' q hq).imp_right fun ⟨hz, hab, j, b, hj, hl⟩ => ⟨hz, hab, j, b, ?_, hl⟩
      exact hfrom j b q.key run' hj hl (hother hj hl hq hz hne)
  · by_cases hne : run' = run
    · exact hne ▸ h.claimed run r hr
    · rw [hruns run' hne] at hq
      exact h.claimed run' q hq
  · rw [lookup_insert_eq] at hnew
    split at hnew
    · cases hnew
      exact h.latest key reg run' hreg hr''
    · exact h.latest key' new run' hnew hr''
  · rw [lookup_insert_eq] at hnew
    split at hnew
    · next heq =>
      cases hnew
      cases hl
      cases hresult.symm.trans hr''
      exact hup ⟨reg, run, heq ▸ hreg, hrun, le_rfl⟩
    · exact hup (h.last key' new result' run' hnew hl hr'')
  · rcases hto j _ hj with hj' | ⟨-, hno⟩
    · exact hup (h.stops j key' result' run' hj' hr'')
    · exact absurd rfl (hno key' result')

theorem record (h : Orderly tasks stored threads runs count) {status : TaskCompletionStatus}
    (ht : threads.lookup i = some (.recording key run status)) :
    ∃ reg, tasks.lookup key = some reg ∧ Orderly (tasks.insert key
      { reg with state := .idle, lastResult := some { status := status, run := some run }
                 abort := none }) stored (threads.insert i .waiting)
      (KeyedMap.mapValues (fun id r =>
        if some run = some id then { r with results := r.results + 1 }
        else r) runs) count := by
  obtain ⟨r, hr, hkey, ⟨hzero, reg, hreg, -, hrun⟩ | ⟨-, hb⟩⟩ := h.flight i _ key run ht rfl
  · refine ⟨reg, hreg, h.done hreg hrun hr hkey { r with results := r.results + 1 } ?_ hkey
      (by rw [hzero]) (fun id hne => ?_) rfl (fun j b hb hl => ?_) (fun j b hb => ?_)
      fun j b key' run' hb hl hne => ?_⟩
    · rw [lookup_mapValues, hr, Option.map_some, if_pos rfl]
    · rw [lookup_mapValues]
      simp only [Option.some.injEq, Ne.symm hne, if_false, Option.map_id']
    · rw [lookup_insert_eq] at hb
      split at hb
      · cases hb
        cases hl
      · next hj => exact absurd (h.single j i b _ hb ht key hl rfl) hj
    · rw [lookup_insert_eq] at hb
      split at hb
      · cases hb
        exact .inr ⟨rfl, nofun⟩
      · exact .inl hb
    · rw [lookup_insert_eq, if_neg ?_]
      · exact hb
      · rintro rfl
        cases ht.symm.trans hb
        cases hl
        exact hne rfl
  · cases hb

theorem stop (h : Orderly tasks stored threads runs count) (hreg : tasks.lookup key = some reg)
    (hrun : reg.run = some run) (habort : reg.abort = some run)
    (ht : threads.lookup i = some w) (hw : w.body = some run) (hstate : reg.state = .running)
    (status : TaskCompletionStatus) :
    Orderly (tasks.insert key { reg with state := .idle
                                         lastResult := some { status := status, run := reg.run }
                                         abort := none }) stored threads
      (Manager.abortRuns (KeyedMap.mapValues (fun id r => if reg.run = some id then
        { r with results := r.results + 1 } else r) runs) reg.abort) count := by
  obtain ⟨run', r, j, b, hrun', hr, hzero, hj, hl⟩ := h.running key reg hreg hstate
  cases hrun.symm.trans hrun'
  obtain ⟨r', hr', hkey, -⟩ := h.flight j b key run hj hl
  cases hr.symm.trans hr'
  refine h.done hreg hrun hr hkey { r with results := r.results + 1, aborted := true } ?_
    hkey (by rw [hzero]) (fun id hne => ?_) hrun (fun k c hc hlc => ?_) (fun k c hc => .inl hc)
    fun k c key' run' hc _ _ => hc
  · simp only [Manager.abortRuns, lookup_mapValues, hr, hrun, habort, Option.map_some,
      if_true]
  · simp only [Manager.abortRuns, lookup_mapValues, hrun, habort, Option.some.injEq,
      Ne.symm hne, if_false, Option.map_id']
  · -- the thread that has a run of the task is the one that executes the body
    have hwl : w.live = some key := by
      cases w <;> cases hw
      obtain ⟨q, hq, hqkey, -⟩ := h.flight i _ _ run ht rfl
      cases hr.symm.trans hq
      exact congrArg some (hqkey.symm.trans hkey)
    obtain rfl := h.single k i c w hc ht key hlc hwl
    cases hc.symm.trans ht
    exact hw

end Orderly

def Manager.InOrder (m : Manager) : Prop :=
  Orderly m.tasks m.stored m.threads m.runs m.runCount

namespace Manager

variable {m m' : Manager} {i : Nat} {w w' : Work}

theorem liveRun_resume (after : After) : after.resume.liveRun = none := by
  cases after <;> rfl

theorem resume_ne_stopping (after : After) (key : String) (result : TaskResult) :
    after.resume ≠ .stopping key result := by
  cases after <;> exact nofun

theorem InOrder.idle (h : m.InOrder) (ht : ∀ w, m.threads.lookup i = some w → w.liveRun = none)
    (hw : w'.liveRun = none) (hstop : ∀ key result, w' ≠ .stopping key result) :
    (m.goOn i w').InOrder := by
  refine Orderly.move h (Eq.trans ?_ hw.symm) (fun w run hi hb => ?_)
    fun key result run hw' => absurd hw' (hstop key result)
  · cases hi : m.threads.lookup i with
    | none => rfl
    | some w => exact ht w hi
  · have hnone := ht w hi
    cases w <;> cases hb
    cases hnone

theorem InOrder.upTo (h : m.InOrder) {key : String} {run : Nat}
    (ht : m.threads.lookup i = some w) (hw : w.liveRun = some (key, run)) (hb : w.body = none) :
    UpTo m.tasks key run := by
  obtain ⟨r, -, -, ⟨-, reg, hreg, -, hrun⟩ | ⟨-, hb'⟩⟩ := h.flight i w key run ht hw
  · exact ⟨reg, run, hreg, hrun, le_rfl⟩
  · cases hb.symm.trans hb'

theorem InOrder.nextClaiming {answer : Answer} {key : String} {after : After} (h : m.InOrder)
    (ht : m.threads.lookup i = some (.claiming key after))
    (hset : m.orderly (.step i answer) = true)
    (hn : (Work.claiming key after).next m answer = some (m', w')) : (m'.goOn i w').InOrder := by
  simp only [orderly, ht] at hset
  have hidle : ∀ w, m.threads.lookup i = some w → w.liveRun = none := by
    intro w h₁
    cases h₁.symm.trans ht
    rfl
  cases answer <;> simp only [Work.next, reduceCtorEq] at hn
  have hresume : (m.goOn i after.resume).InOrder :=
    h.idle hidle (liveRun_resume after) (resume_ne_stopping after)
  split at hn
  · next reg hreg =>
    split at hn
    · cases hn
      exact hresume
    · next hstate =>
      cases hn
      have hquiet : ∀ j b, m.threads.lookup j = some b → b.live ≠ some key := by
        intro j b hb
        have hi : m.isIdle key = true := by
          cases hs : reg.state with
          | running => exact absurd hs hstate
          | idle => simp [isIdle, hreg, hs]
        simp only [hi, Bool.not_true, Bool.false_or] at hset
        simpa using List.all_eq_true.mp hset b (KeyedMap.mem_values_of_lookup hb)
      refine Orderly.claim h hreg ?_ hquiet ?_ ?_
      · rw [ht]
        rfl
      · cases after <;> rfl
      · cases after <;> exact nofun
  · cases hn
    exact hresume

theorem InOrder.nextExecuting {answer : Answer} {key : String} {run : Nat} (h : m.InOrder)
    (ht : m.threads.lookup i = some (.executing key run))
    (hset : m.orderly (.step i answer) = true)
    (hn : (Work.executing key run).next m answer = some (m', w')) : (m'.goOn i w').InOrder := by
  simp only [orderly, ht] at hset
  cases answer with
  | ended status =>
    cases hn
    refine Orderly.move h ?_ (fun w₁ run₁ h₁ hb => ?_) fun _ _ _ hw => by cases hw
    · rw [ht]
      rfl
    · cases h₁.symm.trans ht
      cases hb
      refine .inr fun r hr => ?_
      replace hr : m.runs.lookup run = some r := hr
      simpa [hr] using hset
  | dropped =>
    simp only [Work.next] at hn
    split at hn <;> cases hn
    next hab =>
    obtain ⟨r, hr, habr⟩ := (Option.any_eq_true ..).mp hab
    rcases h.once run r hr with hone | ⟨-, hnot, -⟩
    · exact Orderly.drop h ht rfl hr hone
    · cases hnot.symm.trans habr
  | _ => cases hn

theorem InOrder.next {answer : Answer} (h : m.InOrder) (ht : m.threads.lookup i = some w)
    (hset : m.orderly (.step i answer) = true) (hn : w.next m answer = some (m', w')) :
    (m'.goOn i w').InOrder := by
  have hself : ∀ w₁, m.threads.lookup i = some w₁ → w₁ = w := fun w₁ h₁ =>
    Option.some.inj (h₁.symm.trans ht)
  have hidle : w.liveRun = none → ∀ w₁, m.threads.lookup i = some w₁ → w₁.liveRun = none :=
    fun hw w₁ h₁ => hself w₁ h₁ ▸ hw
  cases w with
  | locking key =>
    cases answer <;> simp only [Work.next, reduceCtorEq] at hn
    split at hn <;> cases hn
    exact h.idle (hidle rfl) rfl nofun
  | asking key =>
    cases answer <;> simp only [Work.next, reduceCtorEq] at hn
    split at hn
    · next reg hreg =>
      split at hn <;> cases hn
      · exact h.idle (hidle rfl) rfl nofun
      · exact h.idle (hidle rfl) rfl nofun
    · cases hn
      exact h.idle (hidle rfl) rfl nofun
  | pushing key request =>
    cases answer <;> cases hn
    exact h.idle (hidle rfl) rfl nofun
  | claiming key after => exact h.nextClaiming ht hset hn
  | spawning key run after =>
    cases answer <;> simp only [Work.next, reduceCtorEq] at hn
    split at hn
    · cases hn
    · next hj =>
      cases hn
      exact Orderly.hand h ht (by simpa using hj)
  | storing key run after =>
    cases answer <;> cases hn
    have hresume : (m.goOn i after.resume).InOrder :=
      h.idle (hidle rfl) (liveRun_resume after) (resume_ne_stopping after)
    unfold storeAbort
    split
    · next reg hreg =>
      split
      · exact Orderly.retask hresume hreg rfl rfl rfl
      · exact hresume
    · exact hresume
  | executing key run => exact h.nextExecuting ht hset hn
  | persisting key run status =>
    cases answer <;> cases hn
    have hmove : (m.goOn i (.recording key run status)).InOrder := by
      refine Orderly.move h ?_ (fun w₁ run₁ h₁ hb => ?_) fun _ _ _ hw => by cases hw
      · rw [ht]
        rfl
      · cases hself w₁ h₁
        cases hb
    refine Orderly.persist hmove fun run' hrun => ?_
    cases hrun
    exact h.upTo ht rfl rfl
  | recording key run status =>
    cases answer <;> cases hn
    obtain ⟨reg, hreg, hrec⟩ := Orderly.record h ht
    simp only [recordResult, hreg]
    exact hrec
  | stopping key result =>
    cases answer <;> cases hn
    have hmove : (m.goOn i .waiting).InOrder := h.idle (hidle rfl) rfl nofun
    exact Orderly.persist hmove fun run hrun => h.stops i key result run ht hrun
  | waiting =>
    cases answer <;> simp only [Work.next, reduceCtorEq] at hn
    split at hn <;> cases hn
    exact h.idle (hidle rfl) rfl nofun
  | draining requests =>
    cases answer <;> cases requests <;> cases hn
    · exact h.idle (hidle rfl) rfl nofun
    · split
      · exact h.idle (hidle rfl) rfl nofun
      · exact h.idle (hidle rfl) rfl nofun
  | gone => cases answer <;> cases hn

theorem InOrder.step {event : Event} (h : m.InOrder) (hset : m.orderly event = true)
    (hs : m.step event = some m') : m'.InOrder := by
  have hstart : ∀ {i w}, m.start i w = some m' → w.liveRun = none →
      (∀ key result, w ≠ .stopping key result) → m'.InOrder := by
    intro i w hs hw hstop
    unfold start at hs
    split at hs
    · cases hs
    · next hnew =>
      cases hs
      exact h.idle (fun w₁ h₁ => absurd (Option.isSome_of_eq_some h₁) hnew) hw hstop
  cases event with
  | register key =>
    simp only [Manager.step] at hs
    split at hs
    · cases hs
    · next hnew =>
      cases hs
      exact Orderly.register h (by simpa using hnew)
  | runNow i key => exact hstart hs rfl nofun
  | queue i key => exact hstart hs rfl nofun
  | queueScheduled i key => exact hstart hs rfl nofun
  | stop i key status =>
    simp only [Manager.step] at hs
    split at hs
    · cases hs
    next hnew =>
    split at hs
    · next reg hreg =>
      split at hs
      · next hstate =>
        cases hs
        simp only [orderly, hreg, Option.all_some, hstate, Bool.or_eq_true, Bool.and_eq_true,
          beq_iff_eq, reduceCtorEq, false_or] at hset
        obtain ⟨⟨hsome, habort⟩, hany⟩ := hset
        rw [habort] at hsome
        obtain ⟨run, hrun⟩ := Option.isSome_iff_exists.mp hsome
        obtain ⟨w, hmem, hw⟩ := List.any_eq_true.mp hany
        obtain ⟨j, hj⟩ := KeyedMap.exists_lookup_of_mem_values hmem
        have hbody : w.body = some run := (beq_iff_eq.mp hw).trans hrun
        have hstopped := Orderly.stop h hreg hrun (habort.trans hrun) hj hbody hstate status
        refine hstopped.move ?_ (fun w₁ _ h₁ _ => ?_) fun key' result run' hw' hr' => ?_
        · rw [show m.threads.lookup i = none by simpa using hnew]
          rfl
        · exact absurd (Option.isSome_of_eq_some h₁) hnew
        · cases hw'
          cases hrun.symm.trans hr'
          exact ⟨_, run, (lookup_insert_eq ..).trans (if_pos rfl), hrun, le_rfl⟩
      · cases hs
        exact h
    · cases hs
      exact h
  | step i answer =>
    obtain ⟨w, ht, hs⟩ := Option.bind_eq_some_iff.mp hs
    obtain ⟨⟨m'', w'⟩, hn, rfl⟩ := Option.map_eq_some_iff.mp hs
    exact h.next ht hset hn

end Manager

end Ferrofin.Tasks
