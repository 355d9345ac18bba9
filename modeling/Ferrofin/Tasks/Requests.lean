import Ferrofin.Tasks.Orderly
import Ferrofin.Tasks.Queue

/-!
# Requests are kept

A request that `queue_scheduled` accepts is followed by a run that was claimed since it was made,
unless the completion of another task drains the queue first: `drain_busy_queue` takes every
request, and drops one whose task still runs (`request_dropped`).  Where no drain finds such a
request (`Manager.kept`), every accepted request is served or remembered, the requests that were
made during one run start one run, and the queue holds no request of an idle task unless a drain is
due (`requests_kept`).
-/

namespace Ferrofin.Tasks

open Lib
open Lib.KeyedMap (lookup_insert_eq lookup_mapValues)
open Option (map_eq_some_iff map_some)

/-- The run that a thread claimed or executes, with its task. -/
def Work.ofRun : Work → Option (String × Nat)
  | .storing key run _ => some (key, run)
  | work => work.liveRun

/-! ### Runs and requests -/

/-- Runs are counted, and the run that a request starts is claimed after the one during which it
was made. -/
structure Numbered (runOf : String → Option Nat) (keyOf : Nat → Option String)
    (starterOf : Nat → Option Nat) (count : Nat) : Prop where
  claimed : ∀ run key, keyOf run = some key → run < count
  latest : ∀ key run, runOf key = some run → keyOf run = some key
  started : ∀ id run, starterOf id = some run →
    ∃ key last, keyOf run = some key ∧ runOf key = some last ∧ run < last
  once : ∀ a b run, starterOf a = some run → starterOf b = some run → a = b

theorem Numbered.claim {runOf runOf' : String → Option Nat} {keyOf keyOf' : Nat → Option String}
    {starterOf starterOf' : Nat → Option Nat} {count : Nat} {key : String} {starter : Option Nat}
    (h : Numbered runOf keyOf starterOf count)
    (hrun : ∀ key', runOf' key' = if key' = key then some count else runOf key')
    (hkey : ∀ run, keyOf' run = if run = count then some key else keyOf run)
    (hstarter : ∀ run, starterOf' run = if run = count then starter else starterOf run)
    (hstart : ∀ run, starter = some run → keyOf run = some key ∧ ∀ id, starterOf id ≠ some run) :
    Numbered runOf' keyOf' starterOf' (count + 1) := by
  have hkeep : ∀ {run key'}, keyOf run = some key' → keyOf' run = some key' := by
    intro run key' hk
    rw [hkey, if_neg (Nat.ne_of_lt (h.claimed run key' hk))]
    exact hk
  refine ⟨fun run key' hk => ?_, fun key' run hr => ?_, fun id run hs => ?_,
    fun a b run ha hb => ?_⟩
  · rw [hkey] at hk
    split at hk
    · next heq => exact heq ▸ Nat.lt_succ_self run
    · exact Nat.lt_succ_of_lt (h.claimed run key' hk)
  · rw [hrun] at hr
    split at hr
    · next heq =>
      cases hr
      rw [hkey, if_pos rfl, heq]
    · exact hkeep (h.latest key' run hr)
  · rw [hstarter] at hs
    split at hs
    · obtain ⟨hk, -⟩ := hstart run hs
      refine ⟨key, count, hkeep hk, ?_, h.claimed run key hk⟩
      rw [hrun, if_pos rfl]
    · obtain ⟨key', last, hk, hr, hlt⟩ := h.started id run hs
      by_cases heq : key' = key
      · refine ⟨key', count, hkeep hk, ?_, h.claimed run key' hk⟩
        rw [hrun, if_pos heq]
      · refine ⟨key', last, hkeep hk, ?_, hlt⟩
        rw [hrun, if_neg heq]
        exact hr
  · rw [hstarter] at ha hb
    split at ha <;> split at hb
    · next ha' hb' => exact ha'.trans hb'.symm
    · exact absurd hb ((hstart run ha).2 b)
    · exact absurd ha ((hstart run hb).2 a)
    · exact h.once a b run ha hb

structure Served (keyOf : Nat → Option String) (requests : KeyedMap Nat Request) (count : Nat) :
    Prop where
  counted : ∀ id request, requests.lookup id = some request → id < count
  made : ∀ id request run, requests.lookup id = some request → request.during = some run →
    keyOf run = some request.key
  served : ∀ id request run, requests.lookup id = some request → request.servedBy = some run →
    keyOf run = some request.key ∧ ∀ run', request.during = some run' → run' < run

theorem Served.request {keyOf : Nat → Option String} {requests : KeyedMap Nat Request}
    {count : Nat} {request : Request} (h : Served keyOf requests count)
    (hmade : ∀ run, request.during = some run → keyOf run = some request.key)
    (hserved : ∀ run, request.servedBy = some run →
      keyOf run = some request.key ∧ request.during = none) :
    Served keyOf (requests.insert count request) (count + 1) := by
  refine ⟨fun id r hr => ?_, fun id r run hr hd => ?_, fun id r run hr hs => ?_⟩
  all_goals
    rw [lookup_insert_eq] at hr
    split at hr
  · next heq => exact heq ▸ Nat.lt_succ_self id
  · exact Nat.lt_succ_of_lt (h.counted id r hr)
  · cases hr
    exact hmade run hd
  · exact h.made id r run hr hd
  · cases hr
    obtain ⟨hk, hnone⟩ := hserved run hs
    exact ⟨hk, fun run' hd => by cases hnone.symm.trans hd⟩
  · exact h.served id r run hr hs

theorem Served.claim {keyOf keyOf' : Nat → Option String} {requests : KeyedMap Nat Request}
    {count runCount : Nat} {key : String} (h : Served keyOf requests count)
    (hclaimed : ∀ run key, keyOf run = some key → run < runCount)
    (hkey : ∀ run, keyOf' run = if run = runCount then some key else keyOf run) :
    Served keyOf'
      (KeyedMap.mapValues (fun _ request => Manager.serve key runCount request) requests)
      count := by
  have hkeep : ∀ {run key'}, keyOf run = some key' → keyOf' run = some key' := by
    intro run key' hk
    rw [hkey, if_neg (Nat.ne_of_lt (hclaimed run key' hk))]
    exact hk
  refine ⟨fun id r hr => ?_, fun id r run hr hd => ?_, fun id r run hr hs => ?_⟩
  all_goals
    rw [lookup_mapValues] at hr
    obtain ⟨old, hold, rfl⟩ := map_eq_some_iff.mp hr
  · exact h.counted id old hold
  · unfold Manager.serve at hd ⊢
    split at hd
    · next hserve =>
      rw [if_pos hserve]
      exact hkeep (h.made id old run hold hd)
    · next hserve =>
      rw [if_neg hserve]
      exact hkeep (h.made id old run hold hd)
  · unfold Manager.serve at hs ⊢
    split at hs
    · next hserve =>
      rw [if_pos hserve]
      cases hs
      refine ⟨?_, fun run' hd => hclaimed run' old.key (h.made id old run' hold hd)⟩
      rw [hkey, if_pos rfl]
      exact congrArg some hserve.1.symm
    · next hserve =>
      rw [if_neg hserve]
      obtain ⟨hk, hlt⟩ := h.served id old run hold hs
      exact ⟨hkeep hk, hlt⟩

/-! ### Running tasks -/

/-- A running task has a thread that has its run, and was not told to abort. -/
structure Alive (tasks : KeyedMap String Registration) (threads : KeyedMap Nat Work)
    (runs : KeyedMap Nat Run) : Prop where
  live : ∀ key reg, tasks.lookup key = some reg → reg.state = .running → ∃ run i w r,
    reg.run = some run ∧ threads.lookup i = some w ∧ w.liveRun = some (key, run) ∧
      runs.lookup run = some r ∧ r.aborted = false
  names : ∀ i w key run, threads.lookup i = some w → w.ofRun = some (key, run) →
    keyOf runs run = some key
  handles : ∀ key reg run, tasks.lookup key = some reg → reg.abort = some run →
    keyOf runs run = some key

theorem ofRun_of_liveRun {w : Work} {key : String} {run : Nat} (h : w.liveRun = some (key, run)) :
    w.ofRun = some (key, run) := by
  cases w with
  | storing => cases h
  | _ => exact h

namespace Alive

variable {tasks : KeyedMap String Registration} {threads : KeyedMap Nat Work}
  {runs runs' : KeyedMap Nat Run} {i : Nat} {w' : Work} {key : String} {reg reg' : Registration}

theorem move (h : Alive tasks threads runs)
    (hlive : ∀ w key reg run r, tasks.lookup key = some reg → reg.state = .running →
      threads.lookup i = some w → w.liveRun = some (key, run) → runs.lookup run = some r →
      r.aborted = false → w'.liveRun = some (key, run))
    (hnames : ∀ key run, w'.ofRun = some (key, run) → keyOf runs run = some key) :
    Alive tasks (threads.insert i w') runs := by
  refine ⟨fun key reg hreg hs => ?_, fun j w key run hw hr => ?_, h.handles⟩
  · obtain ⟨run, j, w, r, hrun, hw, hl, hr, hab⟩ := h.live key reg hreg hs
    by_cases hj : j = i
    · subst hj
      have hl' := hlive w key reg run r hreg hs hw hl hr hab
      exact ⟨run, j, w', r, hrun, AList.lookup_insert threads, hl', hr, hab⟩
    · exact ⟨run, j, w, r, hrun, (AList.lookup_insert_ne hj).trans hw, hl, hr, hab⟩
  · rw [lookup_insert_eq] at hw
    split at hw
    · cases hw
      exact hnames key run hr
    · exact h.names j w key run hw hr

theorem hand (h : Alive tasks threads runs) {j run : Nat} {after : After}
    (ht : threads.lookup i = some (.spawning key run after)) (hj : threads.lookup j = none) :
    Alive tasks ((threads.insert j (.executing key run)).insert i (.storing key run after))
      runs := by
  have hne : j ≠ i := by
    rintro rfl
    cases hj.symm.trans ht
  have hnames := h.names i _ key run ht rfl
  refine ⟨fun key' reg hreg hs => ?_, fun k w key' run' hw hr => ?_, h.handles⟩
  · obtain ⟨run', k, w, r, hrun, hw, hl, hr, hab⟩ := h.live key' reg hreg hs
    by_cases hk : k = i
    · subst hk
      cases hw.symm.trans ht
      refine ⟨run', j, .executing key run, r, hrun, ?_, hl, hr, hab⟩
      rw [AList.lookup_insert_ne hne, AList.lookup_insert]
    · refine ⟨run', k, w, r, hrun, ?_, hl, hr, hab⟩
      rw [AList.lookup_insert_ne hk, AList.lookup_insert_ne]
      · exact hw
      · rintro rfl
        cases hj.symm.trans hw
  · rw [lookup_insert_eq, lookup_insert_eq] at hw
    split at hw
    · cases hw
      cases hr
      exact hnames
    · split at hw
      · cases hw
        cases hr
        exact hnames
      · exact h.names k w key' run' hw hr

theorem claim (h : Alive tasks threads runs) {count : Nat} {r : Run}
    (hclaimed : ∀ run key, keyOf runs run = some key → run < count)
    (hhandle : ∀ run, reg.abort = some run → keyOf runs run = some key)
    (ht : ∀ w, threads.lookup i = some w → w.liveRun = none) (hkey : r.key = key)
    (hab : r.aborted = false) (hw : w'.liveRun = some (key, count))
    (hstate : reg.run = some count) :
    Alive (tasks.insert key reg) (threads.insert i w') (runs.insert count r) := by
  have hkeep : ∀ {run key'}, keyOf runs run = some key' →
      keyOf (runs.insert count r) run = some key' := by
    intro run key' hk
    rw [keyOf, lookup_insert_eq, if_neg (Nat.ne_of_lt (hclaimed run key' hk))]
    exact hk
  refine ⟨fun key' new hnew hs => ?_, fun j w key' run hj hr => ?_, fun key' new run hnew ha => ?_⟩
  · rw [lookup_insert_eq] at hnew
    split at hnew
    · next heq =>
      cases hnew
      exact ⟨count, i, w', r, hstate, AList.lookup_insert threads, heq ▸ hw,
        AList.lookup_insert runs, hab⟩
    · obtain ⟨run, j, w, q, hrun, hj, hl, hq, hqa⟩ := h.live key' new hnew hs
      refine ⟨run, j, w, q, hrun, ?_, hl, ?_, hqa⟩
      · rw [AList.lookup_insert_ne]
        · exact hj
        · rintro rfl
          cases hl.symm.trans (ht w hj)
      · have hlt := hclaimed run key' (h.names j w key' run hj (ofRun_of_liveRun hl))
        rw [AList.lookup_insert_ne (Nat.ne_of_lt hlt)]
        exact hq
  · rw [lookup_insert_eq] at hj
    split at hj
    · cases hj
      have hof := (ofRun_of_liveRun hw).symm.trans hr
      cases hof
      rw [keyOf, AList.lookup_insert, map_some, hkey]
    · exact hkeep (h.names j w key' run hj hr)
  · rw [lookup_insert_eq] at hnew
    split at hnew
    · next heq =>
      cases hnew
      exact heq ▸ hkeep (hhandle run ha)
    · exact hkeep (h.handles key' new run hnew ha)

theorem retask (h : Alive tasks threads runs) (reg reg' : Registration)
    (hruns : ∀ run, keyOf runs' run = keyOf runs run)
    (hother : ∀ run key' r, keyOf runs run = some key' → key' ≠ key → runs.lookup run = some r →
      ∃ r', runs'.lookup run = some r' ∧ r'.aborted = r.aborted)
    (hself : reg'.state = .idle ∨ (tasks.lookup key = some reg ∧ reg'.state = reg.state ∧
      reg'.run = reg.run ∧ ∀ run r, runs.lookup run = some r →
        ∃ r', runs'.lookup run = some r' ∧ r'.aborted = r.aborted))
    (hhandle : ∀ run, reg'.abort = some run → keyOf runs run = some key) :
    Alive (tasks.insert key reg') threads runs' := by
  refine ⟨fun key' new hnew hs => ?_, fun j w key' run hj hr => ?_, fun key' new run hnew ha => ?_⟩
  · rw [lookup_insert_eq] at hnew
    split at hnew
    · next heq =>
      cases hnew
      rcases hself with hidle | ⟨hreg, hstate, hrun, hsame⟩
      · cases hidle.symm.trans hs
      · obtain ⟨run, j, w, r, hr, hj, hl, hlr, hab⟩ := h.live key reg hreg (hstate.symm.trans hs)
        obtain ⟨r', hr', hab'⟩ := hsame run r hlr
        exact ⟨run, j, w, r', hrun.trans hr, hj, heq ▸ hl, hr', hab'.trans hab⟩
    · next hne =>
      obtain ⟨run, j, w, r, hr, hj, hl, hlr, hab⟩ := h.live key' new hnew hs
      obtain ⟨r', hr', hab'⟩ :=
        hother run key' r (h.names j w key' run hj (ofRun_of_liveRun hl)) hne
        hlr
      exact ⟨run, j, w, r', hr, hj, hl, hr', hab'.trans hab⟩
  · exact (hruns run).trans (h.names j w key' run hj hr)
  · rw [lookup_insert_eq] at hnew
    rw [hruns]
    split at hnew
    · next heq =>
      cases hnew
      exact heq ▸ hhandle run ha
    · exact h.handles key' new run hnew ha

end Alive

structure Manager.Kept (m : Manager) : Prop where
  numbered : Numbered (runOf m.tasks) (keyOf m.runs) (starterOf m.runs) m.runCount
  served : Served (keyOf m.runs) m.requests m.requestCount
  queued : Queued (stateOf m.tasks) (starterOf m.runs) m.busyQueue m.threads m.requests
  alive : Alive m.tasks m.threads m.runs

/-! ### What changes -/

theorem stateOf_insert (tasks : KeyedMap String Registration) (key key' : String)
    (reg : Registration) : stateOf (tasks.insert key reg) key' =
      if key' = key then some reg.state else stateOf tasks key' := by
  rw [stateOf, lookup_insert_eq]
  split <;> rfl

theorem runOf_insert (tasks : KeyedMap String Registration) (key key' : String)
    (reg : Registration) : runOf (tasks.insert key reg) key' =
      if key' = key then reg.run else runOf tasks key' := by
  rw [runOf, lookup_insert_eq]
  split <;> rfl

theorem runOf_insert_same {tasks : KeyedMap String Registration} {key : String}
    {reg : Registration} (reg' : Registration) (hreg : tasks.lookup key = some reg)
    (hrun : reg'.run = reg.run) : runOf (tasks.insert key reg') = runOf tasks := by
  funext key'
  rw [runOf_insert]
  split
  · next heq => rw [heq, runOf, hreg, Option.bind_some, hrun]
  · rfl

theorem keyOf_insert (runs : KeyedMap Nat Run) (run run' : Nat) (r : Run) :
    keyOf (runs.insert run r) run' = if run' = run then some r.key else keyOf runs run' := by
  rw [keyOf, lookup_insert_eq]
  split <;> rfl

theorem starterOf_insert (runs : KeyedMap Nat Run) (run run' : Nat) (r : Run) :
    starterOf (runs.insert run r) run' =
      if run' = run then r.starter else starterOf runs run' := by
  rw [starterOf, lookup_insert_eq]
  split <;> rfl

theorem keyOf_mapValues {runs : KeyedMap Nat Run} {f : Nat → Run → Run}
    (hf : ∀ id r, (f id r).key = r.key) : keyOf (KeyedMap.mapValues f runs) = keyOf runs := by
  funext run
  rw [keyOf, keyOf, lookup_mapValues, Option.map_map]
  exact Option.map_congr fun r _ => hf run r

theorem starterOf_mapValues {runs : KeyedMap Nat Run} {f : Nat → Run → Run}
    (hf : ∀ id r, (f id r).starter = r.starter) :
    starterOf (KeyedMap.mapValues f runs) = starterOf runs := by
  funext run
  rw [starterOf, starterOf, lookup_mapValues]
  cases runs.lookup run with
  | none => rfl
  | some r => exact hf run r

theorem entries_resume (after : After) : after.resume.entries = after.rest := by
  cases after <;> rfl

theorem drains_resume (after : After) : after.resume.drains = after.drains := by
  cases after <;> rfl

theorem holds_resume {after : After} (h : after.resume.holds = some ()) :
    after.holds = some () := by
  cases after with
  | drain => rfl
  | _ => cases h

theorem ofRun_resume (after : After) : after.resume.ofRun = none := by
  cases after <;> rfl

namespace Manager

variable {m m' : Manager} {i : Nat} {w w' : Work} {key : String} {reg : Registration}

theorem Kept.pass (h : m.Kept) (ht : m.threads.lookup i = some w) (w' : Work)
    (hlocked : Exclusive Work.holds (m.threads.insert i w')) (hnone : w'.entries = [])
    (hw : w.entries = []) (hdue : w.due = true → w'.due = true) (hdrains : w'.drains = false)
    (hlive : w.liveRun = none ∨ w'.liveRun = w.liveRun)
    (hof : w'.ofRun = none ∨ w'.ofRun = w.ofRun) : (m.goOn i w').Kept := by
  refine ⟨h.numbered, h.served, h.queued.pass _ hlocked hnone (fun w₁ h₁ => ?_) hdrains,
    h.alive.move (fun w₁ key _ run r _ _ h₁ hl _ _ => ?_) fun key run hr => ?_⟩
  · cases h₁.symm.trans ht
    exact ⟨hw, hdue⟩
  · cases h₁.symm.trans ht
    rcases hlive with hno | hsame
    · cases hno.symm.trans hl
    · exact hsame.trans hl
  · rcases hof with hno | hsame
    · cases hno.symm.trans hr
    · exact h.alive.names i w key run ht (hsame.symm.trans hr)

theorem Kept.start (h : m.Kept) (hs : m.start i w = some m') (hheld : w.holds = none)
    (hnone : w.entries = []) (hdrains : w.drains = false) (hof : w.ofRun = none) : m'.Kept := by
  unfold Manager.start at hs
  split at hs
  · cases hs
  · next hnew =>
    cases hs
    have hnone' : m.threads.lookup i = none := by simpa using hnew
    refine ⟨h.numbered, h.served, h.queued.pass _ (h.queued.locked.insert fun k hk => ?_) hnone
      (fun w₁ h₁ => ?_) hdrains,
    h.alive.move (fun w₁ key _ run r _ _ h₁ _ _ _ => ?_) fun key run hr => ?_⟩
    · cases hheld.symm.trans hk
    · cases hnone'.symm.trans h₁
    · cases hnone'.symm.trans h₁
    · cases hof.symm.trans hr

theorem Kept.request (h : m.Kept) (ht : m.threads.lookup i = some (.asking key))
    (hreg : m.tasks.lookup key = some reg) (hs : reg.state = .running) :
    ((m.request key reg).goOn i (.pushing key m.requestCount)).Kept := by
  have hrun : ∀ run, reg.run = some run → keyOf m.runs run = some key := fun run hr =>
    h.numbered.latest key run (by rw [runOf, hreg]; exact hr)
  refine ⟨h.numbered, h.served.request hrun nofun, ?_, ?_⟩
  · refine h.queued.request ht ?_ ?_ fun run hr id hstart => ?_
    · cases hr : m.requests.lookup m.requestCount with
      | none => rfl
      | some r => exact absurd (h.served.counted _ r hr) (Nat.lt_irrefl _)
    · rw [stateOf, hreg, map_some, hs]
    · obtain ⟨key', last, hk, hlast, hlt⟩ := h.numbered.started id run hstart
      cases (hrun run hr).symm.trans hk
      rw [runOf, hreg, Option.bind_some, hr] at hlast
      cases hlast
      exact Nat.lt_irrefl _ hlt
  · refine h.alive.move (fun w₁ key' _ run r _ _ h₁ hl _ _ => ?_) nofun
    cases h₁.symm.trans ht
    cases hl

theorem Kept.resume (h : m.Kept) {after : After}
    (ht : m.threads.lookup i = some (.claiming key after))
    (hs : stateOf m.tasks key = none ∨ stateOf m.tasks key = some .running) :
    (m.goOn i after.resume).Kept := by
  refine ⟨h.numbered, h.served, h.queued.move ?_ (fun e he => ?_) ?_ (fun w₁ h₁ e he => ?_)
    (fun hd => ?_) (fun key' request rest hw => ?_) (fun key' request hw => ?_)
    (fun w₁ h₁ hd => ?_),
    h.alive.move (fun w₁ key' _ run r _ _ h₁ hl _ _ => ?_) fun key' run hr => ?_⟩
  · exact h.queued.locked.update ht fun _ hk => holds_resume hk
  · rw [entries_resume] at he
    refine ⟨_, ht, ?_⟩
    cases after with
    | drain request rest => exact List.mem_cons_of_mem _ he
    | _ => cases he
  · rw [entries_resume]
    have hnodup := h.queued.distinct i _ ht
    cases after with
    | drain request rest => exact (List.nodup_cons.mp hnodup).2
    | _ => exact List.nodup_nil
  · cases h₁.symm.trans ht
    rw [entries_resume]
    cases after with
    | drain request rest =>
      rcases List.mem_cons.mp he with rfl | he
      · obtain ⟨hreg, hsat⟩ := h.queued.claims i key request rest ht
        exact .inr (hsat (hs.resolve_left hreg))
      · exact .inl ⟨e, he, rfl⟩
    | _ => cases he
  · exact h.queued.emptied i _ ht ((drains_resume after).symm.trans hd)
  · cases after <;> cases hw
  · cases after <;> cases hw
  · cases h₁.symm.trans ht
    cases hd
  · cases h₁.symm.trans ht
    cases hl
  · cases (ofRun_resume after).symm.trans hr

/-- The request that starts a run was made during a run of its task, and starts no other run. -/
theorem Kept.starter (h : m.Kept) {after : After} {run : Nat}
    (ht : m.threads.lookup i = some (.claiming key after)) (hs : m.starter after = some run) :
    keyOf m.runs run = some key ∧ ∀ id, starterOf m.runs id ≠ some run := by
  cases after with
  | drain id rest =>
    obtain ⟨request, hr, hd⟩ := Option.bind_eq_some_iff.mp hs
    obtain ⟨request', hr', hkey, hfresh⟩ := h.queued.known { key := key, request := id }
      (.inr ⟨i, _, ht, List.mem_cons_self⟩)
    cases hr.symm.trans hr'
    exact ⟨(h.served.made id request run hr hd).trans (congrArg some hkey), hfresh run hd⟩
  | _ => cases hs

theorem Kept.lookup_claimRequests (h : m.Kept) {after : After} {id : Nat} {request : Request}
    (hr : m.requests.lookup id = some request) :
    (m.claimRequests key after).lookup id = some (serve key m.runCount request) := by
  have hmap : (KeyedMap.mapValues (fun _ r => serve key m.runCount r) m.requests).lookup id =
      some (serve key m.runCount request) := by
    rw [lookup_mapValues, hr, map_some]
  unfold claimRequests
  dsimp only
  split
  · rw [AList.lookup_insert_ne (Nat.ne_of_lt (h.served.counted id request hr))]
    exact hmap
  · exact hmap

theorem of_lookup_claimRequests {after : After} {id : Nat} {request' : Request}
    (hr : (m.claimRequests key after).lookup id = some request') : request'.servedBy ≠ none ∨
      ∃ request, m.requests.lookup id = some request ∧
        request' = serve key m.runCount request := by
  have hmap : (KeyedMap.mapValues (fun _ r => serve key m.runCount r) m.requests).lookup id =
      some request' → ∃ request, m.requests.lookup id = some request ∧
        request' = serve key m.runCount request := by
    intro hr
    rw [lookup_mapValues] at hr
    obtain ⟨request, hold, rfl⟩ := map_eq_some_iff.mp hr
    exact ⟨request, hold, rfl⟩
  unfold claimRequests at hr
  dsimp only at hr
  split at hr
  · rw [lookup_insert_eq] at hr
    split at hr
    · cases hr
      exact .inl nofun
    · exact .inr (hmap hr)
  · exact .inr (hmap hr)

theorem Kept.claim (h : m.Kept) {after : After}
    (ht : m.threads.lookup i = some (.claiming key after)) (hreg : m.tasks.lookup key = some reg)
    (hlive : w'.liveRun = some (key, m.runCount)) (hw : w'.holds = after.holds)
    (hentries : w'.entries = after.rest) (hdrains : w'.drains = after.drains)
    (hclaiming : ∀ key after, w' ≠ .claiming key after)
    (hpushing : ∀ key request, w' ≠ .pushing key request) :
    ((m.claim key reg after).goOn i w').Kept := by
  have hkey := fun run =>
    keyOf_insert m.runs m.runCount run { key := key, starter := m.starter after }
  have hserved := h.served.claim h.numbered.claimed hkey
  refine ⟨?_, ?_, ?_, ?_⟩
  · exact h.numbered.claim (fun key' => runOf_insert m.tasks key key' _) hkey
      (fun run => starterOf_insert m.runs m.runCount run _) fun run hs => h.starter ht hs
  · show Served _ (m.claimRequests key after)
      (if after.accepts then m.requestCount + 1 else m.requestCount)
    unfold claimRequests
    dsimp only
    split
    · refine hserved.request nofun fun run hs => ?_
      cases hs
      exact ⟨(hkey m.runCount).trans (if_pos rfl), rfl⟩
    · exact hserved
  · refine h.queued.claim ht (fun key' => stateOf_insert m.tasks key key' _)
      (fun run => starterOf_insert m.runs m.runCount run _)
      (fun id request' hr => of_lookup_claimRequests hr)
      (fun id request hr => h.lookup_claimRequests hr) (fun run hs => ?_)
      (fun id id' r r' run hr hr' hd hd' => ?_) hw hentries hdrains hclaiming hpushing
    · cases after with
      | drain id rest =>
        obtain ⟨request, hr, hd⟩ := Option.bind_eq_some_iff.mp hs
        exact ⟨id, rest, request, rfl, hr, hd⟩
      | _ => cases hs
    · exact Option.some.inj ((h.served.made id r run hr hd).symm.trans
        (h.served.made id' r' run hr' hd'))
  · refine h.alive.claim h.numbered.claimed (fun run ha => h.alive.handles key reg run hreg ha)
      (fun w₁ h₁ => ?_) rfl rfl hlive rfl
    cases h₁.symm.trans ht
    rfl

theorem Kept.hand (h : m.Kept) {j run : Nat} {after : After}
    (ht : m.threads.lookup i = some (.spawning key run after)) (hj : m.threads.lookup j = none) :
    Kept { m with threads :=
      (m.threads.insert j (.executing key run)).insert i (.storing key run after) } := by
  have hspawned := h.queued.pass (i := j) (.executing key run)
    (h.queued.locked.insert nofun) rfl (fun w₁ h₁ => by cases hj.symm.trans h₁) rfl
  have ht' : (m.threads.insert j (.executing key run)).lookup i =
      some (.spawning key run after) := by
    rw [AList.lookup_insert_ne]
    · exact ht
    · rintro rfl
      cases hj.symm.trans ht
  refine ⟨h.numbered, h.served, ?_, h.alive.hand ht hj⟩
  refine hspawned.move (hspawned.locked.update ht' fun _ hk => hk) (fun e he => ⟨_, ht', he⟩)
    (hspawned.distinct i (.spawning key run after) ht') (fun w₁ h₁ e he => ?_)
    (hspawned.emptied i (.spawning key run after) ht') nofun nofun fun w₁ h₁ hd => ?_
  · cases h₁.symm.trans ht'
    exact .inl ⟨e, he, rfl⟩
  · cases h₁.symm.trans ht'
    cases hd

theorem Kept.store (h : m.Kept) {run : Nat} {after : After}
    (ht : m.threads.lookup i = some (.storing key run after)) :
    ((m.storeAbort key run).goOn i after.resume).Kept := by
  have hqueued : Queued (stateOf m.tasks) (starterOf m.runs) m.busyQueue
      (m.threads.insert i after.resume) m.requests := by
    refine h.queued.move (h.queued.locked.update ht fun _ hk => holds_resume hk)
      (fun e he => ⟨_, ht, by rw [entries_resume] at he; exact he⟩) ?_ (fun w₁ h₁ e he => ?_)
      (fun hd => h.queued.emptied i _ ht ((drains_resume after).symm.trans hd))
      (fun key' request rest hw => ?_) (fun key' request hw => ?_) fun w₁ h₁ hd => ?_
    · rw [entries_resume]
      exact h.queued.distinct i _ ht
    · cases h₁.symm.trans ht
      rw [entries_resume]
      exact .inl ⟨e, he, rfl⟩
    · cases after <;> cases hw
    · cases after <;> cases hw
    · cases h₁.symm.trans ht
      cases hd
  have halive : Alive m.tasks (m.threads.insert i after.resume) m.runs := by
    refine h.alive.move (fun w₁ key' _ run r _ _ h₁ hl _ _ => ?_) fun key' run' hr => ?_
    · cases h₁.symm.trans ht
      cases hl
    · cases (ofRun_resume after).symm.trans hr
  have hsame : (m.goOn i after.resume).Kept := ⟨h.numbered, h.served, hqueued, halive⟩
  unfold storeAbort
  split
  · next reg hreg =>
    split
    · next hs =>
      have hstate : stateOf (m.tasks.insert key { reg with abort := some run }) =
          stateOf m.tasks := by
        funext key'
        rw [stateOf_insert]
        split
        · next heq => rw [heq, stateOf, hreg, map_some]
        · rfl
      have hrun := runOf_insert_same { reg with abort := some run } hreg rfl
      refine ⟨?_, h.served, ?_, ?_⟩
      · exact hrun.symm ▸ h.numbered
      · exact hstate.symm ▸ hqueued
      · refine halive.retask _ _ (fun _ => rfl) (fun _ _ r _ _ hr => ⟨r, hr, rfl⟩)
          (.inr ⟨hreg, rfl, rfl, fun _ r hr => ⟨r, hr, rfl⟩⟩) fun run' hr => ?_
        cases hr
        exact h.alive.names i _ key run ht rfl
    · exact hsame
  · exact hsame

theorem Kept.idle (h : m.Kept) (hreg : m.tasks.lookup key = some reg) {runs' : KeyedMap Nat Run}
    (hkey : keyOf runs' = keyOf m.runs) (hstarter : starterOf runs' = starterOf m.runs)
    (hother : ∀ run key' r, keyOf m.runs run = some key' → key' ≠ key →
      m.runs.lookup run = some r → ∃ r', runs'.lookup run = some r' ∧ r'.aborted = r.aborted)
    (lastResult : Option TaskResult) (hdue : w'.due = true)
    (hold : ∀ w, m.threads.lookup i = some w → w.entries = [] ∧
      ∀ key' run, w.liveRun = some (key', run) → key' = key) :
    Kept { m with
      tasks :=
        m.tasks.insert key { reg with state := .idle, lastResult := lastResult, abort := none }
      runs := runs'
      threads := m.threads.insert i w' } := by
  have hw : w'.holds = none ∧ w'.entries = [] ∧ w'.drains = false ∧ w'.ofRun = none := by
    cases w' with
    | stopping | waiting => exact ⟨rfl, rfl, rfl, rfl⟩
    | _ => cases hdue
  obtain ⟨hheld, hnone, hdrains, hof⟩ := hw
  have hrun := runOf_insert_same
    { reg with state := .idle, lastResult := lastResult, abort := none } hreg rfl
  have hstate := fun key' => stateOf_insert m.tasks key key'
    { reg with state := .idle, lastResult := lastResult, abort := none }
  refine ⟨?_, ?_, ?_, ?_⟩
  · show Numbered (runOf (m.tasks.insert key _)) (keyOf runs') (starterOf runs') m.runCount
    rw [hrun, hkey, hstarter]
    exact h.numbered
  · show Served (keyOf runs') m.requests m.requestCount
    rw [hkey]
    exact h.served
  · show Queued (stateOf (m.tasks.insert key _)) (starterOf runs') m.busyQueue
      (m.threads.insert i w') m.requests
    rw [hstarter]
    have hpass := h.queued.pass (i := i) w'
      (h.queued.locked.insert fun k hk => by cases hheld.symm.trans hk) hnone
      (fun w₁ h₁ => ⟨(hold w₁ h₁).1, fun _ => hdue⟩) hdrains
    refine hpass.restate (fun key' hs => ?_) (fun key' hs => ?_)
      fun _ _ => .inr ⟨i, w', AList.lookup_insert m.threads, hdue⟩
    · rw [hstate]
      split
      · exact nofun
      · exact hs
    · rw [hstate] at hs
      split at hs
      · cases hs
      · exact hs
  · have hidle := h.alive.retask reg
      { reg with state := .idle, lastResult := lastResult, abort := none }
      (fun run => congrFun hkey run) hother (.inl rfl) nofun
    refine hidle.move (fun w₁ key' reg' run r hr hs h₁ hl _ _ => ?_) fun key' run hr => ?_
    · cases (hold w₁ h₁).2 key' run hl
      rw [AList.lookup_insert] at hr
      cases hr
      cases hs
    · cases hof.symm.trans hr

theorem Kept.record (h : m.Kept) {run : Nat} {status : TaskCompletionStatus}
    (ht : m.threads.lookup i = some (.recording key run status)) :
    ((m.recordResult key { status := status, run := some run }).goOn i .waiting).Kept := by
  unfold recordResult
  split
  · next reg hreg =>
    have hkeep : ∀ id r, (if some run = some id then
        { r with results := r.results + 1 } else r : Run).key = r.key ∧
        (if some run = some id then { r with results := r.results + 1 } else r : Run).starter =
          r.starter ∧
        (if some run = some id then { r with results := r.results + 1 } else r : Run).aborted =
          r.aborted := by
      intro id r
      split <;> exact ⟨rfl, rfl, rfl⟩
    refine h.idle hreg (keyOf_mapValues fun id r => (hkeep id r).1)
      (starterOf_mapValues fun id r => (hkeep id r).2.1) (fun id key' r _ _ hr => ?_) _ rfl
      fun w₁ h₁ => ?_
    · exact ⟨_, (lookup_mapValues ..).trans (congrArg (Option.map _) hr), (hkeep id r).2.2⟩
    · cases h₁.symm.trans ht
      exact ⟨rfl, fun key' run' hl => by cases hl; rfl⟩
  · next hnone =>
    refine ⟨h.numbered, h.served, h.queued.pass _ (h.queued.locked.insert nofun) rfl
      (fun w₁ h₁ => ?_) rfl, h.alive.move (fun w₁ key' reg' run' r hr _ h₁ hl _ _ => ?_) nofun⟩
    · cases h₁.symm.trans ht
      exact ⟨rfl, nofun⟩
    · cases h₁.symm.trans ht
      cases hl
      cases hnone.symm.trans hr

theorem Kept.stop (h : m.Kept) (hnew : m.threads.lookup i = none)
    (hreg : m.tasks.lookup key = some reg) (status : TaskCompletionStatus) :
    (m.stopRun i key reg status).Kept := by
  have hcount : ∀ id r, (if reg.run = some id then
      { r with results := r.results + 1 } else r : Run).key = r.key ∧
      (if reg.run = some id then { r with results := r.results + 1 } else r : Run).starter =
        r.starter ∧
      (if reg.run = some id then { r with results := r.results + 1 } else r : Run).aborted =
        r.aborted := by
    intro id r
    split <;> exact ⟨rfl, rfl, rfl⟩
  have habort : ∀ id r, (if reg.abort = some id then { r with aborted := true } else r : Run).key =
      r.key ∧ (if reg.abort = some id then { r with aborted := true } else r : Run).starter =
        r.starter := by
    intro id r
    split <;> exact ⟨rfl, rfl⟩
  refine h.idle hreg ?_ ?_ (fun id key' r hk hne hr => ?_) _ rfl
    fun w₁ h₁ => by cases hnew.symm.trans h₁
  · exact (keyOf_mapValues fun id r => (habort id r).1).trans
      (keyOf_mapValues fun id r => (hcount id r).1)
  · exact (starterOf_mapValues fun id r => (habort id r).2).trans
      (starterOf_mapValues fun id r => (hcount id r).2.1)
  · refine ⟨_, (lookup_mapValues ..).trans (congrArg (Option.map _)
      ((lookup_mapValues ..).trans (congrArg (Option.map _) hr))), ?_⟩
    -- the handle is of a run of this task
    beta_reduce
    rw [if_neg ?_]
    · exact (hcount id r).2.2
    · intro ha
      exact hne (Option.some.inj (hk.symm.trans (h.alive.handles key reg id hreg ha)))

theorem Kept.drain (h : m.Kept) {request : QueuedRun} {rest : List QueuedRun}
    (ht : m.threads.lookup i = some (.draining (request :: rest)))
    (hw : w' = .claiming request.key (.drain request.request rest) ∧ m.isIdle request.key = true ∨
      w' = .draining rest ∧ Satisfied m.requests request.key) : (m.goOn i w').Kept := by
  have hnodup := h.queued.distinct i _ ht
  have hemptied := h.queued.emptied i _ ht rfl
  rcases hw with ⟨rfl, hidle⟩ | ⟨rfl, hsat⟩
  · obtain ⟨reg, hreg, hstate⟩ := (Option.any_eq_true ..).mp hidle
    refine ⟨h.numbered, h.served, h.queued.move (h.queued.locked.update ht fun _ hk => hk)
      (fun e he => ⟨_, ht, he⟩) hnodup (fun w₁ h₁ e he => ?_) (fun _ => hemptied)
      (fun key' request' rest' heq => ?_) nofun (fun w₁ h₁ hd => ?_),
      h.alive.move (fun w₁ key' _ run r _ _ h₁ hl _ _ => ?_) nofun⟩
    · cases h₁.symm.trans ht
      exact .inl ⟨e, he, rfl⟩
    · cases heq
      rw [stateOf, hreg, map_some]
      refine ⟨nofun, fun hs => ?_⟩
      rw [Option.some.inj hs] at hstate
      cases hstate
    · cases h₁.symm.trans ht
      cases hd
    · cases h₁.symm.trans ht
      cases hl
  · refine ⟨h.numbered, h.served, h.queued.move (h.queued.locked.update ht fun _ hk => hk)
      (fun e he => ⟨_, ht, List.mem_cons_of_mem _ he⟩) (List.nodup_cons.mp hnodup).2
      (fun w₁ h₁ e he => ?_) (fun _ => hemptied) nofun nofun (fun w₁ h₁ hd => ?_),
      h.alive.move (fun w₁ key' _ run r _ _ h₁ hl _ _ => ?_) nofun⟩
    · cases h₁.symm.trans ht
      rcases List.mem_cons.mp he with rfl | he
      · exact .inr hsat
      · exact .inl ⟨e, he, rfl⟩
    · cases h₁.symm.trans ht
      cases hd
    · cases h₁.symm.trans ht
      cases hl

theorem Kept.register (h : m.Kept) (hnew : m.tasks.lookup key = none) :
    Kept { m with tasks := m.tasks.insert key { lastResult := m.stored.lookup key } } := by
  have hrun : runOf (m.tasks.insert key { lastResult := m.stored.lookup key }) = runOf m.tasks := by
    funext key'
    rw [runOf_insert]
    split
    · next heq => rw [heq, runOf, hnew, Option.bind_none]
    · rfl
  have hstate := fun key' => stateOf_insert m.tasks key key' { lastResult := m.stored.lookup key }
  have hnone : ∀ {key'}, stateOf m.tasks key' ≠ none → key' ≠ key := by
    rintro key' hs rfl
    exact hs (by rw [stateOf, hnew, Option.map_none])
  have hkeep : ∀ {key'}, stateOf m.tasks key' ≠ none →
      stateOf (m.tasks.insert key { lastResult := m.stored.lookup key }) key' =
        stateOf m.tasks key' := by
    intro key' hs
    rw [hstate, if_neg (hnone hs)]
  refine ⟨hrun.symm ▸ h.numbered, h.served, h.queued.restate (fun key' hs => ?_) (fun key' hs => ?_)
    fun key' hs => ?_, h.alive.retask {} _ (fun _ => rfl) (fun _ _ r _ _ hr => ⟨r, hr, rfl⟩)
    (.inl rfl) nofun⟩
  · exact (hkeep hs).symm ▸ hs
  · rw [hstate] at hs
    split at hs
    · cases hs
    · exact hs
  · exact .inl ((hkeep (by rw [hs]; exact nofun)).trans hs)

theorem Kept.next {answer : Answer} (h : m.Kept) (ht : m.threads.lookup i = some w)
    (hset : m.kept (.step i answer) = true) (hn : w.next m answer = some (m', w')) :
    (m'.goOn i w').Kept := by
  simp only [kept, ht] at hset
  have hsame : ∀ {w'}, (∀ k, w'.holds = some k → w.holds = some k) →
      Exclusive Work.holds (m.threads.insert i w') := fun hk => h.queued.locked.update ht hk
  cases w with
  | locking key =>
    cases answer <;> simp only [Work.next, reduceCtorEq] at hn
    split at hn <;> cases hn
    next hfree =>
    exact h.pass ht _ (h.queued.locked.take rfl hfree) rfl rfl
      (fun hd => by cases hd) rfl (.inl rfl) (.inl rfl)
  | asking key =>
    cases answer <;> simp only [Work.next, reduceCtorEq] at hn
    split at hn
    · next reg hreg =>
      split at hn <;> cases hn
      · exact h.pass ht _ (hsame fun _ hk => hk) rfl rfl
          (fun hd => by cases hd) rfl (.inl rfl) (.inl rfl)
      · next hs =>
        refine h.request ht hreg ?_
        cases hs' : reg.state with
        | idle => exact absurd hs' hs
        | running => rfl
    · cases hn
      exact h.pass ht _ (hsame fun _ hk => by cases hk) rfl rfl
        (fun hd => by cases hd) rfl (.inl rfl) (.inl rfl)
  | pushing key request =>
    cases answer <;> cases hn
    refine ⟨h.numbered, h.served, h.queued.push ht,
      h.alive.move (fun w₁ key' _ run r _ _ h₁ hl _ _ => ?_) fun _ _ hr => by cases hr⟩
    cases h₁.symm.trans ht
    cases hl
  | claiming key after =>
    cases answer <;> simp only [Work.next, reduceCtorEq] at hn
    split at hn
    · next reg hreg =>
      split at hn <;> cases hn
      · next hs =>
        refine h.resume ht (.inr ?_)
        rw [stateOf, hreg, map_some, hs]
      · cases after <;> exact h.claim ht hreg rfl rfl rfl rfl (fun _ _ he => by cases he)
          fun _ _ he => by cases he
    · next hnone =>
      cases hn
      refine h.resume ht (.inl ?_)
      rw [stateOf, hnone]
      rfl
  | spawning key run after =>
    cases answer <;> simp only [Work.next, reduceCtorEq] at hn
    split at hn
    · cases hn
    · next hj =>
      cases hn
      exact h.hand ht (by simpa using hj)
  | storing key run after =>
    cases answer <;> cases hn
    exact h.store ht
  | executing key run =>
    cases answer with
    | ended status =>
      cases hn
      exact h.pass ht _ (hsame fun _ hk => by cases hk) rfl rfl
        (fun hd => by cases hd) rfl (.inr rfl) (.inr rfl)
    | dropped =>
      simp only [Work.next] at hn
      split at hn <;> cases hn
      next hab =>
      refine ⟨h.numbered, h.served,
        h.queued.pass _ (hsame fun _ hk => by cases hk) rfl (fun w₁ h₁ => ?_) rfl,
        h.alive.move (fun w₁ key' _ run' r _ _ h₁ hl hr hnot => ?_) fun _ _ hr => by cases hr⟩
      · cases h₁.symm.trans ht
        exact ⟨rfl, fun hd => by cases hd⟩
      · cases h₁.symm.trans ht
        cases hl
        rw [hr, Option.any_some, hnot] at hab
        cases hab
    | _ => cases hn
  | persisting key run status =>
    cases answer <;> cases hn
    have hpass := h.pass ht (.recording key run status) (hsame fun _ hk => by cases hk) rfl rfl
      (fun hd => by cases hd) rfl (.inr rfl) (.inr rfl)
    exact ⟨hpass.numbered, hpass.served, hpass.queued, hpass.alive⟩
  | recording key run status =>
    cases answer <;> cases hn
    exact h.record ht
  | stopping key result =>
    cases answer <;> cases hn
    have hpass := h.pass ht .waiting (hsame fun _ hk => by cases hk) rfl rfl
      (fun _ => rfl) rfl (.inl rfl) (.inl rfl)
    exact ⟨hpass.numbered, hpass.served, hpass.queued, hpass.alive⟩
  | waiting =>
    cases answer <;> simp only [Work.next, reduceCtorEq] at hn
    split at hn <;> cases hn
    next hfree =>
    refine ⟨h.numbered, h.served, h.queued.take ht hfree,
      h.alive.move (fun w₁ key' _ run r _ _ h₁ hl _ _ => ?_) fun _ _ hr => by cases hr⟩
    cases h₁.symm.trans ht
    cases hl
  | draining requests =>
    cases answer <;> cases requests <;> cases hn
    · exact h.pass ht _ (hsame fun _ hk => by cases hk) rfl rfl
        (fun hd => by cases hd) rfl (.inl rfl) (.inl rfl)
    · next request rest =>
      refine h.drain ht ?_
      split
      · next hidle => exact .inl ⟨rfl, hidle⟩
      · next hbusy =>
        refine .inr ⟨rfl, fun id r hr hkey hun => ?_⟩
        rcases Bool.or_eq_true_iff.mp hset with hidle | hall
        · exact hbusy hidle
        · have hr' := List.all_eq_true.mp hall r (KeyedMap.mem_values_of_lookup hr)
          simp [hkey, hun] at hr'
  | gone => cases answer <;> cases hn

theorem Kept.step {event : Event} (h : m.Kept) (hset : m.kept event = true)
    (hs : m.step event = some m') : m'.Kept := by
  cases event with
  | register key =>
    simp only [Manager.step] at hs
    split at hs
    · cases hs
    · next hnew =>
      cases hs
      exact h.register (by simpa using hnew)
  | runNow i key => exact h.start hs rfl rfl rfl rfl
  | queue i key => exact h.start hs rfl rfl rfl rfl
  | queueScheduled i key => exact h.start hs rfl rfl rfl rfl
  | stop i key status =>
    simp only [Manager.step] at hs
    split at hs
    · cases hs
    · next hnew =>
      split at hs
      · next reg hreg =>
        split at hs <;> cases hs
        · exact h.stop (by simpa using hnew) hreg status
        · exact h
      · cases hs
        exact h
  | step i answer =>
    obtain ⟨w, ht, hs⟩ := Option.bind_eq_some_iff.mp hs
    obtain ⟨⟨m'', w'⟩, hn, rfl⟩ := map_eq_some_iff.mp hs
    exact h.next ht hset hn

theorem Kept.start_empty (stored : KeyedMap String TaskResult) :
    Kept { stored := stored } := by
  refine ⟨⟨fun run key hk => ?_, fun key run hr => ?_, fun id run hs => ?_, fun a b run ha => ?_⟩,
    ⟨fun id r hr => ?_, fun id r run hr => ?_, fun id r run hr => ?_⟩, .empty,
    ⟨fun key reg hreg => ?_, fun i w key run ht => ?_, fun key reg run hreg => ?_⟩⟩
  · cases hk
  · cases hr
  · cases hs
  · cases ha
  · cases hr
  · cases hr
  · cases hr
  · cases hreg
  · cases ht
  · cases hreg

def AtRest (m : Manager) : Prop := ∀ i w, m.threads.lookup i = some w → w = .gone

def Drains (m : Manager) : Prop :=
  ∃ i w, m.threads.lookup i = some w ∧ (w.due = true ∨ w.drains = true)

theorem drains_of_mem_entries {entry : QueuedRun} (h : entry ∈ w.entries) :
    (∃ request, w = .pushing entry.key request) ∨ w.drains = true := by
  cases w with
  | pushing key request =>
    cases List.mem_singleton.mp h
    exact .inl ⟨request, rfl⟩
  | draining => exact .inr rfl
  | claiming key after | spawning key run after | storing key run after =>
    cases after <;> first | exact .inr rfl | cases h
  | _ => cases h

/-- The task of a request that nothing served is running, or a drain is due or under way. -/
theorem Kept.busy (h : m.Kept) {entry : QueuedRun}
    (hp : Pending m.busyQueue m.threads entry) :
    stateOf m.tasks entry.key = some .running ∨ m.Drains := by
  have hdue : Busy (stateOf m.tasks) m.threads entry.key →
      stateOf m.tasks entry.key = some .running ∨ m.Drains :=
    Or.imp_right fun ⟨i, w, hw, hd⟩ => ⟨i, w, hw, .inl hd⟩
  rcases hp with hq | ⟨i, w, hw, he⟩
  · exact hdue (h.queued.busy entry hq)
  · rcases drains_of_mem_entries he with ⟨request, rfl⟩ | hd
    · exact hdue (h.queued.pushes i entry.key request hw)
    · exact .inr ⟨i, w, hw, .inr hd⟩

theorem Kept.rest (h : m.Kept) (hrest : m.AtRest) {entry : QueuedRun} :
    ¬ Pending m.busyQueue m.threads entry := by
  intro hp
  rcases h.busy hp with hs | ⟨i, w, hw, hd⟩
  · obtain ⟨reg, hreg, hs⟩ := map_eq_some_iff.mp hs
    obtain ⟨run, i, w, r, -, hw, hl, -⟩ := h.alive.live entry.key reg hreg hs
    rw [hrest i w hw] at hl
    cases hl
  · rw [hrest i w hw] at hd
    rcases hd with hd | hd <;> cases hd

end Manager

/-- **Where no drain comes to a request whose task still has the run during which it was made, every
accepted request is served by a run that was claimed since, or it is remembered while its task runs
or a drain is due or under way; the queue has no request of an idle task unless a drain is due; the
requests that were made during one run start one run; and when every thread is gone, every
accepted request is served.** -/
theorem requests_kept {stored : KeyedMap String TaskResult} {m : Manager}
    (hp : taskManager.Path (fun m event => m.kept event = true) { stored := stored } m) :
    (∀ id request run, m.requests.lookup id = some request → request.servedBy = some run →
      keyOf m.runs run = some request.key ∧ ∀ run', request.during = some run' → run' < run) ∧
    (∀ id request, m.requests.lookup id = some request → request.servedBy = none →
      (∃ entry, Pending m.busyQueue m.threads entry ∧ entry.key = request.key) ∧
      (stateOf m.tasks request.key = some .running ∨ m.Drains)) ∧
    (∀ entry ∈ m.busyQueue, stateOf m.tasks entry.key = some .running ∨ m.Drains) ∧
    (∀ a b run, starterOf m.runs a = some run → starterOf m.runs b = some run → a = b) ∧
    (m.AtRest → m.busyQueue = [] ∧
      ∀ id request, m.requests.lookup id = some request → request.servedBy ≠ none) := by
  have h : m.Kept := Machine.Path.invariant (I := Manager.Kept) hp (Manager.Kept.start_empty stored)
    fun _ _ _ hm hset hs => hm.step hset hs
  refine ⟨h.served.served, fun id request hr hun => ?_, fun entry he => h.busy (.inl he),
    h.numbered.once, fun hrest => ⟨?_, fun id request hr hun => ?_⟩⟩
  · obtain ⟨entry, hpending, hkey⟩ := h.queued.waits id request hr hun
    exact ⟨⟨entry, hpending, hkey⟩, hkey ▸ h.busy hpending⟩
  · exact List.eq_nil_iff_forall_not_mem.mpr fun entry he => h.rest hrest (.inl he)
  · obtain ⟨entry, hpending, -⟩ := h.queued.waits id request hr hun
    exact h.rest hrest hpending

def requested (i : Nat) (key : String) : List Event :=
  [.queueScheduled i key, .step i .nothing, .step i .nothing, .step i .nothing]

/-- Two requests during one run, which start one more. -/
theorem requests_kept_twice : ∃ m, taskManager.Path (fun m event => m.kept event = true)
      { stored := ∅ } m ∧ m.requests.entries.length = 2 ∧ m.runCount = 2 ∧
    (m.AtRest → m.busyQueue = [] ∧
      ∀ id request, m.requests.lookup id = some request → request.servedBy ≠ none) := by
  obtain ⟨m, hm, hlength, hc⟩ : ∃ m, taskManager.runWhile (fun m event => m.kept event = true)
      { stored := ∅ } (.register "Scan" :: [Event.queue 0 "Scan", .step 0 .nothing,
        .step 0 (.spawned 1), .step 0 .nothing] ++ requested 2 "Scan" ++ requested 3 "Scan" ++
        [Event.step 1 (.ended .completed), .step 1 .nothing, .step 1 .nothing, .step 1 .nothing,
          .step 1 .nothing, .step 1 .nothing, .step 1 (.spawned 4), .step 1 .nothing,
          .step 1 .nothing, .step 4 (.ended .completed), .step 4 .nothing, .step 4 .nothing,
          .step 4 .nothing, .step 4 .nothing]) = some m ∧
      m.requests.entries.length = 2 ∧ m.runCount = 2 := ⟨_, rfl, rfl, rfl⟩
  have hp := Machine.path_of_runWhile _ hm
  have hall := requests_kept hp
  exact ⟨m, hp, hlength, hc, hall.2.2.2.2⟩

/-- **A drain may drop a request**: two tasks run, one is requested meanwhile, and the other one
completes first. -/
theorem request_dropped : ¬ ∀ m, taskManager.Reachable m → m.AtRest →
    ∀ id request, m.requests.lookup id = some request → request.servedBy ≠ none := by
  intro hall
  obtain ⟨m, hm, hrest, hrequest⟩ : ∃ m, taskManager.run taskManager.init
      ([Event.register "Scan", .register "Clean", .queue 0 "Scan", .step 0 .nothing,
        .step 0 (.spawned 1), .step 0 .nothing, .queue 2 "Clean", .step 2 .nothing,
        .step 2 (.spawned 3), .step 2 .nothing] ++ requested 4 "Scan" ++
        [Event.step 3 (.ended .completed), .step 3 .nothing, .step 3 .nothing, .step 3 .nothing,
          .step 3 .nothing, .step 3 .nothing, .step 1 (.ended .completed), .step 1 .nothing,
          .step 1 .nothing, .step 1 .nothing, .step 1 .nothing]) = some m ∧
      m.threads.entries.all (fun entry => entry.2 matches .gone) = true ∧
      (m.requests.lookup 0).map Request.servedBy = some none :=
      Lib.exists_of_decide (by decide +kernel)
  obtain ⟨request, hr, hun⟩ := map_eq_some_iff.mp hrequest
  refine hall m (Machine.reachable_of_run _ hm) (fun i w hw => ?_) 0 request hr hun
  have hover := List.all_eq_true.mp hrest ⟨i, w⟩ (AList.mem_lookup_iff.mp hw)
  cases w <;> first | rfl | cases hover

end Ferrofin.Tasks
