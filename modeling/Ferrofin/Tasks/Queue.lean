import Ferrofin.Tasks.Manager

/-!
# The busy queue

Who makes a request and who drains the queue holds its lock, so that a request finds the task
running before the run's end, or its drain, is over.  A request that nothing served is in the queue
or in the hands of who has the lock, and the task of an entry is running or a drain is due
(`Queued`).  A drain that comes to a request whose task runs drops it: it is lost where that run
was claimed before the request was made (`Manager.kept`).
-/

namespace Ferrofin.Tasks

open Lib
open KeyedMap (lookup_insert_cases)

def After.rest : After → List QueuedRun
  | .drain _ rest => rest
  | _ => []

def After.drains : After → Bool
  | .drain _ _ => true
  | _ => false

def Work.entries : Work → List QueuedRun
  | .pushing key request => [{ key := key, request := request }]
  | .draining requests => requests
  | .claiming key (.drain request rest) => { key := key, request := request } :: rest
  | .spawning _ _ after | .storing _ _ after => after.rest
  | _ => []

def Work.drains : Work → Bool
  | .draining _ => true
  | .claiming _ after | .spawning _ _ after | .storing _ _ after => after.drains
  | _ => false

def Work.due : Work → Bool
  | .stopping _ _ | .waiting => true
  | _ => false

/-- The state of a task, the run that it was last claimed for, the task of a run, and during which
run the request was made that started it. -/
def stateOf (tasks : KeyedMap String Registration) (key : String) : Option TaskState :=
  (tasks.lookup key).map Registration.state

def runOf (tasks : KeyedMap String Registration) (key : String) : Option Nat :=
  (tasks.lookup key).bind Registration.run

def keyOf (runs : KeyedMap Nat Run) (run : Nat) : Option String := (runs.lookup run).map Run.key

def starterOf (runs : KeyedMap Nat Run) (run : Nat) : Option Nat :=
  (runs.lookup run).bind Run.starter

def Satisfied (requests : KeyedMap Nat Request) (key : String) : Prop :=
  ∀ id request, requests.lookup id = some request → request.key = key → request.servedBy ≠ none

/-- What keeps requests: where a drain comes to a request of a task that runs, the run was claimed
since the requests of the task were made. -/
def Manager.kept (m : Manager) : Event → Bool
  | .step i _ =>
    match m.threads.lookup i with
    | some (.draining (request :: _)) => m.isIdle request.key ||
      (KeyedMap.values m.requests).all fun r => r.key != request.key || r.servedBy.isSome
    | _ => true
  | _ => true

/-- The request is in the queue or in somebody's hands. -/
def Pending (queue : List QueuedRun) (threads : KeyedMap Nat Work) (entry : QueuedRun) : Prop :=
  entry ∈ queue ∨ ∃ i w, threads.lookup i = some w ∧ entry ∈ w.entries

def Busy (stateOf : String → Option TaskState) (threads : KeyedMap Nat Work) (key : String) :
    Prop :=
  stateOf key = some .running ∨ ∃ i w, threads.lookup i = some w ∧ w.due = true

structure Queued (stateOf : String → Option TaskState) (starterOf : Nat → Option Nat)
    (queue : List QueuedRun) (threads : KeyedMap Nat Work) (requests : KeyedMap Nat Request) :
    Prop where
  locked : Exclusive Work.holds threads
  known : ∀ entry, Pending queue threads entry →
    ∃ request, requests.lookup entry.request = some request ∧ request.key = entry.key ∧
      ∀ run, request.during = some run → ∀ id, starterOf id ≠ some run
  distinct : ∀ i w, threads.lookup i = some w → (w.entries.map QueuedRun.key).Nodup
  emptied : ∀ i w, threads.lookup i = some w → w.drains = true → queue = []
  waits : ∀ id request, requests.lookup id = some request → request.servedBy = none →
    ∃ entry, Pending queue threads entry ∧ entry.key = request.key
  claims : ∀ i key request rest, threads.lookup i = some (.claiming key (.drain request rest)) →
    stateOf key ≠ none ∧ (stateOf key = some .running → Satisfied requests key)
  busy : ∀ entry ∈ queue, Busy stateOf threads entry.key
  pushes : ∀ i key request, threads.lookup i = some (.pushing key request) →
    Busy stateOf threads key

/-! ### The first request for each task -/

theorem foldl_keepFirst (queue acc : List QueuedRun) :
    (∀ entry ∈ queue.foldl keepFirst acc, entry ∈ acc ∨ entry ∈ queue) ∧
    (∀ entry, entry ∈ acc ∨ entry ∈ queue →
      ∃ first ∈ queue.foldl keepFirst acc, first.key = entry.key) ∧
    ((acc.map QueuedRun.key).Nodup → ((queue.foldl keepFirst acc).map QueuedRun.key).Nodup) := by
  induction queue generalizing acc with
  | nil => exact ⟨fun _ h => .inl h, fun entry h => ⟨entry, h.resolve_right nofun, rfl⟩, id⟩
  | cons head tail ih =>
    obtain ⟨hsub, hall, hnodup⟩ := ih (keepFirst acc head)
    rw [List.foldl_cons]
    by_cases hnew : acc.all (·.key ≠ head.key) = true
    · have hkeep : keepFirst acc head = acc ++ [head] := if_pos hnew
      rw [hkeep] at hsub hall hnodup ⊢
      refine ⟨fun entry h => ?_, fun entry h => ?_, fun h => hnodup ?_⟩
      · rcases hsub entry h with h' | h'
        · rcases List.mem_append.mp h' with h' | h'
          · exact .inl h'
          · exact .inr (List.mem_singleton.mp h' ▸ List.mem_cons_self)
        · exact .inr (List.mem_cons_of_mem _ h')
      · refine hall entry ?_
        rcases h with h | h
        · exact .inl (List.mem_append_left _ h)
        · rcases List.mem_cons.mp h with rfl | h
          · exact .inl (List.mem_append_right _ (List.mem_singleton_self _))
          · exact .inr h
      · rw [List.map_append, List.map_singleton]
        refine List.Nodup.append h (List.nodup_singleton _) ?_
        rw [List.disjoint_singleton]
        intro hmem
        obtain ⟨entry, hentry, hkey⟩ := List.mem_map.mp hmem
        simpa [hkey] using List.all_eq_true.mp hnew entry hentry
    · have hkeep : keepFirst acc head = acc := if_neg hnew
      rw [hkeep] at hsub hall hnodup ⊢
      refine ⟨fun entry h => (hsub entry h).imp_right (List.mem_cons_of_mem _), fun entry h => ?_,
        hnodup⟩
      rcases h with h | h
      · exact hall entry (.inl h)
      · rcases List.mem_cons.mp h with rfl | h
        · simp only [List.all_eq_true, decide_eq_true_eq, not_forall, not_not] at hnew
          obtain ⟨old, hold, hkey⟩ := hnew
          obtain ⟨first, hfirst, hkey'⟩ := hall old (.inl hold)
          exact ⟨first, hfirst, hkey'.trans hkey⟩
        · exact hall entry (.inr h)

theorem mem_of_mem_firsts {queue : List QueuedRun} {entry : QueuedRun}
    (h : entry ∈ firsts queue) : entry ∈ queue :=
  ((foldl_keepFirst queue []).1 entry h).resolve_left nofun

theorem exists_mem_firsts {queue : List QueuedRun} {entry : QueuedRun} (h : entry ∈ queue) :
    ∃ first ∈ firsts queue, first.key = entry.key :=
  (foldl_keepFirst queue []).2.1 entry (.inr h)

theorem nodup_firsts (queue : List QueuedRun) : ((firsts queue).map QueuedRun.key).Nodup :=
  (foldl_keepFirst queue []).2.2 List.nodup_nil

/-! ### Who has the lock -/

theorem holds_of_mem_entries {w : Work} {entry : QueuedRun} (h : entry ∈ w.entries) :
    w.holds = some () := by
  cases w with
  | pushing | draining => rfl
  | claiming key after | spawning key run after | storing key run after =>
    cases after <;> first | rfl | cases h
  | _ => cases h

theorem holds_of_drains {w : Work} (h : w.drains = true) : w.holds = some () := by
  cases w with
  | draining => rfl
  | claiming key after | spawning key run after | storing key run after =>
    cases after <;> first | rfl | cases h
  | _ => cases h

theorem mem_entries_of_rest {key : String} {after : After} {e : QueuedRun} (he : e ∈ after.rest) :
    e ∈ (Work.claiming key after).entries := by
  cases after with
  | drain request rest => exact List.mem_cons_of_mem _ he
  | _ => cases he

theorem serve_key (key : String) (run : Nat) (r : Request) :
    (Manager.serve key run r).key = r.key := by
  unfold Manager.serve
  split <;> rfl

theorem serve_during (key : String) (run : Nat) (r : Request) :
    (Manager.serve key run r).during = r.during := by
  unfold Manager.serve
  split <;> rfl

section Threads

variable {queue : List QueuedRun} {threads : KeyedMap Nat Work} {i : Nat} {w' : Work}
  {e : QueuedRun}

theorem Pending.of_insert (h : Pending queue (threads.insert i w') e)
    (hin : ∀ e ∈ w'.entries, ∃ w, threads.lookup i = some w ∧ e ∈ w.entries) :
    Pending queue threads e := by
  rcases h with he | ⟨j, b, hb, he⟩
  · exact .inl he
  · rcases lookup_insert_cases hb with ⟨rfl, rfl⟩ | ⟨hj, hb⟩
    · exact .inr ⟨j, hin e he⟩
    · exact .inr ⟨j, b, hb, he⟩

/-- A claim takes the requests for its task alone. -/
theorem Pending.claimed {key : String} {after : After} (h : Pending queue threads e)
    (ht : threads.lookup i = some (.claiming key after)) (hentries : w'.entries = after.rest)
    (hne : e.key ≠ key) : Pending queue (threads.insert i w') e := by
  rcases h with he | ⟨j, b, hb, he⟩
  · exact .inl he
  · by_cases hj : j = i
    · subst hj
      cases hb.symm.trans ht
      refine .inr ⟨j, w', AList.lookup_insert threads, hentries ▸ ?_⟩
      cases after with
      | drain request rest =>
        rcases List.mem_cons.mp he with rfl | he
        · exact absurd rfl hne
        · exact he
      | _ => cases he
    · exact .inr ⟨j, b, (AList.lookup_insert_ne hj).trans hb, he⟩

end Threads

theorem Busy.insert {stateOf : String → Option TaskState} {threads : KeyedMap Nat Work} {i : Nat}
    {w' : Work} {key : String} (h : Busy stateOf threads key)
    (hdue : ∀ w, threads.lookup i = some w → w.due = true → w'.due = true) :
    Busy stateOf (threads.insert i w') key := by
  rcases h with hs | ⟨j, w, hw, hd⟩
  · exact .inl hs
  · by_cases hj : j = i
    · subst hj
      exact .inr ⟨j, w', AList.lookup_insert threads, hdue w hw hd⟩
    · exact .inr ⟨j, w, (AList.lookup_insert_ne hj).trans hw, hd⟩

namespace Queued

variable {stateOf : String → Option TaskState} {starterOf : Nat → Option Nat}
  {queue : List QueuedRun} {threads : KeyedMap Nat Work} {requests : KeyedMap Nat Request}
  {i : Nat} {w w' : Work} {key : String}

theorem empty : Queued stateOf starterOf [] ∅ ∅ := by
  have hthread : ∀ {i w}, (∅ : KeyedMap Nat Work).lookup i ≠ some w := by
    intro i w ht
    cases ht
  refine ⟨.empty, fun entry h => ?_, fun _ _ ht => absurd ht hthread,
    fun _ _ ht => absurd ht hthread, fun id request hr => ?_, fun _ _ _ _ ht => absurd ht hthread,
    nofun, fun _ _ _ ht => absurd ht hthread⟩
  · rcases h with h | ⟨i, w, ht, -⟩
    · cases h
    · exact absurd ht hthread
  · cases hr

/-- A thread goes on, and loses none of the requests it has but those that are served. -/
theorem move (h : Queued stateOf starterOf queue threads requests)
    (hlocked : Exclusive Work.holds (threads.insert i w'))
    (hin : ∀ e ∈ w'.entries, ∃ w, threads.lookup i = some w ∧ e ∈ w.entries)
    (hnodup : (w'.entries.map QueuedRun.key).Nodup)
    (hout : ∀ w, threads.lookup i = some w → ∀ e ∈ w.entries,
      (∃ e' ∈ w'.entries, e'.key = e.key) ∨ Satisfied requests e.key)
    (hdrains : w'.drains = true → queue = [])
    (hclaims : ∀ key request rest, w' = .claiming key (.drain request rest) →
      stateOf key ≠ none ∧ (stateOf key = some .running → Satisfied requests key))
    (hpushes : ∀ key request, w' ≠ .pushing key request)
    (hdue : ∀ w, threads.lookup i = some w → w.due = true → w'.due = true) :
    Queued stateOf starterOf queue (threads.insert i w') requests := by
  refine ⟨hlocked, fun e he => h.known e (he.of_insert hin), fun j b hb => ?_, fun j b hb hd => ?_,
    fun id request hr hs => ?_, fun j key request rest hb => ?_,
    fun e he => (h.busy e he).insert hdue,
    fun j key request hb => ?_⟩
  · rcases lookup_insert_cases hb with ⟨rfl, rfl⟩ | ⟨hj, hb⟩
    · exact hnodup
    · exact h.distinct j b hb
  · rcases lookup_insert_cases hb with ⟨rfl, rfl⟩ | ⟨hj, hb⟩
    · exact hdrains hd
    · exact h.emptied j b hb hd
  · obtain ⟨e, he | ⟨j, b, hb, he⟩, hkey⟩ := h.waits id request hr hs
    · exact ⟨e, .inl he, hkey⟩
    · by_cases hj : j = i
      · subst hj
        rcases hout b hb e he with ⟨e', he', hkey'⟩ | hsat
        · exact ⟨e', .inr ⟨j, w', AList.lookup_insert threads, he'⟩, hkey'.trans hkey⟩
        · exact absurd hs (hsat id request hr hkey.symm)
      · exact ⟨e, .inr ⟨j, b, (AList.lookup_insert_ne hj).trans hb, he⟩, hkey⟩
  · rcases lookup_insert_cases hb with ⟨-, hw⟩ | ⟨hj, hb⟩
    · exact hclaims key request rest hw
    · exact h.claims j key request rest hb
  · rcases lookup_insert_cases hb with ⟨-, hw⟩ | ⟨hj, hb⟩
    · exact absurd hw (hpushes key request)
    · exact (h.pushes j key request hb).insert hdue

theorem pass (h : Queued stateOf starterOf queue threads requests) (w' : Work)
    (hlocked : Exclusive Work.holds (threads.insert i w')) (hnone : w'.entries = [])
    (hold : ∀ w, threads.lookup i = some w → w.entries = [] ∧ (w.due = true → w'.due = true))
    (hdrains : w'.drains = false) :
    Queued stateOf starterOf queue (threads.insert i w') requests := by
  refine h.move hlocked (fun e he => ?_) (hnone ▸ List.nodup_nil) (fun w hw e he => ?_)
    (fun hd => ?_) (fun key request rest hw' => ?_) (fun key request hw' => ?_)
    fun w hw => (hold w hw).2
  · rw [hnone] at he
    cases he
  · rw [(hold w hw).1] at he
    cases he
  · cases hdrains.symm.trans hd
  · rw [hw'] at hdrains
    cases hdrains
  · rw [hw'] at hnone
    cases hnone

/-- The states of the tasks change: none is gone, none starts to run, and where one ends to run a
drain is due. -/
theorem restate (h : Queued stateOf starterOf queue threads requests)
    {stateOf' : String → Option TaskState} (hnone : ∀ key, stateOf key ≠ none → stateOf' key ≠ none)
    (hrunning : ∀ key, stateOf' key = some .running → stateOf key = some .running)
    (hbusy : ∀ key, stateOf key = some .running → Busy stateOf' threads key) :
    Queued stateOf' starterOf queue threads requests := by
  have hbusy' : ∀ {key}, Busy stateOf threads key → Busy stateOf' threads key := by
    rintro key (hs | hd)
    · exact hbusy key hs
    · exact .inr hd
  refine ⟨h.locked, h.known, h.distinct, h.emptied, h.waits, fun j key request rest hb => ?_,
    fun e he => hbusy' (h.busy e he), fun j key request hb => hbusy' (h.pushes j key request hb)⟩
  obtain ⟨hreg, hsat⟩ := h.claims j key request rest hb
  exact ⟨hnone key hreg, fun hs => hsat (hrunning key hs)⟩

theorem request (h : Queued stateOf starterOf queue threads requests) {id : Nat}
    {during : Option Nat} (ht : threads.lookup i = some (.asking key))
    (hnew : requests.lookup id = none) (hs : stateOf key = some .running)
    (hfresh : ∀ run, during = some run → ∀ id, starterOf id ≠ some run) :
    Queued stateOf starterOf queue (threads.insert i (.pushing key id))
      (requests.insert id { key := key, during := during }) := by
  have hne : ∀ {id' r}, requests.lookup id' = some r → id' ≠ id := by
    rintro id' r hr rfl
    cases hnew.symm.trans hr
  have hrequest : ∀ {id' r}, requests.lookup id' = some r →
      (requests.insert id { key := key, during := during }).lookup id' = some r := by
    intro id' r hr
    rw [KeyedMap.lookup_insert_eq, if_neg (hne hr)]
    exact hr
  have hself : (threads.insert i (.pushing key id)).lookup i = some (.pushing key id) :=
    AList.lookup_insert threads
  -- nobody else has the lock
  have hnobody : ∀ {j b}, threads.lookup j = some b → b.holds = some () → j = i := by
    intro j b hb hh
    exact h.locked j i b _ hb ht () hh rfl
  have hbusy : ∀ {key'}, Busy stateOf threads key' →
      Busy stateOf (threads.insert i (.pushing key id)) key' := by
    intro key' hbusy
    refine hbusy.insert fun b hb hd => ?_
    cases hb.symm.trans ht
    cases hd
  refine ⟨h.locked.update ht fun _ hk => hk, fun e he => ?_, fun j b hb => ?_,
    fun j b hb hd => ?_, fun id' r hr hun => ?_, fun j key' request rest hb => ?_,
    fun e he => hbusy (h.busy e he), fun j key' request hb => ?_⟩
  · have hold : ∀ {e}, Pending queue threads e → ∃ r,
        (requests.insert id { key := key, during := during }).lookup e.request = some r ∧
          r.key = e.key ∧ ∀ run, r.during = some run → ∀ id, starterOf id ≠ some run := by
      intro e he
      obtain ⟨r, hr, hkey, hstart⟩ := h.known e he
      exact ⟨r, hrequest hr, hkey, hstart⟩
    rcases he with he | ⟨j, b, hb, he⟩
    · exact hold (.inl he)
    · rcases lookup_insert_cases hb with ⟨rfl, rfl⟩ | ⟨hj, hb⟩
      · cases List.mem_singleton.mp he
        refine ⟨_, (KeyedMap.lookup_insert_eq ..).trans (if_pos rfl), rfl, hfresh⟩
      · exact hold (.inr ⟨j, b, hb, he⟩)
  · rcases lookup_insert_cases hb with ⟨rfl, rfl⟩ | ⟨hj, hb⟩
    · exact List.nodup_singleton _
    · exact h.distinct j b hb
  · rcases lookup_insert_cases hb with ⟨rfl, rfl⟩ | ⟨hj, hb⟩
    · cases hd
    · exact h.emptied j b hb hd
  · rw [KeyedMap.lookup_insert_eq] at hr
    split at hr
    · cases hr
      exact ⟨_, .inr ⟨i, _, hself, List.mem_singleton_self _⟩, rfl⟩
    · obtain ⟨e, he | ⟨j, b, hb, he⟩, hkey⟩ := h.waits id' r hr hun
      · exact ⟨e, .inl he, hkey⟩
      · cases hnobody hb (holds_of_mem_entries he)
        cases hb.symm.trans ht
        cases he
  · rcases lookup_insert_cases hb with ⟨-, hb⟩ | ⟨hj, hb⟩
    · cases hb
    · exact absurd (hnobody hb rfl) hj
  · rcases lookup_insert_cases hb with ⟨rfl, hw⟩ | ⟨hj, hb⟩
    · cases hw
      exact .inl hs
    · exact hbusy (h.pushes j key' request hb)

theorem push (h : Queued stateOf starterOf queue threads requests) {id : Nat}
    (ht : threads.lookup i = some (.pushing key id)) :
    Queued stateOf starterOf (queue ++ [{ key := key, request := id }]) (threads.insert i .gone)
      requests := by
  have hnobody : ∀ {j b}, threads.lookup j = some b → b.holds = some () → j = i := by
    intro j b hb hh
    exact h.locked j i b _ hb ht () hh rfl
  have hbusy : ∀ {key'}, Busy stateOf threads key' →
      Busy stateOf (threads.insert i .gone) key' := by
    intro key' hbusy
    refine hbusy.insert fun b hb hd => ?_
    cases hb.symm.trans ht
    cases hd
  refine ⟨h.locked.insert nofun, fun e he => h.known e ?_, fun j b hb => ?_,
    fun j b hb hd => ?_, fun id' r hr hun => ?_, fun j key' request rest hb => ?_,
    fun e he => ?_, fun j key' request hb => ?_⟩
  · rcases he with he | ⟨j, b, hb, he⟩
    · rcases List.mem_append.mp he with he | he
      · exact .inl he
      · exact .inr ⟨i, _, ht, List.mem_singleton.mp he ▸ List.mem_singleton_self _⟩
    · rcases lookup_insert_cases hb with ⟨rfl, rfl⟩ | ⟨hj, hb⟩
      · cases he
      · exact .inr ⟨j, b, hb, he⟩
  · rcases lookup_insert_cases hb with ⟨rfl, rfl⟩ | ⟨hj, hb⟩
    · exact List.nodup_nil
    · exact h.distinct j b hb
  · rcases lookup_insert_cases hb with ⟨rfl, rfl⟩ | ⟨hj, hb⟩
    · cases hd
    · exact absurd (hnobody hb (holds_of_drains hd)) hj
  · obtain ⟨e, he | ⟨j, b, hb, he⟩, hkey⟩ := h.waits id' r hr hun
    · exact ⟨e, .inl (List.mem_append_left _ he), hkey⟩
    · cases hnobody hb (holds_of_mem_entries he)
      cases hb.symm.trans ht
      exact ⟨e, .inl (List.mem_append_right _ he), hkey⟩
  · rcases lookup_insert_cases hb with ⟨-, hb⟩ | ⟨hj, hb⟩
    · cases hb
    · exact h.claims j key' request rest hb
  · rcases List.mem_append.mp he with he | he
    · exact hbusy (h.busy e he)
    · cases List.mem_singleton.mp he
      exact hbusy (h.pushes i key id ht)
  · rcases lookup_insert_cases hb with ⟨-, hb⟩ | ⟨hj, hb⟩
    · cases hb
    · exact hbusy (h.pushes j key' request hb)

theorem take (h : Queued stateOf starterOf queue threads requests)
    (ht : threads.lookup i = some .waiting) (hfree : lockFree Work.holds () threads = true) :
    Queued stateOf starterOf [] (threads.insert i (.draining (firsts queue))) requests := by
  have hself : (threads.insert i (.draining (firsts queue))).lookup i =
      some (.draining (firsts queue)) := AList.lookup_insert threads
  have hnobody : ∀ {j b}, threads.lookup j = some b → b.holds ≠ some () := fun hb =>
    lock_ne_of_lockFree hfree hb
  refine ⟨h.locked.take rfl hfree, fun e he => h.known e ?_, fun j b hb => ?_,
    fun j b hb hd => rfl, fun id' r hr hun => ?_, fun j key' request rest hb => ?_, nofun,
    fun j key' request hb => ?_⟩
  · rcases he with he | ⟨j, b, hb, he⟩
    · cases he
    · rcases lookup_insert_cases hb with ⟨rfl, rfl⟩ | ⟨hj, hb⟩
      · exact .inl (mem_of_mem_firsts he)
      · exact .inr ⟨j, b, hb, he⟩
  · rcases lookup_insert_cases hb with ⟨rfl, rfl⟩ | ⟨hj, hb⟩
    · exact nodup_firsts queue
    · exact h.distinct j b hb
  · obtain ⟨e, he | ⟨j, b, hb, he⟩, hkey⟩ := h.waits id' r hr hun
    · obtain ⟨first, hfirst, hkey'⟩ := exists_mem_firsts he
      exact ⟨first, .inr ⟨i, _, hself, hfirst⟩, hkey'.trans hkey⟩
    · exact absurd (holds_of_mem_entries he) (hnobody hb)
  · rcases lookup_insert_cases hb with ⟨-, hb⟩ | ⟨hj, hb⟩
    · cases hb
    · exact absurd rfl (hnobody hb)
  · rcases lookup_insert_cases hb with ⟨-, hb⟩ | ⟨hj, hb⟩
    · cases hb
    · exact absurd rfl (hnobody hb)

/-- What a drain has left is of other tasks than the one that it claims. -/
theorem key_ne_of_pending (h : Queued stateOf starterOf queue threads requests) {request : Nat}
    {rest : List QueuedRun} {e : QueuedRun}
    (ht : threads.lookup i = some (.claiming key (.drain request rest)))
    (hentries : w'.entries = rest) (he : Pending queue (threads.insert i w') e) : e.key ≠ key := by
  rcases he with he | ⟨j, b, hb, he⟩
  · rw [h.emptied i _ ht rfl] at he
    cases he
  · rcases lookup_insert_cases hb with ⟨rfl, rfl⟩ | ⟨hj, hb⟩
    · rw [hentries] at he
      rintro rfl
      have hmem : e.key ∈ rest.map QueuedRun.key := List.mem_map_of_mem he
      exact (List.nodup_cons.mp (h.distinct j _ ht)).1 hmem
    · exact absurd (h.locked j i b _ hb ht () (holds_of_mem_entries he) rfl) hj

theorem claim (h : Queued stateOf starterOf queue threads requests) {after : After}
    {stateOf' : String → Option TaskState} {starterOf' : Nat → Option Nat}
    {requests' : KeyedMap Nat Request} {count : Nat} {starter : Option Nat}
    (ht : threads.lookup i = some (.claiming key after))
    (hstate : ∀ key', stateOf' key' = if key' = key then some .running else stateOf key')
    (hstarter : ∀ id, starterOf' id = if id = count then starter else starterOf id)
    (hrequests : ∀ id request', requests'.lookup id = some request' → request'.servedBy ≠ none ∨
      ∃ request, requests.lookup id = some request ∧ request' = Manager.serve key count request)
    (hold : ∀ id request, requests.lookup id = some request →
      requests'.lookup id = some (Manager.serve key count request))
    (hafter : ∀ run, starter = some run → ∃ id rest request, after = .drain id rest ∧
      requests.lookup id = some request ∧ request.during = some run)
    (hmade : ∀ id id' request request' run, requests.lookup id = some request →
      requests.lookup id' = some request' → request.during = some run →
      request'.during = some run → request.key = request'.key)
    (hw : w'.holds = after.holds) (hentries : w'.entries = after.rest)
    (hdrains : w'.drains = after.drains)
    (hclaiming : ∀ key after, w' ≠ .claiming key after)
    (hpushing : ∀ key request, w' ≠ .pushing key request) :
    Queued stateOf' starterOf' queue (threads.insert i w') requests' := by
  have hpending : ∀ {e}, Pending queue (threads.insert i w') e → Pending queue threads e :=
    fun he => he.of_insert fun e he => ⟨_, ht, mem_entries_of_rest (hentries ▸ he)⟩
  have hbusy : ∀ {key'}, Busy stateOf threads key' →
      Busy stateOf' (threads.insert i w') key' := by
    intro key' hb
    have hb' : Busy stateOf (threads.insert i w') key' := hb.insert fun b hb hdue => by
      cases hb.symm.trans ht
      cases hdue
    refine hb'.imp_left fun hs => ?_
    rw [hstate]
    split
    · rfl
    · exact hs
  refine ⟨h.locked.insert fun k hk j b hb hkb => ?_, fun e he => ?_, fun j b hb => ?_,
    fun j b hb hd => ?_, fun id request' hr' hun => ?_, fun j key' request rest hb => ?_,
    fun e he => hbusy (h.busy e he), fun j key' request hb => ?_⟩
  · refine h.locked j i b _ hb ht k hkb ?_
    exact hw.symm.trans hk
  · obtain ⟨request, hr, hkey, hfresh⟩ := h.known e (hpending he)
    rw [← serve_during key count request] at hfresh
    refine ⟨_, hold e.request request hr, (serve_key ..).trans hkey, fun run hrun id hid => ?_⟩
    rw [hstarter] at hid
    split at hid
    · obtain ⟨id', rest, request', hafter', hr', hrun'⟩ := hafter run hid
      subst hafter'
      obtain ⟨first, hfirst, hkey', -⟩ := h.known { key := key, request := id' }
        (.inr ⟨i, _, ht, List.mem_cons_self⟩)
      cases hr'.symm.trans hfirst
      refine h.key_ne_of_pending ht hentries he (hkey.symm.trans ?_)
      rw [serve_during] at hrun
      exact (hmade _ _ request request' run hr hr' hrun hrun').trans hkey'
    · exact hfresh run hrun id hid
  · rcases lookup_insert_cases hb with ⟨rfl, rfl⟩ | ⟨hj, hb⟩
    · rw [hentries]
      have hnodup := h.distinct j _ ht
      cases after with
      | drain request rest => exact (List.nodup_cons.mp hnodup).2
      | _ => exact List.nodup_nil
    · exact h.distinct j b hb
  · rcases lookup_insert_cases hb with ⟨rfl, rfl⟩ | ⟨hj, hb⟩
    · exact h.emptied j _ ht (hdrains.symm.trans hd)
    · exact h.emptied j b hb hd
  · rcases hrequests id request' hr' with hserved | ⟨request, hr, rfl⟩
    · exact absurd hun hserved
    · unfold Manager.serve at hun ⊢
      split at hun
      · cases hun
      · next hnot =>
        rw [if_neg hnot]
        have hkey : request.key ≠ key := fun hkey => hnot ⟨hkey, hun⟩
        obtain ⟨e, he, hkey'⟩ := h.waits id request hr hun
        exact ⟨e, he.claimed ht hentries (hkey' ▸ hkey), hkey'⟩
  · rcases lookup_insert_cases hb with ⟨-, hw⟩ | ⟨hj, hb⟩
    · exact absurd hw (hclaiming _ _)
    · obtain ⟨hreg, hsat⟩ := h.claims j key' request rest hb
      rw [hstate]
      refine ⟨?_, fun hs id request' hr' hkey' => ?_⟩
      · split
        · exact nofun
        · exact hreg
      · rcases hrequests id request' hr' with hserved | ⟨old, hr, rfl⟩
        · exact hserved
        · unfold Manager.serve at hkey' ⊢
          split
          · exact nofun
          · next hnot =>
            rw [if_neg hnot] at hkey'
            split at hs
            · next heq => exact fun hun => hnot ⟨hkey'.trans heq, hun⟩
            · exact hsat hs id old hr hkey'
  · rcases lookup_insert_cases hb with ⟨-, hw⟩ | ⟨hj, hb⟩
    · exact absurd hw (hpushing _ _)
    · exact hbusy (h.pushes j key' request hb)

end Queued

end Ferrofin.Tasks
