import Ferrofin.Lib.Machine
import Ferrofin.Scan.Enqueue

/-!
# Coalescing queued scans

A request that is queued joins an entry, unites with one, takes the place of some,
or makes a new one.  Through all of this each request that nobody withdrew and
whose scan nobody took off the queue belongs to one entry, which counts its waiter
once and does all that the request asks for.
-/

namespace Ferrofin.Scan

open Lib
open List (mem_append mem_filterMap mem_singleton nodup_append nodup_nil)

variable {Search : Type}

/-! ### Entries -/

namespace Waiters

variable {w w' : Waiters Search} {a : Asked Search}

/-- The tickets and the detached count are those of the requests. -/
structure Sound (w : Waiters Search) : Prop where
  tickets : w.tickets = w.asked.filterMap Asked.ticket
  detached : w.detached = w.asked.countP fun a => a.ticket.isNone

theorem Sound.empty : Sound ({} : Waiters Search) := ⟨rfl, rfl⟩

@[simp] theorem asked_add : (w.add a).asked = w.asked ++ [a] := View.asked.add w a

@[simp] theorem asked_absorb : (w.absorb w').asked = w.asked ++ w'.asked := rfl

theorem Sound.add (h : w.Sound) (a : Asked Search) : (w.add a).Sound := by
  rw [Waiters.add]
  split
  · next ticket ht =>
    refine ⟨?_, ?_⟩
    · simp [h.tickets, List.filterMap_append, ht]
    · simp [h.detached, List.countP_append, ht]
  · next ht =>
    refine ⟨?_, ?_⟩
    · simp [h.tickets, List.filterMap_append, ht]
    · simp [h.detached, List.countP_append, ht]

theorem Sound.absorb (h : w.Sound) (h' : w'.Sound) : (w.absorb w').Sound where
  tickets := by
    rw [asked_absorb, List.filterMap_append, ← h.tickets, ← h'.tickets]
    rfl
  detached := by
    rw [asked_absorb, List.countP_append, ← h.detached, ← h'.detached]
    rfl

theorem Sound.retain (h : w.Sound) (ticket : Nat) : (w.retain ticket).Sound where
  tickets := by
    simp only [Waiters.retain, h.tickets]
    generalize w.asked = asked
    induction asked with
    | nil => rfl
    | cons a asked ih =>
      cases ht : a.ticket with
      | none => simp [ht, ih]
      | some t =>
        by_cases he : t = ticket
        · simp [ht, he, ih]
        · simp [ht, he, ih]
  detached := by
    simp only [Waiters.retain, h.detached, List.countP_filter]
    refine List.countP_congr fun a _ => ?_
    cases a.ticket <;> simp

theorem Sound.isEmpty_iff (h : w.Sound) : w.isEmpty = true ↔ w.asked = [] := by
  rw [isEmpty, h.tickets, h.detached]
  constructor
  · intro he
    simp only [Bool.and_eq_true, List.isEmpty_iff, beq_iff_eq, List.countP_eq_zero,
      List.filterMap_eq_nil_iff] at he
    refine List.eq_nil_iff_forall_not_mem.mpr fun a ha => he.2 a ha ?_
    rw [he.1 a ha]
    rfl
  · intro he
    rw [he]
    rfl

end Waiters

/-- **An entry**: it counts its requests, it has one, and it does what each asks. -/
structure PendingScan.Sound (p : PendingScan Search) : Prop where
  waiters : p.waiters.Sound
  wanted : p.waiters.asked ≠ []
  represents : ∀ a ∈ p.waiters.asked, p.request.Represents a.request

namespace PendingScan

variable {p : PendingScan Search} {a : Asked Search}

theorem Sound.single (a : Asked Search) : (PendingScan.single a).Sound where
  waiters := Waiters.Sound.empty.add a
  wanted := by simp [PendingScan.single]
  represents b hb := by
    have he : b = a := by simpa [PendingScan.single] using hb
    exact he ▸ .refl _

theorem Sound.join (h : p.Sound) (ha : p.request.Represents a.request) : (p.join a).Sound where
  waiters := h.waiters.add a
  wanted := by simp [PendingScan.join]
  represents b hb := by
    rw [PendingScan.join, Waiters.asked_add, mem_append, mem_singleton] at hb
    rcases hb with hb | rfl
    · exact h.represents b hb
    · exact ha

end PendingScan

/-! ### Uniting path scans -/

theorem subset_unionPaths (queued new : List String) :
    queued ⊆ unionPaths queued new ∧ new ⊆ unionPaths queued new := by
  induction new generalizing queued with
  | nil => exact ⟨fun _ h => h, List.nil_subset _⟩
  | cons path new ih =>
    rw [unionPaths, List.foldl_cons, ← unionPaths]
    split
    · next hmem =>
      obtain ⟨hq, hn⟩ := ih queued
      exact ⟨hq, List.cons_subset.mpr ⟨hq hmem, hn⟩⟩
    · obtain ⟨hq, hn⟩ := ih (queued ++ [path])
      obtain ⟨hq, hp⟩ := List.append_subset.mp hq
      exact ⟨hq, List.cons_subset.mpr ⟨hp List.mem_cons_self, hn⟩⟩

namespace ScanTarget

variable {queued new scope : ScanTarget}

theorem includes_union_left (h : queued.Includes scope) : (queued.union new).Includes scope := by
  cases queued with
  | paths ps =>
    cases new with
    | paths qs =>
      cases scope with
      | paths ts => exact List.Subset.trans h (subset_unionPaths ps qs).1
      | all | library | changed | items | artist => cases h
    | all | library | changed | items | artist => exact h
  | changed ps =>
    cases new with
    | changed qs =>
      cases scope with
      | changed ts => exact List.Subset.trans h (subset_unionPaths ps qs).1
      | all | library | paths | items | artist => cases h
    | all | library | paths | items | artist => exact h
  | all | library | items | artist => exact h

theorem includes_union_right (h : queued.samePathKind new = true) :
    (queued.union new).Includes new := by
  cases queued <;> cases new <;> first
    | exact (subset_unionPaths _ _).2
    | cases h

theorem isWholeLibraries_of_samePathKind (h : queued.samePathKind new = true) :
    queued.isWholeLibraries = false := by
  cases queued <;> first
    | rfl
    | (cases new <;> cases h)

end ScanTarget

section Enqueue

variable [DecidableEq Search] {a : Asked Search} {scans : List (PendingScan Search)}
  {p : PendingScan Search}

theorem PendingScan.Sound.unite (h : p.Sound) (hl : p.request.refreshesLike a.request = true)
    (hk : p.request.scope.samePathKind a.request.scope = true) : (p.unite a).Sound where
  waiters := h.waiters.absorb (Waiters.Sound.empty.add a)
  wanted := by simp [PendingScan.unite]
  represents b hb := by
    rw [PendingScan.unite, Waiters.asked_absorb, Waiters.asked_add, List.nil_append,
      mem_append, mem_singleton] at hb
    rcases hb with hb | rfl
    · exact (h.represents b hb).grow (fun _ => ScanTarget.includes_union_left)
        (ScanTarget.isWholeLibraries_of_samePathKind hk)
    · obtain ⟨hoptions, hancestors, hpasses, hpriority⟩ := ScanRequest.refreshesLike_iff.mp hl
      exact ⟨hoptions, hpriority, .inl hpasses, ScanTarget.includes_union_right hk,
        .inr hancestors⟩

/-! ### Taking the place of queued scans -/

/-- What the loop over the queued scans ends with. -/
structure Absorbed (a : Asked Search) (kept : List (PendingScan Search))
    (waiters : Waiters Search) : Prop where
  own : a ∈ waiters.asked
  keptSound : ∀ p ∈ kept, p.Sound
  sound : waiters.Sound
  represents : ∀ b ∈ waiters.asked, a.request.Represents b.request

theorem Absorbed.loop (hall : a.request.scope = .all) (at' : Option Nat)
    {kept : List (PendingScan Search)} {waiters : Waiters Search}
    (h : Absorbed a kept waiters) (hs : ∀ p ∈ scans, p.Sound) :
    Absorbed a (absorbCovered a.request scans at' kept waiters).2.1
      (absorbCovered a.request scans at' kept waiters).2.2 := by
  induction scans generalizing at' kept waiters with
  | nil => exact h
  | cons p rest ih =>
    have hp := hs p List.mem_cons_self
    have hrest : ∀ p ∈ rest, p.Sound := fun p hp => hs p (List.mem_cons_of_mem _ hp)
    rw [absorbCovered]
    split
    · next hc =>
      refine ih _ ⟨List.mem_append_left _ h.own, h.keptSound, h.sound.absorb hp.waiters,
        fun b hb => ?_⟩ hrest
      rcases mem_append.mp hb with hb | hb
      · exact h.represents b hb
      · exact (hp.represents b hb).absorb hall hc
    · refine ih _ ⟨h.own, fun p' hp' => ?_, h.sound, h.represents⟩ hrest
      rcases mem_append.mp hp' with hp' | hp'
      · exact h.keptSound p' hp'
      · exact mem_singleton.mp hp' ▸ hp

omit [DecidableEq Search] in
theorem absorbed_start (a : Asked Search) : Absorbed a [] (Waiters.add {} a) where
  own := by simp
  keptSound _ hp := by cases hp
  sound := Waiters.Sound.empty.add a
  represents b hb := by
    have he : b = a := by simpa using hb
    exact he ▸ .refl _

/-! ### Queueing -/

omit [DecidableEq Search] in
theorem sound_single (hs : ∀ p ∈ scans, p.Sound) : ∀ p ∈ scans ++ [.single a], p.Sound := by
  intro p hp
  rcases mem_append.mp hp with hp | hp
  · exact hs p hp
  · exact mem_singleton.mp hp ▸ .single a

theorem sound_enqueueLane (hs : ∀ p ∈ scans, p.Sound) : ∀ p ∈ enqueueLane a scans, p.Sound := by
  rw [enqueueLane]
  split
  · refine forall_modifyFirst hs fun p hp he => (hs p hp).join ?_
    rw [beq_iff_eq] at he
    exact he ▸ .refl _
  · exact sound_single hs

theorem sound_enqueueAll (hall : a.request.scope = .all) (hs : ∀ p ∈ scans, p.Sound) :
    ∀ p ∈ enqueueAll a scans, p.Sound := by
  have h := (absorbed_start a).loop hall none hs
  rw [enqueueAll]
  generalize absorbCovered a.request scans none [] (Waiters.add {} a) = r at h ⊢
  obtain ⟨at', kept, waiters⟩ := r
  intro p hp
  rcases List.eq_or_mem_of_mem_insertIdx hp with rfl | hp
  · exact ⟨h.sound, List.ne_nil_of_mem h.own, h.represents⟩
  · exact h.keptSound p hp

theorem sound_enqueuePaths (hs : ∀ p ∈ scans, p.Sound) : ∀ p ∈ enqueuePaths a scans, p.Sound := by
  rw [enqueuePaths]
  split
  · refine forall_modifyFirst hs fun p hp he => ?_
    rw [unites, Bool.and_eq_true] at he
    exact (hs p hp).unite he.1 he.2
  · exact sound_single hs

/-- **Queueing keeps every entry sound**, whichever way it goes. -/
theorem sound_enqueuePending (hs : ∀ p ∈ scans, p.Sound) :
    ∀ p ∈ enqueuePending a scans, p.Sound := by
  rw [enqueuePending]
  split
  · exact forall_modifyFirst hs fun p hp he => (hs p hp).join (ScanRequest.represents_of_covers he)
  · split
    · next hall => exact sound_enqueueAll hall hs
    · exact sound_enqueuePaths hs
    · exact sound_enqueuePaths hs
    all_goals exact sound_single hs

end Enqueue

/-! ### Withdrawing -/

section Withdraw

variable {scans : List (PendingScan Search)}

theorem asked_withdrawFrom (ticket : Nat) (hs : ∀ p ∈ scans, p.Sound) :
    viewed Waiters.asked (ScanQueue.withdrawFrom ticket scans) =
      (viewed Waiters.asked scans).filter fun a => a.ticket != some ticket := by
  induction scans with
  | nil => rfl
  | cons p scans ih =>
    have hrest := ih fun p hp => hs p (List.mem_cons_of_mem _ hp)
    have hp : (p.waiters.retain ticket).Sound := (hs p List.mem_cons_self).waiters.retain ticket
    rw [viewed_cons, List.filter_append, ← hrest]
    simp only [ScanQueue.withdrawFrom, List.map_cons, List.filter_cons]
    split
    · rw [viewed_cons]
      rfl
    · next hempty =>
      have hnil : (p.waiters.retain ticket).asked = [] :=
        hp.isEmpty_iff.mp (by simpa [PendingScan.retain] using hempty)
      have hfilter : p.waiters.asked.filter (fun a => a.ticket != some ticket) = [] := hnil
      rw [hfilter, List.nil_append]

theorem sound_withdrawFrom (ticket : Nat) (hs : ∀ p ∈ scans, p.Sound) :
    ∀ p ∈ ScanQueue.withdrawFrom ticket scans, p.Sound := by
  intro p hp
  obtain ⟨hp, hwanted⟩ := List.mem_filter.mp hp
  obtain ⟨p, hmem, rfl⟩ := List.mem_map.mp hp
  have h := hs p hmem
  have hw : (p.retain ticket).waiters.Sound := h.waiters.retain ticket
  refine ⟨hw, fun hnil => ?_, fun a ha => h.represents a (List.mem_filter.mp ha).1⟩
  rw [hw.isEmpty_iff.mpr hnil] at hwanted
  cases hwanted

end Withdraw

/-! ### The queue and the requests it owes -/

variable [DecidableEq Search]

/-- The queue, with the requests nobody withdrew and whose scan nobody took off
the queue (history). -/
structure Coalescing (Search : Type) where
  queue : ScanQueue Search := {}
  live : List (Asked Search) := []

/-- A step on the queue: a request, a withdrawal, the worker's turn, or the running
scan taking a refresh off the lane. -/
inductive QueueEvent (Search : Type) where
  | enqueue (request : ScanRequest Search) (waiting : Bool)
  | withdraw (ticket : Nat)
  | pop
  | laneNext

namespace Coalescing

/-- The scan taken off the queue, if any, takes its requests with it. -/
def took (c : Coalescing Search) (r : Option (PendingScan Search) × ScanQueue Search) :
    Coalescing Search where
  queue := r.2
  live := r.1.elim c.live fun p => c.live.filter fun a => a ∉ p.waiters.asked

def step (c : Coalescing Search) : QueueEvent Search → Option (Coalescing Search)
  | .enqueue request waiting => some {
      queue := c.queue.enqueue request waiting
      live := c.live ++ [c.queue.asking request waiting] }
  | .withdraw ticket => some {
      queue := c.queue.withdraw ticket
      live := c.live.filter fun a => a.ticket != some ticket }
  | .pop => some (c.took c.queue.pop)
  | .laneNext => some (c.took c.queue.laneNext)

end Coalescing

/-- **The ledger**: the entries are sound, and run for the live requests, each of
which was queued under a number and a ticket of its own. -/
structure Ledger (c : Coalescing Search) : Prop where
  sound : ∀ p ∈ c.queue.entries, p.Sound
  perm : (viewed Waiters.asked c.queue.entries).Perm c.live
  ids : (c.live.map Asked.id).Nodup
  id_lt : ∀ a ∈ c.live, a.id < c.queue.requests
  tickets : (c.live.filterMap Asked.ticket).Nodup
  ticket_lt : ∀ a ∈ c.live, ∀ t ∈ a.ticket, t < c.queue.nextTicket

namespace Ledger

variable {c c' : Coalescing Search}

omit [DecidableEq Search] in
theorem init : Ledger ({} : Coalescing Search) where
  sound := by simp [ScanQueue.entries]
  perm := List.Perm.refl _
  ids := nodup_nil
  id_lt := by simp
  tickets := nodup_nil
  ticket_lt := by simp

omit [DecidableEq Search] in
theorem of_sublist (h : Ledger c) (hs : ∀ p ∈ c'.queue.entries, p.Sound)
    (hp : (viewed Waiters.asked c'.queue.entries).Perm c'.live) (hl : c'.live.Sublist c.live)
    (hr : c'.queue.requests = c.queue.requests)
    (ht : c'.queue.nextTicket = c.queue.nextTicket) : Ledger c' where
  sound := hs
  perm := hp
  ids := (hl.map _).nodup h.ids
  id_lt a ha := hr ▸ h.id_lt a (hl.subset ha)
  tickets := (hl.filterMap _).nodup h.tickets
  ticket_lt a ha := ht ▸ h.ticket_lt a (hl.subset ha)

theorem enqueue (h : Ledger c) (request : ScanRequest Search) (waiting : Bool) :
    Ledger {
      queue := c.queue.enqueue request waiting
      live := c.live ++ [c.queue.asking request waiting] } := by
  have hpending : ∀ p ∈ c.queue.pending, p.Sound := fun p hp =>
    h.sound p (List.mem_append_left _ hp)
  have hlane : ∀ p ∈ c.queue.lane, p.Sound := fun p hp => h.sound p (List.mem_append_right _ hp)
  have hsound : ∀ p ∈ (c.queue.enqueue request waiting).entries, p.Sound := by
    intro p hp
    simp only [ScanQueue.entries, ScanQueue.enqueue] at hp
    rcases mem_append.mp hp with hp | hp <;> split at hp
    · exact hpending p hp
    · exact sound_enqueuePending hpending p hp
    · exact sound_enqueueLane hlane p hp
    · exact hlane p hp
  have hperm : (viewed Waiters.asked (c.queue.enqueue request waiting).entries).Perm
      (viewed Waiters.asked c.queue.entries ++ [c.queue.asking request waiting]) :=
    c.queue.view_enqueue .asked request waiting
  have hticket : c.queue.nextTicket ≤ (c.queue.enqueue request waiting).nextTicket := by
    simp only [ScanQueue.enqueue]
    split <;> omega
  refine ⟨hsound, hperm.trans (h.perm.append_right _), ?_, ?_, ?_, ?_⟩
  · rw [List.map_append, List.map_singleton]
    refine nodup_append.mpr ⟨h.ids, List.nodup_singleton _, ?_⟩
    intro i hi j hj he
    obtain ⟨a, ha, rfl⟩ := List.mem_map.mp hi
    have hlt := h.id_lt a ha
    have hj' : j = c.queue.requests := mem_singleton.mp hj
    omega
  · intro a ha
    have hr : (c.queue.enqueue request waiting).requests = c.queue.requests + 1 := rfl
    rcases mem_append.mp ha with ha | ha
    · exact hr ▸ Nat.lt_succ_of_lt (h.id_lt a ha)
    · obtain rfl := mem_singleton.mp ha
      exact hr ▸ Nat.lt_succ_self _
  · rw [List.filterMap_append]
    refine nodup_append.mpr ⟨h.tickets, ?_, ?_⟩
    · cases waiting
      · exact nodup_nil
      · exact List.nodup_singleton _
    · intro t ht u hu he
      obtain ⟨a, ha, hta⟩ := mem_filterMap.mp ht
      have hlt := h.ticket_lt a ha t hta
      cases waiting
      · cases hu
      · have hu' : u = c.queue.nextTicket := mem_singleton.mp hu
        omega
  · intro a ha t ht
    rcases mem_append.mp ha with ha | ha
    · exact Nat.lt_of_lt_of_le (h.ticket_lt a ha t ht) hticket
    · obtain rfl := mem_singleton.mp ha
      cases waiting
      · cases ht
      · cases ht
        exact Nat.lt_succ_self _

omit [DecidableEq Search] in
theorem withdraw (h : Ledger c) (ticket : Nat) :
    Ledger {
      queue := c.queue.withdraw ticket
      live := c.live.filter fun a => a.ticket != some ticket } := by
  have hentries : (c.queue.withdraw ticket).entries =
      ScanQueue.withdrawFrom ticket c.queue.entries := by
    simp only [ScanQueue.entries, ScanQueue.withdraw, ScanQueue.withdrawFrom, List.map_append,
      List.filter_append]
  refine h.of_sublist ?_ ?_ List.filter_sublist rfl rfl
  · rw [hentries]
    exact sound_withdrawFrom ticket h.sound
  · rw [hentries, asked_withdrawFrom ticket h.sound]
    exact h.perm.filter _

theorem perm_filter_not_mem {l rest live : List (Asked Search)} (h : (l ++ rest).Perm live)
    (hnd : live.Nodup) : rest.Perm (live.filter fun a => a ∉ l) := by
  have hnd' : (l ++ rest).Nodup := h.nodup_iff.mpr hnd
  have hdisj := (nodup_append.mp hnd').2.2
  have hf := h.filter fun a => decide (a ∉ l)
  rw [List.filter_append] at hf
  have hl : l.filter (fun a => decide (a ∉ l)) = [] := by
    rw [List.filter_eq_nil_iff]
    intro a ha
    simpa using ha
  have hrest : rest.filter (fun a => decide (a ∉ l)) = rest := by
    rw [List.filter_eq_self]
    intro a ha
    simpa using fun hal => hdisj a hal a ha rfl
  rwa [hl, hrest, List.nil_append] at hf

theorem take (h : Ledger c) {p : PendingScan Search} {q : ScanQueue Search}
    (hp : c.queue.entries.Perm (p :: q.entries)) (hr : q.requests = c.queue.requests)
    (ht : q.nextTicket = c.queue.nextTicket) : Ledger (c.took (some p, q)) := by
  refine h.of_sublist (fun p' hp' => ?_) ?_ List.filter_sublist hr ht
  · exact h.sound p' (hp.mem_iff.mpr (List.mem_cons_of_mem _ hp'))
  · have hflat : (viewed Waiters.asked c.queue.entries).Perm
        (p.waiters.asked ++ viewed Waiters.asked q.entries) :=
      hp.flatMap_right _
    exact perm_filter_not_mem (hflat.symm.trans h.perm) (List.Nodup.of_map _ h.ids)

theorem step {e : QueueEvent Search} (h : Ledger c) (hs : c.step e = some c') : Ledger c' := by
  cases e with
  | enqueue request waiting =>
    cases hs
    exact h.enqueue request waiting
  | withdraw ticket =>
    cases hs
    exact h.withdraw ticket
  | pop =>
    cases hs
    rw [ScanQueue.pop]
    split
    · next p lane _ hlane =>
      refine h.take ?_ rfl rfl
      rw [ScanQueue.entries, hlane]
      exact List.perm_middle
    · next p pending hlane hpending =>
      refine h.take ?_ rfl rfl
      rw [ScanQueue.entries, hpending]
      exact List.Perm.refl _
    · exact h.of_sublist h.sound h.perm (List.Sublist.refl _) rfl rfl
  | laneNext =>
    cases hs
    rw [ScanQueue.laneNext]
    split
    · exact h
    · exact h
    · next p lane _ hlane =>
      refine h.take ?_ rfl rfl
      rw [ScanQueue.entries, hlane]
      exact List.perm_middle

end Ledger

/-- The entry has nothing to do with the request. -/
structure PendingScan.Foreign (p : PendingScan Search) (a : Asked Search) : Prop where
  asked : a ∉ p.waiters.asked
  ticket : ∀ t ∈ a.ticket, t ∉ p.waiters.tickets

end Ferrofin.Scan
