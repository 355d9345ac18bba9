import Mathlib.Data.List.Perm.Basic
import Ferrofin.Scan.Queue

/-!
# What queueing does to the waiters

However a request is queued — it joins a scan, unites with one, takes the place of
some or makes a new one — the scans together then have the waiters they had and
the new one.  "The waiters" is any view of `Waiters` that `add` and `absorb` add
up (`View`): the requests of the scans, or their tickets.
-/

namespace Ferrofin.Scan

open Lib

variable {Search β : Type}

structure View (v : Waiters Search → List β) (part : Asked Search → List β) : Prop where
  empty : v {} = []
  add : ∀ w a, v (w.add a) = v w ++ part a
  absorb : ∀ w w', v (w.absorb w') = v w ++ v w'

theorem View.asked : View Waiters.asked fun a : Asked Search => [a] where
  empty := rfl
  add w a := by
    rw [Waiters.add]
    split <;> rfl
  absorb _ _ := rfl

theorem View.tickets : View Waiters.tickets fun a : Asked Search => a.ticket.toList where
  empty := rfl
  add w a := by
    rw [Waiters.add]
    split
    · next ht => rw [ht]; rfl
    · next ht => rw [ht, Option.toList_none, List.append_nil]
  absorb _ _ := rfl

/-- The waiters of some scans, as `v` sees them. -/
def viewed (v : Waiters Search → List β) (scans : List (PendingScan Search)) : List β :=
  scans.flatMap fun p => v p.waiters

section Viewed

variable {v : Waiters Search → List β}

@[simp] theorem viewed_nil : viewed v [] = [] := rfl

@[simp] theorem viewed_cons (p : PendingScan Search) (scans : List (PendingScan Search)) :
    viewed v (p :: scans) = v p.waiters ++ viewed v scans := List.flatMap_cons

@[simp] theorem viewed_append (scans scans' : List (PendingScan Search)) :
    viewed v (scans ++ scans') = viewed v scans ++ viewed v scans' := List.flatMap_append

end Viewed

section Enqueue

variable [DecidableEq Search] {v : Waiters Search → List β} {part : Asked Search → List β}
  {a : Asked Search} {scans : List (PendingScan Search)}

theorem absorbCovered_place (request : ScanRequest Search) {at' : Option Nat}
    {kept : List (PendingScan Search)} (waiters : Waiters Search)
    (h : at'.getD kept.length ≤ kept.length) :
    (absorbCovered request scans at' kept waiters).1.getD
        (absorbCovered request scans at' kept waiters).2.1.length ≤
      (absorbCovered request scans at' kept waiters).2.1.length := by
  induction scans generalizing at' kept waiters with
  | nil => exact h
  | cons p rest ih =>
    rw [absorbCovered]
    split
    · exact ih _ h
    · refine ih _ ?_
      rw [List.length_append, List.length_singleton]
      cases at' with
      | none => exact Nat.le_refl _
      | some n => exact Nat.le_succ_of_le h

/-- The loop over the queued scans keeps or absorbs the waiters of each. -/
theorem View.absorbCovered (hv : View v part) (request : ScanRequest Search) (at' : Option Nat)
    (kept : List (PendingScan Search)) (waiters : Waiters Search) :
    (viewed v (absorbCovered request scans at' kept waiters).2.1 ++
        v (absorbCovered request scans at' kept waiters).2.2).Perm
      (viewed v kept ++ v waiters ++ viewed v scans) := by
  induction scans generalizing at' kept waiters with
  | nil =>
    rw [Scan.absorbCovered, viewed_nil, List.append_nil]
  | cons p rest ih =>
    rw [Scan.absorbCovered, viewed_cons]
    split
    · refine (ih _ _ _).trans ?_
      rw [hv.absorb]
      simp only [List.append_assoc]
      exact List.Perm.refl _
    · refine (ih _ _ _).trans ?_
      rw [viewed_append, viewed_cons, viewed_nil, List.append_nil]
      simp only [List.append_assoc]
      refine List.Perm.append_left _ ?_
      rw [← List.append_assoc, ← List.append_assoc]
      exact List.perm_append_comm.append_right _

omit [DecidableEq Search] in
theorem View.single (hv : View v part) :
    (viewed v (scans ++ [.single a])).Perm (viewed v scans ++ part a) := by
  rw [viewed_append, viewed_cons, viewed_nil, List.append_nil, PendingScan.single, hv.add, hv.empty,
    List.nil_append]

theorem View.enqueueLane (hv : View v part) :
    (viewed v (enqueueLane a scans)).Perm (viewed v scans ++ part a) := by
  rw [Scan.enqueueLane]
  split
  · next h => exact perm_flatMap_modifyFirst (fun p _ => hv.add p.waiters a) h
  · exact hv.single

theorem View.enqueueAll (hv : View v part) :
    (viewed v (enqueueAll a scans)).Perm (viewed v scans ++ part a) := by
  have hplace : (Scan.absorbCovered a.request scans none [] (Waiters.add {} a)).1.getD
        (Scan.absorbCovered a.request scans none [] (Waiters.add {} a)).2.1.length ≤
      (Scan.absorbCovered a.request scans none [] (Waiters.add {} a)).2.1.length :=
    absorbCovered_place a.request _ (Nat.le_refl _)
  have hperm : (viewed v (Scan.absorbCovered a.request scans none [] (Waiters.add {} a)).2.1 ++
        v (Scan.absorbCovered a.request scans none [] (Waiters.add {} a)).2.2).Perm _ :=
    hv.absorbCovered a.request none [] _
  rw [Scan.enqueueAll]
  generalize Scan.absorbCovered a.request scans none [] (Waiters.add {} a) = r at hplace hperm ⊢
  obtain ⟨at', kept, waiters⟩ := r
  have hinsert := List.perm_insertIdx ({ request := a.request, waiters := waiters }) kept hplace
  refine (hinsert.flatMap_right fun p => v p.waiters).trans ?_
  rw [viewed_nil, List.nil_append, hv.add, hv.empty, List.nil_append] at hperm
  exact List.perm_append_comm.trans (hperm.trans List.perm_append_comm)

theorem View.enqueuePaths (hv : View v part) :
    (viewed v (enqueuePaths a scans)).Perm (viewed v scans ++ part a) := by
  rw [Scan.enqueuePaths]
  split
  · next h =>
    refine perm_flatMap_modifyFirst (fun p _ => ?_) h
    rw [PendingScan.unite, hv.absorb, hv.add, hv.empty, List.nil_append]
  · exact hv.single

/-- **Queueing keeps the waiters of the scans and adds the new one.** -/
theorem View.enqueuePending (hv : View v part) :
    (viewed v (enqueuePending a scans)).Perm (viewed v scans ++ part a) := by
  rw [Scan.enqueuePending]
  split
  · next h => exact perm_flatMap_modifyFirst (fun p _ => hv.add p.waiters a) h
  · split
    · exact hv.enqueueAll
    · exact hv.enqueuePaths
    · exact hv.enqueuePaths
    all_goals exact hv.single

def ScanQueue.entries (q : ScanQueue Search) : List (PendingScan Search) := q.pending ++ q.lane

theorem ScanQueue.view_enqueue (q : ScanQueue Search) (hv : View v part)
    (request : ScanRequest Search) (waiting : Bool) :
    (viewed v (q.enqueue request waiting).entries).Perm
      (viewed v q.entries ++ part (q.asking request waiting)) := by
  simp only [entries, enqueue, viewed_append]
  split
  · rw [List.append_assoc]
    exact hv.enqueueLane.append_left _
  · refine (hv.enqueuePending.append_right _).trans ?_
    rw [List.append_assoc, List.append_assoc]
    exact List.perm_append_comm.append_left _

end Enqueue

end Ferrofin.Scan
