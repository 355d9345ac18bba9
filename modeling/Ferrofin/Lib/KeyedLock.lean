import Ferrofin.Lib.KeyedMap

/-!
# Locks by key

Tasks under numbers of their own, each of which may hold the lock of one key.
`Exclusive` says that no two hold the lock of the same key.  A task that takes a
lock keeps this when the lock is free (`lockFree`); one that gives its lock up, or
goes away, always does.
-/

namespace Ferrofin.Lib

variable {τ κ : Type*} {lock : τ → Option κ} {tasks : KeyedMap Nat τ} {i : Nat} {t : τ}

def Exclusive (lock : τ → Option κ) (tasks : KeyedMap Nat τ) : Prop :=
  ∀ i j a b, tasks.lookup i = some a → tasks.lookup j = some b →
    ∀ k, lock a = some k → lock b = some k → i = j

def lockFree [DecidableEq κ] (lock : τ → Option κ) (k : κ) (tasks : KeyedMap Nat τ) : Bool :=
  (KeyedMap.values tasks).all fun t => lock t ≠ some k

theorem lock_ne_of_lockFree [DecidableEq κ] {k : κ} (h : lockFree lock k tasks = true)
    (ht : tasks.lookup i = some t) : lock t ≠ some k := by
  have hall := List.all_eq_true.mp h t (KeyedMap.mem_values_of_lookup ht)
  simpa using hall

theorem Exclusive.empty : Exclusive lock ∅ := by
  intro i j a b ha
  cases ha

theorem Exclusive.erase (h : Exclusive lock tasks) : Exclusive lock (tasks.erase i) := by
  intro j j' a b ha hb
  rw [KeyedMap.lookup_erase_eq] at ha hb
  split at ha
  · cases ha
  · split at hb
    · cases hb
    · exact h j j' a b ha hb

theorem Exclusive.insert (h : Exclusive lock tasks)
    (hfree : ∀ k, lock t = some k → ∀ j b, tasks.lookup j = some b → lock b = some k → j = i) :
    Exclusive lock (tasks.insert i t) := by
  intro j j' a b ha hb k hka hkb
  rw [KeyedMap.lookup_insert_eq] at ha hb
  split at ha
  · next hj =>
    cases ha
    split at hb
    · next hj' => exact hj.trans hj'.symm
    · exact (hfree k hka j' b hb hkb).symm ▸ hj
  · split at hb
    · next hj' =>
      cases hb
      exact (hfree k hkb j a ha hka).trans hj'.symm
    · exact h j j' a b ha hb k hka hkb

theorem Exclusive.update (h : Exclusive lock tasks) {t' : τ} (ht : tasks.lookup i = some t)
    (hlock : ∀ k, lock t' = some k → lock t = some k) : Exclusive lock (tasks.insert i t') :=
  h.insert fun k hk j b hb hkb => h j i b t hb ht k hkb (hlock k hk)

theorem Exclusive.take [DecidableEq κ] (h : Exclusive lock tasks) {k : κ} (hk : lock t = some k)
    (hfree : lockFree lock k tasks = true) : Exclusive lock (tasks.insert i t) := by
  refine h.insert fun k' hk' j b hb hkb => ?_
  cases hk.symm.trans hk'
  exact absurd hkb (lock_ne_of_lockFree hfree hb)

end Ferrofin.Lib
