import Mathlib.Order.Nat

/-!
# Binary search for the end of a prefix

A test on the indices below `len` that holds up to some index and fails from there on
has a partition point.  `partitionPoint` finds it by halving, and asks the test at
few indices; `isPartitionPoint_partitionPoint` says it is right for every such test.
-/

namespace Ferrofin.Lib

variable {p : Nat → Bool} {len k : Nat}

/-- The test holds below `k` and fails from `k` on. -/
structure IsPartitionPoint (p : Nat → Bool) (len k : Nat) : Prop where
  le : k ≤ len
  before : ∀ i < k, p i = true
  after : ∀ i, k ≤ i → i < len → p i = false

/-- The search among `size` indices from `base` on; `fuel` is at least `size`. -/
def bisect (p : Nat → Bool) : Nat → Nat → Nat → Nat
  | 0, base, _ => base
  | fuel + 1, base, size =>
    if size ≤ 1 then base
    else bisect p fuel (if p (base + size / 2) then base + size / 2 else base) (size - size / 2)

def partitionPoint (p : Nat → Bool) (len : Nat) : Nat :=
  if len = 0 then 0
  else if p (bisect p len 0 len) then bisect p len 0 len + 1 else bisect p len 0 len

/-- The base stays where the test holds, or at 0, and the test fails past the part that
is searched. -/
theorem bisect_spec (hp : ∀ i j, i ≤ j → j < len → p j = true → p i = true) {fuel base size : Nat}
    (hfuel : size ≤ fuel) (hsize : 0 < size) (hlen : base + size ≤ len)
    (hbase : base = 0 ∨ p base = true)
    (hpast : ∀ i, base + size ≤ i → i < len → p i = false) :
    bisect p fuel base size < len ∧
      (bisect p fuel base size = 0 ∨ p (bisect p fuel base size) = true) ∧
      ∀ i, bisect p fuel base size < i → i < len → p i = false := by
  induction fuel generalizing base size with
  | zero => omega
  | succ fuel ih =>
    unfold bisect
    split
    · next hone => exact ⟨by omega, hbase, fun i hi hlt => hpast i (by omega) hlt⟩
    · next hmore =>
      split
      · next hmid =>
        exact ih (by omega) (by omega) (by omega) (.inr hmid) fun i hi hlt =>
          hpast i (by omega) hlt
      · next hmid =>
        refine ih (by omega) (by omega) (by omega) hbase fun i hi hlt => ?_
        by_contra htrue
        exact hmid (hp _ i (by omega) hlt (by simpa using htrue))

/-- **The search finds the partition point** of a test that, where it holds, holds
before. -/
theorem isPartitionPoint_partitionPoint
    (hp : ∀ i j, i ≤ j → j < len → p j = true → p i = true) :
    IsPartitionPoint p len (partitionPoint p len) := by
  unfold partitionPoint
  split
  · next hzero => exact ⟨Nat.zero_le _, fun i hi => absurd hi (Nat.not_lt_zero i), by omega⟩
  · next hpos =>
    obtain ⟨hlt, hbase, hpast⟩ := bisect_spec hp (le_refl len) (Nat.pos_of_ne_zero hpos)
      (by omega) (.inl rfl) fun i hi hlt => absurd hlt (by omega)
    generalize bisect p len 0 len = base at hlt hbase hpast ⊢
    split
    · next htrue =>
      exact ⟨hlt, fun i hi => hp i base (Nat.le_of_lt_succ hi) hlt htrue,
        fun i hi hlt => hpast i hi hlt⟩
    · next hfalse =>
      have hzero : base = 0 := hbase.resolve_right hfalse
      refine ⟨hlt.le, fun i hi => by omega, fun i hi hlt => ?_⟩
      rcases Nat.eq_or_lt_of_le hi with rfl | hi
      · simpa using hfalse
      · exact hpast i hi hlt

end Ferrofin.Lib
