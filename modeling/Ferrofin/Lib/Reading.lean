import Mathlib.Data.List.Basic
import Mathlib.Tactic.Ring

/-!
# Bytes and reading

A number is written as `k` bytes, the low one first (`leBytes`) or last (`beBytes`), and read back
(`ofLe`, `ofBe`).  Reading is the inverse of writing below `256 ^ k`, and writing that of reading.

A reader looks at a buffer at offsets kept by hand.  An offset outside of the buffer stops the
program, and a reader may reject what it sees.

* `Reads x a`: the reader accepts, with `a`.
* `Total x`: the reader does not stop the program.

Both are told one step at a time.
-/

namespace Ferrofin.Lib

/-- The low `k` bytes of a number, the low one first. -/
def leBytes : Nat → Nat → List UInt8
  | 0, _ => []
  | k + 1, n => UInt8.ofNat n :: leBytes k (n / 256)

def ofLe : List UInt8 → Nat
  | [] => 0
  | b :: bs => b.toNat + 256 * ofLe bs

def beBytes (k n : Nat) : List UInt8 := (leBytes k n).reverse

def ofBe (bs : List UInt8) : Nat := ofLe bs.reverse

@[simp] theorem length_leBytes (k n : Nat) : (leBytes k n).length = k := by
  induction k generalizing n with
  | zero => rfl
  | succ k ih => simp [leBytes, ih]

@[simp] theorem length_beBytes (k n : Nat) : (beBytes k n).length = k := by
  simp [beBytes]

theorem ofLe_lt (bs : List UInt8) : ofLe bs < 256 ^ bs.length := by
  induction bs with
  | nil => simp [ofLe]
  | cons b bs ih =>
    have hb := b.toNat_lt
    simp only [ofLe, List.length_cons, pow_succ]
    omega

theorem ofLe_leBytes {k n : Nat} (h : n < 256 ^ k) : ofLe (leBytes k n) = n := by
  induction k generalizing n with
  | zero =>
    simp only [pow_zero] at h
    simp only [leBytes, ofLe]
    omega
  | succ k ih =>
    rw [pow_succ] at h
    have hhigh : ofLe (leBytes k (n / 256)) = n / 256 := ih (by omega)
    simp only [leBytes, ofLe, hhigh, UInt8.toNat_ofNat']
    omega

theorem leBytes_ofLe (bs : List UInt8) : leBytes bs.length (ofLe bs) = bs := by
  induction bs with
  | nil => rfl
  | cons b bs ih =>
    have hb := b.toNat_lt
    have hlow : UInt8.ofNat (b.toNat + 256 * ofLe bs) = b := by
      apply UInt8.toNat_inj.mp
      rw [UInt8.toNat_ofNat']
      omega
    have hhigh : (b.toNat + 256 * ofLe bs) / 256 = ofLe bs := by omega
    simp only [List.length_cons, leBytes, ofLe, hlow, hhigh, ih]

theorem ofBe_beBytes {k n : Nat} (h : n < 256 ^ k) : ofBe (beBytes k n) = n := by
  rw [ofBe, beBytes, List.reverse_reverse, ofLe_leBytes h]

theorem beBytes_ofBe (bs : List UInt8) : beBytes bs.length (ofBe bs) = bs := by
  rw [beBytes, ofBe, ← List.length_reverse, leBytes_ofLe, List.reverse_reverse]

theorem eq_beBytes {bs : List UInt8} {k n : Nat} (hlength : bs.length = k) (h : ofBe bs = n) :
    bs = beBytes k n := by
  rw [← hlength, ← h, beBytes_ofBe]

theorem eq_leBytes {bs : List UInt8} {k n : Nat} (hlength : bs.length = k) (h : ofLe bs = n) :
    bs = leBytes k n := by
  rw [← hlength, ← h, leBytes_ofLe]

/-- A reader: outside, whether the program goes on; inside, whether what is read is accepted. -/
abbrev Reading (α : Type) := OptionT Option α

namespace Reading

variable {α β γ : Type}

def byteAt (buffer : List β) (i : Nat) : Reading β := OptionT.lift buffer[i]?

/-- The elements of the buffer from `i` to `j`. -/
def bytesAt (buffer : List β) (i j : Nat) : Reading (List β) :=
  OptionT.lift (if i ≤ j ∧ j ≤ buffer.length then some ((buffer.take j).drop i) else none)

def Reads (x : Reading α) (a : α) : Prop := x.run = some (some a)

def Total (x : Reading α) : Prop := ∃ r, x.run = some r

variable {buffer : List β} {i j : Nat} {a b : α} {c : γ}

@[simp] theorem reads_pure : Reads (pure a : Reading α) b ↔ a = b := by
  show some (some a) = some (some b) ↔ a = b
  simp

theorem reads_bind {x : Reading α} {k : α → Reading γ} :
    Reads (x >>= k) c ↔ ∃ a, Reads x a ∧ Reads (k a) c := by
  unfold Reads
  rw [OptionT.run_bind]
  rcases x.run with _ | _ | a <;> simp [Option.elimM]

@[simp] theorem reads_guard_bind {p : Prop} [Decidable p] {k : Unit → Reading γ} :
    Reads (guard p >>= k) c ↔ p ∧ Reads (k ()) c := by
  by_cases hp : p
  · rw [guard, if_pos hp, pure_bind]
    exact ⟨fun h => ⟨hp, h⟩, And.right⟩
  · rw [guard, if_neg hp, reads_bind]
    refine ⟨?_, fun h => absurd h.1 hp⟩
    rintro ⟨a, ha, -⟩
    cases ha

@[simp] theorem reads_byteAt_bind {k : β → Reading γ} :
    Reads (byteAt buffer i >>= k) c ↔ ∃ x, buffer[i]? = some x ∧ Reads (k x) c := by
  rw [reads_bind]
  refine exists_congr fun x => and_congr_left fun _ => ?_
  cases h : buffer[i]? <;> simp [Reads, byteAt, h]

@[simp] theorem reads_bytesAt_bind {k : List β → Reading γ} :
    Reads (bytesAt buffer i j >>= k) c ↔
      (i ≤ j ∧ j ≤ buffer.length) ∧ Reads (k ((buffer.take j).drop i)) c := by
  rw [reads_bind]
  by_cases h : i ≤ j ∧ j ≤ buffer.length
  · simp [Reads, bytesAt, h]
  · simp [Reads, bytesAt, h]

theorem total_pure : Total (pure a : Reading α) := ⟨_, rfl⟩

theorem total_guard_bind {p : Prop} [Decidable p] {k : Unit → Reading γ}
    (h : p → Total (k ())) : Total (guard p >>= k) := by
  by_cases hp : p
  · rw [guard, if_pos hp, pure_bind]
    exact h hp
  · rw [guard, if_neg hp]
    exact ⟨none, rfl⟩

theorem total_byteAt_bind {k : β → Reading γ} (hi : i < buffer.length)
    (h : ∀ x, buffer[i]? = some x → Total (k x)) : Total (byteAt buffer i >>= k) := by
  obtain ⟨r, hr⟩ := h _ (List.getElem?_eq_getElem hi)
  refine ⟨r, ?_⟩
  rw [OptionT.run_bind, byteAt, List.getElem?_eq_getElem hi]
  exact hr

theorem total_bytesAt_bind {k : List β → Reading γ} (hij : i ≤ j) (hj : j ≤ buffer.length)
    (h : Total (k ((buffer.take j).drop i))) : Total (bytesAt buffer i j >>= k) := by
  obtain ⟨r, hr⟩ := h
  refine ⟨r, ?_⟩
  rw [OptionT.run_bind, bytesAt, if_pos ⟨hij, hj⟩]
  exact hr

end Reading

end Ferrofin.Lib
