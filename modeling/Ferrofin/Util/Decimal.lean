import Mathlib.Data.List.Basic
import Mathlib.Algebra.Group.Nat.Defs
import Mathlib.Algebra.Group.Int.Defs

/-!
# Decimal numbers

What `format!` writes for an integer, and what `str::parse` reads of it.
`parseInt_decimal`: an integer in range is read as it was written.
-/

namespace Ferrofin.Util

def parseDigits (s : List Char) : Option Nat :=
  if s ≠ [] ∧ s.all Char.isDigit then some (Nat.ofDigitChars 10 s 0) else none

def parseSigned : List Char → Option Int
  | '-' :: digits => (parseDigits digits).map fun n : Nat => -(n : Int)
  | '+' :: digits => (parseDigits digits).map fun n : Nat => (n : Int)
  | digits => (parseDigits digits).map fun n : Nat => (n : Int)

def parseInt (bits : Nat) (s : List Char) : Option Int :=
  (parseSigned s).filter fun n => -2 ^ (bits - 1) ≤ n ∧ n < 2 ^ (bits - 1)

/-- `format!("{}", n)`. -/
def decimal (n : Int) : List Char :=
  if n < 0 then '-' :: Nat.toDigits 10 n.natAbs else Nat.toDigits 10 n.natAbs

theorem isDigit_of_mem_toDigits {c : Char} {n : Nat} (h : c ∈ Nat.toDigits 10 n) :
    c.isDigit = true := Nat.isDigit_of_mem_toDigits (by decide) (by decide) h

theorem parseDigits_toDigits (n : Nat) : parseDigits (Nat.toDigits 10 n) = some n := by
  have hdigits : (Nat.toDigits 10 n).all Char.isDigit = true :=
    List.all_eq_true.mpr fun c hc => isDigit_of_mem_toDigits hc
  rw [parseDigits, if_pos ⟨Nat.toDigits_ne_nil, hdigits⟩, Nat.ofDigitChars_ten_toDigits]

theorem mem_decimal {n : Int} {c : Char} (h : c ∈ decimal n) : c.isDigit = true ∨ c = '-' := by
  unfold decimal at h
  split at h
  · rcases List.mem_cons.mp h with rfl | h
    · exact .inr rfl
    · exact .inl (isDigit_of_mem_toDigits h)
  · exact .inl (isDigit_of_mem_toDigits h)

theorem parseSigned_of_isDigit {c : Char} (hc : c.isDigit = true) (digits : List Char) :
    parseSigned (c :: digits) = (parseDigits (c :: digits)).map fun n : Nat => (n : Int) := by
  unfold parseSigned
  split
  · next heq =>
    obtain ⟨rfl, -⟩ := List.cons.inj heq
    cases hc
  · next heq =>
    obtain ⟨rfl, -⟩ := List.cons.inj heq
    cases hc
  · rfl

theorem parseSigned_decimal (n : Int) : parseSigned (decimal n) = some n := by
  unfold decimal
  split
  · next hneg =>
    rw [parseSigned, parseDigits_toDigits, Option.map_some]
    congr 1
    omega
  · next hpos =>
    cases hd : Nat.toDigits 10 n.natAbs with
    | nil => exact absurd hd Nat.toDigits_ne_nil
    | cons c digits =>
      have hc : c.isDigit = true := isDigit_of_mem_toDigits (n := n.natAbs) (by simp [hd])
      rw [parseSigned_of_isDigit hc, ← hd, parseDigits_toDigits, Option.map_some]
      congr 1
      omega

/-- **A number is read as it was written.** -/
theorem parseInt_decimal {bits : Nat} {n : Int} (hmin : -2 ^ (bits - 1) ≤ n)
    (hmax : n < 2 ^ (bits - 1)) : parseInt bits (decimal n) = some n := by
  rw [parseInt, parseSigned_decimal, Option.filter_some, decide_eq_true ⟨hmin, hmax⟩, if_pos rfl]

theorem length_decimal_le {n : Int} {k : Nat} (h : n.natAbs < 10 ^ k) (hk : 0 < k) :
    (decimal n).length ≤ k + 1 := by
  have hdigits := (Nat.length_toDigits_le_iff (by decide : 1 < 10) hk).mpr h
  unfold decimal
  split
  · rw [List.length_cons]
    omega
  · omega

end Ferrofin.Util
