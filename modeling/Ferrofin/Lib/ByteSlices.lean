import Mathlib.Data.List.Basic
import Mathlib.Algebra.GroupWithZero.Nat

/-!
# Slices of a text by bytes

A text is cut at the offset of a byte, which has to be where a character starts (`cutBytes`).
Cutting inside a character, or past the end, stops the program (`none`).
-/

namespace Ferrofin.Lib

def utf8Len (s : List Char) : Nat := (s.map Char.utf8Size).sum

/-- What stands before a byte offset, and from there on. -/
def cutBytes : List Char → Nat → Option (List Char × List Char)
  | s, 0 => some ([], s)
  | [], _ + 1 => none
  | c :: s, n + 1 =>
    if c.utf8Size ≤ n + 1 then
      (cutBytes s (n + 1 - c.utf8Size)).map fun r => (c :: r.1, r.2)
    else none

/-- `&s[i..j]`. -/
def sliceBytes (s : List Char) (i j : Nat) : Option (List Char) :=
  if i ≤ j then (cutBytes s j).bind fun r => (cutBytes r.1 i).map Prod.snd else none

/-- `s.find(c)`. -/
def findByte (c : Char) (s : List Char) : Option Nat :=
  if c ∈ s then some (utf8Len (s.takeWhile (· ≠ c))) else none

variable {a b : List Char} {c : Char} {n : Nat}

@[simp] theorem utf8Len_nil : utf8Len [] = 0 := rfl

@[simp] theorem utf8Len_cons : utf8Len (c :: a) = c.utf8Size + utf8Len a := by simp [utf8Len]

@[simp] theorem utf8Len_append : utf8Len (a ++ b) = utf8Len a + utf8Len b := by simp [utf8Len]

theorem cutBytes_append (a b : List Char) (n : Nat) :
    cutBytes (a ++ b) (utf8Len a + n) = (cutBytes b n).map fun r => (a ++ r.1, r.2) := by
  induction a with
  | nil => simp
  | cons c a ih =>
    obtain ⟨m, hm⟩ : ∃ m, utf8Len (c :: a) + n = m + 1 :=
      ⟨utf8Len (c :: a) + n - 1, by have := c.utf8Size_pos; simp only [utf8Len_cons]; omega⟩
    have hrest : m + 1 - c.utf8Size = utf8Len a + n := by
      rw [← hm, utf8Len_cons]
      omega
    have hle : c.utf8Size ≤ m + 1 := by
      rw [← hm, utf8Len_cons]
      omega
    rw [List.cons_append, hm, cutBytes, if_pos hle, hrest, ih, Option.map_map]
    rfl

theorem cutBytes_utf8Len (a b : List Char) : cutBytes (a ++ b) (utf8Len a) = some (a, b) := by
  have h := cutBytes_append a b 0
  rw [Nat.add_zero] at h
  rw [h]
  cases b <;> simp [cutBytes]

theorem cutBytes_eq_some {s : List Char} (h : cutBytes s n = some (a, b)) :
    s = a ++ b ∧ utf8Len a = n := by
  induction s generalizing n a with
  | nil =>
    cases n with
    | zero =>
      cases h
      exact ⟨rfl, rfl⟩
    | succ n => cases h
  | cons d s ih =>
    cases n with
    | zero =>
      cases h
      exact ⟨rfl, rfl⟩
    | succ n =>
      rw [cutBytes] at h
      split at h
      · next hle =>
        obtain ⟨⟨front, back⟩, hcut, heq⟩ := Option.map_eq_some_iff.mp h
        cases heq
        obtain ⟨rfl, hlen⟩ := ih hcut
        refine ⟨rfl, ?_⟩
        rw [utf8Len_cons, hlen]
        omega
      · cases h

theorem cutBytes_inside (a b : List Char) (hn : 0 < n) (hc : n < c.utf8Size) :
    cutBytes (a ++ c :: b) (utf8Len a + n) = none := by
  obtain ⟨n, rfl⟩ := Nat.exists_eq_succ_of_ne_zero (Nat.ne_of_gt hn)
  rw [cutBytes_append, cutBytes, if_neg (by omega)]
  rfl

/-- From after a first character of one byte to one byte before the end of the last. -/
theorem sliceBytes_brackets {d e : Char} (hd : d.utf8Size = 1) (a b : List Char) :
    sliceBytes (d :: (a ++ c :: e :: b)) 1 (1 + utf8Len (a ++ [c]) - 1) =
      if c.utf8Size = 1 then some a else none := by
  have hpos := c.utf8Size_pos
  have hend : 1 + utf8Len (a ++ [c]) - 1 = utf8Len (d :: a) + (c.utf8Size - 1) := by
    simp only [utf8Len_append, utf8Len_cons, utf8Len_nil]
    omega
  have hle : 1 ≤ 1 + utf8Len (a ++ [c]) - 1 := by
    simp only [utf8Len_append, utf8Len_cons, utf8Len_nil]
    omega
  rw [sliceBytes, if_pos hle, hend]
  split
  · next hc =>
    have hcut := cutBytes_utf8Len (d :: a) (c :: e :: b)
    have hone := cutBytes_utf8Len [d] a
    rw [List.cons_append] at hcut
    rw [utf8Len_cons, hd, utf8Len_nil, List.singleton_append] at hone
    rw [hc, Nat.sub_self, Nat.add_zero, hcut, Option.bind_some, hone]
    rfl
  · next hc =>
    have hcut := cutBytes_inside (n := c.utf8Size - 1) (c := c) (d :: a) (e :: b) (by omega)
      (by omega)
    rw [List.cons_append] at hcut
    rw [hcut]
    rfl

end Ferrofin.Lib
