import Mathlib.Data.List.Basic

/-!
# Filling a buffer

A message is written into a buffer of fixed size, piece by piece and at offsets kept by hand.  A
write outside of the buffer stops the program, and a writer may refuse to go on, in which case the
buffer stays as it was left.

* `filled pre b`: the buffer `b` with `pre` written over its first bytes.
* `put_filled`, `put_filled_within`, `tail_filled`: what one write makes of a filled buffer.
-/

namespace Ferrofin.Lib

/-- A writer: from a buffer, `none` when it stops the program, else its result or its refusal, and
the buffer then. -/
abbrev Filling (β ε α : Type) := ExceptT ε (StateT (List β) Option) α

namespace Filling

variable {β ε α γ : Type} {b b' : List β} {e : ε}

def size : Filling β ε Nat := fun b => some (.ok b.length, b)

def refuseIf (c : Prop) [Decidable c] (e : ε) : Filling β ε Unit :=
  fun b => some (if c then .error e else .ok (), b)

/-- What is written in the first `n` bytes. -/
def front (n : Nat) : Filling β ε (List β) :=
  fun b => if n ≤ b.length then some (.ok (b.take n), b) else none

def put (offset : Nat) (bytes : List β) : Filling β ε Unit := fun b =>
  if offset + bytes.length ≤ b.length then
    some (.ok (), b.take offset ++ bytes ++ b.drop (offset + bytes.length))
  else none

/-- A writer that is given the buffer from the offset on. -/
def tail (offset : Nat) (f : Filling β ε α) : Filling β ε α := fun b =>
  if offset ≤ b.length then
    (f (b.drop offset)).map fun r => (r.1, b.take offset ++ r.2)
  else none

/-! ### One step after another -/

theorem bind_ok {x : Filling β ε α} {a : α} (h : x b = some (.ok a, b'))
    (k : α → Filling β ε γ) : (x >>= k) b = k a b' := by
  show (x b >>= fun r => ExceptT.bindCont k r.1 r.2) = k a b'
  rw [h]
  rfl

def Refused (r : Option (Except ε α × List β)) : Prop := ∃ e left, r = some (.error e, left)

theorem Refused.bind {x : Filling β ε α} (h : Refused (x b)) (k : α → Filling β ε γ) :
    Refused ((x >>= k) b) := by
  obtain ⟨e, left, h⟩ := h
  refine ⟨e, left, ?_⟩
  show (x b >>= fun r => ExceptT.bindCont k r.1 r.2) = _
  rw [h]
  rfl

@[simp] theorem size_bind (k : Nat → Filling β ε γ) : (size >>= k) b = k b.length b :=
  bind_ok (x := size) rfl k

theorem refuseIf_pos {c : Prop} [Decidable c] (h : c) (k : Unit → Filling β ε γ) :
    Refused ((refuseIf c e >>= k) b) :=
  Refused.bind ⟨e, b, by rw [refuseIf, if_pos h]⟩ k

theorem refuseIf_neg {c : Prop} [Decidable c] (h : ¬ c) (k : Unit → Filling β ε γ) :
    (refuseIf c e >>= k) b = k () b :=
  bind_ok (by rw [refuseIf, if_neg h]) k

/-! ### Filled buffers -/

/-- The buffer with `pre` written over its first bytes. -/
def filled (pre b : List β) : List β := pre ++ b.drop pre.length

variable {pre mid bytes p : List β} {n : Nat}

@[simp] theorem filled_nil : filled [] b = b := rfl

theorem length_filled (h : pre.length ≤ b.length) : (filled pre b).length = b.length := by
  rw [filled, List.length_append, List.length_drop]
  omega

theorem drop_filled : (filled pre b).drop pre.length = b.drop pre.length := by
  rw [filled, List.drop_left]

theorem take_filled : (filled pre b).take pre.length = pre := by
  rw [filled, List.take_left]

theorem filled_append : filled (pre ++ p) b = pre ++ filled p (b.drop pre.length) := by
  rw [filled, filled, List.drop_drop, List.length_append, List.append_assoc]

theorem filled_hole (k : Nat) : filled pre b = filled (pre ++ (b.drop pre.length).take k) b := by
  rw [filled_append, filled]
  congr 1
  have hcut := List.take_append_drop k (b.drop pre.length)
  by_cases hk : k ≤ (b.drop pre.length).length
  · rw [filled, List.length_take_of_le hk, hcut]
  · rw [filled, List.take_of_length_le (by omega), List.drop_length, List.append_nil]

theorem put_filled (hn : n = pre.length) (hb : pre.length + bytes.length ≤ b.length) :
    (put n bytes : Filling β ε Unit) (filled pre b) = some (.ok (), filled (pre ++ bytes) b) := by
  subst hn
  have hlength : (filled pre b).length = b.length := length_filled (by omega)
  rw [put, hlength, if_pos hb, take_filled, ← List.drop_drop, drop_filled, List.drop_drop,
    filled, List.length_append]

theorem put_bind (hn : n = pre.length) (hb : pre.length + bytes.length ≤ b.length)
    (k : Unit → Filling β ε γ) :
    (put n bytes >>= k) (filled pre b) = k () (filled (pre ++ bytes) b) :=
  bind_ok (put_filled hn hb) k

theorem put_zero_bind (hb : bytes.length ≤ b.length) (k : Unit → Filling β ε γ) :
    (put 0 bytes >>= k) b = k () (filled bytes b) := by
  rw [← filled_nil (b := b), put_bind]
  · rw [List.nil_append, filled_nil]
  · rfl
  · simpa using hb

theorem put_filled_within (hn : n = pre.length) (hmid : mid.length = bytes.length)
    (hb : (pre ++ mid ++ p).length ≤ b.length) :
    (put n bytes : Filling β ε Unit) (filled (pre ++ mid ++ p) b) =
      some (.ok (), filled (pre ++ bytes ++ p) b) := by
  subst hn
  simp only [List.length_append] at hb
  have hlength : (filled (pre ++ mid ++ p) b).length = b.length :=
    length_filled (by simp only [List.length_append]; omega)
  rw [put, hlength, if_pos (by omega)]
  have hsame : (pre ++ bytes ++ p).length = (pre ++ mid ++ p).length := by
    simp only [List.length_append, hmid]
  have hfront : (filled (pre ++ mid ++ p) b).take pre.length = pre := by
    rw [filled, List.append_assoc, List.append_assoc, List.take_left]
  have hrest : (filled (pre ++ mid ++ p) b).drop (pre.length + bytes.length) =
      p ++ b.drop (pre ++ mid ++ p).length := by
    rw [filled, ← hmid, ← List.length_append, List.append_assoc (pre ++ mid), List.drop_left]
  rw [hfront, hrest, filled, hsame, ← List.append_assoc]

theorem tail_filled {f : Filling β ε α} {a : α} (hn : n = pre.length)
    (hb : pre.length ≤ b.length)
    (hf : f (b.drop pre.length) = some (.ok a, filled p (b.drop pre.length))) :
    tail n f (filled pre b) = some (.ok a, filled (pre ++ p) b) := by
  subst hn
  rw [tail, length_filled hb, if_pos hb, drop_filled, hf, take_filled, filled_append]
  rfl

theorem tail_refuses {f : Filling β ε α} (hn : n = pre.length) (hb : pre.length ≤ b.length)
    (hf : Refused (f (b.drop n))) : Refused (tail n f (filled pre b)) := by
  subst hn
  obtain ⟨e, rest, hf⟩ := hf
  refine ⟨e, pre ++ rest, ?_⟩
  rw [tail, length_filled hb, if_pos hb, drop_filled, hf, take_filled]
  rfl

theorem front_filled (hn : n = pre.length) (hb : pre.length ≤ b.length) :
    (front n : Filling β ε (List β)) (filled pre b) = some (.ok pre, filled pre b) := by
  subst hn
  rw [front, length_filled hb, if_pos hb, take_filled]

end Filling

end Ferrofin.Lib
