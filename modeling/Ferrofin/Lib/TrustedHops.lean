import Mathlib.Data.List.Basic

/-!
# Hops vouched for by trusted parties

A party is asked who is behind it, that one is asked in turn, and so on, as long as the one asked
is trusted.  The answers are entries of a list, the nearest party's first; an entry that cannot be
read ends the chain.

* `hops`: the parties reached.
* `reach`: how many entries settle which parties are reached, if there is an end to it.
* `hops_mapWhile`: reading the entries first and walking them after gives the same.
-/

namespace Ferrofin.Lib.TrustedHops

variable {α β γ : Type*}

/-- Two lists agree on the first `n` entries, or throughout. -/
def AgreeUpTo (n : Option Nat) (l l' : List γ) : Prop :=
  match n with
  | none => l = l'
  | some n => l.take n = l'.take n

theorem AgreeUpTo.head? {n : Option Nat} {l l' : List γ} (h : AgreeUpTo (n.map (· + 1)) l l') :
    l.head? = l'.head? := by
  cases n with
  | none => exact congrArg List.head? h
  | some n =>
    have h : l.take (n + 1) = l'.take (n + 1) := h
    cases l <;> cases l' <;> simp_all

theorem AgreeUpTo.tail {n : Option Nat} {l l' : List γ} (h : AgreeUpTo (n.map (· + 1)) l l') :
    AgreeUpTo n l.tail l'.tail := by
  cases n with
  | none => exact congrArg List.tail h
  | some n =>
    have h : l.take (n + 1) = l'.take (n + 1) := h
    show l.tail.take n = l'.tail.take n
    rw [← List.drop_one, ← List.drop_one, List.take_drop, List.take_drop, Nat.add_comm, h]

def mapWhile (read : β → Option α) : List β → List α
  | [] => []
  | e :: l =>
    match read e with
    | some b => b :: mapWhile read l
    | none => []

variable (trusted : α → Bool) (read : β → Option α)

/-- The parties reached from `a`. -/
def hops : List β → α → List α
  | [], _ => []
  | e :: l, a =>
    if trusted a then
      match read e with
      | some b => b :: hops l b
      | none => []
    else []

/-- How many entries settle the parties reached from `a`: up to the first party that is not
trusted, or the first entry that cannot be read. -/
def reach : List β → α → Option Nat
  | [], a => if trusted a then none else some 0
  | e :: l, a =>
    if trusted a then
      match read e with
      | some b => (reach l b).map (· + 1)
      | none => some 1
    else some 0

variable {trusted read}

theorem hops_of_not_trusted {a : α} (h : trusted a = false) (l : List β) :
    hops trusted read l a = [] := by
  cases l with
  | nil => rfl
  | cons e l => rw [hops, h, if_neg Bool.false_ne_true]

theorem hops_mapWhile (l : List β) (a : α) :
    hops trusted some (mapWhile read l) a = hops trusted read l a := by
  induction l generalizing a with
  | nil => rfl
  | cons e l ih =>
    rw [mapWhile, hops]
    cases read e with
    | none => cases trusted a <;> rfl
    | some b => simp only [hops, ih]

end Ferrofin.Lib.TrustedHops
