import Mathlib.Data.List.Basic
import Mathlib.Algebra.Group.Nat.Defs

/-!
# Numeric-ordinal comparison

`numeric_ordinal_cmp` compares runs of digits by their value and other characters one by one.
The values are of 128 bits and saturate.
-/

namespace Ferrofin.Naming

open Std

/-- `u128::MAX`. -/
def u128Max : Nat := 2 ^ 128 - 1

def takeNumber (value : Nat) : List Char → Nat × List Char
  | [] => (value, [])
  | c :: chars =>
    if c.isDigit then
      takeNumber (min (min (value * 10) u128Max + (c.toNat - '0'.toNat)) u128Max) chars
    else (value, c :: chars)

theorem takeNumber_snd (value : Nat) (s : List Char) :
    (takeNumber value s).2 = s.dropWhile Char.isDigit := by
  induction s generalizing value with
  | nil => rfl
  | cons c s ih =>
    rw [takeNumber, List.dropWhile_cons]
    split
    · exact ih _
    · rfl

theorem length_takeNumber_lt {c : Char} (hc : c.isDigit = true) (value : Nat) (s : List Char) :
    (takeNumber value (c :: s)).2.length < (c :: s).length := by
  rw [takeNumber_snd, List.dropWhile_cons, if_pos hc]
  exact Nat.lt_succ_of_le (List.dropWhile_suffix _).length_le

def numericOrdinalCmp : List Char → List Char → Ordering
  | [], [] => .eq
  | [], _ :: _ => .lt
  | _ :: _, [] => .gt
  | x :: a, y :: b =>
    if x.isDigit && y.isDigit then
      (compare (takeNumber 0 (x :: a)).1 (takeNumber 0 (y :: b)).1).then
        (numericOrdinalCmp (takeNumber 0 (x :: a)).2 (takeNumber 0 (y :: b)).2)
    else (compare x.toNat y.toNat).then (numericOrdinalCmp a b)
termination_by a => a.length
decreasing_by
  · exact length_takeNumber_lt (Bool.and_eq_true_iff.mp ‹_›).1 0 a
  · exact Nat.lt_succ_self _

/-- How `VideoListResolver` sorts the names with a resolution, the highest first. -/
def matchedCmp (a b : List Char × List Char) : Ordering :=
  (numericOrdinalCmp b.2 a.2).then (numericOrdinalCmp a.1 b.1)

/-! ### Token by token -/

/-- A run of digits by where digits stand and its value, another character by its place. -/
def tokens : List Char → List (Nat × Nat)
  | [] => []
  | x :: a =>
    if x.isDigit then
      ('0'.toNat, (takeNumber 0 (x :: a)).1) :: tokens (takeNumber 0 (x :: a)).2
    else (x.toNat, 0) :: tokens a
termination_by a => a.length
decreasing_by
  · exact length_takeNumber_lt ‹_› 0 a
  · exact Nat.lt_succ_self _

/-- Of two tokens, the one whose character is first, or else the one of the lower value. -/
def tokenCmp : Nat × Nat → Nat × Nat → Ordering :=
  compareLex (compareOn Prod.fst) (compareOn Prod.snd)

instance : TransCmp tokenCmp :=
  inferInstanceAs (TransCmp (compareLex (compareOn Prod.fst) (compareOn Prod.snd)))

theorem compare_isDigit {x y : Char} (hx : x.isDigit = true) (hy : y.isDigit = false) :
    compare x.toNat y.toNat = compare '0'.toNat y.toNat ∧ compare x.toNat y.toNat ≠ .eq := by
  have h0 : '0'.toNat = 48 := rfl
  have h9 : '9'.toNat = 57 := rfl
  have hx' := Char.isDigit_iff_toNat.mp hx
  have hy' : ¬ ('0'.toNat ≤ y.toNat ∧ y.toNat ≤ '9'.toNat) := fun h =>
    Bool.false_ne_true (hy.symm.trans (Char.isDigit_iff_toNat.mpr h))
  rw [h0, h9] at *
  rcases Nat.lt_or_ge y.toNat 48 with hlt | hge
  · rw [Nat.compare_eq_gt.mpr (by omega), Nat.compare_eq_gt.mpr hlt]
    exact ⟨rfl, nofun⟩
  · rw [Nat.compare_eq_lt.mpr (by omega), Nat.compare_eq_lt.mpr (by omega)]
    exact ⟨rfl, nofun⟩

theorem numericOrdinalCmp_eq (a b : List Char) :
    numericOrdinalCmp a b = (tokens a).compareLex tokenCmp (tokens b) := by
  induction a, b using numericOrdinalCmp.induct with
  | case1 =>
    rw [numericOrdinalCmp, tokens]
    rfl
  | case2 y b =>
    rw [numericOrdinalCmp, tokens, tokens]
    split <;> rfl
  | case3 x a =>
    rw [numericOrdinalCmp, tokens, tokens]
    split <;> rfl
  | case4 x a y b h ih =>
    obtain ⟨hx, hy⟩ := Bool.and_eq_true_iff.mp h
    rw [numericOrdinalCmp, if_pos h, tokens, if_pos hx, tokens, if_pos hy,
      List.compareLex_cons_cons, ih]
    rfl
  | case5 x a y b h ih =>
    rw [numericOrdinalCmp, if_neg h, ih]
    cases hx : x.isDigit with
    | true =>
      -- a digit against another character: the texts differ here
      have hy : y.isDigit = false := by rw [hx] at h; simpa using h
      obtain ⟨heq, hne⟩ := compare_isDigit hx hy
      rw [tokens.eq_2 x, if_pos hx, tokens.eq_2 y, if_neg (by simp [hy]), List.compareLex_cons_cons]
      simp only [tokenCmp, compareLex, compareOn, ← heq]
      cases hcmp : compare x.toNat y.toNat with
      | lt | gt => rfl
      | eq => exact absurd hcmp hne
    | false =>
      cases hy : y.isDigit with
      | true =>
        obtain ⟨heq, hne⟩ := compare_isDigit hy hx
        have heq' : compare x.toNat y.toNat = compare x.toNat '0'.toNat := by
          rw [OrientedOrd.eq_swap (a := x.toNat), heq, ← OrientedOrd.eq_swap]
        rw [tokens.eq_2 x, if_neg (by simp [hx]), tokens.eq_2 y, if_pos hy,
          List.compareLex_cons_cons]
        simp only [tokenCmp, compareLex, compareOn, ← heq']
        cases hcmp : compare x.toNat y.toNat with
        | lt | gt => rfl
        | eq => exact absurd (OrientedCmp.eq_symm hcmp) hne
      | false =>
        rw [tokens.eq_2 x, if_neg (by simp [hx]), tokens.eq_2 y, if_neg (by simp [hy]),
          List.compareLex_cons_cons]
        cases hcmp : compare x.toNat y.toNat <;>
          simp [tokenCmp, compareLex, compareOn, hcmp]

instance : TransCmp numericOrdinalCmp where
  eq_swap {a b} := by
    rw [numericOrdinalCmp_eq, numericOrdinalCmp_eq]
    exact OrientedCmp.eq_swap
  isLE_trans {a b c} hab hbc := by
    rw [numericOrdinalCmp_eq] at hab hbc ⊢
    exact TransCmp.isLE_trans hab hbc

instance : TransCmp matchedCmp :=
  have _ : TransCmp fun a b : List Char × List Char => numericOrdinalCmp b.2 a.2 :=
    { eq_swap := OrientedCmp.eq_swap, isLE_trans := fun hab hbc => TransCmp.isLE_trans hbc hab }
  have _ : TransCmp fun a b : List Char × List Char => numericOrdinalCmp a.1 b.1 :=
    { eq_swap := OrientedCmp.eq_swap, isLE_trans := TransCmp.isLE_trans }
  inferInstanceAs (TransCmp (compareLex (fun a b => numericOrdinalCmp b.2 a.2)
    fun a b : List Char × List Char => numericOrdinalCmp a.1 b.1))

/-! ### Where the texts differ in a run -/

def runValue (run : List Char) : Nat := Nat.ofDigitChars 10 run 0

theorem takeNumber_run {run : List Char} (hrun : run.all Char.isDigit = true) (value : Nat)
    {rest : List Char} (hrest : ∀ c, rest.head? = some c → c.isDigit = false) :
    takeNumber (min value u128Max) (run ++ rest) =
      (min (Nat.ofDigitChars 10 run value) u128Max, rest) := by
  induction run generalizing value with
  | nil =>
    cases rest with
    | nil => rfl
    | cons c rest =>
      have hc : ¬ c.isDigit = true := by simp [hrest c rfl]
      rw [List.nil_append, takeNumber, if_neg hc]
      rfl
  | cons c run ih =>
    rw [List.all_cons, Bool.and_eq_true_iff] at hrun
    have hpush : min (min (min value u128Max * 10) u128Max + (c.toNat - '0'.toNat)) u128Max =
        min (10 * value + (c.toNat - '0'.toNat)) u128Max := by
      generalize c.toNat - '0'.toNat = digit
      have hmax : 0 < u128Max := by decide
      generalize u128Max = most at hmax ⊢
      omega
    rw [List.cons_append, takeNumber, if_pos hrun.1, hpush, ih hrun.2, Nat.ofDigitChars_cons]

theorem tokens_run {run rest : List Char} (hrun : run.all Char.isDigit = true) (hne : run ≠ [])
    (hrest : ∀ c, rest.head? = some c → c.isDigit = false) :
    tokens (run ++ rest) = ('0'.toNat, min (runValue run) u128Max) :: tokens rest := by
  have htake := takeNumber_run hrun 0 hrest
  rw [Nat.zero_min] at htake
  cases run with
  | nil => exact absurd rfl hne
  | cons c run =>
    rw [List.all_cons, Bool.and_eq_true_iff] at hrun
    rw [List.cons_append] at htake ⊢
    rw [tokens, if_pos hrun.1, htake]
    rfl

theorem tokens_append {p : List Char} (hp : ∀ c, p.getLast? = some c → c.isDigit = false)
    (a : List Char) : tokens (p ++ a) = tokens p ++ tokens a := by
  induction p using tokens.induct with
  | case1 => rw [tokens]; rfl
  | case2 x p hx ih =>
    rw [takeNumber_snd] at ih
    have hsplit := List.takeWhile_append_dropWhile (p := Char.isDigit) (l := x :: p)
    have hrun : ((x :: p).takeWhile Char.isDigit).all Char.isDigit = true :=
      List.all_takeWhile
    have hne : (x :: p).takeWhile Char.isDigit ≠ [] := by
      rw [List.takeWhile_cons, if_pos hx]
      exact List.cons_ne_nil _ _
    generalize (x :: p).takeWhile Char.isDigit = run at hsplit hrun hne
    have hhead := List.head?_dropWhile_not Char.isDigit (x :: p)
    generalize (x :: p).dropWhile Char.isDigit = rest at hsplit ih hhead
    rw [← hsplit] at hp ⊢
    cases rest with
    | nil =>
      -- the last character would be a digit
      rw [List.append_nil, List.getLast?_eq_getLast_of_ne_nil hne] at hp
      have hlast := List.all_eq_true.mp hrun _ (List.getLast_mem hne)
      rw [hp _ rfl] at hlast
      cases hlast
    | cons y rest =>
      have hy : ∀ c, (y :: rest).head? = some c → c.isDigit = false := by
        intro c hc
        rw [List.head?_cons, Option.some.injEq] at hc
        exact hc ▸ hhead
      have hya : ∀ c, (y :: rest ++ a).head? = some c → c.isDigit = false := hy
      rw [List.append_assoc, tokens_run hrun hne hya, tokens_run hrun hne hy, ih, List.cons_append]
      intro c hc
      refine hp c ?_
      rw [List.getLast?_append, hc]
      rfl
  | case3 x p hx ih =>
    rw [List.cons_append, tokens, if_neg hx, tokens, if_neg hx, ih, List.cons_append]
    intro c hc
    refine hp c ?_
    cases p with
    | nil => cases hc
    | cons y p => rw [List.getLast?_cons_cons]; exact hc

theorem compareLex_append (t a b : List (Nat × Nat)) :
    (t ++ a).compareLex tokenCmp (t ++ b) = a.compareLex tokenCmp b := by
  induction t with
  | nil => rfl
  | cons x t ih =>
    rw [List.cons_append, List.cons_append, List.compareLex_cons_cons, ih,
      (ReflCmp.compare_self : tokenCmp x x = .eq)]
    rfl

/-- Runs are compared by their saturated values, and where these agree the rest decides. -/
theorem numericOrdinalCmp_runs {p r₁ r₂ s₁ s₂ : List Char}
    (hp : ∀ c, p.getLast? = some c → c.isDigit = false)
    (hr₁ : r₁.all Char.isDigit = true) (hne₁ : r₁ ≠ [])
    (hr₂ : r₂.all Char.isDigit = true) (hne₂ : r₂ ≠ [])
    (hs₁ : ∀ c, s₁.head? = some c → c.isDigit = false)
    (hs₂ : ∀ c, s₂.head? = some c → c.isDigit = false) :
    numericOrdinalCmp (p ++ (r₁ ++ s₁)) (p ++ (r₂ ++ s₂)) =
      (compare (min (runValue r₁) u128Max) (min (runValue r₂) u128Max)).then
        (numericOrdinalCmp s₁ s₂) := by
  rw [numericOrdinalCmp_eq, numericOrdinalCmp_eq s₁, tokens_append hp, tokens_append hp,
    compareLex_append, tokens_run hr₁ hne₁ hs₁, tokens_run hr₂ hne₂ hs₂,
    List.compareLex_cons_cons]
  rfl

/-- **A total preorder, by value up to the limit**: the comparison is reflexive, oriented and
transitive, and so is the one of the names with a resolution; and texts that differ first in a
run of digits are in the order of the values of the runs, where `u128::MAX` stands for every
value above it.  Where the runs are of the same value the rest decides. -/
theorem numeric_order (a b c : List Char) :
    (numericOrdinalCmp a a = .eq ∧ numericOrdinalCmp a b = (numericOrdinalCmp b a).swap ∧
      ((numericOrdinalCmp a b).isLE → (numericOrdinalCmp b c).isLE →
        (numericOrdinalCmp a c).isLE)) ∧
    TransCmp matchedCmp ∧
    ∀ p r₁ r₂ s₁ s₂ : List Char, (∀ c, p.getLast? = some c → c.isDigit = false) →
      r₁.all Char.isDigit = true → r₁ ≠ [] → r₂.all Char.isDigit = true → r₂ ≠ [] →
      (∀ c, s₁.head? = some c → c.isDigit = false) →
      (∀ c, s₂.head? = some c → c.isDigit = false) →
      numericOrdinalCmp (p ++ (r₁ ++ s₁)) (p ++ (r₂ ++ s₂)) =
        (compare (min (runValue r₁) u128Max) (min (runValue r₂) u128Max)).then
          (numericOrdinalCmp s₁ s₂) :=
  ⟨⟨ReflCmp.compare_self, OrientedCmp.eq_swap, TransCmp.isLE_trans⟩, inferInstance,
    fun _ _ _ _ _ hp hr₁ hne₁ hr₂ hne₂ hs₁ hs₂ =>
      numericOrdinalCmp_runs hp hr₁ hne₁ hr₂ hne₂ hs₁ hs₂⟩

/-- `u128::MAX` and the next number, in digits. -/
def mostDigits : List Char := "340282366920938463463374607431768211455".toList

def overDigits : List Char := "340282366920938463463374607431768211456".toList

/-- Beyond the limit the values are not told apart. -/
theorem numeric_order_saturates :
    runValue mostDigits < runValue overDigits ∧ numericOrdinalCmp mostDigits overDigits = .eq := by
  refine ⟨by decide +kernel, ?_⟩
  have hruns := @numericOrdinalCmp_runs [] mostDigits overDigits [] [] nofun (by decide +kernel)
    (by decide +kernel) (by decide +kernel) (by decide +kernel) nofun nofun
  rw [List.append_nil, List.append_nil] at hruns
  refine hruns.trans ?_
  rw [numericOrdinalCmp]
  decide +kernel

/-- An episode of a lower number is before one of a higher. -/
theorem numeric_order_episodes :
    numericOrdinalCmp ['e', '9', '.'] ['e', '0', '1', '0', '.'] = .lt := by
  have hlast : ∀ c, ['e'].getLast? = some c → c.isDigit = false := by
    rintro c ⟨⟩
    rfl
  have hrest : ∀ c, ['.'].head? = some c → c.isDigit = false := by
    rintro c ⟨⟩
    rfl
  exact (numeric_order [] [] []).2.2 ['e'] ['9'] ['0', '1', '0'] ['.'] ['.'] hlast rfl
    (List.cons_ne_nil _ _) rfl (List.cons_ne_nil _ _) hrest hrest

end Ferrofin.Naming
