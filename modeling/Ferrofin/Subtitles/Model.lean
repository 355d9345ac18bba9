import Ferrofin.Util.Decimal
import Ferrofin.Util.Text
import Mathlib.Tactic.Linarith
import Mathlib.Tactic.Positivity

/-!
# The subtitle model

Cues with their times, as the parsers and the writers share them.  A time is a number of
milliseconds; what the writers print of it is read back through 100 ns ticks.
-/

namespace Ferrofin.Subtitles

open Util (parseDigits parseInt parseSigned parseSigned_of_isDigit isDigit_of_mem_toDigits
  isWhitespace_of_isDigit)

abbrev Text : Type := List Char

def newline : Char := '\n'

/-- What is a digit in a pattern: those of ASCII and of other scripts, and no white space. -/
structure DigitClass where
  isDigit : Char → Bool
  ascii : ∀ c : Char, c.isDigit = true → isDigit c = true
  notBlank : ∀ c : Char, Util.isWhitespace c = true → isDigit c = false

structure TimeCode where
  totalMilliseconds : ℚ
  deriving DecidableEq

namespace TimeCode

/-- 99:59:59.999: a larger magnitude reads back as zero. -/
def maxTimeTotalMilliseconds : ℚ := 359999999

def ticksPerMillisecond : ℤ := 10000

def ticks (time : TimeCode) : ℤ :=
  if -maxTimeTotalMilliseconds ≤ time.totalMilliseconds ∧
      time.totalMilliseconds ≤ maxTimeTotalMilliseconds then
    (time.totalMilliseconds * ticksPerMillisecond).num.tdiv
      (time.totalMilliseconds * ticksPerMillisecond).den
  else 0

def hours (time : TimeCode) : ℤ := time.ticks.tdiv (ticksPerMillisecond * 3600000)

def minutes (time : TimeCode) : ℤ := (time.ticks.tdiv (ticksPerMillisecond * 60000)).tmod 60

def seconds (time : TimeCode) : ℤ := (time.ticks.tdiv (ticksPerMillisecond * 1000)).tmod 60

def milliseconds (time : TimeCode) : ℤ := (time.ticks.tdiv ticksPerMillisecond).tmod 1000

end TimeCode

/-- A number with zeros in front of it, to have some digits. -/
def padded (digits n : ℕ) : Text :=
  List.replicate (digits - (Nat.toDigits 10 n).length) '0' ++ Nat.toDigits 10 n

/-- A number in the format of some zeros: a negative one keeps its sign before the padding. -/
def dotnetInt (value : ℤ) (digits : ℕ) : Text :=
  if value < 0 then '-' :: padded digits value.natAbs else padded digits value.natAbs

/-- `hh:mm:ss,fff`, with one sign in front of a negative time. -/
def TimeCode.toSrtString (time : TimeCode) : Text :=
  let s := dotnetInt time.hours 2 ++ [':'] ++ dotnetInt time.minutes 2 ++ [':'] ++
    dotnetInt time.seconds 2 ++ [','] ++ dotnetInt time.milliseconds 3
  if 0 ≤ time.totalMilliseconds then s else '-' :: s.filter (· != '-')

structure Paragraph where
  /-- The cue number. -/
  number : ℤ
  text : Text
  startTime : TimeCode
  endTime : TimeCode
  /-- The WebVTT region that the cue names. -/
  region : Option Text := none
  deriving DecidableEq

def Paragraph.plain (p : Paragraph) : Paragraph := ⟨p.number, p.text, p.startTime, p.endTime, none⟩

/-! ### Numbers as they are written -/

def asciiDigits : DigitClass where
  isDigit := Char.isDigit
  ascii := fun _ h => h
  notBlank := fun c hc => Bool.eq_false_iff.mpr fun hdigit => by
    rw [isWhitespace_of_isDigit hdigit] at hc
    cases hc

variable {digits n : ℕ} {c : Char}

theorem padded_ne_nil (digits n : ℕ) : padded digits n ≠ [] :=
  List.append_ne_nil_of_right_ne_nil _ Nat.toDigits_ne_nil

theorem isDigit_of_mem_padded (h : c ∈ padded digits n) : c.isDigit = true := by
  rcases List.mem_append.mp h with h | h
  · rw [List.eq_of_mem_replicate h]
    rfl
  · exact isDigit_of_mem_toDigits h

theorem parseDigits_padded (digits n : ℕ) : parseDigits (padded digits n) = some n := by
  have hall : (padded digits n).all Char.isDigit = true :=
    List.all_eq_true.mpr fun c hc => isDigit_of_mem_padded hc
  rw [parseDigits, if_pos ⟨padded_ne_nil digits n, hall⟩, padded, Nat.ofDigitChars_append,
    Nat.ofDigitChars_replicate_zero, Nat.mul_zero, Nat.ofDigitChars_ten_toDigits]

theorem parseInt_padded {bits : ℕ} (digits : ℕ) (h : n < 2 ^ (bits - 1)) :
    parseInt bits (padded digits n) = some (n : ℤ) := by
  obtain ⟨c, s, hs⟩ := List.exists_cons_of_ne_nil (padded_ne_nil digits n)
  have hc : c.isDigit = true := isDigit_of_mem_padded (by rw [hs]; exact List.mem_cons_self)
  rw [parseInt, hs, parseSigned_of_isDigit hc, ← hs, parseDigits_padded, Option.map_some,
    Option.filter_some, if_pos]
  refine decide_eq_true ⟨?_, by exact_mod_cast h⟩
  exact le_trans (neg_nonpos_of_nonneg (by positivity)) (Int.natCast_nonneg n)

theorem dotnetInt_natCast (n digits : ℕ) : dotnetInt n digits = padded digits n := by
  rw [dotnetInt, if_neg (by omega), Int.natAbs_natCast]

/-! ### Whole milliseconds -/

def TimeCode.ofMilliseconds (n : ℕ) : TimeCode := ⟨n⟩

theorem ticks_ofMilliseconds (h : n ≤ 359999999) :
    (TimeCode.ofMilliseconds n).ticks = n * 10000 := by
  have hle : ((n : ℚ)) ≤ 359999999 := by exact_mod_cast h
  have hnonneg : (0 : ℚ) ≤ n := Nat.cast_nonneg n
  have hproduct : (n : ℚ) * (TimeCode.ticksPerMillisecond : ℤ) = ((n * 10000 : ℤ) : ℚ) := by
    rw [TimeCode.ticksPerMillisecond]
    push_cast
    rfl
  have hlow : -TimeCode.maxTimeTotalMilliseconds ≤ (n : ℚ) := by
    rw [TimeCode.maxTimeTotalMilliseconds]
    linarith
  rw [TimeCode.ticks, if_pos ⟨hlow, hle⟩]
  change ((n : ℚ) * (TimeCode.ticksPerMillisecond : ℤ)).num.tdiv
    ((n : ℚ) * (TimeCode.ticksPerMillisecond : ℤ)).den = _
  rw [hproduct, Rat.num_intCast, Rat.den_intCast]
  exact Int.tdiv_one _

theorem toSrtString_ofMilliseconds (h : n ≤ 359999999) :
    (TimeCode.ofMilliseconds n).toSrtString =
      padded 2 (n / 3600000) ++ [':'] ++ padded 2 (n / 60000 % 60) ++ [':'] ++
        padded 2 (n / 1000 % 60) ++ [','] ++ padded 3 (n % 1000) := by
  have hticks := ticks_ofMilliseconds h
  have hhours : (TimeCode.ofMilliseconds n).hours = (n / 3600000 : ℕ) := by
    rw [TimeCode.hours, hticks, TimeCode.ticksPerMillisecond, Int.tdiv_eq_ediv_of_nonneg] <;> omega
  have hminutes : (TimeCode.ofMilliseconds n).minutes = (n / 60000 % 60 : ℕ) := by
    rw [TimeCode.minutes, hticks, TimeCode.ticksPerMillisecond, Int.tdiv_eq_ediv_of_nonneg,
      Int.tmod_eq_emod_of_nonneg] <;> omega
  have hseconds : (TimeCode.ofMilliseconds n).seconds = (n / 1000 % 60 : ℕ) := by
    rw [TimeCode.seconds, hticks, TimeCode.ticksPerMillisecond, Int.tdiv_eq_ediv_of_nonneg,
      Int.tmod_eq_emod_of_nonneg] <;> omega
  have hmilliseconds : (TimeCode.ofMilliseconds n).milliseconds = (n % 1000 : ℕ) := by
    rw [TimeCode.milliseconds, hticks, TimeCode.ticksPerMillisecond, Int.tdiv_eq_ediv_of_nonneg,
      Int.tmod_eq_emod_of_nonneg] <;> omega
  have hpositive : (0 : ℚ) ≤ (TimeCode.ofMilliseconds n).totalMilliseconds := Nat.cast_nonneg n
  rw [TimeCode.toSrtString, hhours, hminutes, hseconds, hmilliseconds, if_pos hpositive]
  simp only [dotnetInt_natCast]

end Ferrofin.Subtitles
