import Ferrofin.Lib.Lines

/-!
# UTF-8

`String::from_utf8_lossy` decodes any bytes: where a character's bytes break off, what there is
of it becomes one replacement character.  A byte below `0x80` never continues a character, so
the bytes may be cut there (`fromUtf8Lossy_append`), and at the ends of lines in particular
(`transcoding_fromUtf8Lossy`).
-/

namespace Ferrofin.Util

open Lib

def replacementCharacter : Char := Char.ofNat 0xFFFD

def asBytes (text : List Char) : List UInt8 := text.flatMap String.utf8EncodeChar

def IsContinuation (n : Nat) : Prop := 0x80 ≤ n ∧ n ≤ 0xBF

def IsSecondOfThree (b n : Nat) : Prop :=
  b = 0xE0 ∧ 0xA0 ≤ n ∧ n ≤ 0xBF ∨ 0xE1 ≤ b ∧ b ≤ 0xEC ∧ IsContinuation n ∨
    b = 0xED ∧ 0x80 ≤ n ∧ n ≤ 0x9F ∨ 0xEE ≤ b ∧ b ≤ 0xEF ∧ IsContinuation n

def IsSecondOfFour (b n : Nat) : Prop :=
  b = 0xF0 ∧ 0x90 ≤ n ∧ n ≤ 0xBF ∨ 0xF1 ≤ b ∧ b ≤ 0xF3 ∧ IsContinuation n ∨
    b = 0xF4 ∧ 0x80 ≤ n ∧ n ≤ 0x8F

instance (n : Nat) : Decidable (IsContinuation n) := inferInstanceAs (Decidable (_ ∧ _))

instance (b n : Nat) : Decidable (IsSecondOfThree b n) := inferInstanceAs (Decidable (_ ∨ _))

instance (b n : Nat) : Decidable (IsSecondOfFour b n) := inferInstanceAs (Decidable (_ ∨ _))

/-- The character that a byte starts with the bytes after it, and how many of these belong to
it. -/
def firstChar (b : Nat) (next : Nat → Nat) : Char × Nat :=
  if b < 0x80 then (Char.ofNat b, 0)
  else if 0xC2 ≤ b ∧ b ≤ 0xDF then
    if ¬ IsContinuation (next 0) then (replacementCharacter, 0)
    else (Char.ofNat ((b - 0xC0) * 64 + (next 0 - 0x80)), 1)
  else if 0xE0 ≤ b ∧ b ≤ 0xEF then
    if ¬ IsSecondOfThree b (next 0) then (replacementCharacter, 0)
    else if ¬ IsContinuation (next 1) then (replacementCharacter, 1)
    else (Char.ofNat ((b - 0xE0) * 4096 + (next 0 - 0x80) * 64 + (next 1 - 0x80)), 2)
  else if 0xF0 ≤ b ∧ b ≤ 0xF4 then
    if ¬ IsSecondOfFour b (next 0) then (replacementCharacter, 0)
    else if ¬ IsContinuation (next 1) then (replacementCharacter, 1)
    else if ¬ IsContinuation (next 2) then (replacementCharacter, 2)
    else
      (Char.ofNat ((b - 0xF0) * 262144 + (next 0 - 0x80) * 4096 + (next 1 - 0x80) * 64 +
        (next 2 - 0x80)), 3)
  else (replacementCharacter, 0)

/-- A byte, or `0` behind the last. -/
def safeGet (bytes : List UInt8) (i : Nat) : Nat := (bytes.getD i 0).toNat

/-- The decoded text after some bytes that a character before has. -/
def lossyFrom : (skip : Nat) → List UInt8 → List Char
  | _, [] => []
  | skip + 1, _ :: bytes => lossyFrom skip bytes
  | 0, b :: bytes =>
    (firstChar b.toNat (safeGet bytes)).1 :: lossyFrom (firstChar b.toNat (safeGet bytes)).2 bytes

def fromUtf8Lossy (bytes : List UInt8) : List Char := lossyFrom 0 bytes

/-! ### One character -/

theorem firstChar_ascii {b : Nat} (h : b < 0x80) (next : Nat → Nat) :
    firstChar b next = (Char.ofNat b, 0) := if_pos h

theorem not_isContinuation {n : Nat} (h : n < 0x80) : ¬ IsContinuation n := by
  unfold IsContinuation
  omega

theorem not_isSecondOfThree {n : Nat} (h : n < 0x80) (b : Nat) : ¬ IsSecondOfThree b n := by
  unfold IsSecondOfThree IsContinuation
  omega

theorem not_isSecondOfFour {n : Nat} (h : n < 0x80) (b : Nat) : ¬ IsSecondOfFour b n := by
  unfold IsSecondOfFour IsContinuation
  omega

/-- **A character ends before a byte that continues none.**  What is behind such a byte does not
matter. -/
theorem firstChar_congr (b : Nat) {f g : Nat → Nat} {k : Nat} (h : ∀ i < k, f i = g i)
    (hf : f k < 0x80) (hg : g k < 0x80) :
    firstChar b f = firstChar b g ∧ (firstChar b f).2 ≤ k := by
  unfold firstChar
  match k with
  | 0 =>
    simp only [not_isContinuation hf, not_isContinuation hg, not_isSecondOfThree hf,
      not_isSecondOfThree hg, not_isSecondOfFour hf, not_isSecondOfFour hg, not_false_eq_true,
      if_true, true_and]
    split_ifs <;> exact Nat.le_refl 0
  | 1 =>
    simp only [h 0 (by omega), not_isContinuation hf, not_isContinuation hg, not_false_eq_true,
      if_true, true_and]
    split_ifs <;> simp
  | 2 =>
    simp only [h 0 (by omega), h 1 (by omega), not_isContinuation hf, not_isContinuation hg,
      not_false_eq_true, if_true, true_and]
    split_ifs <;> simp
  | k + 3 =>
    simp only [h 0 (by omega), h 1 (by omega), h 2 (by omega), true_and]
    split_ifs <;> simp

theorem toNat_ofNat {n : Nat} (h : n.isValidChar) : (Char.ofNat n).toNat = n := by
  rw [Char.ofNat, dif_pos h]
  rfl

/-- A character below `0x80` is a byte of its own. -/
theorem firstChar_toNat (b : Nat) (next : Nat → Nat) (h : (firstChar b next).1.toNat < 0x80) :
    b < 0x80 := by
  by_contra hb
  have hreplacement : replacementCharacter.toNat = 0xFFFD := by decide
  unfold firstChar at h
  rw [if_neg hb] at h
  split_ifs at h with h2 hc h3 hs hc h4 hs hc hc' <;> simp only at h <;> try omega
  · unfold IsContinuation at hc
    rw [toNat_ofNat (by unfold Nat.isValidChar; omega)] at h
    omega
  · unfold IsSecondOfThree IsContinuation at hs
    unfold IsContinuation at hc
    rw [toNat_ofNat (by unfold Nat.isValidChar; omega)] at h
    omega
  · unfold IsSecondOfFour IsContinuation at hs
    unfold IsContinuation at hc hc'
    rw [toNat_ofNat (by unfold Nat.isValidChar; omega)] at h
    omega

/-! ### Bytes -/

theorem safeGet_append_of_lt {x : List UInt8} {i : Nat} (h : i < x.length) (y : List UInt8) :
    safeGet (x ++ y) i = safeGet x i := by
  rw [safeGet, safeGet, List.getD, List.getD, List.getElem?_append_left h]

/-- **Before a byte that continues none, the bytes are decoded as if it were the end.** -/
theorem lossyFrom_append {t : UInt8} (ht : t.toNat < 0x80) {skip : Nat} {x : List UInt8}
    (hskip : skip ≤ x.length) (y : List UInt8) :
    lossyFrom skip (x ++ t :: y) = lossyFrom skip x ++ Char.ofNat t.toNat :: lossyFrom 0 y := by
  induction x generalizing skip with
  | nil =>
    obtain rfl := Nat.le_zero.mp hskip
    have hfirst := firstChar_ascii ht (safeGet y)
    simp only [List.nil_append, lossyFrom, hfirst]
  | cons b x ih =>
    cases skip with
    | succ skip => exact ih (Nat.le_of_succ_le_succ hskip)
    | zero =>
      have hend : safeGet (x ++ t :: y) x.length = t.toNat := by simp [safeGet]
      have hnil : safeGet x x.length = 0 := by simp [safeGet]
      obtain ⟨hchar, hle⟩ := firstChar_congr b.toNat
        (fun i hi => (safeGet_append_of_lt hi (t :: y)).symm) (hnil ▸ by decide) (hend ▸ ht)
      rw [List.cons_append, lossyFrom, ← hchar, ih hle, lossyFrom, List.cons_append]

/-- A decoded character below `0x80` was a byte. -/
theorem mem_of_mem_lossyFrom {skip : Nat} {bytes : List UInt8} {c : Char}
    (h : c ∈ lossyFrom skip bytes) (hc : c.toNat < 0x80) : ∃ b ∈ bytes, b.toNat = c.toNat := by
  induction bytes generalizing skip with
  | nil =>
    rw [lossyFrom] at h
    cases h
  | cons b bytes ih =>
    cases skip with
    | succ skip =>
      obtain ⟨d, hd, hcd⟩ := ih h
      exact ⟨d, List.mem_cons_of_mem _ hd, hcd⟩
    | zero =>
      rcases List.mem_cons.mp h with rfl | h
      · have hb := firstChar_toNat _ _ hc
        refine ⟨b, List.mem_cons_self .., ?_⟩
        rw [firstChar_ascii hb, toNat_ofNat (by unfold Nat.isValidChar; omega)]
      · obtain ⟨d, hd, hcd⟩ := ih h
        exact ⟨d, List.mem_cons_of_mem _ hd, hcd⟩

/-! ### A text and its bytes -/

section

variable {v : Nat} {next : Nat → Nat}

theorem firstChar_two (hmin : 0x7F < v) (hmax : v ≤ 0x7FF) (h0 : next 0 = v % 64 + 0x80) :
    firstChar (v / 64 % 32 + 0xC0) next = (Char.ofNat v, 1) := by
  have hcont : IsContinuation (next 0) := by
    unfold IsContinuation
    omega
  have hv : (v / 64 % 32 + 0xC0 - 0xC0) * 64 + (v % 64 + 0x80 - 0x80) = v := by omega
  rw [firstChar, if_neg (by omega), if_pos (by omega), if_neg (not_not.mpr hcont), h0, hv]

theorem firstChar_three (hvalid : v.isValidChar) (hmin : 0x7FF < v) (hmax : v ≤ 0xFFFF)
    (h0 : next 0 = v / 64 % 64 + 0x80) (h1 : next 1 = v % 64 + 0x80) :
    firstChar (v / 4096 % 16 + 0xE0) next = (Char.ofNat v, 2) := by
  have hsecond : IsSecondOfThree (v / 4096 % 16 + 0xE0) (next 0) := by
    unfold Nat.isValidChar at hvalid
    unfold IsSecondOfThree IsContinuation
    omega
  have hcont : IsContinuation (next 1) := by
    unfold IsContinuation
    omega
  have hv : (v / 4096 % 16 + 0xE0 - 0xE0) * 4096 + (v / 64 % 64 + 0x80 - 0x80) * 64 +
      (v % 64 + 0x80 - 0x80) = v := by omega
  rw [firstChar, if_neg (by omega), if_neg (by omega), if_pos (by omega),
    if_neg (not_not.mpr hsecond), if_neg (not_not.mpr hcont), h0, h1, hv]

theorem firstChar_four (hvalid : v.isValidChar) (hmin : 0xFFFF < v)
    (h0 : next 0 = v / 4096 % 64 + 0x80) (h1 : next 1 = v / 64 % 64 + 0x80)
    (h2 : next 2 = v % 64 + 0x80) :
    firstChar (v / 262144 % 8 + 0xF0) next = (Char.ofNat v, 3) := by
  unfold Nat.isValidChar at hvalid
  have hsecond : IsSecondOfFour (v / 262144 % 8 + 0xF0) (next 0) := by
    unfold IsSecondOfFour IsContinuation
    omega
  have hcont : IsContinuation (next 1) ∧ IsContinuation (next 2) := by
    unfold IsContinuation
    omega
  have hv : (v / 262144 % 8 + 0xF0 - 0xF0) * 262144 + (v / 4096 % 64 + 0x80 - 0x80) * 4096 +
      (v / 64 % 64 + 0x80 - 0x80) * 64 + (v % 64 + 0x80 - 0x80) = v := by omega
  rw [firstChar, if_neg (by omega), if_neg (by omega), if_neg (by omega), if_pos (by omega),
    if_neg (not_not.mpr hsecond), if_neg (not_not.mpr hcont.1), if_neg (not_not.mpr hcont.2), h0,
    h1, h2, hv]

end

theorem toNat_ofNat_of_lt {n : Nat} (h : n < 256) : (UInt8.ofNat n).toNat = n := by
  rw [UInt8.toNat_ofNat']
  exact Nat.mod_eq_of_lt h

theorem lossyFrom_zero_cons {b : UInt8} {bytes : List UInt8} {c : Char} {n : Nat}
    (h : firstChar b.toNat (safeGet bytes) = (c, n)) :
    lossyFrom 0 (b :: bytes) = c :: lossyFrom n bytes := by
  rw [lossyFrom, h]

/-- **A character is decoded from its bytes.** -/
theorem lossyFrom_encodeChar (c : Char) (bytes : List UInt8) :
    lossyFrom 0 (String.utf8EncodeChar c ++ bytes) = c :: lossyFrom 0 bytes := by
  have hvalid : c.val.toNat.isValidChar := c.valid
  have hself : Char.ofNat c.val.toNat = c := Char.ofNat_toNat c
  rw [String.utf8EncodeChar]
  generalize c.val.toNat = v at hvalid hself
  subst hself
  split
  · next h =>
    refine lossyFrom_zero_cons ?_
    rw [toNat_ofNat_of_lt (by omega), firstChar_ascii (by omega)]
  split
  · next h1 h2 =>
    refine lossyFrom_zero_cons (n := 1) ?_
    rw [toNat_ofNat_of_lt (by omega)]
    refine firstChar_two (by omega) h2 ?_
    exact toNat_ofNat_of_lt (by omega)
  split
  · next h1 h2 h3 =>
    refine lossyFrom_zero_cons (n := 2) ?_
    rw [toNat_ofNat_of_lt (by omega)]
    refine firstChar_three hvalid (by omega) h3 ?_ ?_ <;> exact toNat_ofNat_of_lt (by omega)
  · next h1 h2 h3 =>
    refine lossyFrom_zero_cons (n := 3) ?_
    rw [toNat_ofNat_of_lt (by omega)]
    refine firstChar_four hvalid (by omega) ?_ ?_ ?_ <;> exact toNat_ofNat_of_lt (by omega)

theorem fromUtf8Lossy_asBytes (text : List Char) : fromUtf8Lossy (asBytes text) = text := by
  induction text with
  | nil => rfl
  | cons c text ih =>
    rw [fromUtf8Lossy, asBytes, List.flatMap_cons, lossyFrom_encodeChar]
    exact congrArg (c :: ·) ih

/-! ### ASCII -/

theorem asBytes_append (s t : List Char) : asBytes (s ++ t) = asBytes s ++ asBytes t :=
  List.flatMap_append

theorem encodeChar_ascii {c : Char} (h : c.toNat < 0x80) :
    String.utf8EncodeChar c = [UInt8.ofNat c.toNat] := by
  have hval : c.val.toNat ≤ 127 := Nat.le_of_lt_succ h
  rw [String.utf8EncodeChar, if_pos hval]
  rfl

/-- A byte below `0x80` of a character is the character. -/
theorem toNat_of_mem_encodeChar {c : Char} {b : UInt8} (h : b ∈ String.utf8EncodeChar c)
    (hb : b.toNat < 0x80) : c.toNat = b.toNat := by
  have hhigh : ∀ n, n < 256 → 0x80 ≤ n → b ≠ UInt8.ofNat n := by
    rintro n hlt hge rfl
    rw [toNat_ofNat_of_lt hlt] at hb
    omega
  rw [String.utf8EncodeChar] at h
  split at h
  · next hle =>
    rw [List.mem_singleton.mp h, toNat_ofNat_of_lt (by omega)]
    rfl
  split at h
  · simp only [List.mem_cons, List.not_mem_nil, or_false] at h
    rcases h with h | h <;> exact absurd h (hhigh _ (by omega) (by omega))
  split at h
  · simp only [List.mem_cons, List.not_mem_nil, or_false] at h
    rcases h with h | h | h <;> exact absurd h (hhigh _ (by omega) (by omega))
  · simp only [List.mem_cons, List.not_mem_nil, or_false] at h
    rcases h with h | h | h | h <;> exact absurd h (hhigh _ (by omega) (by omega))

/-! ### Lines -/

def byteTerminators : Terminators UInt8 := ⟨13, 10, by decide⟩

def charTerminators : Terminators Char := ⟨'\r', '\n', by decide⟩

/-- **Decoding keeps the ends of lines.** -/
theorem transcoding_fromUtf8Lossy : Transcoding byteTerminators charTerminators fromUtf8Lossy where
  nil := rfl
  ne_nil := fun {x} hx => by
    obtain ⟨b, x, rfl⟩ := List.exists_cons_of_ne_nil hx
    exact List.cons_ne_nil _ _
  cr := fun x y => lossyFrom_append (t := 13) (by decide) (Nat.zero_le _) y
  lf := fun x y => lossyFrom_append (t := 10) (by decide) (Nat.zero_le _) y
  free := fun {x} hx => by
    constructor <;> intro hmem
    · obtain ⟨b, hb, heq⟩ := mem_of_mem_lossyFrom hmem (by decide)
      obtain rfl : b = byteTerminators.cr := UInt8.toNat_inj.mp heq
      exact hx.1 hb
    · obtain ⟨b, hb, heq⟩ := mem_of_mem_lossyFrom hmem (by decide)
      obtain rfl : b = byteTerminators.lf := UInt8.toNat_inj.mp heq
      exact hx.2 hb

end Ferrofin.Util
