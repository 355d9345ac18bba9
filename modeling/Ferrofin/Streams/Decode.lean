import Ferrofin.Util.Utf8

/-!
# The text of a stream

A stream's first bytes name its encoding (`detectEncoding`), and `decodeStreamText` decodes it
whole.  Of the encodings with code units of more than one byte this file says where bytes may be
cut: between whole units, and in UTF-16 not between the two halves of a surrogate pair
(`decode_append`).
-/

namespace Ferrofin.Streams

open Lib Util
open List (cons_append)

inductive TextEncoding where
  | utf8
  | utf16Le
  | utf16Be
  | utf32Le
  | utf32Be
deriving DecidableEq

def longestBom : Nat := 4

/-- The encoding a byte-order mark names, and how long the mark is. -/
def detectEncoding (bytes : List UInt8) : TextEncoding × Nat :=
  if [0xFF, 0xFE, 0x00, 0x00].isPrefixOf bytes then (.utf32Le, 4)
  else if [0x00, 0x00, 0xFE, 0xFF].isPrefixOf bytes then (.utf32Be, 4)
  else if [0xFF, 0xFE].isPrefixOf bytes then (.utf16Le, 2)
  else if [0xFE, 0xFF].isPrefixOf bytes then (.utf16Be, 2)
  else if [0xEF, 0xBB, 0xBF].isPrefixOf bytes then (.utf8, 3)
  else (.utf8, 0)

/-- `u16::from_le_bytes`. -/
def u16FromLeBytes (a b : UInt8) : Nat := a.toNat + 256 * b.toNat

/-- `u16::from_be_bytes`. -/
def u16FromBeBytes (a b : UInt8) : Nat := u16FromLeBytes b a

/-- `u32::from_le_bytes`. -/
def u32FromLeBytes (a b c d : UInt8) : Nat := u16FromLeBytes a b + 65536 * u16FromLeBytes c d

/-- `u32::from_be_bytes`. -/
def u32FromBeBytes (a b c d : UInt8) : Nat := u32FromLeBytes d c b a

def IsHigh (unit : Nat) : Prop := 0xD800 ≤ unit ∧ unit < 0xDC00

def IsLow (unit : Nat) : Prop := 0xDC00 ≤ unit ∧ unit < 0xE000

instance (unit : Nat) : Decidable (IsHigh unit) := inferInstanceAs (Decidable (_ ∧ _))

instance (unit : Nat) : Decidable (IsLow unit) := inferInstanceAs (Decidable (_ ∧ _))

/-- `char::decode_utf16`, a lone surrogate being replaced. -/
def decodeUnits : List Nat → List Char
  | [] => []
  | [u] => if IsHigh u ∨ IsLow u then [replacementCharacter] else [Char.ofNat u]
  | u :: v :: units =>
    if IsHigh u ∧ IsLow v then
      Char.ofNat ((u - 0xD800) * 1024 + (v - 0xDC00) + 0x10000) :: decodeUnits units
    else if IsHigh u ∨ IsLow u then replacementCharacter :: decodeUnits (v :: units)
    else Char.ofNat u :: decodeUnits (v :: units)

/-- `as_chunks::<2>`: the pairs, and the byte that is left. -/
def asChunks2 : List UInt8 → List (UInt8 × UInt8) × List UInt8
  | a :: b :: bytes => ((a, b) :: (asChunks2 bytes).1, (asChunks2 bytes).2)
  | tail => ([], tail)

/-- `as_chunks::<4>`. -/
def asChunks4 : List UInt8 → List (UInt8 × UInt8 × UInt8 × UInt8) × List UInt8
  | a :: b :: c :: d :: bytes => ((a, b, c, d) :: (asChunks4 bytes).1, (asChunks4 bytes).2)
  | tail => ([], tail)

def units (unit : UInt8 → UInt8 → Nat) (bytes : List UInt8) : List Nat :=
  (asChunks2 bytes).1.map fun pair => unit pair.1 pair.2

/-- `char::from_u32`, an invalid one being replaced. -/
def charFromU32 (n : Nat) : Char := if n.isValidChar then Char.ofNat n else replacementCharacter

def decodeUtf16 (bytes : List UInt8) (unit : UInt8 → UInt8 → Nat) : List Char :=
  decodeUnits (units unit bytes) ++ if (asChunks2 bytes).2 = [] then [] else [replacementCharacter]

def decodeUtf32 (bytes : List UInt8) (unit : UInt8 → UInt8 → UInt8 → UInt8 → Nat) : List Char :=
  ((asChunks4 bytes).1.map fun quad => charFromU32 (unit quad.1 quad.2.1 quad.2.2.1 quad.2.2.2)) ++
    if (asChunks4 bytes).2 = [] then [] else [replacementCharacter]

def decode (encoding : TextEncoding) (bytes : List UInt8) : List Char :=
  match encoding with
  | .utf8 => fromUtf8Lossy bytes
  | .utf16Le => decodeUtf16 bytes u16FromLeBytes
  | .utf16Be => decodeUtf16 bytes u16FromBeBytes
  | .utf32Le => decodeUtf32 bytes u32FromLeBytes
  | .utf32Be => decodeUtf32 bytes u32FromBeBytes

/-- `String::from_utf8`: the text the bytes are those of. -/
def fromUtf8 (bytes : List UInt8) : Option (List Char) :=
  if asBytes (fromUtf8Lossy bytes) = bytes then some (fromUtf8Lossy bytes) else none

def decodeStreamText (bytes : List UInt8) : List Char :=
  match detectEncoding bytes with
  | (.utf8, bom) => (fromUtf8 (bytes.drop bom)).getD (fromUtf8Lossy (bytes.drop bom))
  | (encoding, bom) => decode encoding (bytes.drop bom)

theorem decodeStreamText_eq (bytes : List UInt8) :
    decodeStreamText bytes =
      decode (detectEncoding bytes).1 (bytes.drop (detectEncoding bytes).2) := by
  rw [decodeStreamText]
  split
  · next bom heq =>
    rw [heq, fromUtf8]
    split <;> rfl
  · next encoding bom _ heq => rw [heq]

/-- **The first bytes name the encoding.** -/
theorem detectEncoding_append {x : List UInt8} (h : longestBom ≤ x.length) (y : List UInt8) :
    detectEncoding (x ++ y) = detectEncoding x ∧ (detectEncoding x).2 ≤ x.length := by
  match x, h with
  | a :: b :: c :: d :: x, h =>
    constructor
    · rfl
    · unfold detectEncoding
      split_ifs <;> simp only [List.length_cons] <;> omega

/-! ### Where bytes may be cut -/

section

variable {unit : UInt8 → UInt8 → Nat} {x y : List UInt8}

theorem decodeUnits_append {us vs : List Nat}
    (h : ∀ u v, us.getLast? = some u → vs.head? = some v → ¬ (IsHigh u ∧ IsLow v)) :
    decodeUnits (us ++ vs) = decodeUnits us ++ decodeUnits vs := by
  fun_induction decodeUnits us with
  | case1 => rfl
  | case2 u hu =>
    cases vs with
    | nil => simp [decodeUnits, hu]
    | cons v vs => rw [List.singleton_append, decodeUnits, if_neg (h u v rfl rfl), if_pos hu]; rfl
  | case3 u hu =>
    cases vs with
    | nil => simp [decodeUnits, hu]
    | cons v vs => rw [List.singleton_append, decodeUnits, if_neg (h u v rfl rfl), if_neg hu]; rfl
  | case4 u v us hpair ih =>
    have hrest : ∀ w z, us.getLast? = some w → vs.head? = some z → ¬ (IsHigh w ∧ IsLow z) :=
      fun w z hw hz => h w z (by simp [List.getLast?_cons, hw]) hz
    rw [cons_append, cons_append, decodeUnits, if_pos hpair, ih hrest, cons_append]
  | case5 u v us hpair hu ih =>
    have hrest : ∀ w z, (v :: us).getLast? = some w → vs.head? = some z → ¬ (IsHigh w ∧ IsLow z) :=
      fun w z hw hz => h w z (by rw [List.getLast?_cons_cons]; exact hw) hz
    rw [cons_append, cons_append, decodeUnits, if_neg hpair, if_pos hu,
      ← cons_append, ih hrest, cons_append]
  | case6 u v us hpair hu ih =>
    have hrest : ∀ w z, (v :: us).getLast? = some w → vs.head? = some z → ¬ (IsHigh w ∧ IsLow z) :=
      fun w z hw hz => h w z (by rw [List.getLast?_cons_cons]; exact hw) hz
    rw [cons_append, cons_append, decodeUnits, if_neg hpair, if_neg hu,
      ← cons_append, ih hrest, cons_append]

theorem asChunks2_append (h : x.length % 2 = 0) (y : List UInt8) :
    asChunks2 (x ++ y) = ((asChunks2 x).1 ++ (asChunks2 y).1, (asChunks2 y).2) ∧
      (asChunks2 x).2 = [] := by
  fun_induction asChunks2 x with
  | case1 a b x ih =>
    simp only [List.length_cons] at h
    obtain ⟨happend, htail⟩ := ih (by omega)
    rw [cons_append, cons_append, asChunks2, happend]
    exact ⟨rfl, htail⟩
  | case2 tail hshort =>
    match tail, hshort, h with
    | [], _, _ => exact ⟨rfl, rfl⟩
    | a :: b :: _, hshort, _ => exact (hshort a b _ rfl).elim

theorem asChunks4_append (h : x.length % 4 = 0) (y : List UInt8) :
    asChunks4 (x ++ y) = ((asChunks4 x).1 ++ (asChunks4 y).1, (asChunks4 y).2) ∧
      (asChunks4 x).2 = [] := by
  fun_induction asChunks4 x with
  | case1 a b c d x ih =>
    simp only [List.length_cons] at h
    obtain ⟨happend, htail⟩ := ih (by omega)
    rw [cons_append, cons_append, cons_append, cons_append, asChunks4, happend]
    exact ⟨rfl, htail⟩
  | case2 tail hshort =>
    match tail, hshort, h with
    | [], _, _ => exact ⟨rfl, rfl⟩
    | a :: b :: c :: d :: _, hshort, _ => exact (hshort a b c d _ rfl).elim

theorem units_append (h : x.length % 2 = 0) (y : List UInt8) :
    units unit (x ++ y) = units unit x ++ units unit y := by
  rw [units, (asChunks2_append h y).1, List.map_append]
  rfl

theorem decodeUtf32_append (h : x.length % 4 = 0) (y : List UInt8)
    (quad : UInt8 → UInt8 → UInt8 → UInt8 → Nat) :
    decodeUtf32 (x ++ y) quad = decodeUtf32 x quad ++ decodeUtf32 y quad := by
  obtain ⟨happend, htail⟩ := asChunks4_append h y
  rw [decodeUtf32, decodeUtf32, decodeUtf32, happend, htail]
  simp

def EndsHigh (unit : UInt8 → UInt8 → Nat) (x : List UInt8) : Prop :=
  ∃ u, (units unit x).getLast? = some u ∧ IsHigh u

def StartsHigh (unit : UInt8 → UInt8 → Nat) (y : List UInt8) : Prop :=
  ∃ u, (units unit y).head? = some u ∧ IsHigh u

/-- The first half of a pair is not cut from the second. -/
def Apart (unit : UInt8 → UInt8 → Nat) (x y : List UInt8) : Prop :=
  x.length % 2 = 0 ∧ (EndsHigh unit x → units unit y = [] ∨ StartsHigh unit y)

theorem decodeUtf16_append (h : Apart unit x y) :
    decodeUtf16 (x ++ y) unit = decodeUtf16 x unit ++ decodeUtf16 y unit := by
  obtain ⟨happend, htail⟩ := asChunks2_append h.1 y
  have hunits : decodeUnits (units unit x ++ units unit y) =
      decodeUnits (units unit x) ++ decodeUnits (units unit y) := by
    refine decodeUnits_append fun u v hu hv ⟨hhigh, hlow⟩ => ?_
    rcases h.2 ⟨u, hu, hhigh⟩ with hnil | ⟨w, hw, hwhigh⟩
    · rw [hnil] at hv
      cases hv
    · rw [hw] at hv
      cases hv
      unfold IsHigh at hwhigh
      unfold IsLow at hlow
      omega
  rw [decodeUtf16, decodeUtf16, decodeUtf16, units_append h.1, hunits, happend, htail]
  simp

theorem units_eq_nil_iff : units unit x = [] ↔ x.length < 2 := by
  match x with
  | [] => exact iff_of_true rfl (by decide)
  | [a] => exact iff_of_true rfl (by simp)
  | a :: b :: x => simp [units, asChunks2]

theorem StartsHigh.append (h : StartsHigh unit x) (y : List UInt8) : StartsHigh unit (x ++ y) := by
  obtain ⟨u, hu, hhigh⟩ := h
  match x, hu with
  | a :: b :: x, hu => exact ⟨u, hu, hhigh⟩

theorem EndsHigh.of_append (h : EndsHigh unit (x ++ y)) (hx : x.length % 2 = 0)
    (hy : units unit y ≠ []) : EndsHigh unit y := by
  obtain ⟨u, hu, hhigh⟩ := h
  rw [units_append hx, List.getLast?_append_of_ne_nil _ hy] at hu
  exact ⟨u, hu, hhigh⟩

theorem StartsHigh.of_append (h : StartsHigh unit (x ++ y)) (hx : x.length % 2 = 0)
    (hne : units unit x ≠ []) : StartsHigh unit x := by
  obtain ⟨u, hu, hhigh⟩ := h
  rw [units_append hx, List.head?_append_of_ne_nil _ hne] at hu
  exact ⟨u, hu, hhigh⟩

/-- The first half of a pair is held back until its second half is there. -/
structure Held (unit : UInt8 → UInt8 → Nat) (front pending : List UInt8) : Prop where
  even : front.length % 2 = 0
  high : EndsHigh unit front → StartsHigh unit pending

theorem Held.apart {front pending : List UInt8} (h : Held unit front pending) :
    Apart unit front pending := ⟨h.even, fun hend => .inr (h.high hend)⟩

/-- **What is decoded next may be decoded apart, and holds the first half of a pair back if it
does itself.** -/
theorem Held.step {front pending bytes next rest : List UInt8} (h : Held unit front pending)
    (hsplit : pending ++ bytes = next ++ rest) (heven : next.length % 2 = 0)
    (hnext : EndsHigh unit next → StartsHigh unit rest) :
    Apart unit front next ∧ Held unit (front ++ next) rest := by
  have hstart : EndsHigh unit front → StartsHigh unit (next ++ rest) := fun hend =>
    hsplit ▸ (h.high hend).append bytes
  refine ⟨⟨h.even, fun hend => ?_⟩, ⟨?_, fun hend => ?_⟩⟩
  · by_cases hnil : units unit next = []
    · exact .inl hnil
    · exact .inr ((hstart hend).of_append heven hnil)
  · rw [List.length_append]
    have := h.even
    omega
  · by_cases hnil : units unit next = []
    · have hlength := units_eq_nil_iff.mp hnil
      obtain rfl : next = [] := List.length_eq_zero_iff.mp (by omega)
      rw [List.append_nil] at hend
      exact hstart hend
    · exact hnext (hend.of_append h.even hnil)

end

end Ferrofin.Streams
