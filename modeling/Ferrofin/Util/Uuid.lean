import Ferrofin.Util.Text
import Mathlib.Algebra.Group.Nat.Defs

/-!
# Identifiers

`uuid::Uuid`, the text `Uuid::to_string` writes, and the texts `parse_dotnet_guid` reads.
`parseDotnetGuid_toText`: an identifier is read as it was written.
-/

namespace Ferrofin.Util

abbrev Uuid := BitVec 128

namespace Uuid

/-- The `n`-th hexadecimal digit of an identifier, from the left. -/
def digit (id : Uuid) (n : ℕ) : Char := Nat.digitChar (id.toNat / 16 ^ (31 - n) % 16)

def digits (id : Uuid) (start n : ℕ) : List Char := (List.range' start n).map id.digit

/-- `Uuid::to_string`: lowercase digits in groups of 8, 4, 4, 4 and 12. -/
def toText (id : Uuid) : List Char :=
  id.digits 0 8 ++ '-' :: (id.digits 8 4 ++ '-' :: (id.digits 12 4 ++
    '-' :: (id.digits 16 4 ++ '-' :: id.digits 20 12)))

end Uuid

/-- `char::to_digit(16)`. -/
def hexValue (c : Char) : Option ℕ :=
  if c.isDigit then some (c.toNat - '0'.toNat)
  else if 'a' ≤ c ∧ c ≤ 'f' then some (c.toNat - 'a'.toNat + 10)
  else if 'A' ≤ c ∧ c ≤ 'F' then some (c.toNat - 'A'.toNat + 10)
  else none

def foldDigits (base : ℕ) (ds : List ℕ) : ℕ := ds.foldl (fun n d => n * base + d) 0

def uuidFromHexDigits (s : List Char) : Option Uuid :=
  (s.mapM hexValue).map fun ds => BitVec.ofNat 128 (foldDigits 16 ds)

def parseExactN (value : List Char) : Option Uuid :=
  if value.length = 32 then uuidFromHexDigits value else none

def parseExactD (value : List Char) : Option Uuid :=
  if value.length = 36 ∧ value[8]? = some '-' ∧ value[13]? = some '-' ∧ value[18]? = some '-' ∧
      value[23]? = some '-' then
    uuidFromHexDigits (value.take 8 ++ (value.drop 9).take 4 ++ (value.drop 14).take 4 ++
      (value.drop 19).take 4 ++ value.drop 24)
  else none

def parseExactWrapped (value : List Char) (left right : Char) : Option Uuid :=
  if value.length = 38 ∧ value[0]? = some left ∧ value[37]? = some right then
    parseExactD ((value.drop 1).take 36)
  else none

/-- `parse_hex`: a sign, a prefix and zeros may stand in front of eight digits. -/
def parseHex (s : List Char) : Option ℕ :=
  let s := if s.head? = some '+' then s.tail else s
  let s :=
    match s with
    | '0' :: x :: rest => if x = 'x' ∨ x = 'X' then rest else s
    | _ => s
  let significant := s.dropWhile (· = '0')
  (significant.mapM hexValue).bind fun ds =>
    if 8 < ds.length then none else some (foldDigits 16 ds)

def readHexComponent (terminator : Char) : List Char → Option (ℕ × List Char)
  | '0' :: x :: rest =>
    if x = 'x' ∨ x = 'X' then
      match rest.dropWhile (· ≠ terminator) with
      | _ :: behind =>
        match rest.takeWhile (· ≠ terminator) with
        | [] => none
        | component => (parseHex component).map fun value => (value, behind)
      | [] => none
    else none
  | _ => none

/-- The `count` bytes at the end of the `X` form. -/
def readHexBytes : (count : ℕ) → List Char → Option (List ℕ × List Char)
  | 0, s => some ([], s)
  | count + 1, s =>
    (readHexComponent (if count = 0 then '}' else ',') s).bind fun (value, s) =>
      if 0xFF < value then none
      else (readHexBytes count s).map fun (values, s) => (value :: values, s)

def parseExactX (value : List Char) : Option Uuid :=
  match value.filter fun c => !isWhitespace c with
  | '{' :: s =>
    (readHexComponent ',' s).bind fun (a, s) =>
    (readHexComponent ',' s).bind fun (b, s) =>
    (readHexComponent ',' s).bind fun (c, s) =>
    match s with
    | '{' :: s =>
      (readHexBytes 8 s).bind fun (bytes, s) =>
        if s = ['}'] then
          some (BitVec.ofNat 128 (((a * 2 ^ 16 + b % 2 ^ 16) * 2 ^ 16 + c % 2 ^ 16) * 2 ^ 64 +
            foldDigits 256 bytes))
        else none
    | _ => none
  | _ => none

def parseDotnetGuid (value : List Char) : Option Uuid :=
  let trimmed := trimChars value
  match trimmed.head? with
  | none => none
  | some '(' => parseExactWrapped trimmed '(' ')'
  | some '{' =>
    if trimmed.contains '-' then parseExactWrapped trimmed '{' '}' else parseExactX trimmed
  | some _ => if trimmed.contains '-' then parseExactD trimmed else parseExactN trimmed

example : parseDotnetGuid
    "{0x9c4e63f1, 0x1031b,0x04f25,{0x98,0x8b,0x4f,0x7d,0x78,0xa8,0xb5,0x3e}}".toList =
      some 0x9c4e63f1031b4f25988b4f7d78a8b53e := by decide +kernel

/-! ### Reading what was written -/

theorem hexValue_digitChar {d : ℕ} (h : d < 16) : hexValue (Nat.digitChar d) = some d := by
  have hall : ∀ d < 16, hexValue (Nat.digitChar d) = some d := by decide
  exact hall d h

theorem foldDigits_range (N : ℕ) {m n : ℕ} (h : n ≤ m) :
    foldDigits 16 ((List.range n).map fun i => N / 16 ^ (m - 1 - i) % 16) =
      N / 16 ^ (m - n) % 16 ^ n := by
  induction n with
  | zero => simp [foldDigits, Nat.mod_one]
  | succ n ih =>
    have ih := ih (by omega)
    rw [foldDigits] at ih ⊢
    rw [List.range_succ, List.map_append, List.foldl_append, ih, List.map_singleton,
      List.foldl_cons, List.foldl_nil]
    have hpow : 16 ^ (m - n) = 16 ^ (m - (n + 1)) * 16 := by
      rw [← Nat.pow_succ]
      congr 1
      omega
    have hdigit : m - 1 - n = m - (n + 1) := by omega
    rw [hpow, ← Nat.div_div_eq_div_mul, hdigit, Nat.pow_succ]
    generalize N / 16 ^ (m - (n + 1)) = q
    rw [Nat.mul_comm (16 ^ n) 16, Nat.mod_mul]
    omega

theorem mapM_map_of_some {α β γ : Type} {f : α → β} {read : β → Option γ} {g : α → γ}
    (h : ∀ a, read (f a) = some (g a)) (l : List α) : (l.map f).mapM read = some (l.map g) := by
  induction l with
  | nil => rfl
  | cons a l ih => simp [List.mapM_cons, h, ih]

namespace Uuid

variable (id : Uuid)

@[simp] theorem length_digits (start n : ℕ) : (id.digits start n).length = n := by
  simp [digits]

theorem digits_append (start m n : ℕ) :
    id.digits start m ++ id.digits (start + m) n = id.digits start (m + n) := by
  rw [digits, digits, digits, ← List.map_append, List.range'_append_1]

theorem uuidFromHexDigits_digits : uuidFromHexDigits (id.digits 0 32) = some id := by
  have hvalues : (id.digits 0 32).mapM hexValue =
      some ((List.range 32).map fun i => id.toNat / 16 ^ (32 - 1 - i) % 16) := by
    rw [digits, ← List.range_eq_range']
    exact mapM_map_of_some (fun i => hexValue_digitChar (Nat.mod_lt _ (by decide))) _
  rw [uuidFromHexDigits, hvalues, Option.map_some, foldDigits_range _ (Nat.le_refl 32)]
  have hlt : id.toNat < 16 ^ 32 := Nat.lt_of_lt_of_le id.isLt (by decide)
  rw [Nat.sub_self, Nat.pow_zero, Nat.div_one, Nat.mod_eq_of_lt hlt, BitVec.ofNat_toNat]
  rfl

theorem toText_ne_nil : id.toText ≠ [] := by
  simp [toText]

theorem forall_mem_toText {p : Char → Prop} (hdigit : ∀ d < 16, p (Nat.digitChar d))
    (hdash : p '-') : ∀ c ∈ id.toText, p c := by
  have hdigits : ∀ start n, ∀ c ∈ id.digits start n, p c := by
    intro start n c hc
    obtain ⟨i, -, rfl⟩ := List.mem_map.mp hc
    exact hdigit _ (Nat.mod_lt _ (by decide))
  intro c hc
  simp only [toText, List.mem_append, List.mem_cons] at hc
  rcases hc with hc | rfl | hc | rfl | hc | rfl | hc | rfl | hc
  all_goals first
  | exact hdigits _ _ _ hc
  | exact hdash

theorem trimChars_toText : trimChars id.toText = id.toText :=
  trimChars_of_forall (id.forall_mem_toText (by decide) (by decide))

/-- The `D` form of an identifier is read. -/
theorem parseExactD_toText : parseExactD id.toText = some id := by
  have hdigits : id.digits 0 8 ++ id.digits 8 4 ++ id.digits 12 4 ++ id.digits 16 4 ++
      id.digits 20 12 = id.digits 0 32 := by
    rw [digits_append id 0 8 4, digits_append id 0 12 4, digits_append id 0 16 4,
      digits_append id 0 20 12]
  have hcut : parseExactD id.toText = uuidFromHexDigits (id.digits 0 8 ++ id.digits 8 4 ++
      id.digits 12 4 ++ id.digits 16 4 ++ id.digits 20 12) := by
    rw [parseExactD, if_pos (by simp [toText])]
    simp [toText, List.drop_append, List.drop_eq_nil_of_le]
  rw [hcut, hdigits, uuidFromHexDigits_digits]

/-- **An identifier is read as it was written.** -/
theorem parseDotnetGuid_toText : parseDotnetGuid id.toText = some id := by
  have hdash : id.toText.contains '-' = true := by simp [toText]
  rw [parseDotnetGuid, trimChars_toText]
  split
  · next h => exact absurd (List.head?_eq_none_iff.mp h) id.toText_ne_nil
  · next h => exact absurd rfl (id.forall_mem_toText (p := (· ≠ '(')) (by decide) (by decide) _
      (List.mem_of_head? h))
  · next h => exact absurd rfl (id.forall_mem_toText (p := (· ≠ '{')) (by decide) (by decide) _
      (List.mem_of_head? h))
  · rw [if_pos hdash, parseExactD_toText]

end Uuid

end Ferrofin.Util
