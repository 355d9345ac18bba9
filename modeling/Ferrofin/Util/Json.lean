import Ferrofin.Lib.KeyedMap
import Ferrofin.Lib.Words
import Mathlib.Data.Rat.Defs

/-!
# JSON values

`serde_json::Value`.  An object that is worked on key by key is a finite map; its order is that of
the keys, so two of them are equal when they have the same entries (`sameEntries`).  A text is
written with escapes, and is read back from what is written (`writeString_append_inj`).
-/

namespace Ferrofin.Util

open Lib

inductive Number where
  | int (n : ℤ)
  | float (q : ℚ)
deriving DecidableEq

inductive Value where
  | null
  | bool (b : Bool)
  | number (n : Number)
  | string (s : List Char)
  | array (values : List Value)
  | object (entries : List (List Char × Value))

namespace Value

mutual

def decEq (a b : Value) : Decidable (a = b) :=
  match a, b with
  | null, null => isTrue rfl
  | bool a, bool b => decidable_of_iff (a = b) (by simp)
  | number a, number b => decidable_of_iff (a = b) (by simp)
  | string a, string b => decidable_of_iff (a = b) (by simp)
  | array a, array b => match decEqList a b with
    | isTrue h => isTrue (congrArg array h)
    | isFalse h => isFalse fun heq => h (array.inj heq)
  | object a, object b => match decEqEntries a b with
    | isTrue h => isTrue (congrArg object h)
    | isFalse h => isFalse fun heq => h (object.inj heq)
  | null, bool _ | null, number _ | null, string _ | null, array _ | null, object _
  | bool _, null | bool _, number _ | bool _, string _ | bool _, array _ | bool _, object _
  | number _, null | number _, bool _ | number _, string _ | number _, array _
  | number _, object _ | string _, null | string _, bool _ | string _, number _
  | string _, array _ | string _, object _ | array _, null | array _, bool _ | array _, number _
  | array _, string _ | array _, object _ | object _, null | object _, bool _
  | object _, number _ | object _, string _ | object _, array _ => isFalse nofun

def decEqList (a b : List Value) : Decidable (a = b) :=
  match a, b with
  | [], [] => isTrue rfl
  | [], _ :: _ | _ :: _, [] => isFalse nofun
  | a :: as, b :: bs => match decEq a b, decEqList as bs with
    | isTrue h, isTrue h' => isTrue (h ▸ h' ▸ rfl)
    | isFalse h, _ => isFalse fun heq => h (List.cons.inj heq).1
    | _, isFalse h => isFalse fun heq => h (List.cons.inj heq).2

def decEqEntries (a b : List (List Char × Value)) : Decidable (a = b) :=
  match a, b with
  | [], [] => isTrue rfl
  | [], _ :: _ | _ :: _, [] => isFalse nofun
  | (k, a) :: as, (k', b) :: bs =>
    match List.hasDecEq k k', decEq a b, decEqEntries as bs with
    | isTrue h, isTrue h', isTrue h'' => isTrue (h ▸ h' ▸ h'' ▸ rfl)
    | isFalse h, _, _ => isFalse fun heq => h (Prod.mk.inj (List.cons.inj heq).1).1
    | _, isFalse h, _ => isFalse fun heq => h (Prod.mk.inj (List.cons.inj heq).1).2
    | _, _, isFalse h => isFalse fun heq => h (List.cons.inj heq).2

end

instance : DecidableEq Value := decEq

def asStr : Value → Option (List Char)
  | string s => some s
  | _ => none

def asArray : Value → Option (List Value)
  | array values => some values
  | _ => none

def get (key : List Char) : Value → Option Value
  | object entries => (entries.find? (·.1 = key)).map (·.2)
  | _ => none

end Value

/-- `serde_json::Map`. -/
abbrev Object := KeyedMap (List Char) Value

def sameEntries (a b : Object) : Bool := decide (a.entries.Perm b.entries)

theorem sameEntries_iff {a b : Object} :
    sameEntries a b = true ↔ ∀ key, a.lookup key = b.lookup key := by
  rw [sameEntries, decide_eq_true_iff]
  constructor
  · intro h key
    exact AList.perm_lookup h
  · intro h
    refine List.lookup_ext a.nodupKeys b.nodupKeys fun key value => ?_
    have hkey : a.entries.dlookup key = b.entries.dlookup key := h key
    rw [hkey]

/-! ### Texts -/

/-- What a character is written as behind a backslash, if it is not written as it is. -/
def escapeOf (c : Char) : Option Char :=
  match c.toNat with
  | 0x08 => some 'b'
  | 0x09 => some 't'
  | 0x0A => some 'n'
  | 0x0C => some 'f'
  | 0x0D => some 'r'
  | 0x22 => some '"'
  | 0x5C => some '\\'
  | n => if n < 0x20 then some 'u' else none

def writeChar (c : Char) : List Char :=
  match escapeOf c with
  | none => [c]
  | some 'u' => ['\\', 'u', '0', '0', Nat.digitChar (c.toNat / 16), Nat.digitChar (c.toNat % 16)]
  | some e => ['\\', e]

/-- `serde_json::to_string` of a text. -/
def writeString (s : List Char) : List Char := '"' :: (s.flatMap writeChar ++ ['"'])

/-- `serde_json::to_string` of an array of texts. -/
def writeStrings (texts : List (List Char)) : List Char :=
  '[' :: (List.intercalate [','] (texts.map writeString) ++ [']'])

def unescapeOf (e : Char) : ℕ :=
  match e with
  | 'b' => 0x08
  | 't' => 0x09
  | 'n' => 0x0A
  | 'f' => 0x0C
  | 'r' => 0x0D
  | '"' => 0x22
  | _ => 0x5C

theorem toNat_of_escapeOf {c e : Char} (h : escapeOf c = some e) (he : e ≠ 'u') :
    c.toNat = unescapeOf e := by
  unfold escapeOf at h
  split at h
  case h_8 =>
    split at h
    · exact absurd (Option.some.inj h).symm he
    · cases h
  all_goals
    next hc =>
    cases h
    exact hc

theorem toNat_lt_of_escapeOf {c : Char} (h : escapeOf c = some 'u') : c.toNat < 0x20 := by
  unfold escapeOf at h
  split at h
  case h_8 =>
    split at h
    · assumption
    · cases h
  all_goals cases h

theorem escapeOf_backslash : escapeOf '\\' = some '\\' := rfl

theorem writeChar_of_none {c : Char} (h : escapeOf c = none) : writeChar c = [c] := by
  rw [writeChar, h]

theorem exists_writeChar {c e : Char} (h : escapeOf c = some e) :
    ∃ rest, writeChar c = '\\' :: e :: rest := by
  rw [writeChar, h]
  split
  · next heq => cases heq
  · next heq =>
    cases heq
    exact ⟨_, rfl⟩
  · next heq =>
    cases heq
    exact ⟨_, rfl⟩

theorem toNat_eq_of_digits {m n : ℕ} (hm : m < 0x20) (hn : n < 0x20)
    (hhigh : Nat.digitChar (m / 16) = Nat.digitChar (n / 16))
    (hlow : Nat.digitChar (m % 16) = Nat.digitChar (n % 16)) : m = n := by
  have hdigits : ∀ m < 0x20, ∀ n < 0x20, Nat.digitChar (m / 16) = Nat.digitChar (n / 16) →
      Nat.digitChar (m % 16) = Nat.digitChar (n % 16) → m = n := by decide +kernel
  exact hdigits m hm n hn hhigh hlow

theorem writeChar_inj (a b : Char) (x y : List Char)
    (h : writeChar a ++ x = writeChar b ++ y) : a = b := by
  cases ha : escapeOf a with
  | none =>
    rw [writeChar_of_none ha] at h
    cases hb : escapeOf b with
    | none =>
      rw [writeChar_of_none hb] at h
      exact (List.cons.inj h).1
    | some e =>
      obtain ⟨rest, hrest⟩ := exists_writeChar hb
      rw [hrest] at h
      rw [(List.cons.inj h).1, escapeOf_backslash] at ha
      cases ha
  | some e =>
    obtain ⟨rest, hrest⟩ := exists_writeChar ha
    cases hb : escapeOf b with
    | none =>
      rw [hrest, writeChar_of_none hb] at h
      rw [← (List.cons.inj h).1, escapeOf_backslash] at hb
      cases hb
    | some e' =>
      obtain ⟨rest', hrest'⟩ := exists_writeChar hb
      obtain rfl : e = e' := by
        rw [hrest, hrest'] at h
        exact (List.cons.inj (List.cons.inj h).2).1
      refine Char.toNat_inj.mp ?_
      by_cases he : e = 'u'
      · subst he
        rw [writeChar, writeChar, ha, hb] at h
        simp only [List.cons_append, List.cons.injEq, true_and] at h
        exact toNat_eq_of_digits (toNat_lt_of_escapeOf ha) (toNat_lt_of_escapeOf hb) h.1 h.2.1
      · rw [toNat_of_escapeOf ha he, toNat_of_escapeOf hb he]

theorem writeChar_ne_quote (a : Char) (x y : List Char) : writeChar a ++ x ≠ '"' :: y := by
  intro h
  cases ha : escapeOf a with
  | none =>
    rw [writeChar_of_none ha] at h
    rw [(List.cons.inj h).1] at ha
    cases ha
  | some e =>
    obtain ⟨rest, hrest⟩ := exists_writeChar ha
    rw [hrest] at h
    cases (List.cons.inj h).1

/-- **A string is read back, whatever is behind it.** -/
theorem writeString_append_inj {s t x y : List Char}
    (h : writeString s ++ x = writeString t ++ y) : s = t ∧ x = y := by
  simp only [writeString, List.cons_append, List.append_assoc, List.nil_append] at h
  exact flatMap_append_cons_inj writeChar_inj writeChar_ne_quote (List.cons.inj h).2

end Ferrofin.Util
