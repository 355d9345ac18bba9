import Ferrofin.Util.Utf8
import Ferrofin.Util.Uuid

/-!
# Percent-encoded texts

`url_decode`: a `+` is a blank and `%XX` a byte, anything malformed stays.  `urlDecode_of_encodes`:
it reads back what was encoded, whichever characters were.
-/

namespace Ferrofin.Util

def urlDecodeBytes : List UInt8 → List UInt8
  | [] => []
  | b :: rest =>
    if b = 0x2B then 0x20 :: urlDecodeBytes rest
    else if b = 0x25 then
      match rest with
      | hi :: lo :: tail =>
        match hexValue (Char.ofNat hi.toNat), hexValue (Char.ofNat lo.toNat) with
        | some hi, some lo => UInt8.ofNat (hi * 16 + lo) :: urlDecodeBytes tail
        | _, _ => b :: urlDecodeBytes (hi :: lo :: tail)
      | rest => b :: urlDecodeBytes rest
    else b :: urlDecodeBytes rest
termination_by bytes => bytes.length

def urlDecode (input : List Char) : List Char :=
  if (asBytes input).any fun b => b = 0x2B ∨ b = 0x25 then
    fromUtf8Lossy (urlDecodeBytes (asBytes input))
  else input

/-- A percent sign and the two digits of a byte, in either case. -/
def IsEscape (b : UInt8) (escape : List Char) : Prop :=
  ∃ hi lo, escape = ['%', hi, lo] ∧ hexValue hi = some (b.toNat / 16) ∧
    hexValue lo = some (b.toNat % 16)

/-- A text with each character as it is, as its bytes escaped, or, of a blank, as a plus sign. -/
inductive Encodes : List Char → List Char → Prop
  | nil : Encodes [] []
  | plain {c : Char} {s t : List Char} (hpercent : c ≠ '%') (hplus : c ≠ '+')
      (h : Encodes s t) : Encodes (c :: s) (c :: t)
  | plus {s t : List Char} (h : Encodes s t) : Encodes ('+' :: s) (' ' :: t)
  | escaped {c : Char} {escapes : List (List Char)} {s t : List Char}
      (hescapes : List.Forall₂ IsEscape (String.utf8EncodeChar c) escapes)
      (h : Encodes s t) : Encodes (escapes.flatten ++ s) (c :: t)

theorem Encodes.append {s t s' t' : List Char} (h : Encodes s t) (h' : Encodes s' t') :
    Encodes (s ++ s') (t ++ t') := by
  induction h with
  | nil => exact h'
  | plain hpercent hplus _ ih => exact .plain hpercent hplus ih
  | plus _ ih => exact .plus ih
  | escaped hescapes _ ih =>
    rw [List.append_assoc]
    exact .escaped hescapes ih

theorem Encodes.refl {s : List Char} (hpercent : '%' ∉ s) (hplus : '+' ∉ s) : Encodes s s := by
  induction s with
  | nil => exact .nil
  | cons c s ih =>
    rw [List.mem_cons, not_or] at hpercent hplus
    exact .plain (Ne.symm hpercent.1) (Ne.symm hplus.1) (ih hpercent.2 hplus.2)

variable {bytes rest : List UInt8}

theorem urlDecodeBytes_plain {b : UInt8} (hplus : b ≠ 0x2B) (hpercent : b ≠ 0x25)
    (rest : List UInt8) : urlDecodeBytes (b :: rest) = b :: urlDecodeBytes rest := by
  match rest with
  | [] | [_] => simp [urlDecodeBytes, hplus, hpercent]
  | _ :: _ :: _ => rw [urlDecodeBytes, if_neg hplus, if_neg hpercent]

theorem urlDecodeBytes_plus (rest : List UInt8) :
    urlDecodeBytes (0x2B :: rest) = 0x20 :: urlDecodeBytes rest := by
  match rest with
  | [] | [_] => simp [urlDecodeBytes]
  | _ :: _ :: _ => rw [urlDecodeBytes, if_pos rfl]

theorem urlDecodeBytes_append (h : ∀ b ∈ bytes, b ≠ 0x2B ∧ b ≠ 0x25) (rest : List UInt8) :
    urlDecodeBytes (bytes ++ rest) = bytes ++ urlDecodeBytes rest := by
  induction bytes with
  | nil => rfl
  | cons b bytes ih =>
    obtain ⟨hplus, hpercent⟩ := h b (List.mem_cons_self ..)
    rw [List.cons_append, urlDecodeBytes_plain hplus hpercent,
      ih fun b' hb => h b' (List.mem_cons_of_mem _ hb)]
    rfl

theorem urlDecode_eq (input : List Char) :
    urlDecode input = fromUtf8Lossy (urlDecodeBytes (asBytes input)) := by
  rw [urlDecode]
  split
  · rfl
  · next h =>
    have hplain : ∀ b ∈ asBytes input, b ≠ 0x2B ∧ b ≠ 0x25 := by
      intro b hb
      have hany := List.any_eq_false.mp (Bool.not_eq_true _ ▸ h) b hb
      rw [decide_eq_true_eq, not_or] at hany
      exact hany
    have hsame := urlDecodeBytes_append hplain []
    rw [List.append_nil, urlDecodeBytes, List.append_nil] at hsame
    rw [hsame, fromUtf8Lossy_asBytes]

theorem encodeChar_plain {c : Char} (hpercent : c ≠ '%') (hplus : c ≠ '+') {b : UInt8}
    (hb : b ∈ String.utf8EncodeChar c) : b ≠ 0x2B ∧ b ≠ 0x25 := by
  constructor
  · rintro rfl
    exact hplus (Char.toNat_inj.mp (toNat_of_mem_encodeChar hb (by decide)))
  · rintro rfl
    exact hpercent (Char.toNat_inj.mp (toNat_of_mem_encodeChar hb (by decide)))

theorem toNat_lt_of_hexValue {c : Char} {n : Nat} (h : hexValue c = some n) : c.toNat < 0x80 := by
  unfold hexValue at h
  split at h
  · next hdigit => exact Nat.lt_of_le_of_lt (Char.isDigit_iff_toNat.mp hdigit).2 (by decide)
  split at h
  · next hlower => exact Nat.lt_of_le_of_lt (Char.le_def.mp hlower.2) (by decide)
  split at h
  · next hupper => exact Nat.lt_of_le_of_lt (Char.le_def.mp hupper.2) (by decide)
  · cases h

theorem asBytes_escape {b : UInt8} {escape : List Char} (h : IsEscape b escape)
    (rest : List UInt8) : urlDecodeBytes (asBytes escape ++ rest) = b :: urlDecodeBytes rest := by
  obtain ⟨hi, lo, rfl, hhi, hlo⟩ := h
  have hhi' := toNat_lt_of_hexValue hhi
  have hlo' := toNat_lt_of_hexValue hlo
  have hbytes : asBytes ['%', hi, lo] = [0x25, UInt8.ofNat hi.toNat, UInt8.ofNat lo.toNat] := by
    simp only [asBytes, List.flatMap_cons, List.flatMap_nil, encodeChar_ascii hhi',
      encodeChar_ascii hlo']
    rfl
  have hchar : ∀ c : Char, c.toNat < 0x80 → Char.ofNat (UInt8.ofNat c.toNat).toNat = c := by
    intro c hc
    rw [toNat_ofNat_of_lt (Nat.lt_trans hc (by decide)), Char.ofNat_toNat]
  have hvalue : UInt8.ofNat (b.toNat / 16 * 16 + b.toNat % 16) = b := by
    rw [Nat.div_add_mod']
    exact UInt8.ofNat_toNat
  rw [hbytes]
  simp only [List.cons_append, List.nil_append]
  rw [urlDecodeBytes, if_neg (by decide), if_pos rfl]
  simp only [hchar hi hhi', hchar lo hlo', hhi, hlo, hvalue]

theorem urlDecodeBytes_escapes {escapes : List (List Char)}
    (h : List.Forall₂ IsEscape bytes escapes) (rest : List UInt8) :
    urlDecodeBytes (asBytes escapes.flatten ++ rest) = bytes ++ urlDecodeBytes rest := by
  induction h with
  | nil => rfl
  | cons hescape _ ih =>
    rw [List.flatten_cons, asBytes_append, List.append_assoc, asBytes_escape hescape, ih]
    rfl

theorem urlDecodeBytes_encodes {s t : List Char} (h : Encodes s t) :
    urlDecodeBytes (asBytes s) = asBytes t := by
  induction h with
  | nil => rw [asBytes, List.flatMap_nil, urlDecodeBytes]
  | @plain c s t hpercent hplus _ ih =>
    have happ := urlDecodeBytes_append (fun _ => encodeChar_plain hpercent hplus) (asBytes s)
    rw [ih] at happ
    exact happ
  | @plus s t _ ih =>
    have hplus : asBytes ('+' :: s) = 0x2B :: asBytes s := rfl
    rw [hplus, urlDecodeBytes_plus, ih]
    rfl
  | @escaped c escapes s t hescapes _ ih =>
    rw [asBytes_append, urlDecodeBytes_escapes hescapes, ih]
    rfl

/-- **What was encoded is read back.** -/
theorem urlDecode_of_encodes {s t : List Char} (h : Encodes s t) : urlDecode s = t := by
  rw [urlDecode_eq, urlDecodeBytes_encodes h, fromUtf8Lossy_asBytes]

end Ferrofin.Util
