import Mathlib.Data.List.DropRight

/-!
# Strings

`str::lines`, on characters: a line ends at a line feed, or at a carriage return and a line feed.

The functions of `str` the modelled code compares and cleans names with.
-/

namespace Ferrofin.Util

variable {l s : List Char}

def stripCr (l : List Char) : List Char := if l.getLast? = some '\r' then l.dropLast else l

def lines (s : List Char) : List (List Char) :=
  (s.splitOn '\n').dropLast.map stripCr ++ ((s.splitOn '\n').getLast?.filter (· ≠ [])).toList

@[simp] theorem lines_nil : lines [] = [] := rfl

theorem lines_append (h : '\n' ∉ l) (s : List Char) :
    lines (l ++ '\n' :: s) = stripCr l :: lines s := by
  rw [lines, List.splitOn_append_cons_self_of_not_mem h]
  obtain ⟨first, rest, hpieces⟩ := List.exists_cons_of_ne_nil (List.splitOn_ne_nil '\n' s)
  rw [lines, hpieces, List.dropLast_cons_cons, List.getLast?_cons_cons]
  rfl

theorem stripCr_eq (l : List Char) : stripCr l = l ∨ l = stripCr l ++ ['\r'] := by
  rw [stripCr]
  split
  · next h =>
    obtain ⟨front, rfl⟩ := List.getLast?_eq_some_iff.mp h
    exact .inr (by simp)
  · exact .inl rfl

end Ferrofin.Util

namespace Ferrofin.Util

/-- Unicode `White_Space` (`char::is_whitespace`). -/
def isWhitespace (c : Char) : Bool :=
  let n := c.toNat
  (9 ≤ n && n ≤ 13) || n == 0x20 || n == 0x85 || n == 0xA0 || n == 0x1680 ||
    (0x2000 ≤ n && n ≤ 0x200A) || n == 0x2028 || n == 0x2029 || n == 0x202F || n == 0x205F ||
    n == 0x3000

theorem isWhitespace_of_isDigit {c : Char} (h : c.isDigit = true) : isWhitespace c = false := by
  have hrange : 48 ≤ c.toNat ∧ c.toNat ≤ 57 := by
    simpa [Char.isDigit, UInt32.le_iff_toNat_le] using h
  simp only [isWhitespace, Bool.or_eq_false_iff, Bool.and_eq_false_iff, beq_eq_false_iff_ne,
    decide_eq_false_iff_not]
  omega

def trim (s : String) : String :=
  String.ofList ((s.toList.dropWhile isWhitespace).reverse.dropWhile isWhitespace).reverse

/-- `str::trim`, on characters. -/
def trimChars (s : List Char) : List Char :=
  ((s.dropWhile isWhitespace).reverse.dropWhile isWhitespace).reverse

theorem toList_trim (s : String) : (trim s).toList = trimChars s.toList := by
  rw [trim, trimChars, String.toList_ofList]

theorem trimChars_eq (s : List Char) :
    ∃ front back, s = front ++ trimChars s ++ back ∧ front.all isWhitespace ∧
      back.all isWhitespace := by
  refine ⟨s.takeWhile isWhitespace, (s.dropWhile isWhitespace).rtakeWhile isWhitespace, ?_,
    List.all_takeWhile, List.all_eq_true.mpr fun c hc => List.mem_rtakeWhile_imp hc⟩
  have hdrop : trimChars s ++ (s.dropWhile isWhitespace).rtakeWhile isWhitespace =
      s.dropWhile isWhitespace := List.rdropWhile_append_rtakeWhile ..
  rw [List.append_assoc, hdrop, List.takeWhile_append_dropWhile]

theorem mem_of_mem_trimChars {s : List Char} {c : Char} (h : c ∈ trimChars s) : c ∈ s := by
  obtain ⟨front, back, heq, -⟩ := trimChars_eq s
  rw [heq]
  simp [h]

theorem trimChars_getLast? {s : List Char} {c : Char} (h : (trimChars s).getLast? = some c) :
    isWhitespace c = false := by
  obtain ⟨front, hfront⟩ := List.getLast?_eq_some_iff.mp h
  have hne : trimChars s ≠ [] := by simp [hfront]
  have hlast : (trimChars s).getLast hne = c := by simp [hfront]
  have hget : ¬ isWhitespace ((trimChars s).getLast hne) = true :=
    List.rdropWhile_last_not isWhitespace (s.dropWhile isWhitespace) hne
  rw [hlast] at hget
  exact Bool.not_eq_true _ ▸ hget

theorem trimChars_head? {s : List Char} {c : Char} (h : (trimChars s).head? = some c) :
    isWhitespace c = false := by
  obtain ⟨back, hback⟩ : trimChars s <+: s.dropWhile isWhitespace := List.rdropWhile_prefix ..
  have hhead : (s.dropWhile isWhitespace).head? = some c := by
    rw [← hback, List.head?_append, h]
    rfl
  have := List.head?_dropWhile_not isWhitespace s
  rw [hhead] at this
  simpa using this

/-- A text with no blank at either end stays as it is, whatever blanks are behind it. -/
theorem trimChars_append {s back : List Char} (hback : back.all isWhitespace)
    (hhead : ∀ c, s.head? = some c → isWhitespace c = false)
    (hlast : ∀ c, s.getLast? = some c → isWhitespace c = false) :
    trimChars (s ++ back) = s := by
  cases s with
  | nil =>
    have hnil : back.dropWhile isWhitespace = [] :=
      List.dropWhile_eq_nil_iff.mpr (List.all_eq_true.mp hback)
    rw [trimChars, List.nil_append, hnil]
    rfl
  | cons c s =>
    have hc : isWhitespace c = false := hhead c rfl
    obtain ⟨front, last, hfront⟩ : ∃ front last, c :: s = front ++ [last] :=
      ⟨_, _, (List.dropLast_append_getLast (List.cons_ne_nil c s)).symm⟩
    have hend : isWhitespace last = false := hlast last (by simp [hfront])
    have hdrop : back.reverse.dropWhile isWhitespace = [] := List.dropWhile_eq_nil_iff.mpr
      fun d hd => List.all_eq_true.mp hback d (List.mem_reverse.mp hd)
    rw [trimChars, List.cons_append, List.dropWhile_cons_of_neg (by simp [hc]), ← List.cons_append,
      hfront, List.reverse_append, List.dropWhile_append, hdrop]
    simp [hend]

theorem trimChars_of_forall {s : List Char} (h : ∀ c ∈ s, isWhitespace c = false) :
    trimChars s = s := by
  have happ : trimChars (s ++ []) = s := trimChars_append rfl
    (fun c hc => h c (List.mem_of_head? hc)) (fun c hc => h c (List.mem_of_getLast? hc))
  rwa [List.append_nil] at happ

/-- A text with something besides blanks is not empty when it is trimmed. -/
theorem trimChars_ne_nil {s : List Char} {c : Char} (hmem : c ∈ s) (hc : isWhitespace c = false) :
    trimChars s ≠ [] := by
  intro hnil
  obtain ⟨front, back, heq, hfront, hback⟩ := trimChars_eq s
  rw [hnil, List.append_nil] at heq
  rw [heq] at hmem
  have hwhite : isWhitespace c = true := (List.mem_append.mp hmem).elim
    (List.all_eq_true.mp hfront c) (List.all_eq_true.mp hback c)
  rw [hwhite] at hc
  cases hc

def trimEnd (s : List Char) : List Char := s.rdropWhile isWhitespace

theorem trimEnd_append (s : List Char) : ∃ blank, s = trimEnd s ++ blank ∧
    blank.all isWhitespace = true :=
  ⟨s.rtakeWhile isWhitespace, (List.rdropWhile_append_rtakeWhile ..).symm,
    List.all_eq_true.mpr fun _ hc => List.mem_rtakeWhile_imp hc⟩

theorem prefix_trimEnd (s : List Char) : trimEnd s <+: s := List.rdropWhile_prefix isWhitespace s

theorem trimEnd_getLast? {s : List Char} {c : Char} (h : (trimEnd s).getLast? = some c) :
    isWhitespace c = false := by
  obtain ⟨front, hfront⟩ := List.getLast?_eq_some_iff.mp h
  have hne : trimEnd s ≠ [] := by simp [hfront]
  have hlast : (trimEnd s).getLast hne = c := by simp [hfront]
  have hnot := List.rdropWhile_last_not isWhitespace s hne
  rw [← hlast]
  exact Bool.eq_false_iff.mpr hnot

theorem trim_of_not_isWhitespace {s : String} (h : ∀ c ∈ s.toList, isWhitespace c = false) :
    trim s = s := by
  have hdrop : ∀ l : List Char, (∀ c ∈ l, isWhitespace c = false) →
      l.dropWhile isWhitespace = l := by
    intro l hl
    cases l with
    | nil => rfl
    | cons c l => exact List.dropWhile_cons_of_neg (by simp [hl c (List.mem_cons_self ..)])
  rw [trim, hdrop _ h, hdrop _ fun c hc => h c (List.mem_reverse.mp hc), List.reverse_reverse,
    String.ofList_toList]

def asciiLowercase (s : String) : List Char := s.toList.map Char.toLower

def eqIgnoreAsciiCase (a b : String) : Bool := asciiLowercase a == asciiLowercase b

theorem eqIgnoreAsciiCase_iff {a b : String} :
    eqIgnoreAsciiCase a b = true ↔ asciiLowercase a = asciiLowercase b := by
  rw [eqIgnoreAsciiCase, beq_iff_eq]

def toAsciiLowercase (s : String) : String := String.ofList (asciiLowercase s)

theorem toAsciiLowercase_eq_iff {a b : String} :
    toAsciiLowercase a = toAsciiLowercase b ↔ eqIgnoreAsciiCase a b = true := by
  rw [eqIgnoreAsciiCase_iff, toAsciiLowercase, toAsciiLowercase]
  exact String.ofList_inj

end Ferrofin.Util
