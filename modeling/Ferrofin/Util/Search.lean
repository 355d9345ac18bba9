import Ferrofin.Util.Text

/-!
# Finding and replacing in texts

The functions of `str` that look for a text in another one, on lists of characters.
-/

namespace Ferrofin.Util

/-- `str::split_once`: what is before and behind the first occurrence. -/
def splitOnce (sep : List Char) : List Char → Option (List Char × List Char)
  | [] => if sep = [] then some ([], []) else none
  | c :: s =>
    if sep.isPrefixOf (c :: s) then some ([], (c :: s).drop sep.length)
    else (splitOnce sep s).map fun (front, back) => (c :: front, back)

theorem splitOnce_eq {sep s front back : List Char} (h : splitOnce sep s = some (front, back)) :
    s = front ++ sep ++ back := by
  induction s generalizing front with
  | nil =>
    rw [splitOnce] at h
    split at h
    · next hsep =>
      cases h
      rw [hsep]
      rfl
    · cases h
  | cons c s ih =>
    rw [splitOnce] at h
    split at h
    · next hbegins =>
      cases h
      obtain ⟨back, hback⟩ := List.isPrefixOf_iff_prefix.mp hbegins
      rw [← hback, List.nil_append, List.drop_left]
    · obtain ⟨⟨front', back'⟩, hs, heq⟩ := Option.map_eq_some_iff.mp h
      cases heq
      rw [ih hs]
      rfl

theorem splitOnce_append {c : Char} {sep front : List Char} (h : c ∉ front) (back : List Char) :
    splitOnce (c :: sep) (front ++ c :: sep ++ back) = some (front, back) := by
  induction front with
  | nil =>
    have hbegins : (c :: sep).isPrefixOf (c :: (sep ++ back)) = true :=
      List.isPrefixOf_iff_prefix.mpr ⟨back, rfl⟩
    rw [List.nil_append, List.cons_append, splitOnce, if_pos hbegins]
    simp
  | cons d front ih =>
    rw [List.mem_cons, not_or] at h
    have hbegins : ¬(c :: sep).isPrefixOf (d :: (front ++ c :: sep ++ back)) = true := by
      rw [List.isPrefixOf_cons_cons, Bool.and_eq_true, beq_iff_eq]
      exact fun heq => h.1 heq.1
    rw [List.cons_append, List.cons_append, splitOnce, if_neg hbegins, ih h.2]
    rfl

/-! ### Replacing -/

/-- The text behind the first `skip` characters, with the occurrences of a pattern replaced. -/
def replaceFrom (pattern by' : List Char) : (skip : ℕ) → List Char → List Char
  | _, [] => []
  | 0, c :: s =>
    if pattern.isPrefixOf (c :: s) then by' ++ replaceFrom pattern by' (pattern.length - 1) s
    else c :: replaceFrom pattern by' 0 s
  | skip + 1, _ :: s => replaceFrom pattern by' skip s

def replace (pattern by' s : List Char) : List Char := replaceFrom pattern by' 0 s

section Replace

variable {pattern by' s : List Char} {c : Char}

theorem mem_replaceFrom {skip : ℕ} (h : c ∈ replaceFrom pattern by' skip s) : c ∈ by' ∨ c ∈ s := by
  induction s generalizing skip with
  | nil =>
    cases skip <;> cases h
  | cons a s ih =>
    cases skip with
    | zero =>
      rw [replaceFrom] at h
      split at h
      · rcases List.mem_append.mp h with h | h
        · exact .inl h
        · exact (ih h).imp_right (List.mem_cons_of_mem a)
      · rcases List.mem_cons.mp h with rfl | h
        · exact .inr List.mem_cons_self
        · exact (ih h).imp_right (List.mem_cons_of_mem a)
    | succ skip => exact (ih h).imp_right (List.mem_cons_of_mem a)

theorem replaceFrom_skip (pattern by' x rest : List Char) :
    replaceFrom pattern by' x.length (x ++ rest) = replaceFrom pattern by' 0 rest := by
  induction x with
  | nil => rfl
  | cons a x ih => rw [List.cons_append, List.length_cons, replaceFrom, ih]

theorem replace_append (hpattern : pattern ≠ []) (by' rest : List Char) :
    replace pattern by' (pattern ++ rest) = by' ++ replace pattern by' rest := by
  obtain ⟨c, pattern, rfl⟩ := List.exists_cons_of_ne_nil hpattern
  have hbegins : (c :: pattern).isPrefixOf (c :: (pattern ++ rest)) = true :=
    List.isPrefixOf_iff_prefix.mpr ⟨rest, rfl⟩
  rw [replace, List.cons_append, replaceFrom, if_pos hbegins, List.length_cons,
    Nat.add_sub_cancel, replaceFrom_skip]
  rfl

theorem replace_cons (h : pattern.isPrefixOf (c :: s) = false) (by' : List Char) :
    replace pattern by' (c :: s) = c :: replace pattern by' s := by
  rw [replace, replaceFrom, if_neg (by simp [h])]
  rfl

/-- A piece of a text in which no occurrence starts, whatever follows. -/
def Passes (pattern piece : List Char) : Prop :=
  ∀ by' rest, replace pattern by' (piece ++ rest) = piece ++ replace pattern by' rest

theorem passes_of_notMem {p : Char} {pattern piece : List Char} (h : p ∉ piece) :
    Passes (p :: pattern) piece := by
  intro by' rest
  induction piece with
  | nil => rfl
  | cons c piece ih =>
    rw [List.mem_cons, not_or] at h
    have hbegins : (p :: pattern).isPrefixOf (c :: (piece ++ rest)) = false := by
      simp [List.isPrefixOf, h.1]
    rw [List.cons_append, replace_cons hbegins, ih h.2]
    rfl

theorem passes_cons {p : Char} {pattern piece : List Char}
    (hbegins : ∀ rest, (p :: pattern).isPrefixOf (c :: (piece ++ rest)) = false) (h : p ∉ piece) :
    Passes (p :: pattern) (c :: piece) := by
  intro by' rest
  rw [List.cons_append, replace_cons (hbegins rest), passes_of_notMem h]
  rfl

/-- **The pieces that are the pattern are replaced, when none starts in the others.** -/
theorem replace_flatMap {f g : Char → List Char} (hpattern : pattern ≠ [])
    (h : ∀ c, f c = pattern ∧ g c = by' ∨ g c = f c ∧ Passes pattern (f c)) (s : List Char) :
    replace pattern by' (s.flatMap f) = s.flatMap g := by
  induction s with
  | nil => rfl
  | cons c s ih =>
    rw [List.flatMap_cons, List.flatMap_cons]
    rcases h c with ⟨hf, hg⟩ | ⟨hg, hpass⟩
    · rw [hf, hg, replace_append hpattern, ih]
    · rw [hpass, hg, ih]

end Replace

/-! ### Removing, and other tests -/

/-- The text behind the first `skip` characters, without the occurrences of `pattern`. -/
def removeFrom (pattern : List Char) : (skip : Nat) → List Char → List Char
  | _, [] => []
  | 0, c :: s =>
    if pattern.isPrefixOf (c :: s) then removeFrom pattern (pattern.length - 1) s
    else c :: removeFrom pattern 0 s
  | skip + 1, _ :: s => removeFrom pattern skip s

/-- `str::replace` of a text by nothing. -/
def removeAll (pattern s : List Char) : List Char := removeFrom pattern 0 s

def trimMatches (test : Char → Bool) (s : List Char) : List Char :=
  ((s.dropWhile test).reverse.dropWhile test).reverse

def sameIgnoreAsciiCase (a b : List Char) : Bool := a.map Char.toLower == b.map Char.toLower

def isControl (c : Char) : Bool := c.toNat < 0x20 || (0x7F ≤ c.toNat && c.toNat < 0xA0)

/-- An exponent of a number: nothing, or `e`, a sign and digits. -/
def isExponent : List Char → Bool
  | [] => true
  | e :: s =>
    let digits := if s.head? = some '+' ∨ s.head? = some '-' then s.tail else s
    (e == 'e' || e == 'E') && digits != [] && digits.all Char.isDigit

/-- A number without its sign: digits, some of them behind a point, and an exponent. -/
def isUnsignedFloat (s : List Char) : Bool :=
  let whole := s.takeWhile Char.isDigit
  match s.dropWhile Char.isDigit with
  | '.' :: rest =>
    (whole != [] || rest.takeWhile Char.isDigit != []) && isExponent (rest.dropWhile Char.isDigit)
  | rest => whole != [] && isExponent rest

/-- Whether `str::parse` reads a floating point number. -/
def isFloat (s : List Char) : Bool :=
  let number := if s.head? = some '+' ∨ s.head? = some '-' then s.tail else s
  ["inf", "infinity", "nan"].any (sameIgnoreAsciiCase number ·.toList) || isUnsignedFloat number

end Ferrofin.Util
