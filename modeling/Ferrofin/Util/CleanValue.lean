import Ferrofin.Lib.Words
import Ferrofin.Util.Text
import Ferrofin.Util.Utf8

/-!
# Clean values

A value is cleaned in passes: marks and ligatures are folded between the two normal forms, the rest
is lower-cased, what is no letter and no number becomes a blank, and blanks are collapsed and
trimmed.  The words that are left are joined by single spaces (`collapse_spec`), so that a cleaned
value stays as it is, unless it has a letter that becomes foldable by its lower case only: the
capital sharp s (`getCleanValue_canonical`).
-/

namespace Ferrofin.Util

open Lib
open List (dropWhile_cons exists_cons_of_ne_nil map_congr_left mem_cons mem_cons_self mem_singleton)

/-! ### The passes -/

def capitalSharpS : Char := Char.ofNat 0x1E9E

def capitalDottedI : Char := Char.ofNat 0x130

def ligatureMap (c : Char) : Option (List Char) :=
  match c.toNat with
  | 0x153 => some ['o', 'e']
  | 0x152 => some ['O', 'E']
  | 0xE6 => some ['a', 'e']
  | 0xC6 => some ['A', 'E']
  | 0xF8 => some ['o']
  | 0xD8 => some ['O']
  | 0x142 => some ['l']
  | 0x141 => some ['L']
  | 0xDF => some ['s', 's']
  | _ => none

/-- The code points of `is_nonspacing_mark`, first and last. -/
def nonspacingMarks : List (ℕ × ℕ) :=
  [(0x300, 0x36F), (0x483, 0x489), (0x591, 0x5BD), (0x5BF, 0x5BF), (0x5C1, 0x5C2), (0x5C4, 0x5C5),
    (0x5C7, 0x5C7), (0x610, 0x61A), (0x64B, 0x65F), (0x670, 0x670), (0x6D6, 0x6DC), (0x6DF, 0x6E4),
    (0x6E7, 0x6E8), (0x6EA, 0x6ED), (0x711, 0x711), (0x730, 0x74A), (0x1AB0, 0x1AFF),
    (0x1DC0, 0x1DFF), (0x20D0, 0x20FF)]

def isNonspacingMark (c : Char) : Bool :=
  nonspacingMarks.any fun (first, last) => first ≤ c.toNat && c.toNat ≤ last

structure UnicodeTables where
  nfd : List Char → List Char
  nfc : List Char → List Char
  simpleLowercase : Char → Char
  isLetter : Char → Bool
  isNumber : Char → Bool

/-- `WHITESPACE_RUN.replace_all(_, " ")`: a run leaves its last character's place to a space. -/
def collapse : List Char → List Char
  | [] => []
  | c :: s =>
    if isWhitespace c then
      if s.head?.any isWhitespace then collapse s else ' ' :: collapse s
    else c :: collapse s

namespace UnicodeTables

variable (u : UnicodeTables)

def foldChar (c : Char) : List Char :=
  if isNonspacingMark c then [] else (ligatureMap c).getD [c]

def removeDiacritics (text : List Char) : List Char :=
  u.nfc ((u.nfd (text.filter (· ≠ replacementCharacter))).flatMap foldChar)

/-- The lower case of a character; the capital I with a dot keeps its case. -/
def lower (c : Char) : Char := if c = capitalDottedI then c else u.simpleLowercase c

def lowerInvariant (text : List Char) : List Char :=
  if text.all (·.toNat < 128) then text.map Char.toLower else text.map u.lower

/-- What separates words: neither a letter nor a number. -/
def separates (c : Char) : Bool := !(u.isLetter c || u.isNumber c)

/-- `NOT_LETTER_DIGIT_SPACE.replace_all(_, " ")`. -/
def blankOther (text : List Char) : List Char :=
  text.map fun c => if u.isLetter c || u.isNumber c || isWhitespace c then c else ' '

def getCleanValue (value : List Char) : List Char :=
  if trimChars value = [] then value
  else trimChars (collapse (u.blankOther (u.lowerInvariant (u.removeDiacritics value))))

structure Standard (u : UnicodeTables) : Prop where
  /-- Canonical decomposition is that of each character, up to the order. -/
  mem_nfd : ∀ s c, c ∈ u.nfd s ↔ ∃ d ∈ s, c ∈ u.nfd [d]
  /-- It is a full one. -/
  nfd_of_mem : ∀ s, ∀ c ∈ u.nfd s, u.nfd [c] = [c]
  nfd_ascii : ∀ c, c.toNat < 128 → u.nfd [c] = [c]
  /-- Two characters that neither decompose nor are part of a decomposition. -/
  nfd_alone : ∀ c d, c = replacementCharacter ∨ c = capitalSharpS → (c ∈ u.nfd [d] ↔ d = c)
  /-- Composition changes nothing up to canonical equivalence, and depends on nothing else. -/
  nfd_nfc : ∀ s, u.nfd (u.nfc s) = u.nfd s
  nfc_nfd : ∀ s, u.nfc (u.nfd s) = u.nfc s
  /-- The normal form is closed under substrings. -/
  nfc_substring : ∀ s t, t <:+: s → u.nfc s = s → u.nfc t = t
  /-- Nothing is composed with a space. -/
  nfc_space : ∀ s t, u.nfc (s ++ ' ' :: t) = u.nfc s ++ ' ' :: u.nfc t
  /-- Letters with case compose with marks only. -/
  nfd_lower : ∀ s, (∀ c ∈ u.nfd s, isNonspacingMark c = false) →
    u.nfd (s.map u.lower) = (u.nfd s).map u.lower
  nfc_lower : ∀ s, (∀ c ∈ u.nfd s, isNonspacingMark c = false) →
    u.nfc (s.map u.lower) = (u.nfc s).map u.lower
  lower_ascii : ∀ c, c.toNat < 128 → u.simpleLowercase c = c.toLower
  lower_lower : ∀ c, u.lower (u.lower c) = u.lower c
  lower_mark : ∀ c, isNonspacingMark (u.lower c) = true → isNonspacingMark c = true
  lower_ligature : ∀ c, ligatureMap (u.lower c) ≠ none → ligatureMap c ≠ none ∨ c = capitalSharpS
  lower_replacement : ∀ c, u.lower c = replacementCharacter → c = replacementCharacter
  /-- Letters and numbers are no blanks. -/
  separates_blank : ∀ c, isWhitespace c = true → u.separates c = true

end UnicodeTables

/-! ### Words -/

theorem isWhitespace_space : isWhitespace ' ' = true := by decide

/-- The first piece of a text is what stands before its first separator. -/
theorem head?_splitOnP {α : Type*} (p : α → Bool) (s : List α) :
    (s.splitOnP p).head? = some (s.takeWhile (!p ·)) := by
  induction s with
  | nil => rfl
  | cons a s ih =>
    rw [List.splitOnP_cons_eq_if_modifyHead, List.takeWhile_cons]
    cases ha : p a with
    | true => simp
    | false =>
      obtain ⟨first, rest, hpieces⟩ := exists_cons_of_ne_nil (List.splitOnP_ne_nil p s)
      rw [hpieces, List.head?_cons, Option.some.injEq] at ih
      rw [hpieces, ← ih]
      simp

theorem infix_of_mem_splitOnP {α : Type*} {p : α → Bool} {s piece : List α}
    (h : piece ∈ s.splitOnP p) : piece <:+: s := by
  induction s generalizing piece with
  | nil =>
    rw [List.splitOnP_nil, mem_singleton] at h
    exact h ▸ List.infix_rfl
  | cons a s ih =>
    have hhead := head?_splitOnP p s
    obtain ⟨first, rest, hpieces⟩ := exists_cons_of_ne_nil (List.splitOnP_ne_nil p s)
    rw [hpieces, List.head?_cons, Option.some.injEq] at hhead
    rw [List.splitOnP_cons_eq_if_modifyHead] at h
    split at h
    · rcases mem_cons.mp h with rfl | h
      · exact List.nil_infix
      · exact List.infix_cons (ih h)
    · rw [hpieces, List.modifyHead_cons] at h
      rcases mem_cons.mp h with rfl | h
      · have hstart : a :: first <+: a :: s :=
          List.cons_prefix_cons.mpr ⟨rfl, hhead ▸ List.takeWhile_prefix _⟩
        exact hstart.isInfix
      · exact List.infix_cons (ih (hpieces ▸ List.mem_cons_of_mem _ h))

theorem words_join {p : Char → Bool} (hspace : p ' ' = true) {items : List (List Char)}
    (h : ∀ word ∈ items, word ≠ [] ∧ ∀ a ∈ word, p a = false) :
    words p ([' '].intercalate items) = items := by
  induction items with
  | nil => exact words_nil
  | cons word items ih =>
    obtain ⟨hne, hfree⟩ := h word (mem_cons_self ..)
    have hrest := ih fun w hw => h w (List.mem_cons_of_mem _ hw)
    cases items with
    | nil =>
      rw [show [' '].intercalate [word] = word by simp [List.intercalate]]
      exact words_of_free hfree hne
    | cons next items =>
      rw [show [' '].intercalate (word :: next :: items) =
        word ++ ' ' :: [' '].intercalate (next :: items) by simp [List.intercalate]]
      rw [words_append_cons hspace, hrest, words_of_free hfree hne]
      rfl

theorem mem_join {items : List (List Char)} {c : Char} (h : c ∈ [' '].intercalate items) :
    c = ' ' ∨ ∃ word ∈ items, c ∈ word := by
  induction items with
  | nil => cases h
  | cons word items ih =>
    cases items with
    | nil =>
      rw [show [' '].intercalate [word] = word by simp [List.intercalate]] at h
      exact .inr ⟨word, mem_cons_self .., h⟩
    | cons next items =>
      rw [show [' '].intercalate (word :: next :: items) =
        word ++ ' ' :: [' '].intercalate (next :: items) by simp [List.intercalate]] at h
      rcases List.mem_append.mp h with h | h
      · exact .inr ⟨word, mem_cons_self .., h⟩
      · rcases mem_cons.mp h with h | h
        · exact .inl h
        · rcases ih h with h | ⟨w, hw, hc⟩
          · exact .inl h
          · exact .inr ⟨w, List.mem_cons_of_mem _ hw, hc⟩

/-! ### Collapsing -/

theorem rdropWhile_cons {α : Type*} (p : α → Bool) (a : α) (s : List α) :
    (a :: s).rdropWhile p =
      if p a = true ∧ s.rdropWhile p = [] then [] else a :: s.rdropWhile p := by
  unfold List.rdropWhile
  rw [List.reverse_cons, List.dropWhile_append]
  cases hrest : s.reverse.dropWhile p with
  | nil => cases ha : p a <;> simp [ha]
  | cons b rest => simp

theorem words_ne_nil {α : Type*} {p : α → Bool} {a : α} (ha : p a = false) (s : List α) :
    words p (a :: s) ≠ [] := by
  have hhead := head?_splitOnP p (a :: s)
  obtain ⟨first, rest, hpieces⟩ := exists_cons_of_ne_nil (List.splitOnP_ne_nil p (a :: s))
  rw [hpieces, List.head?_cons, Option.some.injEq] at hhead
  rw [words, hpieces, hhead]
  simp [ha]

theorem words_cons_free {α : Type*} {p : α → Bool} {a : α} (ha : p a = false) (s : List α) :
    words p (a :: s) =
      if s.head?.all p then [a] :: words p s else (words p s).modifyHead (a :: ·) := by
  cases s with
  | nil => exact words_of_free (by simp [ha]) (by simp)
  | cons b s =>
    cases hb : p b with
    | true =>
      rw [if_pos (by simp [hb]), show a :: b :: s = [a] ++ b :: s from rfl, words_append_cons hb,
        words_cons hb, words_of_free (by simp [ha]) (by simp)]
      rfl
    | false =>
      rw [if_neg (by simp [hb]), words, words, List.splitOnP_cons_eq_if_modifyHead,
        if_neg (by simp [ha]), List.splitOnP_cons_eq_if_modifyHead, if_neg (by simp [hb])]
      obtain ⟨first, rest, hpieces⟩ := exists_cons_of_ne_nil (List.splitOnP_ne_nil p s)
      rw [hpieces]
      simp

/-- **Collapsing leaves the words**, joined by single spaces, behind a space where the text begins
with a blank. -/
theorem rdropWhile_collapse (s : List Char) : (collapse s).rdropWhile isWhitespace =
    (if s.head?.any isWhitespace && (words isWhitespace s != []) then [' '] else []) ++
      [' '].intercalate (words isWhitespace s) := by
  induction s with
  | nil => rfl
  | cons c s ih =>
    rw [collapse]
    cases hc : isWhitespace c with
    | true =>
      rw [if_pos rfl, words_cons hc]
      cases hnext : s.head?.any isWhitespace with
      | true => simpa [hc, hnext] using ih
      | false =>
        rw [hnext] at ih
        rw [if_neg Bool.false_ne_true, rdropWhile_cons, ih]
        cases hwords : words isWhitespace s with
        | nil => simp [isWhitespace_space]
        | cons word items =>
          have hne := (mem_words (hwords ▸ mem_cons_self .. : word ∈ words isWhitespace s)).1
          cases items <;> simp [List.intercalate, hc, hne]
    | false =>
      rw [if_neg Bool.false_ne_true, rdropWhile_cons, if_neg (by simp [hc]), ih,
        words_cons_free hc]
      cases s with
      | nil => simp [List.intercalate, hc]
      | cons b s =>
        cases hb : isWhitespace b with
        | true =>
          cases words isWhitespace (b :: s) <;> simp [hb, hc, List.intercalate]
        | false =>
          obtain ⟨word, items, hwords⟩ := exists_cons_of_ne_nil (words_ne_nil hb s)
          rw [hwords]
          cases items <;> simp [hb, hc, List.intercalate]

theorem dropWhile_join {s : List Char} :
    ([' '].intercalate (words isWhitespace s)).dropWhile isWhitespace =
      [' '].intercalate (words isWhitespace s) := by
  cases hwords : words isWhitespace s with
  | nil => rfl
  | cons word items =>
    obtain ⟨hne, hfree⟩ := mem_words (hwords ▸ mem_cons_self .. : word ∈ words isWhitespace s)
    obtain ⟨c, word, rfl⟩ := exists_cons_of_ne_nil hne
    have hc := hfree c (mem_cons_self ..)
    cases items <;> simp [List.intercalate, hc]

theorem rdropWhile_dropWhile {α : Type*} (p : α → Bool) (s : List α) :
    (s.dropWhile p).rdropWhile p = (s.rdropWhile p).dropWhile p := by
  induction s with
  | nil => rfl
  | cons a s ih =>
    rw [rdropWhile_cons]
    cases ha : p a with
    | true =>
      rw [dropWhile_cons, if_pos ha, ih]
      by_cases hrest : s.rdropWhile p = []
      · rw [if_pos ⟨rfl, hrest⟩, hrest]
      · rw [if_neg fun h => hrest h.2, dropWhile_cons, if_pos ha]
    | false =>
      have hno : ¬p a = true := by simp [ha]
      rw [dropWhile_cons, if_neg hno, rdropWhile_cons, if_neg fun h => hno h.1,
        if_neg fun h => Bool.false_ne_true h.1, dropWhile_cons, if_neg hno]

/-- **What collapsing and trimming leave are the words**, joined by single spaces. -/
theorem trimChars_collapse (s : List Char) :
    trimChars (collapse s) = [' '].intercalate (words isWhitespace s) := by
  rw [show trimChars (collapse s) = ((collapse s).dropWhile isWhitespace).rdropWhile isWhitespace
    from rfl, rdropWhile_dropWhile, rdropWhile_collapse]
  split
  · rw [List.singleton_append, dropWhile_cons, if_pos isWhitespace_space, dropWhile_join]
  · rw [List.nil_append, dropWhile_join]

namespace UnicodeTables

variable {u : UnicodeTables}

def joinedWords (u : UnicodeTables) (s : List Char) : List Char :=
  [' '].intercalate (words u.separates s)

/-- What is put in a character's place is a blank exactly where the character separates words. -/
theorem words_blankOther (hu : u.Standard) (s : List Char) :
    words isWhitespace (u.blankOther s) = words u.separates s := by
  rw [blankOther, List.map_eq_flatMap, words_flatMap (q := u.separates)]
  · refine (map_congr_left fun word hword => ?_).trans (List.map_id _)
    refine (List.flatMap_congr fun c hc => ?_).trans (List.flatMap_singleton' word)
    have hfree := (mem_words hword).2 c hc
    rw [separates, Bool.not_eq_false'] at hfree
    rw [hfree, Bool.true_or, if_pos rfl]
  · intro c hc
    refine ⟨_, rfl, ?_⟩
    rw [separates, Bool.not_eq_true'] at hc
    rw [hc, Bool.false_or]
    split
    · assumption
    · exact isWhitespace_space
  · intro c hc
    have hblank : isWhitespace c = false := Bool.eq_false_iff.mpr fun h =>
      Bool.false_ne_true (hc.symm.trans (hu.separates_blank c h))
    rw [separates, Bool.not_eq_false'] at hc
    rw [hc, Bool.true_or, if_pos rfl]
    exact ⟨List.cons_ne_nil _ _, fun d hd => mem_singleton.mp hd ▸ hblank⟩

/-- **The last three passes leave the words.** -/
theorem trim_collapse_blankOther (hu : u.Standard) (s : List Char) :
    trimChars (collapse (u.blankOther s)) = u.joinedWords s := by
  rw [trimChars_collapse, words_blankOther hu, joinedWords]

/-! ### Lower case -/

theorem lowerInvariant_eq (hu : u.Standard) (text : List Char) :
    u.lowerInvariant text = text.map u.lower := by
  unfold lowerInvariant
  split
  · next h =>
    refine map_congr_left fun c hc => ?_
    have hascii : c.toNat < 128 := of_decide_eq_true (List.all_eq_true.mp h c hc)
    have hne : c ≠ capitalDottedI := by
      rintro rfl
      exact absurd hascii (by decide)
    rw [lower, if_neg hne, hu.lower_ascii c hascii]
  · rfl

/-! ### Folding -/

structure Plain (c : Char) : Prop where
  mark : isNonspacingMark c = false
  ligature : ligatureMap c = none
  replacement : c ≠ replacementCharacter

theorem foldChar_of_plain {c : Char} (h : Plain c) : foldChar c = [c] := by
  rw [foldChar, h.mark, if_neg Bool.false_ne_true, h.ligature]
  rfl

theorem plain_of_mem_ligatureMap {c d : Char} {letters : List Char}
    (h : ligatureMap c = some letters) (hd : d ∈ letters) : Plain d ∧ d.toNat < 128 := by
  have hall : letters.all (fun d => isNonspacingMark d = false ∧ ligatureMap d = none ∧
      d ≠ replacementCharacter ∧ d.toNat < 128) = true := by
    unfold ligatureMap at h
    split at h <;> cases h <;> decide
  obtain ⟨hmark, hligature, hreplacement, hascii⟩ :=
    of_decide_eq_true (List.all_eq_true.mp hall d hd)
  exact ⟨⟨hmark, hligature, hreplacement⟩, hascii⟩

/-- **A text whose decomposition is plain is only composed.** -/
theorem removeDiacritics_of_plain (hu : u.Standard) {s : List Char}
    (h : ∀ c ∈ u.nfd s, Plain c) : u.removeDiacritics s = u.nfc s := by
  have hkeep : s.filter (· ≠ replacementCharacter) = s := by
    refine List.filter_eq_self.mpr fun c hc => decide_eq_true fun heq => ?_
    refine (h c ((hu.mem_nfd s c).mpr ⟨c, hc, ?_⟩)).replacement heq
    exact (hu.nfd_alone c c (.inl heq)).mpr rfl
  have hfold : (u.nfd s).flatMap foldChar = u.nfd s :=
    (List.flatMap_congr fun c hc => foldChar_of_plain (h c hc)).trans
      (List.flatMap_singleton' _)
  rw [removeDiacritics, hkeep, hfold, hu.nfc_nfd]

def folded (u : UnicodeTables) (text : List Char) : List Char :=
  (u.nfd (text.filter (· ≠ replacementCharacter))).flatMap foldChar

/-- **Folding leaves plain characters that do not decompose**, of a text without a capital sharp
s. -/
theorem plain_folded (hu : u.Standard) {text : List Char} (hsharp : capitalSharpS ∉ text)
    {c : Char} (hc : c ∈ u.folded text) : Plain c ∧ c ≠ capitalSharpS ∧ u.nfd [c] = [c] := by
  obtain ⟨d, hd, hcd⟩ := List.mem_flatMap.mp hc
  unfold foldChar at hcd
  split at hcd
  · cases hcd
  · next hmark =>
    cases hmap : ligatureMap d with
    | some letters =>
      rw [hmap] at hcd
      obtain ⟨hplain, hascii⟩ := plain_of_mem_ligatureMap hmap hcd
      refine ⟨hplain, ?_, hu.nfd_ascii c hascii⟩
      rintro rfl
      exact absurd hascii (by decide)
    | none =>
      rw [hmap] at hcd
      obtain rfl := mem_singleton.mp hcd
      have hself := hu.nfd_of_mem _ c hd
      obtain ⟨e, he, hce⟩ := (hu.mem_nfd _ c).mp hd
      obtain ⟨he, hne⟩ := List.mem_filter.mp he
      refine ⟨⟨Bool.eq_false_iff.mpr hmark, hmap, fun heq => ?_⟩, fun heq => ?_, hself⟩
      · have hec := (hu.nfd_alone c e (.inl heq)).mp hce
        exact of_decide_eq_true hne (hec.trans heq)
      · have hec := (hu.nfd_alone c e (.inr heq)).mp hce
        exact hsharp (heq ▸ hec ▸ he)

theorem plain_nfd_removeDiacritics (hu : u.Standard) {text : List Char}
    (hsharp : capitalSharpS ∉ text) {c : Char} (hc : c ∈ u.nfd (u.removeDiacritics text)) :
    Plain c ∧ c ≠ capitalSharpS := by
  rw [removeDiacritics, hu.nfd_nfc] at hc
  obtain ⟨d, hd, hcd⟩ := (hu.mem_nfd _ c).mp hc
  obtain ⟨hplain, hne, hself⟩ := plain_folded hu hsharp hd
  rw [hself, mem_singleton] at hcd
  exact hcd ▸ ⟨hplain, hne⟩

theorem Plain.lower (hu : u.Standard) {c : Char} (h : Plain c) (hsharp : c ≠ capitalSharpS) :
    Plain (u.lower c) where
  mark := Bool.eq_false_iff.mpr fun hmark =>
    Bool.false_ne_true (h.mark.symm.trans (hu.lower_mark c hmark))
  ligature := Decidable.byContradiction fun hne =>
    (hu.lower_ligature c hne).elim (fun hc => hc h.ligature) hsharp
  replacement heq := h.replacement (hu.lower_replacement c heq)

/-! ### Cleaning twice -/

def lowered (u : UnicodeTables) (text : List Char) : List Char :=
  u.lowerInvariant (u.removeDiacritics text)

theorem nfd_lowered (hu : u.Standard) {text : List Char} (hsharp : capitalSharpS ∉ text) :
    u.nfd (u.lowered text) = (u.nfd (u.removeDiacritics text)).map u.lower := by
  rw [lowered, lowerInvariant_eq hu]
  exact hu.nfd_lower _ fun c hc => (plain_nfd_removeDiacritics hu hsharp hc).1.mark

theorem plain_nfd_lowered (hu : u.Standard) {text : List Char} (hsharp : capitalSharpS ∉ text)
    {c : Char} (hc : c ∈ u.nfd (u.lowered text)) : Plain c := by
  rw [nfd_lowered hu hsharp] at hc
  obtain ⟨d, hd, rfl⟩ := List.mem_map.mp hc
  obtain ⟨hplain, hne⟩ := plain_nfd_removeDiacritics hu hsharp hd
  exact hplain.lower hu hne

theorem nfc_lowered (hu : u.Standard) {text : List Char} (hsharp : capitalSharpS ∉ text) :
    u.nfc (u.lowered text) = u.lowered text := by
  have hcomposed : u.nfc (u.removeDiacritics text) = u.removeDiacritics text := by
    rw [removeDiacritics, ← hu.nfc_nfd, hu.nfd_nfc, hu.nfc_nfd]
  rw [lowered, lowerInvariant_eq hu,
    hu.nfc_lower _ fun c hc => (plain_nfd_removeDiacritics hu hsharp hc).1.mark, hcomposed]

theorem lowered_lowered (hu : u.Standard) {text : List Char} (hsharp : capitalSharpS ∉ text) :
    u.lowered (u.lowered text) = u.lowered text := by
  have hfold : u.removeDiacritics (u.lowered text) = u.lowered text := by
    rw [removeDiacritics_of_plain hu fun c hc => plain_nfd_lowered hu hsharp hc,
      nfc_lowered hu hsharp]
  rw [show u.lowered (u.lowered text) = u.lowerInvariant (u.removeDiacritics (u.lowered text))
    from rfl, hfold, lowerInvariant_eq hu, lowered, lowerInvariant_eq hu, List.map_map]
  exact map_congr_left fun c _ => hu.lower_lower c

theorem getCleanValue_of_ne (hu : u.Standard) {value : List Char} (h : trimChars value ≠ []) :
    u.getCleanValue value = u.joinedWords (u.lowered value) := by
  rw [getCleanValue, if_neg h, trim_collapse_blankOther hu]
  rfl

theorem lower_space (hu : u.Standard) : u.lower ' ' = ' ' := by
  rw [lower, if_neg (by decide), hu.lower_ascii ' ' (by decide)]
  rfl

theorem nfc_join (hu : u.Standard) {items : List (List Char)} (hnil : u.nfc [] = [])
    (h : ∀ word ∈ items, u.nfc word = word) :
    u.nfc ([' '].intercalate items) = [' '].intercalate items := by
  induction items with
  | nil => exact hnil
  | cons word items ih =>
    have hword := h word (mem_cons_self ..)
    have hrest := ih fun w hw => h w (List.mem_cons_of_mem _ hw)
    cases items with
    | nil =>
      rw [show [' '].intercalate [word] = word by simp [List.intercalate]]
      exact hword
    | cons next items =>
      rw [show [' '].intercalate (word :: next :: items) =
        word ++ ' ' :: [' '].intercalate (next :: items) by simp [List.intercalate],
        hu.nfc_space, hword, hrest]

theorem infix_of_mem_words {word s : List Char} (h : word ∈ words u.separates s) :
    word <:+: s := infix_of_mem_splitOnP (List.mem_filter.mp h).1

/-- **The words of a lower-cased text stay as they are** when they are folded and lower-cased. -/
theorem lowered_joinedWords (hu : u.Standard) {text : List Char} (hsharp : capitalSharpS ∉ text) :
    u.lowered (u.joinedWords (u.lowered text)) = u.joinedWords (u.lowered text) := by
  have hmem : ∀ c ∈ u.joinedWords (u.lowered text), c = ' ' ∨ c ∈ u.lowered text := by
    intro c hc
    rcases mem_join hc with hc | ⟨word, hword, hc⟩
    · exact .inl hc
    · exact .inr ((infix_of_mem_words hword).subset hc)
  have hplain : ∀ c ∈ u.nfd (u.joinedWords (u.lowered text)), Plain c := by
    intro c hc
    obtain ⟨d, hd, hcd⟩ := (hu.mem_nfd _ c).mp hc
    rcases hmem d hd with rfl | hd
    · rw [hu.nfd_ascii ' ' (by decide), mem_singleton] at hcd
      exact hcd ▸ ⟨by decide, by decide, by decide⟩
    · exact plain_nfd_lowered hu hsharp ((hu.mem_nfd _ c).mpr ⟨d, hd, hcd⟩)
  have hcomposed := nfc_lowered hu hsharp
  have hjoined : u.nfc (u.joinedWords (u.lowered text)) = u.joinedWords (u.lowered text) :=
    nfc_join hu (hu.nfc_substring _ _ List.nil_infix hcomposed) fun word hword =>
      hu.nfc_substring _ _ (infix_of_mem_words hword) hcomposed
  rw [show u.lowered (u.joinedWords (u.lowered text)) =
    u.lowerInvariant (u.removeDiacritics (u.joinedWords (u.lowered text))) from rfl,
    removeDiacritics_of_plain hu hplain, hjoined, lowerInvariant_eq hu]
  refine (map_congr_left fun c hc => ?_).trans (List.map_id _)
  rcases hmem c hc with rfl | hc
  · exact lower_space hu
  · rw [lowered, lowerInvariant_eq hu] at hc
    obtain ⟨d, -, rfl⟩ := List.mem_map.mp hc
    exact hu.lower_lower d

/-- **A cleaned value stays as it is**, and a value that is folded and lower-cased already is
cleaned to the same, where it has no capital sharp s and is not blank. -/
theorem getCleanValue_canonical (u : UnicodeTables) (hu : u.Standard) (value : List Char)
    (hsharp : capitalSharpS ∉ value) :
    u.getCleanValue (u.getCleanValue value) = u.getCleanValue value ∧
      (trimChars value ≠ [] →
        trimChars (u.lowerInvariant (u.removeDiacritics value)) ≠ [] →
        u.getCleanValue (u.lowerInvariant (u.removeDiacritics value)) =
          u.getCleanValue value) := by
  constructor
  · by_cases hvalue : trimChars value = []
    · have hself : u.getCleanValue value = value := if_pos hvalue
      rw [hself, hself]
    · rw [getCleanValue_of_ne hu hvalue]
      by_cases hblank : trimChars (u.joinedWords (u.lowered value)) = []
      · exact if_pos hblank
      · rw [getCleanValue_of_ne hu hblank, lowered_joinedWords hu hsharp]
        exact congrArg ([' '].intercalate ·)
          (words_join (hu.separates_blank ' ' isWhitespace_space) fun word hword => mem_words hword)
  · intro hvalue hlowered
    rw [getCleanValue_of_ne hu hvalue, getCleanValue_of_ne hu hlowered]
    exact congrArg _ (lowered_lowered hu hsharp)

end UnicodeTables

/-! ### A table -/

/-- The tables of texts of ASCII characters and the two sharp s. -/
def sharpTables : UnicodeTables where
  nfd := id
  nfc := id
  simpleLowercase c := if c = capitalSharpS then Char.ofNat 0xDF else c.toLower
  isLetter c := (65 ≤ c.toNat && c.toNat ≤ 90) || (97 ≤ c.toNat && c.toNat ≤ 122) ||
    c.toNat == 0xDF || c.toNat == 0x1E9E
  isNumber c := 48 ≤ c.toNat && c.toNat ≤ 57

theorem lower_sharpTables (c : Char) : sharpTables.lower c = c ∨ c = capitalSharpS ∨
    ∃ n < 26, c = Char.ofNat (65 + n) := by
  by_cases hdot : c = capitalDottedI
  · exact .inl (if_pos hdot)
  · by_cases hsharp : c = capitalSharpS
    · exact .inr (.inl hsharp)
    · have hlower : sharpTables.lower c = c.toLower := by
        rw [UnicodeTables.lower, if_neg hdot]
        exact if_neg hsharp
      by_cases hc : c.val ≥ 'A'.val ∧ c.val ≤ 'Z'.val
      · have hlo : 65 ≤ c.toNat := hc.1
        have hhi : c.toNat ≤ 90 := hc.2
        refine .inr (.inr ⟨c.toNat - 65, by omega, ?_⟩)
        rw [Nat.add_sub_cancel' hlo, Char.ofNat_toNat]
      · rw [hlower]
        delta Char.toLower
        rw [dif_neg hc]
        exact .inl rfl

theorem standard_sharpTables : sharpTables.Standard where
  mem_nfd s c := by simp [sharpTables]
  nfd_of_mem s c _ := rfl
  nfd_ascii c _ := rfl
  nfd_alone c d _ := by simp [sharpTables, eq_comm]
  nfd_nfc s := rfl
  nfc_nfd s := rfl
  nfc_substring s t _ _ := rfl
  nfc_space s t := rfl
  nfd_lower s _ := rfl
  nfc_lower s _ := rfl
  lower_ascii c h := by
    refine if_neg ?_
    rintro rfl
    exact absurd h (by decide)
  lower_lower c := by
    rcases lower_sharpTables c with h | rfl | ⟨n, hn, rfl⟩
    · rw [h, h]
    · decide
    · revert n
      decide
  lower_mark c h := by
    rcases lower_sharpTables c with hself | rfl | ⟨n, hn, rfl⟩
    · exact hself ▸ h
    · exact absurd h (by decide)
    · revert n
      decide
  lower_ligature c h := by
    rcases lower_sharpTables c with hself | rfl | ⟨n, hn, rfl⟩
    · exact .inl (hself ▸ h)
    · exact .inr rfl
    · revert n
      decide
  lower_replacement c h := by
    rcases lower_sharpTables c with hself | rfl | ⟨n, hn, rfl⟩
    · exact hself ▸ h
    · exact absurd h (by decide)
    · revert n
      decide
  separates_blank c h := by
    simp only [isWhitespace, Bool.or_eq_true, Bool.and_eq_true, decide_eq_true_eq,
      beq_iff_eq] at h
    simp only [UnicodeTables.separates, sharpTables, Bool.not_eq_true', Bool.or_eq_false_iff,
      Bool.and_eq_false_iff, decide_eq_false_iff_not, beq_eq_false_iff_ne]
    omega

theorem getCleanValue_canonical_name :
    sharpTables.getCleanValue (sharpTables.getCleanValue ['H', '.', ' ', 'J', 'o', 'n']) =
      ['h', ' ', 'j', 'o', 'n'] ∧
    sharpTables.getCleanValue
        (sharpTables.lowerInvariant (sharpTables.removeDiacritics ['H', '.', ' ', 'J', 'o', 'n'])) =
      ['h', ' ', 'j', 'o', 'n'] := by
  obtain ⟨hagain, hfolded⟩ := UnicodeTables.getCleanValue_canonical sharpTables
    standard_sharpTables ['H', '.', ' ', 'J', 'o', 'n'] (by decide)
  rw [hagain, hfolded (by decide) (by decide)]
  exact ⟨by decide, by decide⟩

/-- The capital sharp s is lower-cased the first time and folded the second time; and a value is not
blank before its mark is removed. -/
theorem capital_sharp_s_cleaned_twice : sharpTables.Standard ∧
    sharpTables.getCleanValue [capitalSharpS] = [Char.ofNat 0xDF] ∧
    sharpTables.getCleanValue (sharpTables.getCleanValue [capitalSharpS]) = ['s', 's'] ∧
    sharpTables.getCleanValue [' ', Char.ofNat 0x301] = [] ∧
    sharpTables.getCleanValue
      (sharpTables.lowerInvariant (sharpTables.removeDiacritics [' ', Char.ofNat 0x301])) =
        [' '] :=
  ⟨standard_sharpTables, by decide, by decide, by decide, by decide⟩

end Ferrofin.Util
