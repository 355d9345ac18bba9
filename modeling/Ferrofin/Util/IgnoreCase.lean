import Mathlib.Data.List.Infix

/-!
# Replacing in whatever case

`replace_ignore_ascii_case`, on lists of characters.  A pattern `Begins` where the text has it in
some letter case; it is `Clear` of a piece when it begins nowhere in it, whatever follows.
-/

namespace Ferrofin.Util

def small (s : List Char) : List Char := s.map Char.toLower

/-- The text starts with the pattern, in some letter case. -/
def Begins (pattern s : List Char) : Prop := small pattern <+: small s

instance (pattern s : List Char) : Decidable (Begins pattern s) :=
  inferInstanceAs (Decidable (_ <+: _))

/-- The text behind the first `skip` characters, with the occurrences of a pattern replaced. -/
def replaceIgnoreAsciiCaseFrom (pattern by' : List Char) : (skip : Nat) → List Char → List Char
  | _, [] => []
  | 0, c :: s =>
    if Begins pattern (c :: s) then
      by' ++ replaceIgnoreAsciiCaseFrom pattern by' (pattern.length - 1) s
    else c :: replaceIgnoreAsciiCaseFrom pattern by' 0 s
  | skip + 1, _ :: s => replaceIgnoreAsciiCaseFrom pattern by' skip s

def replaceIgnoreAsciiCase (s pattern by' : List Char) : List Char :=
  if pattern = [] ∨ by' = [] then s else replaceIgnoreAsciiCaseFrom pattern by' 0 s

def Clear (pattern piece : List Char) : Prop :=
  ∀ a b, piece = a ++ b → b ≠ [] → ∀ rest, ¬Begins pattern (b ++ rest)

def Free (pattern s : List Char) : Prop := ∀ a b, s = a ++ b → ¬Begins pattern b

section Begins

variable {pattern piece s : List Char} {c : Char}

@[simp] theorem small_append (a b : List Char) : small (a ++ b) = small a ++ small b :=
  List.map_append

@[simp] theorem length_small (s : List Char) : (small s).length = s.length := List.length_map _

theorem begins_append {x : List Char} (h : small x = small pattern) (rest : List Char) :
    Begins pattern (x ++ rest) := by
  rw [Begins, small_append, h]
  exact List.prefix_append ..

theorem begins_iff : Begins pattern s ↔ ∃ x rest, s = x ++ rest ∧ small x = small pattern := by
  constructor
  · intro h
    have hlen : (small pattern).length = pattern.length := length_small pattern
    have htake : small pattern = (small s).take pattern.length :=
      hlen ▸ List.prefix_iff_eq_take.mp h
    refine ⟨s.take pattern.length, s.drop pattern.length, (List.take_append_drop ..).symm, ?_⟩
    rw [htake, small, small, List.map_take]
  · rintro ⟨x, rest, rfl, h⟩
    exact begins_append h rest

theorem begins_cons_iff {d : Char} {w : List Char} :
    Begins (d :: w) (c :: s) ↔ d.toLower = c.toLower ∧ Begins w s := by
  exact List.cons_prefix_cons

theorem clear_of_forall_ne {p : Char} (h : ∀ c ∈ piece, c.toLower ≠ p.toLower) :
    Clear (p :: pattern) piece := by
  rintro a (_ | ⟨c, b⟩) rfl hne rest hbegins
  · exact hne rfl
  · exact h c (by simp) (begins_cons_iff.mp hbegins).1.symm

theorem Clear.tail (h : Clear pattern (c :: piece)) : Clear pattern piece := by
  intro a b hab
  exact h (c :: a) b (by rw [hab, List.cons_append])

theorem Free.tail (h : Free pattern (c :: s)) : Free pattern s := by
  intro a b hab
  exact h (c :: a) b (by rw [hab, List.cons_append])

end Begins

/-! ### One replacement -/

section Replace

variable {pattern by' piece s : List Char} {c : Char}

@[simp] theorem replaceFrom_nil (skip : Nat) :
    replaceIgnoreAsciiCaseFrom pattern by' skip [] = [] := by
  cases skip <;> rfl

theorem replaceFrom_passed (x rest : List Char) :
    replaceIgnoreAsciiCaseFrom pattern by' x.length (x ++ rest) =
      replaceIgnoreAsciiCaseFrom pattern by' 0 rest := by
  induction x with
  | nil => rfl
  | cons a x ih => exact ih

theorem replaceFrom_append (hpattern : pattern ≠ []) {x : List Char}
    (h : small x = small pattern) (rest : List Char) :
    replaceIgnoreAsciiCaseFrom pattern by' 0 (x ++ rest) =
      by' ++ replaceIgnoreAsciiCaseFrom pattern by' 0 rest := by
  have hlen : x.length = pattern.length := by
    rw [← length_small x, h, length_small]
  cases x with
  | nil =>
    rw [List.length_nil] at hlen
    exact absurd (List.length_eq_zero_iff.mp hlen.symm) hpattern
  | cons a x =>
    have hbegins : Begins pattern (a :: (x ++ rest)) := begins_append h rest
    rw [List.cons_append, replaceIgnoreAsciiCaseFrom, if_pos hbegins, ← hlen, List.length_cons,
      Nat.add_sub_cancel, replaceFrom_passed]

theorem replaceFrom_cons (h : ¬Begins pattern (c :: s)) :
    replaceIgnoreAsciiCaseFrom pattern by' 0 (c :: s) =
      c :: replaceIgnoreAsciiCaseFrom pattern by' 0 s := by
  rw [replaceIgnoreAsciiCaseFrom, if_neg h]

theorem replaceFrom_clear (h : Clear pattern piece) (rest : List Char) :
    replaceIgnoreAsciiCaseFrom pattern by' 0 (piece ++ rest) =
      piece ++ replaceIgnoreAsciiCaseFrom pattern by' 0 rest := by
  induction piece with
  | nil => rfl
  | cons c piece ih =>
    have hbegins := h [] (c :: piece) rfl (List.cons_ne_nil _ _) rest
    rw [List.cons_append] at hbegins ⊢
    rw [replaceFrom_cons hbegins, ih h.tail]
    rfl

theorem replaceFrom_eq_self (h : Free pattern s) :
    replaceIgnoreAsciiCaseFrom pattern by' 0 s = s := by
  induction s with
  | nil => rfl
  | cons c s ih => rw [replaceFrom_cons (h [] _ rfl), ih h.tail]

/-- **A text that is clear of what is put in** begins after the replacement only where it began
before. -/
theorem begins_of_replaced (hpattern : pattern ≠ []) {w : List Char} (hw : Clear by' w)
    (h : Begins w (replaceIgnoreAsciiCaseFrom pattern by' 0 s)) :
    ∃ y rest, s = y ++ rest ∧ small y = small w ∧
      replaceIgnoreAsciiCaseFrom pattern by' 0 s =
        y ++ replaceIgnoreAsciiCaseFrom pattern by' 0 rest := by
  induction w generalizing s with
  | nil => exact ⟨[], s, rfl, rfl, rfl⟩
  | cons d w ih =>
    by_cases hbegins : Begins pattern s
    · -- What is put in begins with the text, or the text with it.
      obtain ⟨x, rest, rfl, hx⟩ := begins_iff.mp hbegins
      rw [replaceFrom_append hpattern hx] at h
      have hput : small by' <+: small (by' ++ replaceIgnoreAsciiCaseFrom pattern by' 0 rest) := by
        rw [small_append]
        exact List.prefix_append ..
      rcases List.prefix_or_prefix_of_prefix h hput with hle | hle
      · refine absurd ?_ (hw [] (d :: w) rfl (List.cons_ne_nil _ _) (by'.drop (d :: w).length))
        have htake : small (d :: w) = (small by').take (d :: w).length := by
          have := List.prefix_iff_eq_take.mp hle
          rwa [length_small] at this
        rw [Begins, small_append, htake, small, small, List.map_drop, List.take_append_drop]
      · refine absurd ?_ (hw [] (d :: w) rfl (List.cons_ne_nil _ _) [])
        rw [List.append_nil]
        exact hle
    · cases s with
      | nil => exact absurd (List.prefix_nil.mp h) (List.cons_ne_nil _ _)
      | cons c s =>
        rw [replaceFrom_cons hbegins] at h ⊢
        obtain ⟨hc, hrest⟩ := begins_cons_iff.mp h
        obtain ⟨y, rest, rfl, hy, heq⟩ := ih hw.tail hrest
        refine ⟨c :: y, rest, rfl, ?_, by rw [heq, List.cons_append]⟩
        rw [small, List.map_cons, ← hc]
        exact congrArg _ hy

/-- **After a replacement a text is nowhere** that begins in the old text only where the pattern
does, when none begins in what is put in and none goes on into it. -/
theorem free_replaced (hpattern : pattern ≠ []) {w : List Char} (hclear : Clear w by')
    (hinto : Clear by' w) (hs : ∀ a b, s = a ++ b → ¬Begins pattern b → ¬Begins w b) :
    Free w (replaceIgnoreAsciiCaseFrom pattern by' 0 s) := by
  induction hn : s.length using Nat.strongRecOn generalizing s with
  | ind n ih =>
    subst hn
    intro a b hab hbegins
    by_cases hmatch : Begins pattern s
    · obtain ⟨x, rest, rfl, hx⟩ := begins_iff.mp hmatch
      have hlen : x.length = pattern.length := by
        rw [← length_small x, hx, length_small]
      have hpos := List.length_pos_iff.mpr hpattern
      have hrest : rest.length < (x ++ rest).length := by
        rw [List.length_append]
        omega
      have hlater : ∀ a b, rest = a ++ b → ¬Begins pattern b → ¬Begins w b := by
        rintro a b rfl
        exact hs (x ++ a) b (by rw [List.append_assoc])
      rw [replaceFrom_append hpattern hx] at hab
      rcases List.append_eq_append_iff.mp hab with ⟨a', rfl, hb⟩ | ⟨b', hput, rfl⟩
      · exact ih _ hrest hlater rfl a' b hb hbegins
      · by_cases hnil : b' = []
        · subst hnil
          exact ih _ hrest hlater rfl [] _ rfl hbegins
        · exact hclear a b' hput hnil _ hbegins
    · cases a with
      | nil =>
        rw [List.nil_append] at hab
        subst hab
        obtain ⟨y, rest, hy, hsmall, -⟩ := begins_of_replaced hpattern hinto hbegins
        exact hs [] s rfl hmatch (begins_iff.mpr ⟨y, rest, hy, hsmall⟩)
      | cons d a =>
        cases s with
        | nil =>
          rw [replaceFrom_nil] at hab
          cases hab
        | cons c s =>
          rw [replaceFrom_cons hmatch, List.cons_append] at hab
          refine ih s.length (by simp) (fun a b hs' => ?_) rfl a b (List.cons.inj hab).2 hbegins
          exact hs (c :: a) b (by rw [hs', List.cons_append])

end Replace

end Ferrofin.Util
