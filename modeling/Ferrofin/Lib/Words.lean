import Mathlib.Data.List.Basic

/-!
# Words

The words of a text over any symbols are what stands between its separators, without the empty
ones.  A symbol that becomes several ones (`List.flatMap`) takes the words of a text to the words of
the result, when separators become separators and no other symbol becomes one (`words_flatMap`).
Items that are joined by a separator are read back unless they have it (`cells_intercalate_iff`),
and where no code begins another one, the codes give the text back (`flatMap_append_cons_inj`).
-/

namespace Ferrofin.Lib

variable {α β : Type*} {p : α → Bool} {q : β → Bool} {a : α} {s t : List α}

def words (p : α → Bool) (s : List α) : List (List α) := (s.splitOnP p).filter (· ≠ [])

/-! ### Pieces -/

/-- Symbols before a text that are no separators belong to its first piece. -/
theorem splitOnP_append_of_free (h : ∀ a ∈ s, p a = false) (t : List α) :
    (s ++ t).splitOnP p = (t.splitOnP p).modifyHead (s ++ ·) := by
  induction s with
  | nil =>
    rw [List.nil_append]
    cases t.splitOnP p <;> rfl
  | cons a s ih =>
    rw [List.forall_mem_cons] at h
    rw [List.cons_append, List.splitOnP_cons_eq_if_modifyHead, if_neg (by simp [h.1]), ih h.2]
    cases t.splitOnP p <;> rfl

theorem free_of_mem_splitOnP {piece : List α} (h : piece ∈ s.splitOnP p) :
    ∀ a ∈ piece, p a = false := by
  induction s generalizing piece with
  | nil =>
    rw [List.splitOnP_nil, List.mem_singleton] at h
    simp [h]
  | cons b s ih =>
    rw [List.splitOnP_cons_eq_if_modifyHead] at h
    split at h
    · rcases List.mem_cons.mp h with rfl | h
      · simp
      · exact ih h
    · next hb =>
      obtain ⟨first, rest, hpieces⟩ := List.exists_cons_of_ne_nil (List.splitOnP_ne_nil p s)
      rw [hpieces, List.modifyHead_cons] at h
      rw [hpieces] at ih
      rcases List.mem_cons.mp h with rfl | h
      · refine List.forall_mem_cons.mpr ⟨?_, ih List.mem_cons_self⟩
        exact Bool.eq_false_iff.mpr hb
      · exact ih (List.mem_cons_of_mem _ h)

/-! ### Words -/

@[simp] theorem words_nil : words p [] = [] := by simp [words]

theorem words_append_cons (ha : p a = true) (s t : List α) :
    words p (s ++ a :: t) = words p s ++ words p t := by
  rw [words, List.splitOnP_append_cons s t ha, List.filter_append]
  rfl

theorem words_cons (ha : p a = true) (s : List α) : words p (a :: s) = words p s := by
  simpa using words_append_cons ha [] s

theorem words_of_free (h : ∀ a ∈ s, p a = false) (hs : s ≠ []) : words p s = [s] := by
  rw [words, List.splitOnP_eq_singleton h]
  simp [hs]

theorem mem_words {word : List α} (h : word ∈ words p s) :
    word ≠ [] ∧ ∀ a ∈ word, p a = false := by
  obtain ⟨hpiece, hne⟩ := List.mem_filter.mp h
  exact ⟨by simpa using hne, free_of_mem_splitOnP hpiece⟩

section FlatMap

variable {f : β → List α} (hsep : ∀ b, q b = true → ∃ a, f b = [a] ∧ p a = true)
  (hfree : ∀ b, q b = false → f b ≠ [] ∧ ∀ a ∈ f b, p a = false)

include hsep hfree

theorem splitOnP_flatMap (x : List β) :
    (x.flatMap f).splitOnP p = (x.splitOnP q).map (·.flatMap f) := by
  induction x with
  | nil => rfl
  | cons b x ih =>
    rw [List.flatMap_cons, List.splitOnP_cons_eq_if_modifyHead]
    cases hb : q b with
    | true =>
      obtain ⟨a, hfb, ha⟩ := hsep b hb
      rw [hfb, List.singleton_append, List.splitOnP_cons_eq_if_modifyHead, if_pos ha, ih,
        if_pos rfl]
      rfl
    | false =>
      rw [splitOnP_append_of_free (hfree b hb).2, ih, if_neg Bool.false_ne_true]
      cases x.splitOnP q <;> simp

/-- **The words of what a text becomes are what its words become.** -/
theorem words_flatMap (x : List β) : words p (x.flatMap f) = (words q x).map (·.flatMap f) := by
  rw [words, splitOnP_flatMap hsep hfree, words, List.filter_map]
  refine congrArg _ (List.filter_congr fun piece hpiece => ?_)
  have hpiece := free_of_mem_splitOnP hpiece
  cases piece with
  | nil => rfl
  | cons b piece =>
    have hne := (hfree b (hpiece b List.mem_cons_self)).1
    simp [hne]

end FlatMap

/-! ### Lists as texts -/

/-- The items of a text, which has none when it is empty. -/
def cells [DecidableEq α] (sep : α) (s : List α) : List (List α) :=
  if s = [] then [] else s.splitOn sep

/-- **Items are read back from the text they are joined to exactly when no item has a separator**,
and there is not a single item that is empty. -/
theorem cells_intercalate_iff [DecidableEq α] {sep : α} {items : List (List α)} :
    cells sep ([sep].intercalate items) = items ↔ items ≠ [[]] ∧ ∀ item ∈ items, sep ∉ item := by
  constructor
  · intro h
    constructor
    · rintro rfl
      cases h
    · intro item hitem hsep
      rw [← h, cells] at hitem
      split at hitem
      · cases hitem
      · have := free_of_mem_splitOnP hitem sep hsep
        simp at this
  · rintro ⟨hne, hfree⟩
    rw [cells]
    split
    · next hnil =>
      cases items with
      | nil => rfl
      | cons a rest =>
        cases rest with
        | nil =>
          rw [List.intercalate_singleton] at hnil
          exact absurd (by rw [hnil]) hne
        | cons b rest => simp [List.intercalate] at hnil
    · next hnil =>
      refine List.splitOn_intercalate sep hfree ?_
      rintro rfl
      exact hnil rfl

/-! ### Codes -/

/-- A text of codes, none of which begins another, is read back up to a symbol that begins none. -/
theorem flatMap_append_cons_inj {f : α → List β} {stop : β}
    (hcode : ∀ a b x y, f a ++ x = f b ++ y → a = b) (hstop : ∀ a x y, f a ++ x ≠ stop :: y)
    {x y : List β} (h : s.flatMap f ++ stop :: x = t.flatMap f ++ stop :: y) : s = t ∧ x = y := by
  induction s generalizing t with
  | nil =>
    cases t with
    | nil => exact ⟨rfl, (List.cons.inj h).2⟩
    | cons b t =>
      rw [List.flatMap_cons, List.append_assoc] at h
      exact absurd h.symm (hstop b _ _)
  | cons a s ih =>
    rw [List.flatMap_cons, List.append_assoc] at h
    cases t with
    | nil => exact absurd h (hstop a _ _)
    | cons b t =>
      rw [List.flatMap_cons, List.append_assoc] at h
      obtain rfl := hcode a b _ _ h
      obtain ⟨rfl, hxy⟩ := ih (List.append_cancel_left h)
      exact ⟨rfl, hxy⟩

end Ferrofin.Lib
