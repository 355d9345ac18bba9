import Mathlib.Data.List.Basic

/-!
# Patterns

A pattern is a sequence of steps, each of which takes a symbol of a class, perhaps one, or as many
as it likes.  `begins` says whether a text begins with something that the pattern takes, whatever
the choices: a text that is longer begins with it too (`begins_append`), and each symbol that the
pattern asks for is in the text (`exists_of_begins`).
-/

namespace Ferrofin.Lib

variable {α : Type*}

inductive Step (α : Type*)
  /-- One symbol. -/
  | one (test : α → Bool)
  /-- One symbol or none. -/
  | maybe (test : α → Bool)
  /-- Any number of symbols. -/
  | many (test : α → Bool)

/-- Any number of symbols, and then the rest of a pattern. -/
def manyThen (test : α → Bool) (rest : List α → Bool) : List α → Bool
  | [] => rest []
  | a :: s => rest (a :: s) || (test a && manyThen test rest s)

def oneThen (test : α → Bool) (rest : List α → Bool) : List α → Bool
  | [] => false
  | a :: s => test a && rest s

def begins : List (Step α) → List α → Bool
  | [] => fun _ => true
  | .one test :: pattern => oneThen test (begins pattern)
  | .maybe test :: pattern => fun s => begins pattern s || oneThen test (begins pattern) s
  | .many test :: pattern => manyThen test (begins pattern)

variable {test : α → Bool} {rest : List α → Bool} {pattern : List (Step α)} {x s : List α} {a : α}

theorem manyThen_append (hx : ∀ a ∈ x, test a = true) (h : rest s = true) :
    manyThen test rest (x ++ s) = true := by
  induction x with
  | nil =>
    cases s with
    | nil => exact h
    | cons a s => rw [List.nil_append, manyThen, h, Bool.true_or]
  | cons a x ih =>
    rw [List.cons_append, manyThen, hx a List.mem_cons_self,
      ih fun b hb => hx b (List.mem_cons_of_mem a hb), Bool.true_and, Bool.or_true]

theorem begins_one (ha : test a = true) (h : begins pattern s = true) :
    begins (.one test :: pattern) (a :: s) = true := by
  rw [begins, oneThen, ha, h, Bool.true_and]

theorem begins_maybe (h : begins pattern s = true) :
    begins (.maybe test :: pattern) s = true := by
  have hor : (begins pattern s || oneThen test (begins pattern) s) = true := by
    rw [h, Bool.true_or]
  exact hor

theorem begins_many (hx : ∀ a ∈ x, test a = true) (h : begins pattern s = true) :
    begins (.many test :: pattern) (x ++ s) = true := manyThen_append hx h

theorem begins_manyOne (hne : x ≠ []) (hx : ∀ a ∈ x, test a = true) (h : begins pattern s = true) :
    begins (.one test :: .many test :: pattern) (x ++ s) = true := by
  obtain ⟨a, x, rfl⟩ := List.exists_cons_of_ne_nil hne
  exact begins_one (hx a List.mem_cons_self)
    (begins_many (fun b hb => hx b (List.mem_cons_of_mem a hb)) h)

theorem oneThen_append (hrest : ∀ s, rest s = true → rest (s ++ x) = true)
    (h : oneThen test rest s = true) : oneThen test rest (s ++ x) = true := by
  cases s with
  | nil => cases h
  | cons a s =>
    rw [oneThen, Bool.and_eq_true] at h
    rw [List.cons_append, oneThen, h.1, hrest s h.2, Bool.true_and]

theorem begins_append (h : begins pattern s = true) (x : List α) :
    begins pattern (s ++ x) = true := by
  induction pattern generalizing s with
  | nil => rfl
  | cons step pattern ih =>
    cases step with
    | one test => exact oneThen_append (fun _ hs => ih hs) h
    | maybe test =>
      rw [begins, Bool.or_eq_true] at h ⊢
      exact h.imp ih (oneThen_append fun _ hs => ih hs)
    | many test =>
      rw [begins] at h ⊢
      induction s with
      | nil =>
        have hnone : begins pattern [] = true := h
        exact manyThen_append (x := []) nofun (ih hnone)
      | cons a s ihs =>
        rw [manyThen, Bool.or_eq_true, Bool.and_eq_true] at h
        rw [List.cons_append, manyThen, Bool.or_eq_true, Bool.and_eq_true]
        exact h.imp (fun hs => ih hs) fun hs => ⟨hs.1, ihs hs.2⟩

theorem mem_of_oneThen (hrest : ∀ s, rest s = true → ∃ a ∈ s, test a = true) {first : α → Bool}
    (h : oneThen first rest s = true) : ∃ a ∈ s, test a = true := by
  cases s with
  | nil => cases h
  | cons b s =>
    rw [oneThen, Bool.and_eq_true] at h
    obtain ⟨a, ha, htest⟩ := hrest s h.2
    exact ⟨a, List.mem_cons_of_mem b ha, htest⟩

theorem exists_of_begins (hmem : .one test ∈ pattern) (h : begins pattern s = true) :
    ∃ a ∈ s, test a = true := by
  induction pattern generalizing s with
  | nil => cases hmem
  | cons step pattern ih =>
    rcases List.mem_cons.mp hmem with rfl | hrest
    · cases s with
      | nil => cases h
      | cons a s =>
        rw [begins, oneThen, Bool.and_eq_true] at h
        exact ⟨a, List.mem_cons_self, h.1⟩
    · cases step with
      | one first => exact mem_of_oneThen (fun _ hs => ih hrest hs) h
      | maybe first =>
        rw [begins, Bool.or_eq_true] at h
        exact h.elim (ih hrest) (mem_of_oneThen fun _ hs => ih hrest hs)
      | many first =>
        rw [begins] at h
        induction s with
        | nil => exact ih hrest h
        | cons a s ihs =>
          rw [manyThen, Bool.or_eq_true, Bool.and_eq_true] at h
          rcases h with h | ⟨-, h⟩
          · exact ih hrest h
          · obtain ⟨b, hb, htest⟩ := ihs h
            exact ⟨b, List.mem_cons_of_mem a hb, htest⟩

end Ferrofin.Lib
