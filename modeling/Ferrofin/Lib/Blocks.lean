import Ferrofin.Lib.Cut
import Mathlib.Data.List.Chain
import Mathlib.Data.List.Infix

/-!
# Blocks

The lines of a text make up blocks that blank lines separate.  A text is solid when each of its line
breaks ends a line that has something (`Solid`): then all of its lines but the last have something
(`Solid.splitOn_eq`), so that a line before it and it are one block (`blocks_append`).  Replacing a
part of a line by another one that is not empty keeps a text solid (`solid_replace`).
-/

namespace Ferrofin.Lib

variable {α : Type}

/-! ### Blocks of lines -/

def blocks (lines : List (List α)) : List (List (List α)) :=
  (lines.splitOnP List.isEmpty).filter fun block => !block.isEmpty

variable {block rest : List (List α)}

theorem blocks_nil_cons (rest : List (List α)) : blocks ([] :: rest) = blocks rest := by
  have hsplit : ([] ++ [] :: rest).splitOnP List.isEmpty = [] :: rest.splitOnP List.isEmpty :=
    List.splitOnP_append_cons_of_forall_mem nofun [] rfl rest
  rw [blocks, ← List.nil_append ([] :: rest), hsplit, List.filter_cons_of_neg (by simp), blocks]

theorem blocks_replicate_append (k : ℕ) (rest : List (List α)) :
    blocks (List.replicate k [] ++ rest) = blocks rest := by
  induction k with
  | zero => rfl
  | succ k ih => rw [List.replicate_succ, List.cons_append, blocks_nil_cons, ih]

theorem isEmpty_of_ne_nil (h : ∀ line ∈ block, line ≠ []) :
    ∀ line ∈ block, List.isEmpty line = false :=
  fun line hline => List.isEmpty_eq_false_iff.mpr (h line hline)

theorem blocks_cons (h : ∀ line ∈ block, line ≠ []) (hne : block ≠ []) (rest : List (List α)) :
    blocks (block ++ [] :: rest) = block :: blocks rest := by
  rw [blocks, List.splitOnP_append_cons_of_forall_mem (isEmpty_of_ne_nil h) [] rfl rest,
    List.filter_cons_of_pos (by simpa using hne), blocks]

theorem blocks_of_ne_nil (h : ∀ line ∈ block, line ≠ []) (hne : block ≠ []) :
    blocks block = [block] := by
  rw [blocks, List.splitOnP_eq_singleton (isEmpty_of_ne_nil h),
    List.filter_cons_of_pos (by simpa using hne), List.filter_nil]

theorem blocks_append (h : ∀ line ∈ block, line ≠ []) (hne : block ≠ []) (k : ℕ)
    (rest : List (List α)) :
    blocks (block ++ List.replicate k [] ++ [] :: rest) = block :: blocks rest := by
  have hblanks : List.replicate k [] ++ [] :: rest =
      ([] : List α) :: (List.replicate k [] ++ rest) := by
    rw [← List.singleton_append, ← List.append_assoc, ← List.replicate_succ', List.replicate_succ,
      List.cons_append]
  rw [List.append_assoc, hblanks, blocks_cons h hne, blocks_replicate_append]

theorem blocks_append_blanks (h : ∀ line ∈ block, line ≠ []) (hne : block ≠ []) (k : ℕ) :
    blocks (block ++ List.replicate k []) = [block] := by
  cases k with
  | zero => rw [List.replicate_zero, List.append_nil, blocks_of_ne_nil h hne]
  | succ k =>
    have hnone : blocks (List.replicate k ([] : List α)) = [] := by
      have := blocks_replicate_append k ([] : List (List α))
      rwa [List.append_nil] at this
    rw [List.replicate_succ, blocks_cons h hne, hnone]

/-! ### Solid texts -/

variable [DecidableEq α] (nl : α)

/-- Each line break ends a line that has something; `full` says that the first one has. -/
def solid : (full : Bool) → List α → Bool
  | _, [] => true
  | full, a :: s => if a = nl then full && solid false s else solid true s

def fullLines (s : List α) : List (List α) := (s.splitOn nl).filter fun line => !line.isEmpty

variable {nl} {x s old new front back : List α} {a : α} {full : Bool}

theorem solid_append (hfree : nl ∉ x) (hne : x ≠ []) (full : Bool) (s : List α) :
    solid nl full (x ++ s) = solid nl true s := by
  induction x generalizing full with
  | nil => exact absurd rfl hne
  | cons a x ih =>
    rw [List.mem_cons, not_or] at hfree
    rw [List.cons_append, solid, if_neg fun heq => hfree.1 heq.symm]
    cases x with
    | nil => rfl
    | cons b x => exact ih hfree.2 (List.cons_ne_nil b x) true

theorem solid_replace (hold : nl ∉ old) (hold' : old ≠ []) (hnew : nl ∉ new) (hnew' : new ≠ [])
    (full : Bool) (front back : List α) :
    solid nl full (front ++ new ++ back) = solid nl full (front ++ old ++ back) := by
  induction front generalizing full with
  | nil =>
    rw [List.nil_append, List.nil_append, solid_append hold hold', solid_append hnew hnew']
  | cons a front ih =>
    simp only [List.cons_append, solid, ih]

theorem solid_of_append (h : solid nl full (x ++ s) = true) : solid nl full x = true := by
  induction x generalizing full with
  | nil => rfl
  | cons a x ih =>
    rw [List.cons_append, solid] at h
    rw [solid]
    split at h
    · next ha =>
      rw [Bool.and_eq_true] at h
      rw [if_pos ha, h.1, ih h.2, Bool.and_true]
    · next ha =>
      rw [if_neg ha]
      exact ih h

/-- A text with no line break after another one is solid, unless it starts with one. -/
theorem solid_of_chain (h : s.IsChain fun a b => ¬(a = nl ∧ b = nl))
    (hhead : full = false → s.head? ≠ some nl) : solid nl full s = true := by
  induction s generalizing full with
  | nil => rfl
  | cons a s ih =>
    have htail := h.tail
    rw [solid]
    split
    · next ha =>
      cases full with
      | false => exact absurd (congrArg some ha) (hhead rfl)
      | true =>
        refine ih htail fun _ hb => ?_
        cases s with
        | nil => cases hb
        | cons b s =>
          rw [List.isChain_cons_cons] at h
          exact h.1 ⟨ha, Option.some.inj hb⟩
    · exact ih htail nofun

theorem splitOn_of_solid (h : solid nl false s = true) :
    ∃ k, s.splitOn nl = fullLines nl s ++ List.replicate k [] := by
  induction hlength : s.length using Nat.strong_induction_on generalizing s with
  | _ n ih =>
    rcases hcut : cut nl s with ⟨line, _ | rest⟩
    · obtain ⟨rfl, hfree⟩ := cut_eq_none.mp hcut
      rw [fullLines, List.splitOn_eq_singleton hfree]
      by_cases hnil : s = []
      · exact ⟨1, by simp [hnil]⟩
      · exact ⟨0, by simp [hnil]⟩
    · obtain ⟨rfl, hfree⟩ := cut_eq_some.mp hcut
      have hne : line ≠ [] := by
        rintro rfl
        rw [List.nil_append, solid, if_pos rfl] at h
        cases h
      have hrest : solid nl false rest = true := by
        rwa [solid_append hfree hne, solid, if_pos rfl, Bool.true_and] at h
      obtain ⟨k, hk⟩ := ih rest.length (by simp at hlength; omega) hrest rfl
      refine ⟨k, ?_⟩
      rw [fullLines, List.splitOn_append_cons_self_of_not_mem hfree,
        List.filter_cons_of_pos (by simpa using hne), List.cons_append, ← fullLines, ← hk]

theorem isInfix_of_mem_splitOn {line : List α} (h : line ∈ s.splitOn nl) : line <:+: s := by
  induction hlength : s.length using Nat.strong_induction_on generalizing s with
  | _ n ih =>
    rcases hcut : cut nl s with ⟨first, _ | rest⟩
    · obtain ⟨rfl, hfree⟩ := cut_eq_none.mp hcut
      rw [List.splitOn_eq_singleton hfree, List.mem_singleton] at h
      rw [h]
    · obtain ⟨rfl, hfree⟩ := cut_eq_some.mp hcut
      rw [List.splitOn_append_cons_self_of_not_mem hfree, List.mem_cons] at h
      rcases h with rfl | h
      · exact (List.prefix_append line _).isInfix
      · refine (ih rest.length (by simp at hlength; omega) h rfl).trans ?_
        exact ((List.suffix_cons nl rest).trans (List.suffix_append first _)).isInfix

end Ferrofin.Lib
