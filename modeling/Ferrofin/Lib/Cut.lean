import Mathlib.Data.List.Basic

/-!
# Cutting a list at a separator

`cut c s` is what stands before the first `c` of `s`, and what stands after it when there is one.
`pieces c s` is what a loop goes over that cuts off a piece until nothing is left.
-/

namespace Ferrofin.Lib

open List (mem_cons mem_cons_of_mem not_mem_nil)

variable {α : Type} [DecidableEq α] {c : α} {a b s : List α}

/-- What stands before the first `c`, and after it. -/
def cut (c : α) : List α → List α × Option (List α)
  | [] => ([], none)
  | d :: s => if d = c then ([], some s) else (d :: (cut c s).1, (cut c s).2)

theorem cut_of_notMem (h : c ∉ a) : cut c a = (a, none) := by
  induction a with
  | nil => rfl
  | cons d a ih =>
    rw [mem_cons, not_or] at h
    rw [cut, if_neg fun hd => h.1 hd.symm, ih h.2]

theorem cut_append (h : c ∉ a) (b : List α) : cut c (a ++ c :: b) = (a, some b) := by
  induction a with
  | nil => simp [cut]
  | cons d a ih =>
    rw [mem_cons, not_or] at h
    rw [List.cons_append, cut, if_neg fun hd => h.1 hd.symm, ih h.2]

theorem cut_eq_some : cut c s = (a, some b) ↔ s = a ++ c :: b ∧ c ∉ a := by
  refine ⟨?_, fun ⟨hs, ha⟩ => hs ▸ cut_append ha b⟩
  induction s generalizing a with
  | nil => rintro ⟨⟩
  | cons d s ih =>
    rw [cut]
    split
    · next hd =>
      rintro ⟨⟩
      exact ⟨by rw [hd]; rfl, not_mem_nil⟩
    · next hd =>
      intro h
      obtain ⟨rfl, hsnd⟩ := Prod.mk.inj h
      obtain ⟨hs, ha⟩ := ih (Prod.ext rfl hsnd)
      refine ⟨by rw [List.cons_append, ← hs], ?_⟩
      rw [mem_cons, not_or]
      exact ⟨fun h => hd h.symm, ha⟩

theorem cut_eq_none : cut c s = (a, none) ↔ s = a ∧ c ∉ a := by
  refine ⟨?_, fun ⟨hs, ha⟩ => by rw [hs, cut_of_notMem ha]⟩
  intro h
  by_cases hc : c ∈ s
  · obtain ⟨before, after, hs, hbefore⟩ := List.eq_append_cons_of_mem hc
    rw [hs, cut_append hbefore] at h
    cases h
  · rw [cut_of_notMem hc] at h
    cases h
    exact ⟨rfl, hc⟩

/-- The pieces of a list; a separator at the end has nothing after it. -/
def pieces (c : α) : List α → List (List α)
  | [] => []
  | d :: s =>
    if d = c then [] :: pieces c s
    else
      match pieces c s with
      | [] => [[d]]
      | piece :: rest => (d :: piece) :: rest

theorem pieces_append (h : c ∉ a) (b : List α) : pieces c (a ++ c :: b) = a :: pieces c b := by
  induction a with
  | nil => simp [pieces]
  | cons d a ih =>
    rw [mem_cons, not_or] at h
    rw [List.cons_append, pieces, if_neg fun hd => h.1 hd.symm, ih h.2]

theorem pieces_of_notMem (h : c ∉ a) (ha : a ≠ []) : pieces c a = [a] := by
  induction a with
  | nil => exact absurd rfl ha
  | cons d a ih =>
    rw [mem_cons, not_or] at h
    rw [pieces, if_neg fun hd => h.1 hd.symm]
    cases a with
    | nil => rfl
    | cons e a => rw [ih h.2 (List.cons_ne_nil e a)]

theorem mem_of_mem_pieces {p : List α} (hp : p ∈ pieces c s) : c ∉ p ∧ ∀ d ∈ p, d ∈ s := by
  induction s generalizing p with
  | nil => cases hp
  | cons d s ih =>
    rw [pieces] at hp
    split at hp
    · rcases mem_cons.mp hp with rfl | hp
      · exact ⟨not_mem_nil, fun d hd => absurd hd not_mem_nil⟩
      · exact ⟨(ih hp).1, fun e he => mem_cons_of_mem d ((ih hp).2 e he)⟩
    · next hd =>
      have hcons : ∀ q, (c ∉ q ∧ ∀ e ∈ q, e ∈ s) → c ∉ d :: q ∧ ∀ e ∈ d :: q, e ∈ d :: s := by
        rintro q ⟨hq, hqs⟩
        refine ⟨fun h => ?_, fun e he => ?_⟩
        · rcases mem_cons.mp h with rfl | h
          · exact hd rfl
          · exact hq h
        · rcases mem_cons.mp he with rfl | he
          · exact List.mem_cons_self ..
          · exact mem_cons_of_mem d (hqs e he)
      split at hp
      · rw [List.mem_singleton.mp hp]
        exact hcons [] ⟨not_mem_nil, fun e he => absurd he not_mem_nil⟩
      · next piece rest hpieces =>
        rcases mem_cons.mp hp with rfl | hp
        · exact hcons piece (ih (by rw [hpieces]; exact List.mem_cons_self ..))
        · have hrest := ih (p := p) (by rw [hpieces]; exact mem_cons_of_mem _ hp)
          exact ⟨hrest.1, fun e he => mem_cons_of_mem d (hrest.2 e he)⟩

theorem pieces_flatMap {l : List (List α)} (h : ∀ p ∈ l, p ≠ [] ∧ c ∉ p) :
    pieces c (l.flatMap fun p => p ++ [c]).dropLast = l := by
  induction l with
  | nil => rfl
  | cons p l ih =>
    obtain ⟨hne, hc⟩ := h p (List.mem_cons_self ..)
    have hl := ih fun q hq => h q (mem_cons_of_mem p hq)
    rw [List.flatMap_cons]
    cases l with
    | nil => rw [List.flatMap_nil, List.append_nil, List.dropLast_concat, pieces_of_notMem hc hne]
    | cons q l =>
      have hlast : (q :: l).flatMap (fun p => p ++ [c]) ≠ [] := by simp
      rw [List.dropLast_append_of_ne_nil hlast, List.append_assoc, List.singleton_append,
        pieces_append hc, hl]

end Ferrofin.Lib
