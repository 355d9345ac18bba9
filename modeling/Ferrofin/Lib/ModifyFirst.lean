import Mathlib.Data.List.Basic

/-!
# Changing the first element that matches

`modifyFirst p f l` is what a program does that finds the first element of a
sequence with `p` and changes it in place (`iter_mut().find(p)`): the first
element with `p` becomes its image under `f`, the others stay.  When nothing
matches, nothing changes.

The lemmas say which views of the list the change keeps (`map_modifyFirst`),
where the elements of the result come from (`mem_modifyFirst`,
`forall_modifyFirst`), split the list at the changed place
(`modifyFirst_eq_append`), and say what the whole list gains
(`perm_flatMap_modifyFirst`).  Where keys are distinct, the first element of a key is the one
(`find?_key`).
-/

namespace Ferrofin.Lib

variable {α β : Type*} {p : α → Bool} {f : α → α}

theorem find?_key [DecidableEq β] {key : α → β} {l : List α} {a : α}
    (hnodup : (l.map key).Nodup) (h : a ∈ l) : l.find? (fun b => key b = key a) = some a := by
  induction l with
  | nil => cases h
  | cons first l ih =>
    rw [List.map_cons, List.nodup_cons] at hnodup
    rcases List.mem_cons.mp h with rfl | h
    · exact List.find?_cons_of_pos (decide_eq_true rfl)
    · rw [List.find?_cons_of_neg, ih hnodup.2 h]
      intro heq
      exact hnodup.1 (of_decide_eq_true heq ▸ List.mem_map_of_mem h)

theorem filter_key [DecidableEq β] {key : α → β} {l : List α} {a : α}
    (hnodup : (l.map key).Nodup) (h : a ∈ l) : l.filter (fun b => key b = key a) = [a] := by
  obtain ⟨l₁, l₂, rfl⟩ := List.append_of_mem h
  rw [List.map_append, List.map_cons] at hnodup
  obtain ⟨-, hcons, hdisj⟩ := List.nodup_append.mp hnodup
  have h₁ : l₁.filter (fun b => key b = key a) = [] :=
    List.filter_eq_nil_iff.mpr fun b hb hk =>
      hdisj _ (List.mem_map_of_mem hb) _ List.mem_cons_self (of_decide_eq_true hk)
  have h₂ : l₂.filter (fun b => key b = key a) = [] :=
    List.filter_eq_nil_iff.mpr fun b hb hk =>
      (List.nodup_cons.mp hcons).1 (of_decide_eq_true hk ▸ List.mem_map_of_mem hb)
  rw [List.filter_append, h₁, List.nil_append, List.filter_cons, h₂, if_pos (decide_eq_true rfl)]

/-- The list with its first element that has `p` changed by `f`. -/
def modifyFirst (p : α → Bool) (f : α → α) : List α → List α
  | [] => []
  | a :: l => if p a then f a :: l else a :: modifyFirst p f l

theorem map_modifyFirst {g : α → β} (hg : ∀ a, p a → g (f a) = g a) (l : List α) :
    (modifyFirst p f l).map g = l.map g := by
  induction l with
  | nil => rfl
  | cons a l ih =>
    rw [modifyFirst]
    split
    · next h => rw [List.map_cons, List.map_cons, hg a h]
    · rw [List.map_cons, List.map_cons, ih]

theorem mem_modifyFirst {b : α} {l : List α} (h : b ∈ modifyFirst p f l) :
    b ∈ l ∨ ∃ a ∈ l, p a ∧ b = f a := by
  induction l with
  | nil => cases h
  | cons a l ih =>
    rw [modifyFirst] at h
    split at h
    · next hp =>
      rcases List.mem_cons.mp h with rfl | h
      · exact Or.inr ⟨a, List.mem_cons_self, hp, rfl⟩
      · exact Or.inl (List.mem_cons_of_mem _ h)
    · rcases List.mem_cons.mp h with rfl | h
      · exact Or.inl List.mem_cons_self
      · rcases ih h with h | ⟨c, hc, hp, he⟩
        · exact Or.inl (List.mem_cons_of_mem _ h)
        · exact Or.inr ⟨c, List.mem_cons_of_mem _ hc, hp, he⟩

theorem forall_modifyFirst {P : α → Prop} {l : List α} (h : ∀ a ∈ l, P a)
    (hf : ∀ a ∈ l, p a → P (f a)) : ∀ b ∈ modifyFirst p f l, P b := by
  intro b hb
  rcases mem_modifyFirst hb with hb | ⟨a, ha, hp, rfl⟩
  · exact h b hb
  · exact hf a ha hp

theorem modifyFirst_of_find?_none {l : List α} (h : l.find? p = none) : modifyFirst p f l = l := by
  induction l with
  | nil => rfl
  | cons a l ih =>
    rw [List.find?_cons] at h
    split at h
    · cases h
    · next hp => rw [modifyFirst, if_neg (by simp [hp]), ih h]

/-- The changed element stands where `find?` stops. -/
theorem modifyFirst_eq_append {a : α} {l : List α} (h : l.find? p = some a) :
    ∃ l₁ l₂, l = l₁ ++ a :: l₂ ∧ (∀ b ∈ l₁, p b = false) ∧ p a = true ∧
      modifyFirst p f l = l₁ ++ f a :: l₂ := by
  induction l with
  | nil => cases h
  | cons c l ih =>
    rw [List.find?_cons] at h
    split at h
    · next hp =>
      cases h
      exact ⟨[], l, rfl, by simp, hp, by rw [modifyFirst, if_pos hp]; rfl⟩
    · next hp =>
      obtain ⟨l₁, l₂, rfl, hall, ha, he⟩ := ih h
      refine ⟨c :: l₁, l₂, rfl, ?_, ha, ?_⟩
      · intro b hb
        rcases List.mem_cons.mp hb with rfl | hb
        · exact hp
        · exact hall b hb
      · rw [modifyFirst, if_neg (by simp [hp]), he]; rfl

/-- When an element matches, what the change adds to it is added to the whole. -/
theorem perm_flatMap_modifyFirst {g : α → List β} {extra : List β} {l : List α}
    (hg : ∀ a, p a → g (f a) = g a ++ extra) (h : l.any p = true) :
    ((modifyFirst p f l).flatMap g).Perm (l.flatMap g ++ extra) := by
  induction l with
  | nil => cases h
  | cons a l ih =>
    rw [modifyFirst]
    split
    · next ha =>
      rw [List.flatMap_cons, List.flatMap_cons, hg a ha, List.append_assoc, List.append_assoc]
      exact List.perm_append_comm.append_left (g a)
    · next ha =>
      rw [List.any_cons, Bool.or_eq_true] at h
      rw [List.flatMap_cons, List.flatMap_cons, List.append_assoc]
      exact (ih (h.resolve_left ha)).append_left (g a)

end Ferrofin.Lib
