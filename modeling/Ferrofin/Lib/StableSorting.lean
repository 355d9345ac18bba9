import Mathlib.Data.List.Basic

/-!
# Stable sorting

A rearrangement of a list that is sorted by a total preorder and keeps the elements that
compare equal in their order.  There is one such rearrangement, and `List.mergeSort` is it.

* `StablySorted`: what a stable sort gives.
* `StablySorted.unique`, `stablySorted_mergeSort`: it is the standard one.
* `StablySorted.merge`: it is kept by a merge.
-/

namespace Ferrofin.Lib

open Std

variable {α : Type} {cmp : α → α → Ordering}

theorem isLE_total [OrientedCmp cmp] (a b : α) : (cmp a b).isLE || (cmp b a).isLE := by
  cases h : cmp a b with
  | lt | eq => rfl
  | gt => rw [OrientedCmp.lt_of_gt h]; rfl

/-- Sorted, each class of equal elements in the order it has among `items`. -/
structure StablySorted (cmp : α → α → Ordering) (items sorted : List α) : Prop where
  pairwise : sorted.Pairwise fun a b => (cmp a b).isLE
  classes : ∀ c, sorted.filter (cmp c · == .eq) = items.filter (cmp c · == .eq)

namespace StablySorted

variable {items others l₁ l₂ : List α}

theorem of_length_le_one (h : items.length ≤ 1) : StablySorted cmp items items := by
  refine ⟨?_, fun _ => rfl⟩
  match items, h with
  | [], _ => exact List.Pairwise.nil
  | [a], _ => exact List.pairwise_singleton _ a

variable [TransCmp cmp]

private theorem mem_of_classes {a : α} (ha : a ∈ l₁)
    (h : ∀ c, l₁.filter (cmp c · == .eq) = l₂.filter (cmp c · == .eq)) : a ∈ l₂ := by
  have hmem : a ∈ l₁.filter (cmp a · == .eq) :=
    List.mem_filter.mpr ⟨ha, beq_iff_eq.mpr ReflCmp.compare_self⟩
  rw [h a] at hmem
  exact (List.mem_filter.mp hmem).1

private theorem eq_of_classes (h₁ : l₁.Pairwise fun a b => (cmp a b).isLE)
    (h₂ : l₂.Pairwise fun a b => (cmp a b).isLE)
    (h : ∀ c, l₁.filter (cmp c · == .eq) = l₂.filter (cmp c · == .eq)) : l₁ = l₂ := by
  induction l₁ generalizing l₂ with
  | nil =>
    cases l₂ with
    | nil => rfl
    | cons b l₂ =>
      exact absurd (mem_of_classes (List.mem_cons_self ..) fun c => (h c).symm) List.not_mem_nil
  | cons a l₁ ih =>
    cases l₂ with
    | nil => exact absurd (mem_of_classes (List.mem_cons_self ..) h) List.not_mem_nil
    | cons b l₂ =>
      -- each head is below the other, so both head the class of the first
      have hba : (cmp b a).isLE := by
        rcases List.mem_cons.mp (mem_of_classes (List.mem_cons_self ..) h) with rfl | ha
        · simp [ReflCmp.compare_self]
        · exact List.rel_of_pairwise_cons h₂ ha
      have hab : (cmp a b).isLE := by
        have hb := mem_of_classes (List.mem_cons_self ..) fun c => (h c).symm
        rcases List.mem_cons.mp hb with rfl | hb
        · simp [ReflCmp.compare_self]
        · exact List.rel_of_pairwise_cons h₁ hb
      have heq : cmp a b = .eq := OrientedCmp.isLE_antisymm hab hba
      have hheads := h a
      have hself : cmp a a = .eq := ReflCmp.compare_self
      rw [List.filter_cons, List.filter_cons, hself, heq] at hheads
      obtain rfl : a = b := (List.cons.inj hheads).1
      congr 1
      refine ih h₁.tail h₂.tail fun c => ?_
      have hc := h c
      rw [List.filter_cons, List.filter_cons] at hc
      split at hc
      · exact (List.cons.inj hc).2
      · exact hc

theorem mem_iff (h : StablySorted cmp items l₁) {a : α} : a ∈ l₁ ↔ a ∈ items :=
  ⟨fun ha => mem_of_classes ha h.classes, fun ha => mem_of_classes ha fun c => (h.classes c).symm⟩

theorem unique (h₁ : StablySorted cmp items l₁) (h₂ : StablySorted cmp items l₂) : l₁ = l₂ :=
  eq_of_classes h₁.pairwise h₂.pairwise fun c => (h₁.classes c).trans (h₂.classes c).symm

private theorem filter_cons_eq (p : α → Bool) (a : α) (l : List α) :
    (a :: l).filter p = (if p a then [a] else []) ++ l.filter p := by
  rw [List.filter_cons]
  split <;> rfl

/-- Merging sorted lists puts the class of the first before that of the second. -/
private theorem filter_merge (c : α) (h₁ : l₁.Pairwise fun a b => (cmp a b).isLE) :
    (l₁.merge l₂ fun a b => (cmp a b).isLE).filter (cmp c · == .eq) =
      l₁.filter (cmp c · == .eq) ++ l₂.filter (cmp c · == .eq) := by
  induction l₁ generalizing l₂ with
  | nil => rw [List.nil_merge]; rfl
  | cons a l₁ ih =>
    induction l₂ with
    | nil => rw [List.merge_right, List.filter_nil, List.append_nil]
    | cons b l₂ ihr =>
      rw [List.merge]
      split
      · rw [filter_cons_eq _ a, ih h₁.tail, filter_cons_eq _ a, List.append_assoc]
      · rename_i hab
        rw [filter_cons_eq _ b, ihr, filter_cons_eq _ b]
        split
        · -- `b` goes before `a`, so nothing that is left of it is of its class
          rename_i hcb
          have hcb : cmp c b = .eq := beq_iff_eq.mp hcb
          have hlt : cmp b a = .lt := OrientedCmp.lt_of_not_isLE hab
          have hnone : (a :: l₁).filter (cmp c · == .eq) = [] := by
            refine List.filter_eq_nil_iff.mpr fun x hx hcx => ?_
            have hax : (cmp a x).isLE := by
              rcases List.mem_cons.mp hx with rfl | hx
              · simp [ReflCmp.compare_self]
              · exact List.rel_of_pairwise_cons h₁ hx
            have hbx : cmp b x = .lt := TransCmp.lt_of_lt_of_isLE hlt hax
            have hcx' : cmp c x = .lt := TransCmp.lt_of_eq_of_lt hcb hbx
            rw [hcx'] at hcx
            cases hcx
          rw [hnone]
          rfl
        · rfl

theorem merge (h₁ : StablySorted cmp items l₁) (h₂ : StablySorted cmp others l₂) :
    StablySorted cmp (items ++ others) (l₁.merge l₂ fun a b => (cmp a b).isLE) where
  pairwise := List.pairwise_merge (fun _ _ _ => TransCmp.isLE_trans) isLE_total _ _
    h₁.pairwise h₂.pairwise
  classes c := by
    rw [filter_merge c h₁.pairwise, List.filter_append, h₁.classes, h₂.classes]

end StablySorted

/-- The standard stable sort gives it: a class is sorted, so that it stays a sublist, and no
other element is of the class. -/
theorem stablySorted_mergeSort [TransCmp cmp] (items : List α) :
    StablySorted cmp items (items.mergeSort fun a b => (cmp a b).isLE) := by
  have htrans : ∀ a b c : α, (cmp a b).isLE → (cmp b c).isLE → (cmp a c).isLE :=
    fun _ _ _ => TransCmp.isLE_trans
  refine ⟨List.pairwise_mergeSort htrans isLE_total items, fun c => ?_⟩
  have hclass : (items.filter (cmp c · == .eq)).Pairwise fun a b => (cmp a b).isLE := by
    refine List.pairwise_of_forall_mem_list fun a ha b hb => ?_
    have hca : cmp c a = .eq := beq_iff_eq.mp (List.mem_filter.mp ha).2
    have hcb : cmp c b = .eq := beq_iff_eq.mp (List.mem_filter.mp hb).2
    simp [TransCmp.eq_trans (OrientedCmp.eq_symm hca) hcb]
  have hsub := (List.sublist_mergeSort htrans isLE_total hclass List.filter_sublist).filter
    (cmp c · == .eq)
  rw [List.filter_filter] at hsub
  simp only [Bool.and_self] at hsub
  exact (hsub.eq_of_length
    ((List.mergeSort_perm items _).filter (cmp c · == .eq)).length_eq.symm).symm

end Ferrofin.Lib
