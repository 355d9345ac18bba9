import Mathlib.Data.List.GetD
import Ferrofin.Lib.Fallible
import Ferrofin.Lib.StableSorting

/-!
# A stable sort for any comparer

`stable_sort_by` of `ferrofin-util`: a merge sort over the positions of the items, by a comparer
that keeps a state of its own and need not be an order.  `none` is a panic.
-/

namespace Ferrofin.Util

open Lib Std
open List (mem_cons_of_mem mem_cons_self mem_of_mem_drop mem_of_mem_take mem_range)

variable {α σ : Type}

/-- The loop of `merge_sort`: the right-hand item is next where the left-hand one is greater. -/
def mergeRuns (compare : α → α → StateT σ Option Ordering) :
    List α → List α → StateT σ Option (List α)
  | l :: left, r :: right => do
    if (← compare l r) = .gt then
      return r :: (← mergeRuns compare (l :: left) right)
    else
      return l :: (← mergeRuns compare left (r :: right))
  | l :: left, [] => return l :: (← mergeRuns compare left [])
  | [], r :: right => return r :: (← mergeRuns compare [] right)
  | [], [] => return []
termination_by left right => left.length + right.length

def mergeSort (compare : α → α → StateT σ Option Ordering) (items : List α) :
    StateT σ Option (List α) :=
  if items.length ≤ 1 then return items
  else do
    let left ← mergeSort compare (items.take (items.length / 2))
    let right ← mergeSort compare (items.drop (items.length / 2))
    mergeRuns compare left right
termination_by items.length
decreasing_by all_goals simp only [List.length_take, List.length_drop]; omega

/-- The comparer of `stable_sort_by`, on positions. -/
def comparePositions (compare : α → α → StateM σ Ordering) (items : List α) (a b : Nat) :
    StateT σ Option Ordering := fun s => do
  let x ← items[a]?
  let y ← items[b]?
  return (compare x y).run s

def takeSlots : List Nat → List (Option α) → Option (List α)
  | [], _ => return []
  | position :: order, slots => do
    let slot ← slots[position]?
    return slot.toList ++ (← takeSlots order (slots.set position none))

def stableSortBy (compare : α → α → StateM σ Ordering) (items : List α) :
    StateT σ Option (List α) :=
  if items.length < 2 then return items
  else do
    let order ← mergeSort (comparePositions compare items) (List.range items.length)
    StateT.lift (takeSlots order (items.map some))

/-! ### Any comparer -/

variable {compare : α → α → StateT σ Option Ordering} {items left right : List α}

theorem mergeRuns_perm
    (hcompare : ∀ a ∈ left, ∀ b ∈ right, EndsIn (fun _ => True) (compare a b)) :
    EndsIn (fun merged => merged.Perm (left ++ right)) (mergeRuns compare left right) := by
  induction left, right using mergeRuns.induct with
  | case1 l left r right ih₁ ih₂ =>
    rw [mergeRuns]
    refine (hcompare l (mem_cons_self ..) r (mem_cons_self ..)).bind fun o _ => ?_
    split
    · refine (ih₁ fun a ha b hb => hcompare a ha b (mem_cons_of_mem _ hb)).bind fun m hm => ?_
      exact EndsIn.pure ((hm.cons r).trans List.perm_middle.symm)
    · refine (ih₂ fun a ha => hcompare a (mem_cons_of_mem _ ha)).bind fun m hm => ?_
      exact EndsIn.pure (hm.cons l)
  | case2 l left ih =>
    rw [mergeRuns]
    refine (ih fun a ha => hcompare a (mem_cons_of_mem _ ha)).bind fun m hm => ?_
    exact EndsIn.pure (hm.cons l)
  | case3 r right ih =>
    rw [mergeRuns]
    refine (ih fun a ha => absurd ha List.not_mem_nil).bind fun m hm => ?_
    exact EndsIn.pure (hm.cons r)
  | case4 =>
    rw [mergeRuns]
    exact EndsIn.pure (List.Perm.refl _)

theorem mergeSort_perm
    (hcompare : ∀ a ∈ items, ∀ b ∈ items, EndsIn (fun _ => True) (compare a b)) :
    EndsIn (fun sorted => sorted.Perm items) (mergeSort compare items) := by
  induction items using mergeSort.induct with
  | case1 items h =>
    rw [mergeSort, if_pos h]
    exact EndsIn.pure (List.Perm.refl _)
  | case2 items h ih₁ ih₂ =>
    rw [mergeSort, if_neg h]
    refine (ih₁ fun a ha b hb => hcompare a (mem_of_mem_take ha) b
      (mem_of_mem_take hb)).bind fun left hleft => ?_
    refine (ih₂ fun a ha b hb => hcompare a (mem_of_mem_drop ha) b
      (mem_of_mem_drop hb)).bind fun right hright => ?_
    refine (mergeRuns_perm fun a ha b hb => hcompare a
      (mem_of_mem_take (hleft.mem_iff.mp ha)) b
      (mem_of_mem_drop (hright.mem_iff.mp hb))).imp fun merged hmerged => ?_
    have hsplit := hmerged.trans (hleft.append hright)
    rwa [List.take_append_drop] at hsplit

/-! ### The positions -/

/-- Positions that are in range and differ empty their slots one by one. -/
theorem takeSlots_eq {order : List Nat} {slots : List (Option α)} {f : Nat → α}
    (hslots : ∀ position ∈ order, slots[position]? = some (some (f position)))
    (hnodup : order.Nodup) : takeSlots order slots = some (order.map f) := by
  induction order generalizing slots with
  | nil => rfl
  | cons position order ih =>
    have hrest : ∀ p ∈ order, (slots.set position none)[p]? = some (some (f p)) := by
      intro p hp
      have hne : position ≠ p := fun h => (List.nodup_cons.mp hnodup).1 (h ▸ hp)
      rw [List.getElem?_set_ne hne]
      exact hslots p (mem_cons_of_mem _ hp)
    rw [takeSlots, hslots position (mem_cons_self ..),
      ih hrest (List.nodup_cons.mp hnodup).2]
    rfl

variable {ask : α → α → StateM σ Ordering}

theorem map_getD_range (items : List α) (x₀ : α) :
    (List.range items.length).map (items.getD · x₀) = items := by
  refine List.ext_getElem (by simp) fun i _ hi => ?_
  rw [List.getElem_map, List.getElem_range, List.getD_eq_getElem _ _ hi]

theorem comparePositions_endsIn {P : Ordering → Prop} {a b : Nat} (ha : a < items.length)
    (hb : b < items.length) (h : ∀ s, P ((ask items[a] items[b]).run s).1) :
    EndsIn P (comparePositions ask items a b) := by
  intro s
  refine ⟨_, ((ask items[a] items[b]).run s).2, ?_, h s⟩
  simp only [comparePositions, StateT.run, List.getElem?_eq_getElem ha,
    List.getElem?_eq_getElem hb]
  rfl

/-- What holds of the order that the positions are put in holds of the items moved there. -/
theorem stableSortBy_endsIn {P : List Nat → Prop} (x₀ : α) (hlength : ¬ items.length < 2)
    (horder : EndsIn (fun order => order.Perm (List.range items.length) ∧ P order)
      (mergeSort (comparePositions ask items) (List.range items.length))) :
    EndsIn (fun sorted => ∃ order, order.Perm (List.range items.length) ∧ P order ∧
      sorted = order.map (items.getD · x₀)) (stableSortBy ask items) := by
  rw [stableSortBy, if_neg hlength]
  refine horder.bind fun order ⟨hperm, hP⟩ => ?_
  have hslots : ∀ position ∈ order,
      (items.map some)[position]? = some (some (items.getD position x₀)) := by
    intro position hmem
    have hlt := mem_range.mp (hperm.mem_iff.mp hmem)
    rw [List.getElem?_map, List.getElem?_eq_getElem hlt, List.getD_eq_getElem _ _ hlt]
    rfl
  rw [takeSlots_eq hslots (hperm.nodup_iff.mpr List.nodup_range)]
  exact fun s => ⟨_, s, rfl, order, hperm, hP, rfl⟩

theorem positions_perm (ask : α → α → StateM σ Ordering) (items : List α) :
    EndsIn (fun order => order.Perm (List.range items.length))
      (mergeSort (comparePositions ask items) (List.range items.length)) :=
  mergeSort_perm fun _ ha _ hb => comparePositions_endsIn (mem_range.mp ha)
    (mem_range.mp hb) fun _ => trivial

theorem stableSortBy_perm (ask : α → α → StateM σ Ordering) (items : List α) :
    EndsIn (fun sorted => sorted.Perm items) (stableSortBy ask items) := by
  by_cases hlength : items.length < 2
  · rw [stableSortBy, if_pos hlength]
    exact EndsIn.pure (List.Perm.refl _)
  · cases items with
    | nil => exact absurd Nat.zero_lt_two hlength
    | cons x₀ items =>
      have horder := positions_perm ask (x₀ :: items)
      refine (stableSortBy_endsIn x₀ hlength (horder.and horder)).imp fun sorted h => ?_
      obtain ⟨order, hperm, -, rfl⟩ := h
      have hmap := hperm.map ((x₀ :: items).getD · x₀)
      rwa [map_getD_range] at hmap

/-! ### A total preorder -/

variable {cmp : α → α → Ordering}

theorem mergeRuns_eq (hcompare : ∀ a ∈ left, ∀ b ∈ right, EndsIn (· = cmp a b) (compare a b)) :
    EndsIn (· = left.merge right fun a b => (cmp a b).isLE) (mergeRuns compare left right) := by
  induction left, right using mergeRuns.induct with
  | case1 l left r right ih₁ ih₂ =>
    rw [mergeRuns, List.merge]
    refine (hcompare l (mem_cons_self ..) r (mem_cons_self ..)).bind fun o ho => ?_
    by_cases hgt : o = .gt
    · have hle : ¬ (cmp l r).isLE := by rw [← ho, hgt]; decide
      rw [if_pos hgt, if_neg hle]
      refine (ih₁ fun a ha b hb => hcompare a ha b (mem_cons_of_mem _ hb)).bind fun m hm => ?_
      exact EndsIn.pure (congrArg (r :: ·) hm)
    · have hle : (cmp l r).isLE := by
        rw [← ho]
        cases o with
        | lt | eq => rfl
        | gt => exact absurd rfl hgt
      rw [if_neg hgt, if_pos hle]
      refine (ih₂ fun a ha => hcompare a (mem_cons_of_mem _ ha)).bind fun m hm => ?_
      exact EndsIn.pure (congrArg (l :: ·) hm)
  | case2 l left ih =>
    rw [mergeRuns, List.merge_right]
    refine (ih fun a ha => hcompare a (mem_cons_of_mem _ ha)).bind fun m hm => ?_
    rw [List.merge_right] at hm
    exact EndsIn.pure (congrArg (l :: ·) hm)
  | case3 r right ih =>
    rw [mergeRuns, List.nil_merge]
    refine (ih fun a ha => absurd ha List.not_mem_nil).bind fun m hm => ?_
    rw [List.nil_merge] at hm
    exact EndsIn.pure (congrArg (r :: ·) hm)
  | case4 =>
    rw [mergeRuns, List.merge_right]
    exact EndsIn.pure rfl

theorem mergeSort_stablySorted [TransCmp cmp]
    (hcompare : ∀ a ∈ items, ∀ b ∈ items, EndsIn (· = cmp a b) (compare a b)) :
    EndsIn (StablySorted cmp items) (mergeSort compare items) := by
  induction items using mergeSort.induct with
  | case1 items h =>
    rw [mergeSort, if_pos h]
    exact EndsIn.pure (.of_length_le_one h)
  | case2 items h ih₁ ih₂ =>
    rw [mergeSort, if_neg h]
    refine (ih₁ fun a ha b hb => hcompare a (mem_of_mem_take ha) b
      (mem_of_mem_take hb)).bind fun left hleft => ?_
    refine (ih₂ fun a ha b hb => hcompare a (mem_of_mem_drop ha) b
      (mem_of_mem_drop hb)).bind fun right hright => ?_
    refine (mergeRuns_eq fun a ha b hb => hcompare a
      (mem_of_mem_take (hleft.mem_iff.mp ha)) b
      (mem_of_mem_drop (hright.mem_iff.mp hb))).imp fun merged hmerged => ?_
    have hboth := hleft.merge hright
    rw [List.take_append_drop] at hboth
    rwa [hmerged]

theorem stableSortBy_eq_mergeSort [TransCmp cmp] (hcmp : ∀ a b s, ((ask a b).run s).1 = cmp a b)
    (items : List α) :
    EndsIn (· = items.mergeSort fun a b => (cmp a b).isLE) (stableSortBy ask items) := by
  by_cases hlength : items.length < 2
  · rw [stableSortBy, if_pos hlength]
    exact EndsIn.pure ((StablySorted.of_length_le_one (by omega)).unique
      (@stablySorted_mergeSort _ cmp _ items))
  · cases items with
    | nil => exact absurd Nat.zero_lt_two hlength
    | cons x₀ items =>
      let f : Nat → α := fun p => (x₀ :: items).getD p x₀
      have htrans : TransCmp fun a b => cmp (f a) (f b) :=
        { eq_swap := OrientedCmp.eq_swap, isLE_trans := TransCmp.isLE_trans }
      have hsorted : EndsIn (StablySorted (fun a b => cmp (f a) (f b)) _)
          (mergeSort (comparePositions ask (x₀ :: items)) (List.range (x₀ :: items).length)) :=
        mergeSort_stablySorted fun a ha b hb => by
          refine comparePositions_endsIn (mem_range.mp ha) (mem_range.mp hb) fun s => ?_
          rw [hcmp, ← List.getD_eq_getElem _ x₀ (mem_range.mp ha),
            ← List.getD_eq_getElem _ x₀ (mem_range.mp hb)]
      have horder := (positions_perm ask _).and hsorted
      refine (stableSortBy_endsIn x₀ hlength horder).imp fun sorted h => ?_
      obtain ⟨order, -, horder, rfl⟩ := h
      rw [horder.unique (stablySorted_mergeSort _)]
      have hmap : List.map f _ = List.mergeSort _ fun a b => (cmp a b).isLE :=
        List.map_mergeSort (l := List.range (x₀ :: items).length) fun a _ b _ =>
          Eq.refl ((cmp (f a) (f b)).isLE)
      have hitems : (List.range (x₀ :: items).length).map f = x₀ :: items :=
        map_getD_range (x₀ :: items) x₀
      rwa [hitems] at hmap

/-- **A stable sort for any comparer**: it does not panic and keeps every item once, however the
comparer answers; and where the answers are those of a total preorder, the items come out sorted,
equal ones in the order they were in, as from the standard stable sort. -/
theorem stable_sort (ask : α → α → StateM σ Ordering) (items : List α) :
    EndsIn (fun sorted => sorted.Perm items) (stableSortBy ask items) ∧
      ∀ cmp : α → α → Ordering, TransCmp cmp → (∀ a b s, ((ask a b).run s).1 = cmp a b) →
        EndsIn (fun sorted => StablySorted cmp items sorted ∧
          sorted = items.mergeSort fun a b => (cmp a b).isLE) (stableSortBy ask items) := by
  refine ⟨stableSortBy_perm ask items, fun cmp _ hcmp => ?_⟩
  refine (stableSortBy_eq_mergeSort hcmp items).imp fun sorted h => ⟨?_, h⟩
  rw [h]
  exact stablySorted_mergeSort items

/-- Ties keep their order under a comparer that counts its calls. -/
theorem stable_sort_ties :
    EndsIn (fun sorted => StablySorted (fun a b => Ord.compare a.1 b.1)
        [(2, 'a'), (1, 'b'), (2, 'c'), (1, 'd')] sorted ∧
      sorted = [(2, 'a'), (1, 'b'), (2, 'c'), (1, 'd')].mergeSort fun a b =>
        (Ord.compare a.1 b.1).isLE)
      (stableSortBy (fun (a b : Nat × Char) (calls : Nat) => (Ord.compare a.1 b.1, calls + 1))
        [(2, 'a'), (1, 'b'), (2, 'c'), (1, 'd')]) :=
  (stable_sort (fun (a b : Nat × Char) (calls : Nat) => (Ord.compare a.1 b.1, calls + 1))
    [(2, 'a'), (1, 'b'), (2, 'c'), (1, 'd')]).2 (fun a b => Ord.compare a.1 b.1)
    { eq_swap := OrientedCmp.eq_swap, isLE_trans := TransCmp.isLE_trans } fun _ _ _ => rfl

end Ferrofin.Util
