import Mathlib.Data.List.Nodup
import Ferrofin.Lib.ModifyFirst

/-!
# Counters kept true by a lookup

A list of cells, each with a key of its own and a counter; a holder takes a
mark on the first cell with `p`, which raises that counter, and gives it back
later, which lowers the counter of the first cell with `p` that is found then,
never below `0`.  `marks k` is the number of live marks of the cell `k`.

* `Counted.begin`: taking a mark keeps the counters true.
* `counted_release_iff`: when giving one back does.  It does if and only if the
  cell found then is the one the mark was taken on, or that cell is gone and the
  one found, if any, is at `0`.
-/

namespace Ferrofin.Lib

variable {α κ : Type*} {key : α → κ} {count : α → Int} {l l' : List α} {marks marks' : κ → Nat}
  {p : α → Bool} {f : α → α}

/-- Each counter is the number of live marks of its cell. -/
def Counted (key : α → κ) (count : α → Int) (l : List α) (marks : κ → Nat) : Prop :=
  ∀ a ∈ l, count a = marks (key a)

theorem counted_nil : Counted key count [] marks := fun _ ha => by cases ha

theorem Counted.sublist (h : Counted key count l marks) (hs : l'.Sublist l) :
    Counted key count l' marks := fun a ha => h a (hs.subset ha)

theorem Counted.congr (h : Counted key count l marks)
    (he : l'.map (fun a => (key a, count a)) = l.map (fun a => (key a, count a))) :
    Counted key count l' marks := by
  intro a ha
  have hmem : (key a, count a) ∈ l.map fun a => (key a, count a) := by
    rw [← he]; exact List.mem_map_of_mem ha
  obtain ⟨b, hb, hk⟩ := List.mem_map.mp hmem
  obtain ⟨hkey, hcount⟩ := Prod.mk.inj hk
  rw [← hkey, ← hcount]
  exact h b hb

/-- A new cell at `0` whose key has no mark. -/
theorem Counted.append (h : Counted key count l marks) {a : α} (hc : count a = 0)
    (hm : marks (key a) = 0) : Counted key count (l ++ [a]) marks := by
  intro b hb
  rcases List.mem_append.mp hb with hb | hb
  · exact h b hb
  · obtain rfl := List.mem_singleton.mp hb
    rw [hc, hm]; rfl

theorem counted_modifyFirst_iff {a : α} (hnd : (l.map key).Nodup) (ha : l.find? p = some a)
    (hf : key (f a) = key a) :
    Counted key count (modifyFirst p f l) marks ↔
      count (f a) = marks (key a) ∧ ∀ b ∈ l, key b ≠ key a → count b = marks (key b) := by
  obtain ⟨l₁, l₂, rfl, -, -, hm⟩ := modifyFirst_eq_append (f := f) ha
  rw [hm]
  have hkeys : ∀ b ∈ l₁ ++ l₂, key b ≠ key a := by
    rw [List.map_append, List.map_cons] at hnd
    have hnd' := (List.nodup_middle.mp hnd)
    rw [← List.map_append] at hnd'
    intro b hb he
    exact (List.nodup_cons.mp hnd').1 (he ▸ List.mem_map_of_mem hb)
  constructor
  · intro h
    refine ⟨?_, fun b hb hne => ?_⟩
    · rw [h (f a) (List.mem_append_right _ List.mem_cons_self), hf]
    · refine h b ?_
      rcases List.mem_append.mp hb with hb | hb
      · exact List.mem_append_left _ hb
      · rcases List.mem_cons.mp hb with rfl | hb
        · exact absurd rfl hne
        · exact List.mem_append_right _ (List.mem_cons_of_mem _ hb)
  · rintro ⟨hself, hothers⟩ b hb
    rcases List.mem_append.mp hb with hb | hb
    · exact hothers b (List.mem_append_left _ hb) (hkeys b (List.mem_append_left _ hb))
    · rcases List.mem_cons.mp hb with rfl | hb
      · rw [hf, hself]
      · exact hothers b (List.mem_append_right _ (List.mem_cons_of_mem _ hb))
          (hkeys b (List.mem_append_right _ hb))

theorem Counted.begin {a : α} (h : Counted key count l marks) (hnd : (l.map key).Nodup)
    (ha : l.find? p = some a) (hf : key (f a) = key a) (hc : count (f a) = count a + 1)
    (hself : marks' (key a) = marks (key a) + 1)
    (hothers : ∀ k, k ≠ key a → marks' k = marks k) :
    Counted key count (modifyFirst p f l) marks' := by
  rw [counted_modifyFirst_iff hnd ha hf]
  constructor
  · have ha' := h a (List.mem_of_find?_eq_some ha)
    omega
  · intro b hb hne
    rw [hothers _ hne]
    exact h b hb

/-- **When giving back a mark of the cell `s` keeps the counters true.** -/
theorem counted_release_iff {s : κ} (h : Counted key count l marks) (hnd : (l.map key).Nodup)
    (hf : ∀ a, key (f a) = key a) (hc : ∀ a, count (f a) = max (count a - 1) 0)
    (hself : marks s = marks' s + 1) (hothers : ∀ k, k ≠ s → marks' k = marks k) :
    Counted key count (modifyFirst p f l) marks' ↔
      (∃ a ∈ l.find? p, key a = s) ∨ (s ∉ l.map key ∧ ∀ a ∈ l.find? p, count a = 0) := by
  -- a cell with another key is true before and after; the cell `s` is not
  have hone : ∀ b ∈ l, count b = marks' (key b) ↔ key b ≠ s := by
    intro b hb
    have hb' := h b hb
    constructor
    · rintro he rfl
      omega
    · intro hne
      rw [hothers _ hne]
      exact hb'
  cases hfind : l.find? p with
  | none =>
    rw [modifyFirst_of_find?_none hfind]
    have hgone : Counted key count l marks' ↔ s ∉ l.map key := by
      refine ⟨fun h' hs => ?_, fun hs b hb => ?_⟩
      · obtain ⟨b, hb, rfl⟩ := List.mem_map.mp hs
        exact (hone b hb).mp (h' b hb) rfl
      · exact (hone b hb).mpr fun he => hs (he ▸ List.mem_map_of_mem hb)
    simpa using hgone
  | some a =>
    have hmem := List.mem_of_find?_eq_some hfind
    have ha := h a hmem
    rw [counted_modifyFirst_iff hnd hfind (hf a), hc a]
    by_cases hs : key a = s
    · -- the mark is the found cell's own
      have hothers' : ∀ b ∈ l, key b ≠ key a → count b = marks' (key b) := fun b hb hne =>
        (hone b hb).mpr (hs ▸ hne)
      have hcount : max (count a - 1) 0 = marks' (key a) := by
        rw [hs] at ha ⊢; omega
      simp only [Option.mem_some_iff, exists_eq_left', hs, true_or, iff_true]
      exact ⟨hs ▸ hcount, hs ▸ hothers'⟩
    · -- another cell is found: it must be at `0`, and `s` gone
      have hcount : max (count a - 1) 0 = marks' (key a) ↔ count a = 0 := by
        rw [hothers _ hs]; omega
      have hrest : (∀ b ∈ l, key b ≠ key a → count b = marks' (key b)) ↔ s ∉ l.map key := by
        refine ⟨fun hall hin => ?_, fun hs' b hb _ => ?_⟩
        · obtain ⟨b, hb, rfl⟩ := List.mem_map.mp hin
          exact (hone b hb).mp (hall b hb (Ne.symm hs)) rfl
        · exact (hone b hb).mpr fun he => hs' (he ▸ List.mem_map_of_mem hb)
      rw [hcount, hrest, and_comm]
      simp [hs]

end Ferrofin.Lib
