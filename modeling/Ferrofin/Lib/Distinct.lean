import Mathlib.Data.List.Nodup

/-!
# Keeping the first of each key

`distinctBy key l` keeps the elements of a list whose key no earlier element has, as a program does
that filters a sequence by `seen.insert(key)`.  It splits over an append (`distinctFrom_append`),
so a list to which elements of known keys come is not changed (`distinctBy_append_of_subset`), and
coming again changes nothing (`distinctBy_append_distinctBy`).
-/

namespace Ferrofin.Lib

open List (map_cons mem_cons)

variable {α κ : Type*} [DecidableEq κ] (key : α → κ)

def distinctFrom (seen : List κ) : List α → List α
  | [] => []
  | a :: l =>
    if key a ∈ seen then distinctFrom seen l else a :: distinctFrom (key a :: seen) l

def distinctBy (l : List α) : List α := distinctFrom key [] l

variable {key} {seen seen' : List κ} {a b l : List α} {k : κ}

theorem distinctFrom_congr (h : ∀ k, k ∈ seen ↔ k ∈ seen') :
    distinctFrom key seen l = distinctFrom key seen' l := by
  induction l generalizing seen seen' with
  | nil => rfl
  | cons x l ih =>
    have hcons : ∀ k, k ∈ key x :: seen ↔ k ∈ key x :: seen' := fun k => by
      simp only [mem_cons, h]
    rw [distinctFrom, distinctFrom, ih h, ih hcons]
    simp only [h]

theorem distinctFrom_append : distinctFrom key seen (a ++ b) =
    distinctFrom key seen a ++ distinctFrom key (seen ++ a.map key) b := by
  induction a generalizing seen with
  | nil => rw [List.nil_append, List.map_nil, List.append_nil, distinctFrom, List.nil_append]
  | cons x a ih =>
    rw [List.cons_append, distinctFrom, distinctFrom, map_cons]
    split
    · next hx =>
      rw [ih]
      congr 1
      refine distinctFrom_congr fun k => ?_
      simp only [List.mem_append, mem_cons]
      grind
    · rw [ih, List.cons_append]
      congr 2
      refine distinctFrom_congr fun k => ?_
      simp only [List.mem_append, mem_cons]
      grind

theorem mem_map_distinctFrom :
    k ∈ (distinctFrom key seen l).map key ↔ k ∈ l.map key ∧ k ∉ seen := by
  induction l generalizing seen with
  | nil => simp [distinctFrom]
  | cons x l ih =>
    rw [distinctFrom]
    split
    · next hx =>
      rw [ih, map_cons, mem_cons]
      grind
    · next hx =>
      rw [map_cons, mem_cons, ih, map_cons, mem_cons, mem_cons]
      grind

theorem mem_of_mem_distinctFrom {x : α} (h : x ∈ distinctFrom key seen l) : x ∈ l := by
  induction l generalizing seen with
  | nil => exact h
  | cons y l ih =>
    rw [distinctFrom] at h
    split at h
    · exact List.mem_cons_of_mem _ (ih h)
    · rcases mem_cons.mp h with rfl | h
      · exact List.mem_cons_self
      · exact List.mem_cons_of_mem _ (ih h)

theorem nodup_distinctFrom : ((distinctFrom key seen l).map key).Nodup := by
  induction l generalizing seen with
  | nil => exact List.nodup_nil
  | cons x l ih =>
    rw [distinctFrom]
    split
    · exact ih
    · rw [map_cons, List.nodup_cons, mem_map_distinctFrom]
      exact ⟨fun h => h.2 List.mem_cons_self, ih⟩

theorem distinctFrom_eq_self (h : (l.map key).Nodup) (hnew : ∀ x ∈ l, key x ∉ seen) :
    distinctFrom key seen l = l := by
  induction l generalizing seen with
  | nil => rfl
  | cons x l ih =>
    rw [map_cons, List.nodup_cons] at h
    rw [distinctFrom, if_neg (hnew x List.mem_cons_self), ih h.2 fun y hy => ?_]
    rw [mem_cons, not_or]
    exact ⟨fun heq => h.1 (heq ▸ List.mem_map_of_mem hy), hnew y (List.mem_cons_of_mem _ hy)⟩

theorem distinctFrom_eq_nil (h : ∀ x ∈ l, key x ∈ seen) : distinctFrom key seen l = [] := by
  rw [← List.map_eq_nil_iff (f := key), List.eq_nil_iff_forall_not_mem]
  intro k hk
  obtain ⟨hmem, hnew⟩ := mem_map_distinctFrom.mp hk
  obtain ⟨x, hx, rfl⟩ := List.mem_map.mp hmem
  exact hnew (h x hx)

theorem mem_map_distinctBy : k ∈ (distinctBy key l).map key ↔ k ∈ l.map key := by
  rw [distinctBy, mem_map_distinctFrom]
  exact and_iff_left List.not_mem_nil

theorem nodup_distinctBy : ((distinctBy key l).map key).Nodup := nodup_distinctFrom

theorem distinctBy_eq_self_iff : distinctBy key l = l ↔ (l.map key).Nodup :=
  ⟨fun h => h ▸ nodup_distinctBy, fun h => distinctFrom_eq_self h fun _ _ => List.not_mem_nil⟩

theorem distinctBy_prefix : distinctBy key a <+: distinctBy key (a ++ b) := by
  rw [distinctBy, distinctBy, distinctFrom_append]
  exact List.prefix_append _ _

theorem distinctBy_append_of_subset (h : ∀ x ∈ b, key x ∈ a.map key) :
    distinctBy key (a ++ b) = distinctBy key a := by
  have hnil : distinctFrom key ([] ++ a.map key) b = [] := distinctFrom_eq_nil h
  rw [distinctBy, distinctFrom_append, hnil, List.append_nil]
  rfl

theorem distinctBy_append_distinctBy :
    distinctBy key (a ++ distinctBy key (a ++ b)) = distinctBy key (a ++ b) := by
  have hkeys : ∀ x ∈ distinctFrom key [] a, key x ∈ [] ++ a.map key := fun x hx =>
    List.mem_map_of_mem (mem_of_mem_distinctFrom hx)
  have hrest : distinctFrom key ([] ++ a.map key ++ (distinctFrom key [] a).map key)
      (distinctFrom key ([] ++ a.map key) b) = distinctFrom key ([] ++ a.map key) b := by
    refine distinctFrom_eq_self nodup_distinctFrom fun x hx => ?_
    have hx' := (mem_map_distinctFrom.mp (List.mem_map_of_mem (f := key) hx)).2
    rw [List.mem_append, not_or]
    refine ⟨hx', fun hmem => hx' ?_⟩
    obtain ⟨y, hy, hkey⟩ := List.mem_map.mp hmem
    exact hkey ▸ hkeys y hy
  calc distinctBy key (a ++ distinctBy key (a ++ b))
      = distinctFrom key [] a ++ (distinctFrom key ([] ++ a.map key) (distinctFrom key [] a) ++
          distinctFrom key ([] ++ a.map key ++ (distinctFrom key [] a).map key)
            (distinctFrom key ([] ++ a.map key) b)) := by
        rw [distinctBy, distinctFrom_append, distinctBy, distinctFrom_append, distinctFrom_append]
    _ = distinctFrom key [] a ++ distinctFrom key ([] ++ a.map key) b := by
        rw [distinctFrom_eq_nil hkeys, List.nil_append, hrest]
    _ = distinctBy key (a ++ b) := by rw [distinctBy, distinctFrom_append]

end Ferrofin.Lib
