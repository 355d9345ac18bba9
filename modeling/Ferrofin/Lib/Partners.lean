import Mathlib.Data.List.Forall2

/-!
# Enriching a list from another one

Each element of a list takes what it lacks from its partner in another list: the element of the
same key at the same place among those of its key, or the first one of its key (`enrichBy`).  What
an element takes is an operation `op`; where that is associative and idempotent and keeps keys, a
list that was enriched is a fixed point: enriching again from the same list (`enrichBy_again`), or
from the list that the enriched one enriched (`enrichBy_enrichBy`), changes nothing.

The elements of a key are enriched on their own (`ofKey_enrichBy`), and lists with the same keys
are equal when they agree on each key (`eq_of_ofKey_eq`).
-/

namespace Ferrofin.Lib

open Option (elim_some map_none map_some none_or some_or)

variable {α κ : Type*} [DecidableEq κ] (key : α → κ) (op : α → α → α)

def ofKey (k : κ) (l : List α) : List α := l.filter fun a => decide (key a = k)

/-- The partner at a place: the element there, or the first one. -/
def partner (source : List α) (i : ℕ) : Option α := source[i]?.or source.head?

def enrichAt (source : List α) (i : ℕ) (a : α) : α := (partner source i).elim a (op a)

def enrichFrom (source : List α) (seen : List κ) : List α → List α
  | [] => []
  | a :: l =>
    enrichAt op (ofKey key (key a) source) (seen.count (key a)) a ::
      enrichFrom source (seen ++ [key a]) l

def enrichBy (source target : List α) : List α := enrichFrom key op source [] target

/-- The elements of one key, from a place on, enriched. -/
def enrichAll (source : List α) (start : ℕ) : List α → List α
  | [] => []
  | a :: l => enrichAt op source start a :: enrichAll source (start + 1) l

variable {key op} {source target l l' : List α} {a : α} {k : κ}

theorem mem_of_partner {i : ℕ} (h : partner source i = some a) : a ∈ source := by
  rcases Option.or_eq_some_iff.mp h with h | ⟨-, h⟩
  · exact List.mem_of_getElem? h
  · exact List.mem_of_head? h

theorem ofKey_cons_pos (h : key a = k) (l : List α) : ofKey key k (a :: l) = a :: ofKey key k l :=
  List.filter_cons_of_pos (decide_eq_true h)

theorem ofKey_cons_neg (h : key a ≠ k) (l : List α) : ofKey key k (a :: l) = ofKey key k l :=
  List.filter_cons_of_neg (by simpa using h)

theorem eq_of_ofKey_eq (hkeys : l.map key = l'.map key)
    (h : ∀ k, ofKey key k l = ofKey key k l') : l = l' := by
  induction l generalizing l' with
  | nil => exact (List.map_eq_nil_iff.mp hkeys.symm).symm
  | cons a l ih =>
    obtain _ | ⟨a', l'⟩ := l'
    · cases hkeys
    · rw [List.map_cons, List.map_cons, List.cons.injEq] at hkeys
      have ha := h (key a)
      rw [ofKey_cons_pos rfl, ofKey_cons_pos hkeys.1.symm, List.cons.injEq] at ha
      obtain ⟨rfl, -⟩ := ha
      refine congrArg (a :: ·) (ih hkeys.2 fun k => ?_)
      have hk := h k
      by_cases hak : key a = k
      · rwa [ofKey_cons_pos hak, ofKey_cons_pos hak, List.cons.injEq, eq_self, true_and] at hk
      · rwa [ofKey_cons_neg hak, ofKey_cons_neg hak] at hk

/-! ### The elements of a key -/

omit [DecidableEq κ] in
theorem key_enrichAt (hkey : ∀ a b, key (op a b) = key a) (source : List α) (i : ℕ)
    (a : α) : key (enrichAt op source i a) = key a := by
  rw [enrichAt]
  rcases partner source i with _ | b
  · rfl
  · exact hkey a b

section Keys

variable (hkey : ∀ a b, key (op a b) = key a)

include hkey

theorem map_key_enrichFrom (source : List α) (seen : List κ) (l : List α) :
    (enrichFrom key op source seen l).map key = l.map key := by
  induction l generalizing seen with
  | nil => rfl
  | cons a l ih => rw [enrichFrom, List.map_cons, List.map_cons, key_enrichAt hkey, ih]

theorem map_key_enrichBy (source target : List α) :
    (enrichBy key op source target).map key = target.map key :=
  map_key_enrichFrom hkey source [] target

theorem ofKey_enrichFrom (source : List α) (seen : List κ) (l : List α) (k : κ) :
    ofKey key k (enrichFrom key op source seen l) =
      enrichAll op (ofKey key k source) (seen.count k) (ofKey key k l) := by
  induction l generalizing seen with
  | nil => rfl
  | cons a l ih =>
    have hsame := key_enrichAt hkey (ofKey key (key a) source) (seen.count (key a)) a
    rw [enrichFrom]
    by_cases hk : key a = k
    · subst hk
      rw [ofKey_cons_pos hsame, ofKey_cons_pos rfl, enrichAll, ih, List.count_append,
        List.count_singleton_self]
    · rw [ofKey_cons_neg (by rwa [hsame]), ofKey_cons_neg hk, ih, List.count_append,
        List.count_singleton, if_neg (by simpa using hk), Nat.add_zero]

theorem ofKey_enrichBy (source target : List α) (k : κ) :
    ofKey key k (enrichBy key op source target) =
      enrichAll op (ofKey key k source) 0 (ofKey key k target) := by
  rw [enrichBy, ofKey_enrichFrom hkey, List.count_nil]

end Keys

theorem getElem?_enrichAll (source : List α) (start : ℕ) (l : List α) (i : ℕ) :
    (enrichAll op source start l)[i]? = l[i]?.map (enrichAt op source (start + i)) := by
  induction l generalizing start i with
  | nil => rfl
  | cons a l ih =>
    rw [enrichAll]
    cases i with
    | zero => rfl
    | succ i =>
      rw [List.getElem?_cons_succ, List.getElem?_cons_succ, ih, Nat.add_right_comm]
      rfl

/-- An element is what it was or has taken something, one after another. -/
theorem forall₂_enrichBy {R : α → α → Prop} (hself : ∀ a, R a a) (hop : ∀ a b, R a (op a b))
    (source target : List α) : List.Forall₂ R target (enrichBy key op source target) := by
  have hfrom : ∀ seen, List.Forall₂ R target (enrichFrom key op source seen target) := by
    induction target with
    | nil => exact fun _ => .nil
    | cons a target ih =>
      intro seen
      refine .cons ?_ (ih _)
      rw [enrichAt]
      cases partner (ofKey key (key a) source) (seen.count (key a)) with
      | none => exact hself a
      | some b => exact hop a b
  exact hfrom []

/-- What holds of all elements, and of what they become, holds of the enriched ones. -/
theorem forall_mem_enrichBy {P : α → Prop} (hsource : ∀ a ∈ source, P a)
    (htarget : ∀ a ∈ target, P a) (hop : ∀ a b, P a → P b → P (op a b)) :
    ∀ a ∈ enrichBy key op source target, P a := by
  rw [enrichBy]
  generalize ([] : List κ) = seen
  induction target generalizing seen with
  | nil => exact fun _ ha => absurd ha List.not_mem_nil
  | cons x l ih =>
    obtain ⟨hx, hl⟩ := List.forall_mem_cons.mp htarget
    refine List.forall_mem_cons.mpr ⟨?_, ih hl _⟩
    rw [enrichAt]
    rcases hpartner : partner (ofKey key (key x) source) (seen.count (key x)) with _ | b
    · exact hx
    · exact hop x b hx (hsource b (List.mem_filter.mp (mem_of_partner hpartner)).1)

theorem partner_of_getElem? {i : ℕ} (h : l[i]? = some a) : partner l i = some a := by
  rw [partner, h, some_or]

theorem partner_enrichAll (source l : List α) (i : ℕ) :
    partner (enrichAll op source 0 l) i =
      (l[i]?.map (enrichAt op source i)).or (l[0]?.map (enrichAt op source 0)) := by
  rw [partner, getElem?_enrichAll, List.head?_eq_getElem?, getElem?_enrichAll, Nat.zero_add]

/-! ### Fixed points -/

section Band

variable (hassoc : ∀ a b c, op (op a b) c = op a (op b c)) (hidem : ∀ a, op a a = a)

include hassoc hidem

theorem op_again (a b : α) : op (op a b) b = op a b := by rw [hassoc, hidem]

theorem op_left (a b : α) : op a (op a b) = op a b := by rw [← hassoc, hidem]

theorem enrichAll_again (source l : List α) :
    enrichAll op source 0 (enrichAll op source 0 l) = enrichAll op source 0 l := by
  refine List.ext_getElem? fun i => ?_
  rw [getElem?_enrichAll, getElem?_enrichAll, Option.map_map]
  refine congrArg (l[i]?.map ·) (funext fun a => ?_)
  rw [Function.comp_apply, enrichAt, enrichAt]
  rcases partner source (0 + i) with _ | b
  · rfl
  · exact op_again hassoc hidem a b

theorem enrichAll_self (source l : List α) :
    enrichAll op (enrichAll op source 0 l) 0 l = enrichAll op source 0 l := by
  refine List.ext_getElem? fun i => ?_
  rw [getElem?_enrichAll, getElem?_enrichAll, Nat.zero_add]
  rcases hi : l[i]? with _ | a
  · rfl
  · rw [map_some, map_some, enrichAt, partner_enrichAll, hi, map_some,
      some_or, elim_some, enrichAt]
    rcases partner source i with _ | b
    · exact congrArg some (hidem a)
    · exact congrArg some (op_left hassoc hidem a b)

/-- With `F` what a list becomes from those that it enriched, `F` is not changed by those that it
enriches. -/
theorem enrichAll_enrichAll (source l : List α) :
    enrichAll op (enrichAll op (enrichAll op (enrichAll op l 0 source) 0 l) 0 source) 0
        (enrichAll op (enrichAll op l 0 source) 0 l) =
      enrichAll op (enrichAll op l 0 source) 0 l := by
  generalize hF : enrichAll op (enrichAll op l 0 source) 0 l = F
  have hget : ∀ i, F[i]? = l[i]?.map (enrichAt op (enrichAll op l 0 source) i) := fun i => by
    rw [← hF, getElem?_enrichAll, Nat.zero_add]
  refine List.ext_getElem? fun i => ?_
  rw [getElem?_enrichAll, Nat.zero_add]
  rcases hb : l[i]? with _ | b
  · rw [hget, hb]
    rfl
  -- where both lists have an element at the place of the partner
  have hpartner : ∀ (i : ℕ) (a b : α), source[i]? = some a → l[i]? = some b →
      enrichAt op l i a = op a b ∧ F[i]? = some (op b (op a b)) := by
    intro i a b ha hb
    have he : enrichAt op l i a = op a b := by
      rw [enrichAt, partner_of_getElem? hb, elim_some]
    refine ⟨he, ?_⟩
    rw [hget, hb, map_some, enrichAt, partner_enrichAll, ha, map_some,
      some_or, elim_some, he]
  rw [hget, hb, map_some, map_some]
  refine congrArg some ?_
  rcases ha : source[i]? with _ | a
  · rcases ha₀ : source[0]? with _ | a₀
    · rw [enrichAt, partner_enrichAll, ha, ha₀]
      rfl
    · obtain ⟨b₀, hb₀⟩ : ∃ b₀, l[0]? = some b₀ := by
        refine ⟨_, List.getElem?_eq_getElem ?_⟩
        exact Nat.lt_of_le_of_lt (Nat.zero_le i) (List.getElem?_eq_some_iff.mp hb).1
      obtain ⟨he, hf⟩ := hpartner 0 a₀ b₀ ha₀ hb₀
      have hfi : enrichAt op (enrichAll op l 0 source) i b = op b (op a₀ b₀) := by
        rw [enrichAt, partner_enrichAll, ha, ha₀, map_none, none_or,
          map_some, elim_some, he]
      rw [hfi, enrichAt, partner_enrichAll, ha, ha₀, map_none, none_or,
        map_some, elim_some, enrichAt, partner_of_getElem? hf, elim_some]
      calc op (op b (op a₀ b₀)) (op a₀ (op b₀ (op a₀ b₀)))
          = op b (op (op a₀ b₀) (op (op a₀ b₀) (op a₀ b₀))) := by simp only [hassoc]
        _ = op b (op a₀ b₀) := by rw [hidem, hidem]
  · obtain ⟨he, hf⟩ := hpartner i a b ha hb
    have hfi : enrichAt op (enrichAll op l 0 source) i b = op b (op a b) := by
      rw [enrichAt, partner_enrichAll, ha, map_some, some_or, elim_some, he]
    rw [hfi, enrichAt, partner_enrichAll, ha, map_some, some_or, elim_some,
      enrichAt, partner_of_getElem? hf, elim_some]
    calc op (op b (op a b)) (op a (op b (op a b)))
        = op (op b a) (op (op b a) (op (op b a) b)) := by simp only [hassoc]
      _ = op b (op a b) := by
        rw [op_left hassoc hidem, op_left hassoc hidem, hassoc]

variable (hkey : ∀ a b, key (op a b) = key a)

include hkey

theorem enrichBy_again (source target : List α) :
    enrichBy key op source (enrichBy key op source target) = enrichBy key op source target := by
  refine eq_of_ofKey_eq (map_key_enrichBy hkey _ _) fun k => ?_
  rw [ofKey_enrichBy hkey, ofKey_enrichBy hkey, enrichAll_again hassoc hidem]

theorem enrichBy_self (source target : List α) :
    enrichBy key op (enrichBy key op source target) target = enrichBy key op source target := by
  have hkeys : (enrichBy key op (enrichBy key op source target) target).map key =
      (enrichBy key op source target).map key := by
    rw [map_key_enrichBy hkey, map_key_enrichBy hkey]
  refine eq_of_ofKey_eq hkeys fun k => ?_
  rw [ofKey_enrichBy hkey, ofKey_enrichBy hkey, enrichAll_self hassoc hidem]

omit hassoc in
theorem enrichBy_refl (l : List α) : enrichBy key op l l = l := by
  refine eq_of_ofKey_eq (map_key_enrichBy hkey _ _) fun k => ?_
  rw [ofKey_enrichBy hkey]
  refine List.ext_getElem? fun i => ?_
  rw [getElem?_enrichAll, Nat.zero_add]
  rcases hi : (ofKey key k l)[i]? with _ | a
  · rfl
  · rw [map_some, enrichAt, partner_of_getElem? hi, elim_some, hidem]

theorem enrichBy_enrichBy (source target : List α) :
    enrichBy key op
        (enrichBy key op (enrichBy key op (enrichBy key op target source) target) source)
        (enrichBy key op (enrichBy key op target source) target) =
      enrichBy key op (enrichBy key op target source) target := by
  refine eq_of_ofKey_eq (map_key_enrichBy hkey _ _) fun k => ?_
  simp only [ofKey_enrichBy hkey]
  exact enrichAll_enrichAll hassoc hidem _ _

end Band

end Ferrofin.Lib
