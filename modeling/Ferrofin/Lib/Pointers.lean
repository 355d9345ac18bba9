import Mathlib.Data.List.Basic
import Mathlib.Logic.Relation

/-!
# Walks and pointers

A queue of vertices is worked off: a vertex that comes up the first time is recorded, and its
neighbours that are not recorded yet are queued.  Given enough fuel (`fuelFor`), what is recorded
is closed under neighbours; and it is the least such set around the vertices that were queued
first (`walk_induction`).

Where each vertex points at one other vertex or at none, the vertices that pointers join make a
family.  Two vertices are of one family when the ways up from them meet (`family_iff_join`).  A
vertex is at the top of another one when every way up leads on to it; the family then is what is
below the top (`Top.family_iff`).  On a loop every vertex is at the top.
-/

namespace Ferrofin.Lib

section Walk

variable {α : Type*} [DecidableEq α] {next : α → List α}

/-- The vertices recorded when the queue has been worked off. -/
def walk (next : α → List α) : Nat → List α → List α → List α
  | 0, _, walked => walked
  | _ + 1, [], walked => walked
  | fuel + 1, a :: pending, walked =>
    if a ∈ walked then walk next fuel pending walked
    else
      walk next fuel (pending ++ (next a).filter (· ∉ walked ++ [a])) (walked ++ [a])

/-- Fuel for a queue, where the graph has so many vertices, each with at most `degree`
neighbours. -/
def fuelFor (degree vertices queued : Nat) : Nat := queued + vertices * (degree + 1)

/-- What holds of the queued vertices and goes over to neighbours holds of all recorded. -/
theorem walk_induction {Q : α → Prop} (hnext : ∀ a b, Q a → b ∈ next a → Q b) {fuel : Nat}
    {pending walked : List α} (hp : ∀ a ∈ pending, Q a) (hw : ∀ a ∈ walked, Q a) :
    ∀ a ∈ walk next fuel pending walked, Q a := by
  induction fuel generalizing pending walked with
  | zero => exact hw
  | succ fuel ih =>
    cases pending with
    | nil => exact hw
    | cons a pending =>
      have ha := hp a (List.mem_cons_self ..)
      have hrest : ∀ b ∈ pending, Q b := fun b hb => hp b (List.mem_cons_of_mem _ hb)
      rw [walk]
      split
      · exact ih hrest hw
      · refine ih ?_ ?_
        · intro b hb
          rcases List.mem_append.mp hb with hb | hb
          · exact hrest b hb
          · exact hnext a b ha (List.mem_filter.mp hb).1
        · intro b hb
          rcases List.mem_append.mp hb with hb | hb
          · exact hw b hb
          · exact (List.mem_singleton.mp hb) ▸ ha

theorem mem_walk_of_mem {fuel : Nat} {pending walked : List α} {a : α} (h : a ∈ walked) :
    a ∈ walk next fuel pending walked := by
  induction fuel generalizing pending walked with
  | zero => exact h
  | succ fuel ih =>
    cases pending with
    | nil => exact h
    | cons b pending =>
      rw [walk]
      split
      · exact ih h
      · exact ih (List.mem_append_left _ h)

def unwalked (vertices walked : List α) : List α := vertices.filter (· ∉ walked)

theorem unwalked_lt {vertices walked : List α} {a : α} (ha : a ∈ vertices) (hnew : a ∉ walked) :
    (unwalked vertices (walked ++ [a])).length < (unwalked vertices walked).length := by
  have hle : ∀ l : List α,
      (unwalked l (walked ++ [a])).length ≤ (unwalked l walked).length := fun l =>
    (List.monotone_filter_right l fun b hb => by simp_all).length_le
  induction vertices with
  | nil => cases ha
  | cons b l ih =>
    by_cases hb : b = a
    · subst hb
      simpa [unwalked, hnew] using Nat.lt_succ_of_le (hle l)
    · have hlt := ih ((List.mem_cons.mp ha).resolve_left (Ne.symm hb))
      simp only [unwalked, List.filter_cons] at hlt ⊢
      by_cases hwalked : b ∈ walked <;> simp_all

theorem unwalked_lt_of_mem {vertices walked walked' : List α} {a : α}
    (hsub : ∀ b ∈ walked, b ∈ walked') (ha : a ∈ vertices) (hnew : a ∉ walked)
    (hmem : a ∈ walked') :
    (unwalked vertices walked').length < (unwalked vertices walked).length := by
  have hle : ∀ l : List α, (unwalked l walked').length ≤ (unwalked l (walked ++ [a])).length := by
    refine fun l => (List.monotone_filter_right l fun b hb => ?_).length_le
    simp only [decide_eq_true_eq, List.mem_append, List.mem_singleton, not_or] at hb ⊢
    exact ⟨fun h => hb (hsub b h), fun h => hb (h ▸ hmem)⟩
  exact Nat.lt_of_le_of_lt (hle vertices) (unwalked_lt ha hnew)

theorem unwalked_le (vertices : List α) {walked walked' : List α}
    (hsub : ∀ b ∈ walked, b ∈ walked') :
    (unwalked vertices walked').length ≤ (unwalked vertices walked).length := by
  refine (List.monotone_filter_right vertices fun b hb => ?_).length_le
  simp only [decide_eq_true_eq] at hb ⊢
  exact fun h => hb (hsub b h)

/-- With enough fuel the queue is worked off: every queued vertex is recorded, and every
neighbour of a recorded one. -/
theorem walk_closed (vertices : List α) (degree : Nat) {fuel : Nat} {pending walked : List α}
    (hnext : ∀ a ∈ vertices, ∀ b ∈ next a, b ∈ vertices)
    (hdegree : ∀ a ∈ vertices, (next a).length ≤ degree)
    (hp : ∀ a ∈ pending, a ∈ vertices)
    (hclosed : ∀ a ∈ walked, ∀ b ∈ next a, b ∈ walked ∨ b ∈ pending)
    (hfuel : fuelFor degree (unwalked vertices walked).length pending.length ≤ fuel) :
    (∀ a ∈ pending, a ∈ walk next fuel pending walked) ∧
      ∀ a ∈ walk next fuel pending walked, ∀ b ∈ next a,
        b ∈ walk next fuel pending walked := by
  unfold fuelFor at hfuel
  induction fuel generalizing pending walked with
  | zero =>
    have hnil : pending = [] := List.length_eq_zero_iff.mp (by omega)
    subst hnil
    exact ⟨nofun, fun a ha b hb => (hclosed a ha b hb).resolve_right nofun⟩
  | succ fuel ih =>
    cases pending with
    | nil => exact ⟨nofun, fun a ha b hb => (hclosed a ha b hb).resolve_right nofun⟩
    | cons a pending =>
      have ha := hp a (List.mem_cons_self ..)
      have hrest : ∀ b ∈ pending, b ∈ vertices := fun b hb => hp b (List.mem_cons_of_mem _ hb)
      rw [walk]
      rw [List.length_cons] at hfuel
      split
      · next hold =>
        have hclosed' : ∀ c ∈ walked, ∀ b ∈ next c, b ∈ walked ∨ b ∈ pending := by
          intro c hc b hb
          rcases hclosed c hc b hb with hb | hb
          · exact .inl hb
          · rcases List.mem_cons.mp hb with rfl | hb
            · exact .inl hold
            · exact .inr hb
        obtain ⟨hall, hends⟩ := ih hrest hclosed' (by omega)
        refine ⟨fun b hb => ?_, hends⟩
        rcases List.mem_cons.mp hb with rfl | hb
        · exact mem_walk_of_mem hold
        · exact hall b hb
      · next hnew =>
        -- The vertex is paid for by the one it leaves unwalked less.
        have hlt := unwalked_lt ha hnew
        have hlen : (pending ++ (next a).filter (· ∉ walked ++ [a])).length ≤
            pending.length + degree := by
          rw [List.length_append]
          exact Nat.add_le_add_left (Nat.le_trans (List.length_filter_le ..) (hdegree a ha)) _
        have hpay : (unwalked vertices (walked ++ [a])).length * (degree + 1) + (degree + 1) ≤
            (unwalked vertices walked).length * (degree + 1) := by
          rw [← Nat.succ_mul]
          exact Nat.mul_le_mul_right _ hlt
        have hp' : ∀ b ∈ pending ++ (next a).filter (· ∉ walked ++ [a]), b ∈ vertices := by
          intro b hb
          rcases List.mem_append.mp hb with hb | hb
          · exact hrest b hb
          · exact hnext a ha b (List.mem_filter.mp hb).1
        have hclosed' : ∀ c ∈ walked ++ [a], ∀ b ∈ next c,
            b ∈ walked ++ [a] ∨ b ∈ pending ++ (next a).filter (· ∉ walked ++ [a]) := by
          intro c hc b hb
          by_cases hbw : b ∈ walked ++ [a]
          · exact .inl hbw
          · refine .inr (List.mem_append.mpr ?_)
            rcases List.mem_append.mp hc with hc | hc
            · rcases hclosed c hc b hb with hb' | hb'
              · exact absurd (List.mem_append_left _ hb') hbw
              · rcases List.mem_cons.mp hb' with rfl | hb'
                · exact absurd (List.mem_append_right _ (List.mem_singleton.mpr rfl)) hbw
                · exact .inl hb'
            · rw [List.mem_singleton.mp hc] at hb
              exact .inr (List.mem_filter.mpr ⟨hb, decide_eq_true hbw⟩)
        obtain ⟨hall, hends⟩ := ih hp' hclosed' (by omega)
        refine ⟨fun b hb => ?_, hends⟩
        rcases List.mem_cons.mp hb with rfl | hb
        · exact mem_walk_of_mem (List.mem_append_right _ (List.mem_singleton.mpr rfl))
        · exact hall b (List.mem_append_left _ hb)

end Walk

variable {α : Type*} (parent : α → Option α)

def PointsAt (a b : α) : Prop := parent a = some b

def Up : α → α → Prop := Relation.ReflTransGen (PointsAt parent)

def Family : α → α → Prop := Relation.EqvGen (PointsAt parent)

/-- Every way up from `a` leads on to `r`. -/
structure Top (a r : α) : Prop where
  up : Up parent a r
  of_up : ∀ b, Up parent a b → Up parent b r

variable {parent} {a b c r : α}

theorem Up.refl (a : α) : Up parent a a := Relation.ReflTransGen.refl

theorem Up.trans (hab : Up parent a b) (hbc : Up parent b c) : Up parent a c :=
  Relation.ReflTransGen.trans hab hbc

theorem Up.head (hab : parent a = some b) (hbc : Up parent b c) : Up parent a c :=
  Relation.ReflTransGen.head hab hbc

theorem Up.tail (hab : Up parent a b) (hbc : parent b = some c) : Up parent a c :=
  Relation.ReflTransGen.tail hab hbc

theorem Up.mem {P : α → Prop} (h : Up parent a b) (ha : P a)
    (hclosed : ∀ a b, P a → parent a = some b → P b) : P b := by
  induction h with
  | refl => exact ha
  | tail _ hbc ih => exact hclosed _ _ ih hbc

theorem family_of_up (h : Up parent a b) : Family parent a b := by
  induction h with
  | refl => exact .refl _
  | tail _ hbc ih => exact ih.trans _ _ _ (.rel _ _ hbc)

/-- The ways up from two vertices of a family meet: there is one way up from each vertex. -/
theorem family_iff_join :
    Family parent a b ↔ Relation.Join (Up parent) a b := by
  constructor
  · intro h
    have hequiv : Equivalence (Relation.Join (Up parent)) :=
      Relation.equivalence_join_reflTransGen fun a b c hab hac => by
        obtain rfl : b = c := Option.some.inj (hab.symm.trans hac)
        exact ⟨b, .refl, .refl⟩
    induction h with
    | rel a b hab => exact ⟨b, .single hab, Up.refl b⟩
    | refl a => exact hequiv.refl a
    | symm a b _ ih => exact hequiv.symm ih
    | trans a b c _ _ hab hbc => exact hequiv.trans hab hbc
  · rintro ⟨c, hac, hbc⟩
    exact (family_of_up hac).trans _ _ _ ((family_of_up hbc).symm _ _)

theorem Family.symm (h : Family parent a b) : Family parent b a := Relation.EqvGen.symm _ _ h

theorem Family.trans (hab : Family parent a b) (hbc : Family parent b c) : Family parent a c :=
  Relation.EqvGen.trans _ _ _ hab hbc

theorem Top.family_iff (h : Top parent a r) : Family parent a b ↔ Up parent b r := by
  constructor
  · intro hfamily
    obtain ⟨c, hac, hbc⟩ := family_iff_join.mp hfamily
    exact hbc.trans (h.of_up c hac)
  · exact fun hb => (family_of_up h.up).trans (family_of_up hb).symm

/-- A part of the way up that holds the vertex, leads to `r` and is closed shows the top. -/
theorem top_of_closed {P : α → Prop} (ha : P a) (hr : Up parent a r)
    (hup : ∀ b, P b → Up parent b r) (hclosed : ∀ b c, P b → parent b = some c → P c) :
    Top parent a r :=
  ⟨hr, fun b hb => hup b (hb.mem ha hclosed)⟩

end Ferrofin.Lib
