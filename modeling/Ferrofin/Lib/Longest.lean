import Mathlib.Algebra.Order.Group.Defs
import Mathlib.Data.List.Chain
import Mathlib.Data.List.Infix

/-!
# The longest

A run of a list of times is a part of it in which each time follows the one before within a
distance.  `longestRun` passes over a sorted list once, with the run that it is in and the longest
one so far, and finds a run that no run is longer than (`longestRun_spec`); later times by the same
delay give the same run later (`longestRun_map`).

`lastMax` is the last element of a list that no other one is above, as an iterator's `max_by` finds
it.
-/

namespace Ferrofin.Lib

/-! ### The last maximum -/

section LastMax

variable {α : Type*} (le : α → α → Bool)

def lastMax : List α → Option α
  | [] => none
  | a :: l => some (l.foldl (fun best x => if le best x then x else best) a)

variable {le} {l : List α} {a : α}

theorem lastMax_eq_none : lastMax le l = none ↔ l = [] := by
  cases l with
  | nil => exact iff_of_true rfl rfl
  | cons a l => exact iff_of_false nofun nofun

theorem lastMax_spec (htotal : ∀ a b, le a b = true ∨ le b a = true)
    (htrans : ∀ a b c, le a b = true → le b c = true → le a c = true)
    (h : lastMax le l = some a) : a ∈ l ∧ ∀ b ∈ l, le b a = true := by
  have hrefl : ∀ a, le a a = true := fun a => (htotal a a).elim id id
  have hfold : ∀ (l : List α) (best : α),
      (l.foldl (fun best x => if le best x then x else best) best) ∈ best :: l ∧
        ∀ b ∈ best :: l,
          le b (l.foldl (fun best x => if le best x then x else best) best) = true := by
    intro l
    induction l with
    | nil =>
      refine fun best => ⟨List.mem_cons_self, fun b hb => ?_⟩
      rw [List.mem_singleton.mp hb]
      exact hrefl best
    | cons x l ih =>
      intro best
      rw [List.foldl_cons]
      obtain ⟨hmem, hmax⟩ := ih (if le best x then x else best)
      generalize l.foldl _ (if le best x then x else best) = result at hmem hmax
      have hnew := hmax _ List.mem_cons_self
      constructor
      · rcases List.mem_cons.mp hmem with heq | hmem
        · rw [heq]
          split
          · exact List.mem_cons_of_mem _ List.mem_cons_self
          · exact List.mem_cons_self
        · exact List.mem_cons_of_mem _ (List.mem_cons_of_mem _ hmem)
      · have hbest : le best result = true ∧ le x result = true := by
          split at hnew
          · next hle => exact ⟨htrans _ _ _ hle hnew, hnew⟩
          · next hle => exact ⟨hnew, htrans _ _ _ ((htotal best x).resolve_left hle) hnew⟩
        intro b hb
        rcases List.mem_cons.mp hb with rfl | hb
        · exact hbest.1
        · rcases List.mem_cons.mp hb with rfl | hb
          · exact hbest.2
          · exact hmax b (List.mem_cons_of_mem _ hb)
  cases l with
  | nil => cases h
  | cons x l =>
    cases h
    exact hfold l x

theorem lastMax_concat (l : List α) (x : α) :
    lastMax le (l ++ [x]) =
      some (match lastMax le l with
        | none => x
        | some best => if le best x then x else best) := by
  cases l with
  | nil => rfl
  | cons a l => rw [List.cons_append, lastMax, lastMax, List.foldl_append]; rfl

/-- The last maximum, with the elements before it and behind it. -/
def IsLastMax (le : α → α → Bool) (l : List α) (a : α) : Prop :=
  ∃ front back, l = front ++ a :: back ∧ (∀ b ∈ front, le b a = true) ∧
    ∀ b ∈ back, le a b = false

theorem IsLastMax.of_lastMax (htotal : ∀ a b, le a b = true ∨ le b a = true)
    (htrans : ∀ a b c, le a b = true → le b c = true → le a c = true)
    (h : lastMax le l = some a) : IsLastMax le l a := by
  induction l using List.reverseRecOn generalizing a with
  | nil => cases h
  | append_singleton l x ih =>
    rw [lastMax_concat] at h
    cases hbest : lastMax le l with
    | none =>
      rw [hbest] at h
      cases h
      rw [lastMax_eq_none.mp hbest]
      exact ⟨[], [], rfl, nofun, nofun⟩
    | some best =>
      rw [hbest] at h
      obtain ⟨front, back, hl, hfront, hback⟩ := ih hbest
      have hmax := (lastMax_spec htotal htrans hbest).2
      cases hle : le best x with
      | true =>
        obtain rfl : x = a := by simpa [hle] using h
        exact ⟨l, [], rfl, fun b hb => htrans _ _ _ (hmax b hb) hle, nofun⟩
      | false =>
        obtain rfl : best = a := by simpa [hle] using h
        refine ⟨front, back ++ [x], by rw [hl, List.append_assoc, List.cons_append], hfront, ?_⟩
        intro b hb
        rcases List.mem_append.mp hb with hb | hb
        · exact hback b hb
        · rw [List.mem_singleton.mp hb]
          exact hle

theorem IsLastMax.unique {b : α} (h : IsLastMax le l a) (h' : IsLastMax le l b) : a = b := by
  obtain ⟨front, back, rfl, hfront, hback⟩ := h
  obtain ⟨front', back', heq, hfront', hback'⟩ := h'
  rcases List.append_eq_append_iff.mp heq with ⟨mid, rfl, hmid⟩ | ⟨mid, rfl, hmid⟩
  · cases mid with
    | nil => exact (List.cons.inj hmid).1
    | cons c mid =>
      obtain ⟨rfl, rfl⟩ := List.cons.inj hmid
      have hle := hfront' a (by simp)
      rw [hback b (by simp)] at hle
      cases hle
  · cases mid with
    | nil => exact (List.cons.inj hmid).1.symm
    | cons c mid =>
      obtain ⟨rfl, rfl⟩ := List.cons.inj hmid
      have hle := hfront b (by simp)
      rw [hback' a (by simp)] at hle
      cases hle

/-- **What the last maximum is.** -/
theorem lastMax_eq_some (htotal : ∀ a b, le a b = true ∨ le b a = true)
    (htrans : ∀ a b c, le a b = true → le b c = true → le a c = true) :
    lastMax le l = some a ↔ IsLastMax le l a := by
  refine ⟨IsLastMax.of_lastMax htotal htrans, fun h => ?_⟩
  cases hbest : lastMax le l with
  | none =>
    obtain ⟨front, back, hl, -⟩ := h
    rw [lastMax_eq_none.mp hbest] at hl
    simp at hl
  | some best => rw [(IsLastMax.of_lastMax htotal htrans hbest).unique h]

end LastMax

/-! ### Runs -/

theorem getLast?_of_suffix {α : Type*} {run part : List α} (h : run <:+ part)
    (hne : run ≠ []) : run.getLast? = part.getLast? := by
  obtain ⟨front, rfl⟩ := h
  rw [List.getLast?_append_of_ne_nil _ hne]

section Runs

variable {α : Type*} [AddCommGroup α] [LinearOrder α] (d : α)

/-- Each time follows the one before within the distance. -/
def Close (times : List α) : Prop := times.IsChain fun a b => b - a ≤ d

def IsRun (times : List α) (run : α × α) : Prop :=
  ∃ part, part <:+: times ∧ Close d part ∧ part.head? = some run.1 ∧ part.getLast? = some run.2

def span (run : α × α) : α := run.2 - run.1

def longer (current best : α × α) : α × α := if span best < span current then current else best

def longestFrom : List α → (last : α) → (current best : α × α) → α × α
  | [], _, current, best => longer current best
  | next :: rest, last, current, best =>
    if next - last ≤ d then longestFrom rest next (current.1, next) best
    else longestFrom rest next (next, next) (longer current best)

def longestRun : List α → Option (α × α)
  | [] => none
  | a :: rest => some (longestFrom d rest a (a, a) (a, a))

variable {d} {times part run rest : List α} {current best r : α × α} {last next a c : α}

theorem span_longer (current best : α × α) :
    span (longer current best) = max (span best) (span current) := by
  rw [longer]
  split
  · next h => exact (max_eq_right h.le).symm
  · next h => exact (max_eq_left (not_lt.mp h)).symm

theorem close_concat : Close d (run ++ [next]) ↔
    Close d run ∧ ∀ last ∈ run.getLast?, next - last ≤ d := by
  rw [Close, List.isChain_append]
  simp [Close]

theorem IsRun.append (h : IsRun d part r) (rest : List α) : IsRun d (part ++ rest) r := by
  obtain ⟨run, hpart, hrun⟩ := h
  exact ⟨run, hpart.trans (List.prefix_append part rest).isInfix, hrun⟩

/-! ### Later times -/

def later (c : α) (run : α × α) : α × α := (run.1 + c, run.2 + c)

omit [LinearOrder α] in
theorem span_later (c : α) (run : α × α) : span (later c run) = span run :=
  add_sub_add_right_eq_sub ..

theorem longestFrom_map (c : α) (rest : List α) (last : α) (current best : α × α) :
    longestFrom d (rest.map (· + c)) (last + c) (later c current) (later c best) =
      later c (longestFrom d rest last current best) := by
  have hlonger : ∀ current best, longer (later c current) (later c best) =
      later c (longer current best) := fun current best => by
    rw [longer, longer, span_later, span_later, apply_ite (later c)]
  induction rest generalizing last current best with
  | nil => exact hlonger current best
  | cons next rest ih =>
    rw [List.map_cons, longestFrom, longestFrom, add_sub_add_right_eq_sub, apply_ite (later c),
      ← ih, ← ih, ← hlonger]
    rfl

theorem longestRun_map (c : α) (times : List α) :
    longestRun d (times.map (· + c)) = (longestRun d times).map (later c) := by
  cases times with
  | nil => rfl
  | cons a rest => exact congrArg some (longestFrom_map c rest a (a, a) (a, a))

/-! ### The longest run -/

/-- What is known after a part of the times: the run that the part ends with, the longest one that
was found, and that none is longer than both. -/
structure Running (d : α) (part : List α) (current best : α × α) : Prop where
  last : part.getLast? = some current.2
  ends : ∃ run, run <:+ part ∧ Close d run ∧ run.head? = some current.1
  first : ∀ run, run <:+ part → Close d run → ∀ s ∈ run.head?, current.1 ≤ s
  found : IsRun d part best
  longest : ∀ r, IsRun d part r → span r ≤ max (span best) (span current)

theorem Running.isRun (h : Running d part current best) : IsRun d part current := by
  obtain ⟨run, hsuffix, hclose, hhead⟩ := h.ends
  have hne : run ≠ [] := fun hnil => by
    rw [hnil] at hhead
    cases hhead
  exact ⟨run, hsuffix.isInfix, hclose, hhead, (getLast?_of_suffix hsuffix hne).trans h.last⟩

theorem Running.longer (h : Running d part current best) :
    IsRun d part (longer current best) := by
  rw [Lib.longer]
  split
  · exact h.isRun
  · exact h.found

variable [IsOrderedAddMonoid α]

theorem Running.near (h : Running d part current best) (hsorted : ∀ a ∈ part, a ≤ next)
    (hnear : next - current.2 ≤ d) : Running d (part ++ [next]) (current.1, next) best := by
  obtain ⟨run, hsuffix, hclose, hhead⟩ := h.ends
  have hne : run ≠ [] := fun hnil => by
    rw [hnil] at hhead
    cases hhead
  have hcurrent : current.2 ≤ next := hsorted _ (List.mem_of_getLast? h.last)
  have hfirst : ∀ run, run <:+ part ++ [next] → Close d run → ∀ s ∈ run.head?, current.1 ≤ s := by
    intro run' hsuffix' hclose' s hs
    rcases List.suffix_concat_iff.mp hsuffix' with rfl | ⟨front, rfl, hfront⟩
    · cases hs
    · rcases front with _ | ⟨b, front⟩
      · cases hs
        exact hsorted _ (hsuffix.subset (List.mem_of_head? hhead))
      · exact h.first _ hfront (close_concat.mp hclose').1 s hs
  refine ⟨List.getLast?_concat, ⟨run ++ [next], ?_, ?_, ?_⟩, hfirst, h.found.append _, ?_⟩
  · obtain ⟨front, rfl⟩ := hsuffix
    exact ⟨front, (List.append_assoc ..).symm⟩
  · refine close_concat.mpr ⟨hclose, fun last hlast => ?_⟩
    rw [getLast?_of_suffix hsuffix hne, h.last] at hlast
    rwa [← Option.some.inj hlast]
  · rw [List.head?_append_of_ne_nil _ hne, hhead]
  · rintro r ⟨run', hpart, hclose', hhead', hlast'⟩
    rcases List.infix_concat_iff.mp hpart with hsuffix' | hpart
    · have hs := hfirst run' hsuffix' hclose' r.1 hhead'
      have hne' : run' ≠ [] := fun hnil => by
        rw [hnil] at hhead'
        cases hhead'
      rw [getLast?_of_suffix hsuffix' hne', List.getLast?_concat] at hlast'
      obtain rfl := Option.some.inj hlast'
      exact le_max_of_le_right (sub_le_sub_left hs _)
    · refine (h.longest r ⟨run', hpart, hclose', hhead', hlast'⟩).trans ?_
      exact max_le_max le_rfl (sub_le_sub_right hcurrent _)

theorem Running.far (h : Running d part current best) (hfar : ¬next - current.2 ≤ d) :
    Running d (part ++ [next]) (next, next) (Lib.longer current best) := by
  have hsingle : ∀ run, run <:+ part ++ [next] → Close d run → run = [] ∨ run = [next] := by
    intro run hsuffix hclose
    rcases List.suffix_concat_iff.mp hsuffix with rfl | ⟨front, rfl, hfront⟩
    · exact .inl rfl
    · rcases hnil : front with _ | ⟨b, rest⟩
      · exact .inr rfl
      · refine absurd ?_ hfar
        have hlast := getLast?_of_suffix hfront (by rw [hnil]; nofun)
        exact (close_concat.mp hclose).2 _ (hlast.trans h.last)
  refine ⟨List.getLast?_concat, ⟨[next], List.suffix_append part [next], List.isChain_singleton _,
    rfl⟩, ?_, h.longer.append _, ?_⟩
  · intro run hsuffix hclose s hs
    rcases hsingle run hsuffix hclose with rfl | rfl
    · cases hs
    · exact (Option.some.inj hs).le
  · rintro r ⟨run, hpart, hclose, hhead, hlast⟩
    rw [span_longer]
    rcases List.infix_concat_iff.mp hpart with hsuffix | hpart
    · rcases hsingle run hsuffix hclose with rfl | rfl
      · cases hhead
      · cases hhead
        exact le_max_of_le_right (sub_le_sub_right (Option.some.inj hlast).ge _)
    · exact le_max_of_le_left (h.longest r ⟨run, hpart, hclose, hhead, hlast⟩)

theorem longestFrom_spec (h : Running d part current best)
    (hsorted : (part ++ rest).Pairwise (· ≤ ·)) :
    IsRun d (part ++ rest) (longestFrom d rest current.2 current best) ∧
      ∀ r, IsRun d (part ++ rest) r →
        span r ≤ span (longestFrom d rest current.2 current best) := by
  induction rest generalizing part current best with
  | nil =>
    rw [List.append_nil, longestFrom, span_longer]
    exact ⟨h.longer, h.longest⟩
  | cons next rest ih =>
    have hle : ∀ a ∈ part, a ≤ next := fun a ha =>
      (List.pairwise_append.mp hsorted).2.2 a ha next List.mem_cons_self
    rw [← List.singleton_append, ← List.append_assoc] at hsorted ⊢
    rw [List.singleton_append, longestFrom]
    split
    · next hnear => exact ih (h.near hle hnear) hsorted
    · next hfar => exact ih (h.far hfar) hsorted

theorem longestRun_spec (hsorted : times.Pairwise (· ≤ ·)) (h : longestRun d times = some r) :
    IsRun d times r ∧ ∀ r', IsRun d times r' → span r' ≤ span r := by
  cases times with
  | nil => cases h
  | cons a rest =>
    cases h
    have hsingle : ∀ run, run <:+: [a] → run = [] ∨ run = [a] := fun run hpart => by
      rcases (List.infix_singleton_iff run a).mp hpart with h | h
      · exact .inl h
      · exact .inr h
    have hclose : Close d [a] := List.isChain_singleton _
    have hone : Running d [a] (a, a) (a, a) := by
      refine ⟨rfl, ⟨[a], List.suffix_rfl, hclose, rfl⟩, ?_, ⟨[a], List.infix_rfl, hclose, rfl, rfl⟩,
        ?_⟩
      · intro run hsuffix _ s hs
        rcases hsingle run hsuffix.isInfix with rfl | rfl
        · cases hs
        · exact (Option.some.inj hs).le
      · rintro r ⟨run, hpart, -, hhead, hlast⟩
        rcases hsingle run hpart with rfl | rfl
        · cases hhead
        · cases hhead
          exact le_max_of_le_left (sub_le_sub_right (Option.some.inj hlast).ge _)
    exact longestFrom_spec hone hsorted

end Runs

end Ferrofin.Lib
