import Mathlib.Logic.Relation

/-!
# Labelled machines and what holds along their runs

A `Machine` is a state that labelled steps change: a label says which step is
taken and carries everything the step does not decide itself (its arguments,
the clock, drawn ids, which waiting task goes on).  A step that the state does
not allow gives `none`.

* `Machine.Path ok s t`: `t` is reached from `s` by steps that all meet `ok`, a
  condition on the label and the state before the step.
* `Machine.Reaches ok s`: `s` is reached from the initial state so;
  `Machine.Reachable` is the case of every step.
* `Machine.Reaches.invariant`: what the initial state has and every step keeps
  holds in every state reached.
* `Machine.run`, `Machine.runWhile`: the runs themselves, for concrete ones.
* `Machine.observed`: the machine next to an observer that reads the labels.
-/

namespace Ferrofin.Lib

/-- A state machine with labelled, partial steps. -/
structure Machine (σ α : Type*) where
  /-- The state it starts in. -/
  init : σ
  /-- One step; `none` when the state does not allow it. -/
  step : σ → α → Option σ

/-- A run that ends, in a state of which `p` is decided. -/
theorem exists_of_decide {σ : Type*} {o : Option σ} {p : σ → Prop} [DecidablePred p]
    (h : o.any (fun s => decide (p s)) = true) : ∃ s, o = some s ∧ p s := by
  cases o with
  | none => cases h
  | some s => exact ⟨s, rfl, of_decide_eq_true h⟩

namespace Machine

variable {σ α : Type*} (M : Machine σ α)

/-- One step that meets `ok`. -/
def Step (ok : σ → α → Prop) (s t : σ) : Prop := ∃ a, ok s a ∧ M.step s a = some t

/-- Finitely many steps that all meet `ok`. -/
def Path (ok : σ → α → Prop) : σ → σ → Prop := Relation.ReflTransGen (M.Step ok)

/-- The states reached from the initial one by steps that all meet `ok`. -/
def Reaches (ok : σ → α → Prop) (s : σ) : Prop := M.Path ok M.init s

def Reachable (s : σ) : Prop := M.Reaches (fun _ _ => True) s

variable {M} {ok ok' : σ → α → Prop} {s t : σ}

theorem Path.refl : M.Path ok s s := Relation.ReflTransGen.refl

theorem Path.tail {u : σ} {a : α} (h : M.Path ok s t) (hok : ok t a)
    (hs : M.step t a = some u) : M.Path ok s u :=
  Relation.ReflTransGen.tail h ⟨a, hok, hs⟩

theorem Path.trans {u : σ} (h : M.Path ok s t) (h' : M.Path ok t u) : M.Path ok s u :=
  Relation.ReflTransGen.trans h h'

theorem Path.single {a : α} (hok : ok s a) (hs : M.step s a = some t) : M.Path ok s t :=
  Path.refl.tail hok hs

theorem Path.mono (himp : ∀ s a, ok s a → ok' s a) (h : M.Path ok s t) : M.Path ok' s t :=
  Relation.ReflTransGen.mono (fun _ _ ⟨a, ha, hs⟩ => ⟨a, himp _ a ha, hs⟩) _ _ h

/-- **The run rule**: a property the start of a path has and every allowed step
keeps holds at its end. -/
theorem Path.invariant {I : σ → Prop} (h : M.Path ok s t) (h0 : I s)
    (hstep : ∀ s a t, I s → ok s a → M.step s a = some t → I t) : I t := by
  induction h with
  | refl => exact h0
  | tail _ hs ih =>
    obtain ⟨a, ha, he⟩ := hs
    exact hstep _ a _ ih ha he

theorem Reaches.start : M.Reaches ok M.init := Path.refl

theorem Reaches.next {a : α} (h : M.Reaches ok s) (hok : ok s a) (hs : M.step s a = some t) :
    M.Reaches ok t := Path.tail h hok hs

theorem Reaches.mono (himp : ∀ s a, ok s a → ok' s a) (h : M.Reaches ok s) : M.Reaches ok' s :=
  Path.mono himp h

theorem Reaches.reachable (h : M.Reaches ok s) : M.Reachable s := h.mono fun _ _ _ => trivial

/-- **The invariant rule**: what the initial state has and every allowed step
keeps holds in every state reached. -/
theorem Reaches.invariant {I : σ → Prop} (h : M.Reaches ok s) (h0 : I M.init)
    (hstep : ∀ s a t, I s → ok s a → M.step s a = some t → I t) : I s :=
  Path.invariant h h0 hstep

/-- The run through the given labels; `none` when a step is refused or its label
does not meet `ok`. -/
def runWhile (M : Machine σ α) (ok : σ → α → Prop) [∀ s a, Decidable (ok s a)] :
    σ → List α → Option σ
  | s, [] => some s
  | s, a :: as => if ok s a then (M.step s a).bind fun t => runWhile M ok t as else none

/-- The run through the given labels; `none` when a step is refused. -/
def run (M : Machine σ α) : σ → List α → Option σ := M.runWhile fun _ _ => True

theorem path_of_runWhile [∀ s a, Decidable (ok s a)] (as : List α)
    (h : M.runWhile ok s as = some t) : M.Path ok s t := by
  induction as generalizing s with
  | nil => cases h; exact Path.refl
  | cons a as ih =>
    rw [runWhile] at h
    split at h
    · next hok =>
      obtain ⟨u, hu, hr⟩ := Option.bind_eq_some_iff.mp h
      exact Relation.ReflTransGen.head ⟨a, hok, hu⟩ (ih hr)
    · cases h

theorem runWhile_of_append [∀ s a, Decidable (ok s a)] {u : σ} {as bs : List α}
    (h : M.runWhile ok s as = some t) (h' : M.runWhile ok s (as ++ bs) = some u) :
    M.runWhile ok t bs = some u := by
  induction as generalizing s with
  | nil =>
    cases h
    exact h'
  | cons a as ih =>
    rw [List.cons_append, runWhile] at h'
    rw [runWhile] at h
    split at h
    · next hok =>
      rw [if_pos hok] at h'
      obtain ⟨v, hv, hr⟩ := Option.bind_eq_some_iff.mp h
      rw [hv, Option.bind_some] at h'
      exact ih hr h'
    · cases h

theorem reachable_of_run (as : List α) (h : M.run M.init as = some s) : M.Reachable s :=
  path_of_runWhile as h

/-- The machine next to an observer that reads the label of every step taken. -/
def observed {τ : Type*} (M : Machine σ α) (see : τ → α → τ) (start : τ) : Machine (σ × τ) α where
  init := (M.init, start)
  step s a := (M.step s.1 a).map fun t => (t, see s.2 a)

end Machine

end Ferrofin.Lib
