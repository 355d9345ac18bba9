import Mathlib.Data.List.Basic

/-!
# Steps that may fail

Lists that are searched or mapped by a step that may fail, in `Except`: the search or the map fails
at the first element that the step fails at.  And steps that may fail and keep a state, whatever
the state is.
-/

namespace Ferrofin.Lib

variable {α β ε : Type} {f g : α → Except ε Bool} {h : α → Except ε β} {l : List α}

/-- What comes out of two steps comes out of the second on what comes out of the first. -/
theorem bind_eq_ok {x : Except ε α} {k : α → Except ε β} {b : β} :
    (x >>= k) = .ok b ↔ ∃ a, x = .ok a ∧ k a = .ok b := by
  constructor
  · intro h
    cases x with
    | error e => cases h
    | ok a => exact ⟨a, rfl, h⟩
  · rintro ⟨a, rfl, h⟩
    exact h

theorem exists_anyM (hf : ∀ a ∈ l, ∃ found, f a = .ok found) :
    ∃ found, l.anyM f = .ok found := by
  induction l with
  | nil => exact ⟨false, rfl⟩
  | cons a l ih =>
    obtain ⟨found, hfound⟩ := hf a (List.mem_cons_self ..)
    rw [List.anyM_cons, hfound]
    cases found with
    | true => exact ⟨true, rfl⟩
    | false => exact ih fun b hb => hf b (List.mem_cons_of_mem _ hb)

/-- What one search finds, another that accepts more and does not fail finds. -/
theorem anyM_mono (hfg : ∀ a ∈ l, f a = .ok true → g a = .ok true)
    (hg : ∀ a ∈ l, ∃ found, g a = .ok found) (hfound : l.anyM f = .ok true) :
    l.anyM g = .ok true := by
  induction l with
  | nil => cases hfound
  | cons a l ih =>
    rw [List.anyM_cons] at hfound ⊢
    obtain ⟨found, hga⟩ := hg a (List.mem_cons_self ..)
    cases hfa : f a with
    | error e => rw [hfa] at hfound; cases hfound
    | ok here =>
      rw [hfa] at hfound
      cases found with
      | true => rw [hga]; rfl
      | false =>
        cases here with
        | true => cases hga.symm.trans (hfg a (List.mem_cons_self ..) hfa)
        | false =>
          rw [hga]
          exact ih (fun b hb => hfg b (List.mem_cons_of_mem _ hb))
            (fun b hb => hg b (List.mem_cons_of_mem _ hb)) hfound

theorem exists_mapM (hh : ∀ a ∈ l, ∃ b, h a = .ok b) : ∃ bs, l.mapM h = .ok bs := by
  induction l with
  | nil => exact ⟨[], rfl⟩
  | cons a l ih =>
    obtain ⟨b, hb⟩ := hh a (List.mem_cons_self ..)
    obtain ⟨bs, hbs⟩ := ih fun b hb => hh b (List.mem_cons_of_mem _ hb)
    exact ⟨b :: bs, by rw [List.mapM_cons, hb, hbs]; rfl⟩

theorem exists_of_mem_mapM {bs : List β} (hbs : l.mapM h = .ok bs) {b : β} (hb : b ∈ bs) :
    ∃ a ∈ l, h a = .ok b := by
  induction l generalizing bs with
  | nil =>
    cases hbs
    cases hb
  | cons a l ih =>
    rw [List.mapM_cons] at hbs
    cases ha : h a with
    | error e => rw [ha] at hbs; cases hbs
    | ok b' =>
      cases hl : l.mapM h with
      | error e => rw [ha, hl] at hbs; cases hbs
      | ok bs' =>
        rw [ha, hl] at hbs
        cases hbs
        rcases List.mem_cons.mp hb with rfl | hb
        · exact ⟨a, List.mem_cons_self .., ha⟩
        · obtain ⟨a', ha', heq⟩ := ih hl hb
          exact ⟨a', List.mem_cons_of_mem _ ha', heq⟩

theorem mem_mapM {bs : List β} (hbs : l.mapM h = .ok bs) {a : α} (ha : a ∈ l) :
    ∃ b ∈ bs, h a = .ok b := by
  induction l generalizing bs with
  | nil => cases ha
  | cons a' l ih =>
    rw [List.mapM_cons] at hbs
    cases ha' : h a' with
    | error e => rw [ha'] at hbs; cases hbs
    | ok b =>
      cases hl : l.mapM h with
      | error e => rw [ha', hl] at hbs; cases hbs
      | ok bs' =>
        rw [ha', hl] at hbs
        cases hbs
        rcases List.mem_cons.mp ha with rfl | ha
        · exact ⟨b, List.mem_cons_self .., ha'⟩
        · obtain ⟨b', hb', heq⟩ := ih hl ha
          exact ⟨b', List.mem_cons_of_mem _ hb', heq⟩

theorem map_of_mapM {κ : Type} {key : α → κ} {key' : β → κ} {bs : List β}
    (hkey : ∀ a b, h a = .ok b → key' b = key a) (hbs : l.mapM h = .ok bs) :
    bs.map key' = l.map key := by
  induction l generalizing bs with
  | nil =>
    cases hbs
    rfl
  | cons a l ih =>
    rw [List.mapM_cons] at hbs
    obtain ⟨b, hb, hbs⟩ := bind_eq_ok.mp hbs
    obtain ⟨bs', hbs', hbs⟩ := bind_eq_ok.mp hbs
    cases hbs
    rw [List.map_cons, List.map_cons, hkey a b hb, ih hbs']

/-! ### Whatever the state -/

variable {σ : Type} {x : StateT σ Option α} {P Q : α → Prop}

/-- From every state it does not fail, and comes to an answer of which `P` holds. -/
def EndsIn (P : α → Prop) (x : StateT σ Option α) : Prop :=
  ∀ s, ∃ a s', x.run s = some (a, s') ∧ P a

namespace EndsIn

theorem pure {a : α} (h : P a) : EndsIn P (pure a : StateT σ Option α) := fun s => ⟨a, s, rfl, h⟩

theorem bind {R : β → Prop} {k : α → StateT σ Option β} (hx : EndsIn P x)
    (hk : ∀ a, P a → EndsIn R (k a)) : EndsIn R (x >>= k) := by
  intro s
  obtain ⟨a, s', ha, hP⟩ := hx s
  obtain ⟨b, s'', hb, hR⟩ := hk a hP s'
  refine ⟨b, s'', ?_, hR⟩
  rw [StateT.run_bind, ha]
  exact hb

theorem and (hP : EndsIn P x) (hQ : EndsIn Q x) : EndsIn (fun a => P a ∧ Q a) x := by
  intro s
  obtain ⟨a, s', ha, hPa⟩ := hP s
  obtain ⟨b, s'', hb, hQb⟩ := hQ s
  obtain ⟨rfl, rfl⟩ := Prod.mk.inj (Option.some.inj (ha.symm.trans hb))
  exact ⟨a, s', ha, hPa, hQb⟩

theorem imp (hx : EndsIn P x) (h : ∀ a, P a → Q a) : EndsIn Q x := by
  intro s
  obtain ⟨a, s', ha, hP⟩ := hx s
  exact ⟨a, s', ha, h a hP⟩

end EndsIn

end Ferrofin.Lib
