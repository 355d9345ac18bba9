import Ferrofin.Lib.ModifyFirst
import Ferrofin.Lib.Partners
import Mathlib.Data.List.Induction

/-!
# Updating or adding entries

A program that keeps a map as a list of entries looks for the first entry of a key, updates its
value where that may be replaced, and adds an entry where there is none (`upsert`).  Keys are
compared by their class `cls`.

The entries of a class are updated on their own (`ofKey_upsertAll`): the first of them takes the
last value (`upsertAll_replace`), or, where only some values are replaced, the first one
(`upsertAll_fill`).  Where every class is there, no entry is added (`map_upsertAll`).
-/

namespace Ferrofin.Lib

variable {κ ν γ : Type*} [DecidableEq γ] (cls : κ → γ) (replaceable : κ × ν → Bool)

def upsert (out : List (κ × ν)) (e : κ × ν) : List (κ × ν) :=
  if out.any fun x => cls x.1 = cls e.1 then
    modifyFirst (fun x => cls x.1 = cls e.1)
      (fun x => if replaceable x then (x.1, e.2) else x) out
  else out ++ [e]

def upsertAll (source out : List (κ × ν)) : List (κ × ν) :=
  source.foldl (upsert cls replaceable) out

def entryClass (e : κ × ν) : γ := cls e.1

variable {cls replaceable} {source out : List (κ × ν)} {e x : κ × ν} {c : γ}

theorem upsert_cons_pos (h : cls x.1 = cls e.1) (out : List (κ × ν)) :
    upsert cls replaceable (x :: out) e =
      (if replaceable x then (x.1, e.2) else x) :: out := by
  rw [upsert, if_pos, modifyFirst, if_pos (decide_eq_true h)]
  rw [List.any_cons, decide_eq_true h, Bool.true_or]

theorem upsert_cons_neg (h : cls x.1 ≠ cls e.1) (out : List (κ × ν)) :
    upsert cls replaceable (x :: out) e = x :: upsert cls replaceable out e := by
  rw [upsert, upsert, List.any_cons, decide_eq_false h, Bool.false_or]
  split
  · rw [modifyFirst, if_neg (by simpa using h)]
  · rfl

theorem ofKey_upsert (out : List (κ × ν)) (e : κ × ν) (c : γ) :
    ofKey (entryClass cls) c (upsert cls replaceable out e) =
      if entryClass cls e = c then upsert cls replaceable (ofKey (entryClass cls) c out) e
      else ofKey (entryClass cls) c out := by
  induction out with
  | nil =>
    by_cases hc : entryClass cls e = c
    · rw [if_pos hc]
      exact ofKey_cons_pos hc []
    · rw [if_neg hc]
      exact ofKey_cons_neg hc []
  | cons x out ih =>
    by_cases hx : cls x.1 = cls e.1
    · have hnew : entryClass cls (if replaceable x then (x.1, e.2) else x) = cls x.1 := by
        split <;> rfl
      rw [upsert_cons_pos hx]
      by_cases hc : entryClass cls e = c
      · have hxc : entryClass cls x = c := hx.trans hc
        rw [if_pos hc, ofKey_cons_pos (hnew.trans hxc), ofKey_cons_pos hxc, upsert_cons_pos hx]
      · have hxc : entryClass cls x ≠ c := fun h => hc (hx.symm.trans h)
        rw [if_neg hc, ofKey_cons_neg (hnew ▸ hxc), ofKey_cons_neg hxc]
    · rw [upsert_cons_neg hx]
      by_cases hxc : entryClass cls x = c
      · have hc : entryClass cls e ≠ c := fun h => hx (hxc.trans h.symm)
        rw [if_neg hc, ofKey_cons_pos hxc, ofKey_cons_pos hxc, ih, if_neg hc]
      · rw [ofKey_cons_neg hxc, ofKey_cons_neg hxc, ih]

theorem upsertAll_cons (e : κ × ν) (source out : List (κ × ν)) :
    upsertAll cls replaceable (e :: source) out =
      upsertAll cls replaceable source (upsert cls replaceable out e) := rfl

theorem upsertAll_concat (source : List (κ × ν)) (e : κ × ν) (out : List (κ × ν)) :
    upsertAll cls replaceable (source ++ [e]) out =
      upsert cls replaceable (upsertAll cls replaceable source out) e := List.foldl_append

theorem ofKey_upsertAll (source out : List (κ × ν)) (c : γ) :
    ofKey (entryClass cls) c (upsertAll cls replaceable source out) =
      upsertAll cls replaceable (ofKey (entryClass cls) c source)
        (ofKey (entryClass cls) c out) := by
  induction source generalizing out with
  | nil => rfl
  | cons e source ih =>
    rw [upsertAll_cons, ih, ofKey_upsert]
    by_cases hc : entryClass cls e = c
    · rw [if_pos hc, ofKey_cons_pos hc]
      rfl
    · rw [if_neg hc, ofKey_cons_neg hc]

variable (replaceable) in
theorem map_upsert (h : entryClass cls e ∈ out.map (entryClass cls)) :
    (upsert cls replaceable out e).map (entryClass cls) = out.map (entryClass cls) := by
  induction out with
  | nil => cases h
  | cons x out ih =>
    by_cases hx : cls x.1 = cls e.1
    · rw [upsert_cons_pos hx, List.map_cons, List.map_cons]
      refine congrArg (· :: _) ?_
      split <;> rfl
    · rw [upsert_cons_neg hx, List.map_cons, List.map_cons, ih]
      exact (List.mem_cons.mp h).resolve_left fun heq => hx heq.symm

theorem map_upsertAll (h : ∀ e ∈ source, entryClass cls e ∈ out.map (entryClass cls)) :
    (upsertAll cls replaceable source out).map (entryClass cls) = out.map (entryClass cls) := by
  induction source generalizing out with
  | nil => rfl
  | cons e source ih =>
    have he := map_upsert replaceable (h e List.mem_cons_self)
    rw [upsertAll_cons, ih, he]
    intro e' he'
    rw [he]
    exact h e' (List.mem_cons_of_mem _ he')

/-- What holds of the entries and of those they are updated with holds of the result. -/
theorem forall_mem_upsert {P : κ × ν → Prop} (hout : ∀ x ∈ out, P x) (he : P e)
    (hupdate : ∀ x : κ × ν, cls x.1 = cls e.1 → P (x.1, e.2)) :
    ∀ x ∈ upsert cls replaceable out e, P x := by
  induction out with
  | nil =>
    intro x hx
    rwa [List.mem_singleton.mp hx]
  | cons y out ih =>
    have htail : ∀ x ∈ out, P x := fun x hx => hout x (List.mem_cons_of_mem _ hx)
    by_cases hy : cls y.1 = cls e.1
    · rw [upsert_cons_pos hy]
      refine List.forall_mem_cons.mpr ⟨?_, htail⟩
      split
      · exact hupdate y hy
      · exact hout y List.mem_cons_self
    · rw [upsert_cons_neg hy]
      exact List.forall_mem_cons.mpr ⟨hout y List.mem_cons_self, ih htail⟩

theorem mem_upsert (h : x ∈ out) (hx : replaceable x = false) :
    x ∈ upsert cls replaceable out e := by
  induction out with
  | nil => cases h
  | cons y out ih =>
    by_cases hy : cls y.1 = cls e.1
    · rw [upsert_cons_pos hy]
      rcases List.mem_cons.mp h with rfl | h
      · rw [hx, if_neg Bool.false_ne_true]
        exact List.mem_cons_self
      · exact List.mem_cons_of_mem _ h
    · rw [upsert_cons_neg hy]
      rcases List.mem_cons.mp h with rfl | h
      · exact List.mem_cons_self
      · exact List.mem_cons_of_mem _ (ih h)

/-- An entry that may not be replaced stays. -/
theorem mem_upsertAll (h : x ∈ out) (hx : replaceable x = false) :
    x ∈ upsertAll cls replaceable source out := by
  induction source generalizing out with
  | nil => exact h
  | cons e source ih => exact ih (mem_upsert h hx)

/-- The first entry of a class takes the last value, where each may be replaced. -/
theorem upsertAll_replace (hrep : ∀ x, replaceable x = true) (hx : entryClass cls x = c)
    (hsource : ∀ e ∈ source, entryClass cls e = c) :
    upsertAll cls replaceable source (x :: out) =
      (x.1, (source.getLast?.map Prod.snd).getD x.2) :: out := by
  induction source using List.reverseRecOn with
  | nil => rfl
  | append_singleton source e ih =>
    have he : cls x.1 = cls e.1 :=
      hx.trans (hsource e (List.mem_append_right _ (List.mem_singleton.mpr rfl))).symm
    rw [upsertAll_concat, ih fun e' he' => hsource e' (List.mem_append_left _ he'),
      upsert_cons_pos (x := (x.1, (source.getLast?.map Prod.snd).getD x.2)) he, if_pos (hrep _),
      List.getLast?_concat]
    rfl

/-- Where the first entry of a class may not be replaced, nothing changes. -/
theorem upsertAll_keep (hrep : replaceable x = false) (hx : entryClass cls x = c)
    (hsource : ∀ e ∈ source, entryClass cls e = c) :
    upsertAll cls replaceable source (x :: out) = x :: out := by
  induction source with
  | nil => rfl
  | cons e source ih =>
    have he : cls x.1 = cls e.1 := hx.trans (hsource e List.mem_cons_self).symm
    rw [upsertAll_cons, upsert_cons_pos he, hrep, if_neg nofun]
    exact ih fun e' he' => hsource e' (List.mem_cons_of_mem _ he')

end Ferrofin.Lib
