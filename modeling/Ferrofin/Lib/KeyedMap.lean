import Mathlib.Data.List.AList
import Mathlib.Algebra.GroupWithZero.Nat

/-!
# Finite maps

A `KeyedMap` is Mathlib's association list with values of one type.  This file
adds what a program does to a hash map and Mathlib does not have: looking a key
up after an update in one equation, mapping every value (`mapValues`), keeping the
entries that pass a test (`retain`), listing the values (`values`), adding a batch
of entries (`extend`), and summing a measure over the values (`total`), with the
equations that follow an insertion or an erasure.
-/

namespace Ferrofin.Lib

open List (map_cons sum_cons)

/-- A finite map from `κ` to `ν`. -/
abbrev KeyedMap (κ ν : Type*) [DecidableEq κ] := AList (fun _ : κ => ν)

namespace KeyedMap

variable {κ ν μ : Type*} [DecidableEq κ]

theorem lookup_insert_eq (m : KeyedMap κ ν) (k k' : κ) (v : ν) :
    (m.insert k v).lookup k' = if k' = k then some v else m.lookup k' := by
  split
  · next h => rw [h, AList.lookup_insert]
  · next h => exact AList.lookup_insert_ne h

theorem lookup_insert_cases {m : KeyedMap κ ν} {k k' : κ} {v v' : ν}
    (h : (m.insert k v).lookup k' = some v') :
    k' = k ∧ v = v' ∨ k' ≠ k ∧ m.lookup k' = some v' := by
  rw [lookup_insert_eq] at h
  split at h
  · next hk => exact .inl ⟨hk, Option.some.inj h⟩
  · next hk => exact .inr ⟨hk, h⟩

theorem lookup_erase_eq (m : KeyedMap κ ν) (k k' : κ) :
    (m.erase k).lookup k' = if k' = k then none else m.lookup k' := by
  split
  · next h => rw [h, AList.lookup_erase]
  · next h => exact AList.lookup_erase_ne h

theorem mem_of_lookup {m : KeyedMap κ ν} {k : κ} {v : ν} (h : m.lookup k = some v) : k ∈ m :=
  AList.lookup_isSome.mp (by rw [h]; rfl)

theorem exists_lookup_eq_none (m : KeyedMap Nat ν) : ∃ k, m.lookup k = none := by
  refine ⟨m.keys.max?.getD 0 + 1, AList.lookup_eq_none.mpr fun hmem => ?_⟩
  have hle := List.le_max?_getD_of_mem (k := 0) (AList.mem_keys.mp hmem)
  omega

/-! ### Mapping the values -/

def mapValues (f : κ → ν → μ) (m : KeyedMap κ ν) : KeyedMap κ μ where
  entries := m.entries.map fun e => ⟨e.1, f e.1 e.2⟩
  nodupKeys := by
    have h := m.nodupKeys
    simpa [List.NodupKeys, List.keys, Function.comp_def] using h

theorem dlookup_map (f : κ → ν → μ) (k : κ) (l : List (Sigma fun _ : κ => ν)) :
    (l.map fun e => (⟨e.1, f e.1 e.2⟩ : Sigma fun _ : κ => μ)).dlookup k
      = (l.dlookup k).map (f k) := by
  induction l with
  | nil => rfl
  | cons e l ih =>
    obtain ⟨a, v⟩ := e
    by_cases h : a = k
    · subst h; simp
    · rw [map_cons, List.dlookup_cons_ne _ _ (Ne.symm h),
        List.dlookup_cons_ne _ _ (Ne.symm h), ih]

@[simp] theorem lookup_mapValues (f : κ → ν → μ) (m : KeyedMap κ ν) (k : κ) :
    (mapValues f m).lookup k = (m.lookup k).map (f k) :=
  dlookup_map f k m.entries

/-! ### Keeping some entries -/

def retain (test : κ → ν → Bool) (m : KeyedMap κ ν) : KeyedMap κ ν where
  entries := m.entries.filter fun e => test e.1 e.2
  nodupKeys := m.nodupKeys.sublist List.filter_sublist

theorem lookup_retain (test : κ → ν → Bool) (m : KeyedMap κ ν) (k : κ) :
    (retain test m).lookup k = (m.lookup k).filter (test k) := by
  refine Option.ext fun v => ?_
  rw [Option.filter_eq_some_iff]
  have hmem : v ∈ (retain test m).lookup k ↔ v ∈ m.lookup k ∧ test k v = true := by
    rw [AList.mem_lookup_iff, AList.mem_lookup_iff]
    exact List.mem_filter
  exact hmem

/-! ### The values -/

def values (m : KeyedMap κ ν) : List ν := m.entries.map fun e => e.2

theorem values_insert_of_notMem {m : KeyedMap κ ν} {k : κ} (v : ν) (h : k ∉ m) :
    values (m.insert k v) = v :: m.values := by
  rw [values, AList.entries_insert_of_notMem h, map_cons]
  rfl

theorem perm_values_of_lookup {m : KeyedMap κ ν} {k : κ} {v : ν} (h : m.lookup k = some v) :
    m.values.Perm (v :: values (m.erase k)) := by
  have hk : k ∈ m.entries.keys := mem_of_lookup h
  obtain ⟨w, l₁, l₂, -, hl, he⟩ := List.exists_of_kerase hk
  have hw : w = v := by
    have hmem : (⟨k, w⟩ : Sigma fun _ : κ => ν) ∈ m.entries := by rw [hl]; simp
    have hlookup : m.lookup k = some w := AList.mem_lookup_iff.mpr hmem
    exact Option.some.inj (hlookup.symm.trans h)
  have herase : (m.erase k).entries = l₁ ++ l₂ := he
  rw [values, values, herase, hl, hw, List.map_append, List.map_append, map_cons]
  exact List.perm_middle

theorem mem_values_of_lookup {m : KeyedMap κ ν} {k : κ} {v : ν} (h : m.lookup k = some v) :
    v ∈ m.values := (perm_values_of_lookup h).mem_iff.mpr List.mem_cons_self

theorem exists_lookup_of_mem_values {m : KeyedMap κ ν} {v : ν} (h : v ∈ m.values) :
    ∃ k, m.lookup k = some v := by
  obtain ⟨e, he, rfl⟩ := List.mem_map.mp h
  exact ⟨e.1, AList.mem_lookup_iff.mpr he⟩

theorem count_values_le_one [BEq ν] [LawfulBEq ν] {m : KeyedMap κ ν} {v : ν}
    (h : ∀ k k', m.lookup k = some v → m.lookup k' = some v → k = k') :
    m.values.count v ≤ 1 := by
  by_cases hv : v ∈ m.values
  · obtain ⟨k, hk⟩ := exists_lookup_of_mem_values hv
    have hnot : v ∉ values (m.erase k) := by
      intro hmem
      obtain ⟨k', hk'⟩ := exists_lookup_of_mem_values hmem
      rw [lookup_erase_eq] at hk'
      split at hk'
      · cases hk'
      · next hne => exact hne (h k' k hk' hk)
    rw [(perm_values_of_lookup hk).count_eq, List.count_cons_self, List.count_eq_zero.mpr hnot]
  · rw [List.count_eq_zero.mpr hv]
    exact Nat.zero_le 1

theorem values_mapValues (f : ν → μ) (m : KeyedMap κ ν) :
    values (mapValues (fun _ => f) m) = m.values.map f := by
  simp [values, mapValues, Function.comp_def]

theorem flatMap_entries {m : KeyedMap κ ν} {k : κ} {v : ν} (h : m.lookup k = some v)
    {f : (Sigma fun _ : κ => ν) → List μ}
    (hf : ∀ k' v', m.lookup k' = some v' → k' ≠ k → f ⟨k', v'⟩ = []) :
    m.entries.flatMap f = f ⟨k, v⟩ := by
  have hmem : (⟨k, v⟩ : Sigma fun _ : κ => ν) ∈ m.entries := AList.mem_lookup_iff.mp h
  obtain ⟨l₁, l₂, hl⟩ := List.append_of_mem hmem
  have hnodup : (m.entries.map Sigma.fst).Nodup := m.nodupKeys
  have hnil : ∀ e ∈ m.entries, e.1 ≠ k → f e = [] := fun e he =>
    hf e.1 e.2 (AList.mem_lookup_iff.mpr he)
  rw [hl, List.map_append, map_cons] at hnodup
  obtain ⟨-, hcons, hdisj⟩ := List.nodup_append.mp hnodup
  have h₁ : l₁.flatMap f = [] := List.flatMap_eq_nil_iff.mpr fun e he =>
    hnil e (by rw [hl]; exact List.mem_append_left _ he) fun hk =>
      hdisj e.1 (List.mem_map_of_mem he) k List.mem_cons_self hk
  have h₂ : l₂.flatMap f = [] := List.flatMap_eq_nil_iff.mpr fun e he =>
    hnil e (by rw [hl]; exact List.mem_append_right _ (List.mem_cons_of_mem _ he)) fun hk => by
      have hkey : e.1 ∈ l₂.map Sigma.fst := List.mem_map_of_mem he
      exact (List.nodup_cons.mp hcons).1 (hk ▸ hkey)
  rw [hl, List.flatMap_append, List.flatMap_cons, h₁, h₂, List.nil_append, List.append_nil]

/-! ### Adding a batch -/

/-- Inserts the entries in order, each over what the key held. -/
def extend (m : KeyedMap κ ν) (entries : List (κ × ν)) : KeyedMap κ ν :=
  entries.foldl (fun m e => m.insert e.1 e.2) m

theorem lookup_extend_of_forall {m : KeyedMap κ ν} {entries : List (κ × ν)} {k : κ} {v : ν}
    (hvalue : ∀ e ∈ entries, e.1 = k → e.2 = v)
    (h : m.lookup k = some v ∨ ∃ e ∈ entries, e.1 = k) :
    (m.extend entries).lookup k = some v := by
  induction entries generalizing m with
  | nil => exact h.resolve_right fun ⟨_, he, _⟩ => by cases he
  | cons e entries ih =>
    rw [List.forall_mem_cons] at hvalue
    refine ih hvalue.2 ?_
    by_cases hk : e.1 = k
    · refine .inl ?_
      rw [← hk, AList.lookup_insert, hvalue.1 hk]
    · rw [lookup_insert_eq, if_neg fun heq => hk heq.symm]
      refine h.imp_right ?_
      rintro ⟨e', he', hk'⟩
      rcases List.mem_cons.mp he' with rfl | he'
      · exact absurd hk' hk
      · exact ⟨e', he', hk'⟩

/-! ### Summing over the values -/

/-- The sum of `f` over the values. -/
def total (f : ν → Nat) (m : KeyedMap κ ν) : Nat := (m.entries.map fun e => f e.2).sum

theorem sum_kerase (f : ν → Nat) (k : κ) (v : ν) (l : List (Sigma fun _ : κ => ν))
    (h : l.dlookup k = some v) :
    (l.map fun e => f e.2).sum = f v + ((l.kerase k).map fun e => f e.2).sum := by
  induction l with
  | nil => simp at h
  | cons e l ih =>
    obtain ⟨a, w⟩ := e
    by_cases ha : k = a
    · subst ha
      rw [List.dlookup_cons_eq] at h
      cases h
      rw [List.kerase_cons_eq (show k = (⟨k, v⟩ : Sigma fun _ : κ => ν).1 from rfl)]
      simp
    · rw [List.dlookup_cons_ne _ _ ha] at h
      rw [List.kerase_cons_ne ha, map_cons, sum_cons, ih h, map_cons, sum_cons]
      omega

theorem total_eq_add_erase (f : ν → Nat) {m : KeyedMap κ ν} {k : κ} {v : ν}
    (h : m.lookup k = some v) : total f m = f v + total f (m.erase k) :=
  sum_kerase f k v m.entries h

theorem total_insert (f : ν → Nat) (m : KeyedMap κ ν) (k : κ) (v : ν) :
    total f (m.insert k v) = f v + total f (m.erase k) := by
  rw [total, AList.entries_insert, map_cons, sum_cons]
  rfl

theorem total_insert_add (f : ν → Nat) {m : KeyedMap κ ν} {k : κ} {v w : ν}
    (h : m.lookup k = some v) : total f (m.insert k w) + f v = total f m + f w := by
  rw [total_insert, total_eq_add_erase f h]
  omega

theorem total_insert_of_lookup_none (f : ν → Nat) {m : KeyedMap κ ν} {k : κ} {v : ν}
    (h : m.lookup k = none) : total f (m.insert k v) = f v + total f m := by
  have hk : k ∉ m := AList.lookup_eq_none.mp h
  rw [total, AList.entries_insert_of_notMem hk, map_cons, sum_cons]
  rfl

theorem total_insert_of_eq {f : ν → Nat} {m : KeyedMap κ ν} {k : κ} {v w : ν}
    (h : m.lookup k = some v) (heq : f w = f v) : total f (m.insert k w) = total f m := by
  rw [total_insert, heq, total_eq_add_erase f h]

theorem total_insert_le_of_le {f : ν → Nat} {m : KeyedMap κ ν} {k : κ} {v w : ν}
    (h : m.lookup k = some v) (hle : f w ≤ f v) : total f (m.insert k w) ≤ total f m := by
  rw [total_insert, total_eq_add_erase f h]
  exact Nat.add_le_add_right hle _

theorem total_erase_le (f : ν → Nat) (m : KeyedMap κ ν) (k : κ) :
    total f (m.erase k) ≤ total f m := by
  cases h : m.lookup k with
  | some v =>
    rw [total_eq_add_erase f h]
    omega
  | none =>
    have hsame : m.entries.kerase k = m.entries :=
      List.kerase_of_notMem_keys (AList.lookup_eq_none.mp h)
    exact Nat.le_of_eq (congrArg (fun l => (l.map fun e => f e.2).sum) hsame)

theorem total_insert_le (f : ν → Nat) (m : KeyedMap κ ν) (k : κ) (v : ν) :
    total f (m.insert k v) ≤ f v + total f m := by
  rw [total_insert]
  exact Nat.add_le_add_left (total_erase_le f m k) _

theorem total_retain_le (f : ν → Nat) (test : κ → ν → Bool) (m : KeyedMap κ ν) :
    total f (retain test m) ≤ total f m := by
  have hlist : ∀ l : List (Sigma fun _ : κ => ν),
      ((l.filter fun e => test e.1 e.2).map fun e => f e.2).sum ≤ (l.map fun e => f e.2).sum := by
    intro l
    induction l with
    | nil => exact Nat.le_refl _
    | cons e l ih =>
      rw [List.filter_cons]
      split
      · simp only [map_cons, sum_cons]
        omega
      · simp only [map_cons, sum_cons]
        omega
  exact hlist m.entries

theorem total_le_total {f g : ν → Nat} (h : ∀ v, f v ≤ g v) (m : KeyedMap κ ν) :
    total f m ≤ total g m := by
  rw [total, total]
  induction m.entries with
  | nil => exact Nat.le_refl _
  | cons e l ih =>
    have := h e.2
    simp only [map_cons, sum_cons]
    omega

theorem exists_of_total_pos {f : ν → Nat} {m : KeyedMap κ ν} (h : 0 < total f m) :
    ∃ k v, m.lookup k = some v ∧ 0 < f v := by
  obtain ⟨n, hn, hpos⟩ := List.sum_pos_iff_exists_pos_nat.mp h
  obtain ⟨e, he, rfl⟩ := List.mem_map.mp hn
  exact ⟨e.1, e.2, AList.mem_lookup_iff.mpr he, hpos⟩

theorem total_mapValues (f : μ → Nat) (g : κ → ν → μ) (m : KeyedMap κ ν) :
    total f (mapValues g m) = (m.entries.map fun e => f (g e.1 e.2)).sum := by
  simp [total, mapValues, Function.comp_def]

theorem total_mapValues_of_eq {f : μ → Nat} {f' : ν → Nat} {g : κ → ν → μ}
    (h : ∀ k v, f (g k v) = f' v) (m : KeyedMap κ ν) : total f (mapValues g m) = total f' m := by
  simp only [total_mapValues, h]
  rfl

end KeyedMap

end Ferrofin.Lib
