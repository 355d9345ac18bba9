import Ferrofin.Lib.KeyedMap

/-!
# Lists with an index of their keys

An `Indexed` is a list in the order of insertion whose entries have distinct keys, with a
map from each key to its position.  An insertion under a key that is there replaces that
entry in place.
-/

namespace Ferrofin.Lib

/-- Entries in order, and where each key stands among them. -/
structure Indexed {κ α : Type*} [DecidableEq κ] (key : α → κ) where
  items : List α
  index : KeyedMap κ Nat
  /-- The index names the position of every entry. -/
  indexed : ∀ k n, index.lookup k = some n ↔ ∃ a, items[n]? = some a ∧ key a = k

namespace Indexed

variable {κ α : Type*} [DecidableEq κ] {key : α → κ}

def empty : Indexed key where
  items := []
  index := ∅
  indexed k n := by
    constructor
    · intro h
      cases h
    · rintro ⟨a, ha, -⟩
      cases ha

theorem indexed_set (b : Indexed key) (a : α) {i : Nat}
    (h : b.index.lookup (key a) = some i) (k : κ) (n : Nat) :
    b.index.lookup k = some n ↔ ∃ c, (b.items.set i a)[n]? = some c ∧ key c = k := by
  obtain ⟨old, hold, hkey⟩ := (b.indexed _ _).mp h
  have hlt : i < b.items.length := (List.getElem?_eq_some_iff.mp hold).1
  rw [b.indexed, List.getElem?_set]
  split
  · next hn =>
    subst hn
    constructor
    · rintro ⟨c, hc, rfl⟩
      cases hold.symm.trans hc
      exact ⟨a, rfl, hkey.symm⟩
    · rintro ⟨c, hc, rfl⟩
      cases hc
      exact ⟨old, hold, hkey⟩
  · rfl

theorem indexed_append (b : Indexed key) (a : α) (h : b.index.lookup (key a) = none) (k : κ)
    (n : Nat) :
    (b.index.insert (key a) b.items.length).lookup k = some n ↔
      ∃ c, (b.items ++ [a])[n]? = some c ∧ key c = k := by
  rw [KeyedMap.lookup_insert_eq]
  split
  · next hk =>
    subst hk
    constructor
    · intro hn
      cases hn
      exact ⟨a, List.getElem?_concat_length, rfl⟩
    · rintro ⟨c, hc, hkey⟩
      by_cases hn : n < b.items.length
      · rw [List.getElem?_append_left hn] at hc
        have hlookup := (b.indexed (key a) n).mpr ⟨c, hc, hkey⟩
        rw [h] at hlookup
        cases hlookup
      · have hlt := (List.getElem?_eq_some_iff.mp hc).1
        rw [List.length_append, List.length_singleton] at hlt
        exact congrArg some (by omega)
  · next hk =>
    rw [b.indexed]
    constructor
    · rintro ⟨c, hc, hkey⟩
      have hn := (List.getElem?_eq_some_iff.mp hc).1
      exact ⟨c, by rw [List.getElem?_append_left hn, hc], hkey⟩
    · rintro ⟨c, hc, hkey⟩
      by_cases hn : n < b.items.length
      · rw [List.getElem?_append_left hn] at hc
        exact ⟨c, hc, hkey⟩
      · have hlt := (List.getElem?_eq_some_iff.mp hc).1
        rw [List.length_append, List.length_singleton] at hlt
        obtain rfl : n = b.items.length := by omega
        rw [List.getElem?_concat_length] at hc
        cases hc
        exact absurd hkey.symm hk

def insert (b : Indexed key) (a : α) : Indexed key :=
  match h : b.index.lookup (key a) with
  | some n => ⟨b.items.set n a, b.index, b.indexed_set a h⟩
  | none => ⟨b.items ++ [a], b.index.insert (key a) b.items.length, b.indexed_append a h⟩

def Names (b : Indexed key) (k : κ) : Prop := ∃ a ∈ b.items, key a = k

theorem isSome_lookup_iff (b : Indexed key) (k : κ) :
    (b.index.lookup k).isSome = true ↔ b.Names k := by
  constructor
  · intro h
    obtain ⟨n, hn⟩ := Option.isSome_iff_exists.mp h
    obtain ⟨a, ha, hkey⟩ := (b.indexed k n).mp hn
    exact ⟨a, List.mem_of_getElem? ha, hkey⟩
  · rintro ⟨a, ha, hkey⟩
    obtain ⟨n, hn⟩ := List.mem_iff_getElem?.mp ha
    rw [(b.indexed k n).mpr ⟨a, hn, hkey⟩]
    rfl

theorem insert_of_some (b : Indexed key) (a : α) {n : Nat}
    (h : b.index.lookup (key a) = some n) : (b.insert a).items = b.items.set n a := by
  rw [insert]
  split
  · next n' h' =>
    cases h.symm.trans h'
    rfl
  · next h' => cases h.symm.trans h'

theorem insert_of_none (b : Indexed key) (a : α) (h : b.index.lookup (key a) = none) :
    (b.insert a).items = b.items ++ [a] := by
  rw [insert]
  split
  · next h' => cases h.symm.trans h'
  · rfl

theorem names_insert (b : Indexed key) (a : α) (k : κ) :
    (b.insert a).Names k ↔ k = key a ∨ b.Names k := by
  cases h : b.index.lookup (key a) with
  | none =>
    rw [Names, b.insert_of_none a h]
    constructor
    · rintro ⟨c, hc, rfl⟩
      rcases List.mem_append.mp hc with hc | hc
      · exact .inr ⟨c, hc, rfl⟩
      · exact .inl (congrArg key (List.mem_singleton.mp hc))
    · rintro (rfl | ⟨c, hc, rfl⟩)
      · exact ⟨a, List.mem_append_right _ List.mem_cons_self, rfl⟩
      · exact ⟨c, List.mem_append_left _ hc, rfl⟩
  | some n =>
    obtain ⟨old, hold, hkey⟩ := (b.indexed _ _).mp h
    have hlt := (List.getElem?_eq_some_iff.mp hold).1
    rw [Names, b.insert_of_some a h]
    constructor
    · rintro ⟨c, hc, rfl⟩
      rcases List.mem_or_eq_of_mem_set hc with hc | rfl
      · exact .inr ⟨c, hc, rfl⟩
      · exact .inl rfl
    · rintro (rfl | ⟨c, hc, rfl⟩)
      · exact ⟨a, List.mem_set hlt a, rfl⟩
      · obtain ⟨j, hj⟩ := List.mem_iff_getElem?.mp hc
        by_cases hjn : n = j
        · subst hjn
          cases hold.symm.trans hj
          exact ⟨a, List.mem_set hlt a, hkey.symm⟩
        · refine ⟨c, List.mem_iff_getElem?.mpr ⟨j, ?_⟩, rfl⟩
          rw [List.getElem?_set, if_neg hjn, hj]

theorem length_insert_le (b : Indexed key) (a : α) :
    (b.insert a).items.length ≤ b.items.length + 1 := by
  cases h : b.index.lookup (key a) with
  | none => rw [b.insert_of_none a h, List.length_append, List.length_singleton]
  | some n =>
    rw [b.insert_of_some a h, List.length_set]
    exact Nat.le_succ _

end Indexed

end Ferrofin.Lib
