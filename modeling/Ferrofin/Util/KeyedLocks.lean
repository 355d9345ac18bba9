import Ferrofin.Lib.KeyedLock
import Ferrofin.Lib.Machine

/-!
# The keyed locks

`KeyedLocks` (`keyed_locks.rs`) hands out a mutex for a key, behind an `Arc`, and
forgets the keys nobody uses: `get` drops every entry whose mutex only the map
refers to.  `keyedLocks` is the machine of all interleavings of `get`, of clones and
drops of the handles, and of tasks that enter and leave the critical section.

A mutex is named by the number of its allocation.
-/

namespace Ferrofin.Util.KeyedLocks

open Lib
open Lib.KeyedMap (lookup_erase_eq lookup_insert_eq)

/-- A handle to a mutex, for a key (history); `inside` when its owner has locked it. -/
structure Handle where
  mutex : Nat
  key : String
  inside : Bool := false

structure World where
  locks : KeyedMap String Nat := ∅
  mutexes : List Bool := []
  handles : KeyedMap Nat Handle := ∅

/-- What happens.  A new handle has a number of its own; an owned guard is a handle
that is inside, and dropping it unlocks. -/
inductive Event where
  | get (i : Nat) (key : String)
  | clone (i j : Nat)
  | lock (i : Nat)
  | unlock (i : Nat)
  | drop (i : Nat)

def Handle.held (h : Handle) : Option String := if h.inside then some h.key else none

namespace World

def strongCount (w : World) (mutex : Nat) : Nat :=
  (KeyedMap.values w.locks).count mutex +
    (KeyedMap.values w.handles).countP fun h => h.mutex == mutex

/-- The entries `get` keeps. -/
def kept (w : World) (key : String) : KeyedMap String Nat :=
  KeyedMap.retain (fun k mutex => k == key || decide (1 < w.strongCount mutex)) w.locks

def get (w : World) (i : Nat) (key : String) : World :=
  match (w.kept key).lookup key with
  | some mutex => { w with
      locks := w.kept key
      handles := w.handles.insert i { mutex := mutex, key := key } }
  | none => {
      locks := (w.kept key).insert key w.mutexes.length
      mutexes := w.mutexes ++ [false]
      handles := w.handles.insert i { mutex := w.mutexes.length, key := key } }

/-- The mutex of a handle is unlocked, if its owner had it locked. -/
def release (w : World) (h : Handle) : List Bool :=
  if h.inside then w.mutexes.set h.mutex false else w.mutexes

def step (w : World) : Event → Option World
  | .get i key => if (w.handles.lookup i).isSome then none else some (w.get i key)
  | .clone i j =>
    if (w.handles.lookup i).isSome then none
    else (w.handles.lookup j).map fun h =>
      { w with handles := w.handles.insert i { h with inside := false } }
  | .lock i => (w.handles.lookup i).bind fun h =>
    if w.mutexes[h.mutex]? = some false then some { w with
      mutexes := w.mutexes.set h.mutex true
      handles := w.handles.insert i { h with inside := true } }
    else none
  | .unlock i => (w.handles.lookup i).bind fun h =>
    if h.inside then some { w with
      mutexes := w.release h
      handles := w.handles.insert i { h with inside := false } }
    else none
  | .drop i => (w.handles.lookup i).map fun h =>
    { w with mutexes := w.release h, handles := w.handles.erase i }

end World

def keyedLocks : Machine World Event where
  init := {}
  step := World.step

namespace World

/-! ### The invariant -/

/-- Every handle is for the mutex the map has under its key, different keys have
different mutexes, and a mutex is locked while the owner of a handle is inside. -/
structure Sound (w : World) : Prop where
  mapped : ∀ i h, w.handles.lookup i = some h → w.locks.lookup h.key = some h.mutex
  distinct : ∀ k k' mutex, w.locks.lookup k = some mutex → w.locks.lookup k' = some mutex → k = k'
  allocated : ∀ k mutex, w.locks.lookup k = some mutex → mutex < w.mutexes.length
  locked : ∀ i h, w.handles.lookup i = some h → h.inside = true →
    w.mutexes[h.mutex]? = some true
  exclusive : Exclusive Handle.held w.handles

variable {w w' : World} {i : Nat} {h : Handle} {key : String}

theorem Sound.init : Sound {} where
  mapped i h hi := by cases hi
  distinct k k' mutex hk := by cases hk
  allocated k mutex hk := by cases hk
  locked i h hi := by cases hi
  exclusive := .empty

theorem Sound.key_eq_iff (hs : w.Sound) {j : Nat} {b : Handle} (hi : w.handles.lookup i = some h)
    (hj : w.handles.lookup j = some b) : h.key = b.key ↔ h.mutex = b.mutex := by
  have hh := hs.mapped i h hi
  have hb := hs.mapped j b hj
  constructor
  · intro he
    rw [he, hb] at hh
    exact (Option.some.inj hh).symm
  · intro he
    rw [he] at hh
    exact hs.distinct _ _ _ hh hb

theorem one_lt_strongCount (hi : w.handles.lookup i = some h)
    (hk : w.locks.lookup key = some h.mutex) : 1 < w.strongCount h.mutex := by
  have hmap : 0 < (KeyedMap.values w.locks).count h.mutex :=
    List.count_pos_iff.mpr (KeyedMap.mem_values_of_lookup hk)
  have hhandle : 0 < (KeyedMap.values w.handles).countP fun b => b.mutex == h.mutex :=
    List.countP_pos_iff.mpr ⟨h, KeyedMap.mem_values_of_lookup hi, beq_self_eq_true _⟩
  rw [strongCount]
  omega

/-! ### What `get` keeps -/

theorem lookup_kept_self (w : World) (key : String) :
    (w.kept key).lookup key = w.locks.lookup key := by
  rw [kept, KeyedMap.lookup_retain]
  cases w.locks.lookup key with
  | none => rfl
  | some mutex => simp

theorem lookup_of_lookup_kept {k : String} {mutex : Nat}
    (hk : (w.kept key).lookup k = some mutex) :
    w.locks.lookup k = some mutex ∧ (k = key ∨ 1 < w.strongCount mutex) := by
  rw [kept, KeyedMap.lookup_retain, Option.filter_eq_some_iff] at hk
  simpa using hk

/-- **An entry somebody has a handle for is kept.** -/
theorem Sound.lookup_kept (hs : w.Sound) (hi : w.handles.lookup i = some h) (key : String) :
    (w.kept key).lookup h.key = some h.mutex := by
  have hk := hs.mapped i h hi
  rw [kept, KeyedMap.lookup_retain, hk, Option.filter_eq_some_iff]
  refine ⟨rfl, ?_⟩
  simp only [one_lt_strongCount hi hk, decide_true, Bool.or_true]

/-- `get`, by whether the key is known. -/
theorem get_cases (w : World) (i : Nat) (key : String) :
    (∃ mutex, w.locks.lookup key = some mutex ∧ w.get i key = { w with
      locks := w.kept key
      handles := w.handles.insert i { mutex := mutex, key := key } }) ∨
    (w.locks.lookup key = none ∧ w.get i key = {
      locks := (w.kept key).insert key w.mutexes.length
      mutexes := w.mutexes ++ [false]
      handles := w.handles.insert i { mutex := w.mutexes.length, key := key } }) := by
  rw [get, lookup_kept_self]
  cases w.locks.lookup key with
  | some mutex => exact .inl ⟨mutex, rfl, rfl⟩
  | none => exact .inr ⟨rfl, rfl⟩

/-! ### One step -/

theorem Exclusive.outside {handles : KeyedMap Nat Handle} (he : Exclusive Handle.held handles)
    (hout : h.inside = false) : Exclusive Handle.held (handles.insert i h) := by
  refine he.insert fun k hk => ?_
  rw [Handle.held, hout] at hk
  cases hk

theorem Sound.get (hs : w.Sound) (i : Nat) (key : String) : (w.get i key).Sound := by
  rcases w.get_cases i key with ⟨mutex, hmutex, he⟩ | ⟨hnone, he⟩ <;> rw [he]
  · refine ⟨fun j b hb => ?_, fun k k' m hk hk' => ?_, fun k m hk => ?_, fun j b hb hin => ?_,
      Exclusive.outside hs.exclusive rfl⟩
    · rw [lookup_insert_eq] at hb
      split at hb
      · cases hb
        exact (w.lookup_kept_self key).trans hmutex
      · exact hs.lookup_kept hb key
    · exact hs.distinct k k' m (lookup_of_lookup_kept hk).1 (lookup_of_lookup_kept hk').1
    · exact hs.allocated k m (lookup_of_lookup_kept hk).1
    · rw [lookup_insert_eq] at hb
      split at hb
      · cases hb
        cases hin
      · exact hs.locked j b hb hin
  · -- a mutex of its own, under a key the map did not have
    have hold : ∀ k m, (w.kept key).lookup k = some m → m < w.mutexes.length :=
      fun k m hk => hs.allocated k m (lookup_of_lookup_kept hk).1
    refine ⟨fun j b hb => ?_, fun k k' m hk hk' => ?_, fun k m hk => ?_, fun j b hb hin => ?_,
      Exclusive.outside hs.exclusive rfl⟩
    · rw [lookup_insert_eq] at hb ⊢
      split at hb
      · cases hb
        exact if_pos rfl
      · have hmapped := hs.mapped j b hb
        rw [if_neg (fun hk => by rw [hk, hnone] at hmapped; cases hmapped)]
        exact hs.lookup_kept hb key
    · rw [lookup_insert_eq] at hk hk'
      split at hk <;> split at hk'
      · next h1 h2 => exact h1.trans h2.symm
      · cases hk
        exact absurd (hold _ _ hk') (lt_irrefl _)
      · cases hk'
        exact absurd (hold _ _ hk) (lt_irrefl _)
      · exact hs.distinct k k' m (lookup_of_lookup_kept hk).1 (lookup_of_lookup_kept hk').1
    · rw [lookup_insert_eq] at hk
      rw [List.length_append, List.length_singleton]
      split at hk
      · cases hk
        exact Nat.lt_succ_self _
      · exact Nat.lt_succ_of_lt (hold k m hk)
    · rw [lookup_insert_eq] at hb
      split at hb
      · cases hb
        cases hin
      · have hlocked := hs.locked j b hb hin
        rw [List.getElem?_append_left (List.getElem?_eq_some_iff.mp hlocked).1]
        exact hlocked

theorem Sound.clone (hs : w.Sound) {j : Nat} (hj : w.handles.lookup j = some h) (i : Nat) :
    Sound { w with handles := w.handles.insert i { h with inside := false } } := by
  refine ⟨fun j' b hb => ?_, hs.distinct, hs.allocated, fun j' b hb hin => ?_,
    Exclusive.outside hs.exclusive rfl⟩
  · rw [lookup_insert_eq] at hb
    split at hb
    · cases hb
      exact hs.mapped j h hj
    · exact hs.mapped j' b hb
  · rw [lookup_insert_eq] at hb
    split at hb
    · cases hb
      cases hin
    · exact hs.locked j' b hb hin

/-- **Nobody is inside under the key of a free mutex.** -/
theorem Sound.lockFree_of_free (hs : w.Sound) (hi : w.handles.lookup i = some h)
    (hfree : w.mutexes[h.mutex]? = some false) : lockFree Handle.held h.key w.handles = true := by
  refine List.all_eq_true.mpr fun b hb => ?_
  obtain ⟨j, hj⟩ := KeyedMap.exists_lookup_of_mem_values hb
  rw [decide_eq_true_eq, Handle.held]
  split
  · next hin =>
    intro hk
    have hmutex := (hs.key_eq_iff hj hi).mp (Option.some.inj hk)
    have hlocked := hs.locked j b hj hin
    rw [hmutex, hfree] at hlocked
    cases hlocked
  · exact fun hk => by cases hk

theorem Sound.lock (hs : w.Sound) (hi : w.handles.lookup i = some h)
    (hfree : w.mutexes[h.mutex]? = some false) :
    Sound { w with
      mutexes := w.mutexes.set h.mutex true
      handles := w.handles.insert i { h with inside := true } } := by
  refine ⟨fun j b hb => ?_, hs.distinct, fun k m hk => ?_, fun j b hb hin => ?_,
    hs.exclusive.take (k := h.key) rfl (hs.lockFree_of_free hi hfree)⟩
  · rw [lookup_insert_eq] at hb
    split at hb
    · cases hb
      exact hs.mapped i h hi
    · exact hs.mapped j b hb
  · rw [List.length_set]
    exact hs.allocated k m hk
  · have hlt : h.mutex < w.mutexes.length := (List.getElem?_eq_some_iff.mp hfree).1
    rw [lookup_insert_eq] at hb
    rw [List.getElem?_set]
    split at hb
    · cases hb
      rw [if_pos rfl, if_pos hlt]
    · split
      · rfl
      · exact hs.locked j b hb hin

/-- A mutex that is unlocked is not that of another owner who is inside. -/
theorem Sound.locked_release (hs : w.Sound) (hi : w.handles.lookup i = some h) {j : Nat}
    {b : Handle} (hb : w.handles.lookup j = some b) (hne : j ≠ i) (hin : b.inside = true) :
    (w.release h)[b.mutex]? = some true := by
  rw [release]
  split
  · next hin' =>
    rw [List.getElem?_set, if_neg fun hmutex => hne ?_]
    · exact hs.locked j b hb hin
    · have hkey := (hs.key_eq_iff hi hb).mpr hmutex
      exact hs.exclusive j i b h hb hi h.key (by rw [Handle.held, if_pos hin, hkey])
        (by rw [Handle.held, if_pos hin'])
  · exact hs.locked j b hb hin

theorem length_release (w : World) (h : Handle) : (w.release h).length = w.mutexes.length := by
  rw [release]
  split
  · rw [List.length_set]
  · rfl

theorem Sound.unlock (hs : w.Sound) (hi : w.handles.lookup i = some h) :
    Sound { w with
      mutexes := w.release h
      handles := w.handles.insert i { h with inside := false } } := by
  refine ⟨fun j b hb => ?_, hs.distinct, fun k m hk => ?_, fun j b hb hin => ?_,
    Exclusive.outside hs.exclusive rfl⟩
  · rw [lookup_insert_eq] at hb
    split at hb
    · cases hb
      exact hs.mapped i h hi
    · exact hs.mapped j b hb
  · rw [length_release]
    exact hs.allocated k m hk
  · rw [lookup_insert_eq] at hb
    split at hb
    · cases hb
      cases hin
    · next hne => exact hs.locked_release hi hb hne hin

theorem Sound.drop (hs : w.Sound) (hi : w.handles.lookup i = some h) :
    Sound { w with mutexes := w.release h, handles := w.handles.erase i } := by
  refine ⟨fun j b hb => ?_, hs.distinct, fun k m hk => ?_, fun j b hb hin => ?_,
    hs.exclusive.erase⟩
  · rw [lookup_erase_eq] at hb
    split at hb
    · cases hb
    · exact hs.mapped j b hb
  · rw [length_release]
    exact hs.allocated k m hk
  · rw [lookup_erase_eq] at hb
    split at hb
    · cases hb
    · next hne => exact hs.locked_release hi hb hne hin

/-- **Every step keeps a handle's mutex in the map.** -/
theorem Sound.step {e : Event} (hs : w.Sound) (h : w.step e = some w') : w'.Sound := by
  cases e with
  | get i key =>
    rw [World.step] at h
    split at h
    · cases h
    · cases h
      exact hs.get i key
  | clone i j =>
    rw [World.step] at h
    split at h
    · cases h
    · obtain ⟨b, hb, rfl⟩ := Option.map_eq_some_iff.mp h
      exact hs.clone hb i
  | lock i =>
    obtain ⟨b, hb, h⟩ := Option.bind_eq_some_iff.mp h
    split at h
    · next hfree =>
      cases h
      exact hs.lock hb hfree
    · cases h
  | unlock i =>
    obtain ⟨b, hb, h⟩ := Option.bind_eq_some_iff.mp h
    split at h
    · cases h
      exact hs.unlock hb
    · cases h
  | drop i =>
    obtain ⟨b, hb, rfl⟩ := Option.map_eq_some_iff.mp h
    exact hs.drop hb

theorem sound_of_reachable (h : keyedLocks.Reachable w) : w.Sound :=
  h.invariant .init fun _ _ _ hs _ hstep => hs.step hstep

/-- **After `get` the map has no key that is not in use**, the requested one apart. -/
theorem Sound.used_of_get (hs : w.Sound) {k : String} (hk : k ∈ (w.get i key).locks) :
    k = key ∨ ∃ j b, w.handles.lookup j = some b ∧ b.key = k := by
  by_cases heq : k = key
  · exact .inl heq
  refine .inr ?_
  have hkept : ∃ mutex, (w.kept key).lookup k = some mutex := by
    rcases w.get_cases i key with ⟨_, -, he⟩ | ⟨-, he⟩ <;> rw [he] at hk <;>
      refine Option.isSome_iff_exists.mp (AList.lookup_isSome.mpr ?_)
    · exact hk
    · exact (AList.mem_insert _).mp hk |>.resolve_left heq
  obtain ⟨mutex, hmutex⟩ := hkept
  obtain ⟨hlookup, hcount⟩ := lookup_of_lookup_kept hmutex
  -- one reference is the map's, so there is another: a handle's
  have hcount := hcount.resolve_left heq
  have hone : (KeyedMap.values w.locks).count mutex ≤ 1 :=
    KeyedMap.count_values_le_one fun k k' => hs.distinct k k' mutex
  rw [strongCount] at hcount
  have hpos : 0 < (KeyedMap.values w.handles).countP fun h => h.mutex == mutex := by omega
  obtain ⟨b, hb, hbm⟩ := List.countP_pos_iff.mp hpos
  obtain ⟨j, hj⟩ := KeyedMap.exists_lookup_of_mem_values hb
  refine ⟨j, b, hj, ?_⟩
  have hmapped := hs.mapped j b hj
  rw [beq_iff_eq.mp hbm] at hmapped
  exact hs.distinct _ _ _ hmapped hlookup

end World

/-! ### The result -/

/-- **The locks exclude by key, and forget**: the handles for a key are all for one
mutex, and the owner of one of them at most is inside; and after every `get` the map
has only keys that somebody has a handle for, apart from the requested one. -/
theorem keyed_exclusion {w : World} (h : keyedLocks.Reachable w) :
    (∀ i j a b, w.handles.lookup i = some a → w.handles.lookup j = some b → a.key = b.key →
      a.mutex = b.mutex ∧ (a.inside = true → b.inside = true → i = j)) ∧
    ∀ i key w', w.step (.get i key) = some w' → ∀ k ∈ w'.locks,
      k = key ∨ ∃ j b, w.handles.lookup j = some b ∧ b.key = k := by
  have hs := World.sound_of_reachable h
  refine ⟨fun i j a b ha hb hkey => ⟨(hs.key_eq_iff ha hb).mp hkey, fun hina hinb => ?_⟩,
    fun i key w' hstep k hk => ?_⟩
  · exact hs.exclusive i j a b ha hb a.key (by rw [Handle.held, if_pos hina])
      (by rw [Handle.held, if_pos hinb, hkey])
  · rw [World.step] at hstep
    split at hstep
    · cases hstep
    · cases hstep
      exact hs.used_of_get hk

/-- Two tasks ask for one key, the first is inside, a third key comes and goes. -/
def contendedRun : List Event :=
  [.get 0 "a", .lock 0, .get 1 "a", .get 2 "b", .drop 2]

theorem keyed_exclusion_contended :
    ∃ w, keyedLocks.Reachable w ∧ w.handles.keys.length = 2 ∧
      ((∀ i j a b, w.handles.lookup i = some a → w.handles.lookup j = some b → a.key = b.key →
        a.mutex = b.mutex ∧ (a.inside = true → b.inside = true → i = j)) ∧
      ∀ i key w', w.step (.get i key) = some w' → ∀ k ∈ w'.locks,
        k = key ∨ ∃ j b, w.handles.lookup j = some b ∧ b.key = k) := by
  have hrun : (keyedLocks.run keyedLocks.init contendedRun).map (·.handles.keys.length) =
      some 2 := by decide
  obtain ⟨w, hw, hlen⟩ := Option.map_eq_some_iff.mp hrun
  have hreach := Machine.reachable_of_run _ hw
  exact ⟨w, hreach, hlen, keyed_exclusion hreach⟩

end Ferrofin.Util.KeyedLocks
