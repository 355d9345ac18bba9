import Mathlib.Order.Basic
import Ferrofin.Lib.KeyedMap

/-!
# Caches with a generation

A read-through cache whose readers may store what they read long after they read
it, and whose writers invalidate after they wrote.  An invalidation first begins a
new generation (`begin`), and then goes through the caches one after another and
drops what its scope covers (`advance`, to its next `stage`).  A reader takes the
generation before it reads, and stores only while it is still the current one.

Time is the number of writes done.  Two conditions on what was read at some time
under some generation (its tag) make it current:

* `ReadAfter`: it was read after the writes of all invalidations that had begun;
* `Survives`: the invalidations that have gone through its cache since covered
  something else.

Both are kept by every step (the lemmas below), and together they say that nothing
in the cache was read before the write of an invalidation that is through with it
(`le_of_survives`).
-/

namespace Ferrofin.Lib

/-- An invalidation: what it covers, when its writer wrote, and through how many of
the caches it has gone. -/
structure Invalidation (σ : Type*) where
  scope : σ
  wrote : Nat
  stage : Nat := 0

structure Generations (σ : Type*) where
  current : Nat := 0
  invalidations : KeyedMap Nat (Invalidation σ) := ∅

namespace Generations

variable {σ : Type*} (g : Generations σ)

def begin (scope : σ) (wrote : Nat) : Generations σ where
  current := g.current + 1
  invalidations := g.invalidations.insert (g.current + 1) { scope := scope, wrote := wrote }

def advance (i : Nat) (v : Invalidation σ) : Generations σ :=
  { g with invalidations := g.invalidations.insert i { v with stage := v.stage + 1 } }

/-! ### The conditions -/

/-- The invalidations that began belong to a write, and to a generation there was. -/
def Sound (now : Nat) : Prop :=
  ∀ i v, g.invalidations.lookup i = some v → i ≤ g.current ∧ v.wrote ≤ now

/-- What was read at `readAt` was read after the writes of the invalidations that cover
it and had begun with generation `tag`. -/
def ReadAfter (covers : σ → Prop) (tag readAt : Nat) : Prop :=
  ∀ i v, g.invalidations.lookup i = some v → covers v.scope → i ≤ tag → v.wrote ≤ readAt

/-- The invalidations that cover it and have gone through the cache had begun with
generation `tag`. -/
def Survives (covers : σ → Prop) (cache tag : Nat) : Prop :=
  ∀ i v, g.invalidations.lookup i = some v → covers v.scope → cache < v.stage → i ≤ tag

variable {g} {covers : σ → Prop} {now tag readAt cache i : Nat} {v : Invalidation σ}

/-- **What is in a cache is not older than the write of an invalidation that has gone
through it.** -/
theorem le_of_survives (hread : g.ReadAfter covers tag readAt) (hs : g.Survives covers cache tag)
    (hv : g.invalidations.lookup i = some v) (hc : covers v.scope) (hstage : cache < v.stage) :
    v.wrote ≤ readAt := hread i v hv hc (hs i v hv hc hstage)

/-! ### Reading and storing -/

theorem Sound.init : Sound ({} : Generations σ) now := by
  intro i v hv
  cases hv

theorem Sound.mono {now' : Nat} (h : g.Sound now) (hle : now ≤ now') : g.Sound now' :=
  fun i v hv => ⟨(h i v hv).1, Nat.le_trans (h i v hv).2 hle⟩

theorem Sound.readAfter (h : g.Sound now) : g.ReadAfter covers tag now :=
  fun i v hv _ _ => (h i v hv).2

theorem Sound.survives (h : g.Sound now) : g.Survives covers cache g.current :=
  fun i v hv _ _ => (h i v hv).1

theorem ReadAfter.of_le {tag' : Nat} (h : g.ReadAfter covers tag readAt) (hle : tag' ≤ tag) :
    g.ReadAfter covers tag' readAt :=
  fun i v hv hc hi => h i v hv hc (Nat.le_trans hi hle)

/-- Whatever was read by now stays read after the writes that had to be before it. -/
structure Extends (g g' : Generations σ) : Prop where
  current : g.current ≤ g'.current
  readAfter : ∀ covers tag readAt, tag ≤ g.current → g.ReadAfter covers tag readAt →
    g'.ReadAfter covers tag readAt

theorem Extends.refl (g : Generations σ) : g.Extends g := ⟨Nat.le_refl _, fun _ _ _ _ h => h⟩

/-! ### An invalidation begins -/

theorem lookup_begin {scope : σ} {wrote : Nat}
    (hv : (g.begin scope wrote).invalidations.lookup i = some v) :
    (i = g.current + 1 ∧ v = { scope := scope, wrote := wrote }) ∨
      g.invalidations.lookup i = some v := by
  rw [begin, KeyedMap.lookup_insert_eq] at hv
  split at hv
  · next hi => exact .inl ⟨hi, (Option.some.inj hv).symm⟩
  · exact .inr hv

theorem lookup_begin_self (scope : σ) (wrote : Nat) :
    (g.begin scope wrote).invalidations.lookup (g.current + 1) =
      some { scope := scope, wrote := wrote } := AList.lookup_insert _

theorem Sound.begin_lookup (h : g.Sound now) (scope : σ) (wrote : Nat)
    (hv : g.invalidations.lookup i = some v) :
    (g.begin scope wrote).invalidations.lookup i = some v := by
  have hle := (h i v hv).1
  rw [Generations.begin, KeyedMap.lookup_insert_eq, if_neg (by omega), hv]

theorem Sound.begin (h : g.Sound now) {scope : σ} {wrote : Nat} (hle : wrote ≤ now) :
    (g.begin scope wrote).Sound now := by
  intro i v hv
  rcases lookup_begin hv with ⟨rfl, rfl⟩ | hv
  · exact ⟨Nat.le_refl _, hle⟩
  · exact ⟨Nat.le_succ_of_le (h i v hv).1, (h i v hv).2⟩

theorem extends_begin (scope : σ) (wrote : Nat) : g.Extends (g.begin scope wrote) := by
  refine ⟨Nat.le_succ _, fun covers tag readAt htag h i v hv hc hi => ?_⟩
  rcases lookup_begin hv with ⟨rfl, -⟩ | hv
  · omega
  · exact h i v hv hc hi

theorem Survives.begin (h : g.Survives covers cache tag) (scope : σ) (wrote : Nat) :
    (g.begin scope wrote).Survives covers cache tag := by
  intro i v hv hc hstage
  rcases lookup_begin hv with ⟨-, rfl⟩ | hv
  · cases hstage
  · exact h i v hv hc hstage

/-! ### An invalidation goes on -/

theorem lookup_advance {v' : Invalidation σ} {j : Nat} (hv : g.invalidations.lookup i = some v)
    (hv' : (g.advance i v).invalidations.lookup j = some v') :
    ∃ u, g.invalidations.lookup j = some u ∧ v'.scope = u.scope ∧ v'.wrote = u.wrote ∧
      (v'.stage = u.stage ∨ j = i ∧ v'.stage = v.stage + 1) := by
  rw [advance, KeyedMap.lookup_insert_eq] at hv'
  split at hv'
  · next hj =>
    obtain rfl := Option.some.inj hv'
    exact ⟨v, hj ▸ hv, rfl, rfl, .inr ⟨hj, rfl⟩⟩
  · exact ⟨v', hv', rfl, rfl, .inl rfl⟩

theorem lookup_advance_of_lookup {u : Invalidation σ} {j : Nat}
    (hv : g.invalidations.lookup i = some v) (hu : g.invalidations.lookup j = some u) :
    ∃ v', (g.advance i v).invalidations.lookup j = some v' ∧ v'.wrote = u.wrote ∧
      u.stage ≤ v'.stage ∧ (j = i → u.stage < v'.stage) := by
  by_cases hj : j = i
  · subst hj
    cases hv.symm.trans hu
    exact ⟨_, AList.lookup_insert _, rfl, Nat.le_succ _, fun _ => Nat.lt_succ_self _⟩
  · refine ⟨u, ?_, rfl, Nat.le_refl _, fun h => absurd h hj⟩
    rw [advance, KeyedMap.lookup_insert_eq, if_neg hj, hu]

theorem Sound.advance (h : g.Sound now) (hv : g.invalidations.lookup i = some v) :
    (g.advance i v).Sound now := by
  intro j v' hv'
  obtain ⟨u, hu, -, hwrote, -⟩ := lookup_advance hv hv'
  rw [hwrote]
  exact h j u hu

theorem extends_advance (hv : g.invalidations.lookup i = some v) : g.Extends (g.advance i v) := by
  refine ⟨Nat.le_refl _, fun covers tag readAt _ h j v' hv' hc hj => ?_⟩
  obtain ⟨u, hu, hscope, hwrote, -⟩ := lookup_advance hv hv'
  rw [hwrote]
  exact h j u hu (hscope ▸ hc) hj

theorem Survives.advance (h : g.Survives covers cache tag)
    (hv : g.invalidations.lookup i = some v) (hkeep : v.stage = cache → ¬ covers v.scope) :
    (g.advance i v).Survives covers cache tag := by
  intro j v' hv' hc hstage
  obtain ⟨u, hu, hscope, -, hu'⟩ := lookup_advance hv hv'
  rw [hscope] at hc
  rcases hu' with hu' | ⟨rfl, hu'⟩
  · exact h j u hu hc (hu' ▸ hstage)
  · obtain rfl := Option.some.inj (hu.symm.trans hv)
    refine h j u hu hc (lt_of_le_of_ne (by omega) fun heq => hkeep heq.symm hc)

end Generations

end Ferrofin.Lib
