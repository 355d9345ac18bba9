import Ferrofin.Libraries.Cache

/-!
# When the library set is current

A call of `note_items_written` looks twice: is a set stored, and if not, is one being
loaded?  A load that stores between the two looks, and ends, is seen by neither.  And a
call that finds a set without its rows leaves the loads alone, though one of them may
have read those rows before the write.  As long as neither happens (`World.Settled`),
a set that is served was read after every write that can change it and whose call has
returned.
-/

namespace Ferrofin.Libraries

open Lib Util

variable {Columns Options : Type}

/-! ### The condition -/

def Call.changes (set : LibrarySet Columns Options) : Call → Bool
  | .noteItemsWritten ids => set.holds ids
  | .invalidateLibraries => true

/-- The set was read after the write, or the write does not change it. -/
def Write.Behind (x : Write) (set : StampedSet Columns Options) : Prop :=
  x.call.changes set.value = true → x.wrote ≤ set.readAt

instance (x : Write) (set : StampedSet Columns Options) : Decidable (x.Behind set) :=
  inferInstanceAs (Decidable (_ → _))

def LoadPhase.puts : LoadPhase Columns Options → Option (Nat × StampedSet Columns Options)
  | .found generation set => some (generation, set)
  | .counted | .begun _ | .reading _ _ | .storing _ _ | .ended => none

/-- A call that has found no live set finds no load under way only if no set from before
its write has been stored since; and no load stores a set from before a write whose call
has found another set stored. -/
def World.Settled (w : World Columns Options) : Event Columns Options → Prop
  | .advanceWrite i => ∀ x ∈ w.writes.lookup i, x.stage = .missed → w.lookAtLoads = .quiet →
      ∀ set ∈ w.cache.live w.now, x.Behind set
  | .advanceLoad i => ∀ l ∈ w.loads.lookup i, ∀ p ∈ l.puts, w.cache.mayPut p.1 = true →
      ∀ e ∈ w.writes.entries, e.2.stage = .kept → e.2.Behind p.2
  | .tick | .enable _ | .commit _ _ | .beginLoad _ | .finishReading _ _ | .dropLoad _ => True

instance (w : World Columns Options) (e : Event Columns Options) : Decidable (w.Settled e) := by
  cases e with
  | advanceWrite i =>
    exact inferInstanceAs (Decidable (∀ x ∈ w.writes.lookup i, x.stage = .missed →
      w.lookAtLoads = .quiet → ∀ set ∈ w.cache.live w.now, x.Behind set))
  | advanceLoad i =>
    exact inferInstanceAs (Decidable (∀ l ∈ w.loads.lookup i, ∀ p ∈ l.puts,
      w.cache.mayPut p.1 = true → ∀ e ∈ w.writes.entries, e.2.stage = .kept → e.2.Behind p.2))
  | tick | enable | commit | beginLoad | finishReading | dropLoad =>
    exact inferInstanceAs (Decidable True)

/-! ### The invariant -/

namespace World

variable {w w' : World Columns Options}

/-- The set was read after the writes that can change it and whose calls have returned
without an invalidation. -/
def Seen (writes : KeyedMap Nat Write) (set : StampedSet Columns Options) : Prop :=
  ∀ i x, writes.lookup i = some x → x.stage = .kept ∨ x.stage = .quiet → x.Behind set

/-- What is read under the generation at `readAt` was read after the invalidations that
had begun, and after the writes whose calls have found no load under way. -/
structure ReadOk (g : Generations Unit) (writes : KeyedMap Nat Write)
    (generation readAt : Nat) : Prop where
  taken : generation ≤ g.current
  after : g.ReadAfter (fun _ => True) generation readAt
  quiet : ∀ i x, writes.lookup i = some x → x.stage = .quiet → x.wrote ≤ readAt

structure CachedOk (g : Generations Unit) (writes : KeyedMap Nat Write) (live : Prop)
    (hit : CachedSet Columns Options) : Prop where
  taken : hit.tag ≤ g.current
  after : g.ReadAfter (fun _ => True) hit.tag hit.set.readAt
  survives : g.Survives (fun _ => True) 0 hit.tag
  seen : live → Seen writes hit.set

def LoadOk (w : World Columns Options) : LoadPhase Columns Options → Prop
  | .counted | .ended => True
  | .begun generation => generation ≤ w.cache.generations.current
  | .reading generation readAt => ReadOk w.cache.generations w.writes generation readAt
  | .found generation set => ReadOk w.cache.generations w.writes generation set.readAt
  | .storing generation set => ReadOk w.cache.generations w.writes generation set.readAt ∧
      w.cache.generations.Survives (fun _ => True) 0 generation ∧ w.cache.enabled = true ∧
      Seen w.writes set

/-- A write is in order: it was committed, and its invalidation is under way or done. -/
def WriteOk (w : World Columns Options) (x : Write) : Prop :=
  x.wrote ≤ w.commits ∧ match x.stage with
    | .clearing generation => ∃ v, w.cache.generations.invalidations.lookup generation = some v ∧
        v.wrote = x.wrote
    | .cleared generation => ∃ v, w.cache.generations.invalidations.lookup generation = some v ∧
        v.wrote = x.wrote ∧ 0 < v.stage
    | .committed | .missed | .kept | .quiet | .hit => True

structure Current (w : World Columns Options) : Prop where
  sound : w.cache.generations.Sound w.commits
  off : w.cache.enabled = false → w.cache.libraries = none
  counted : w.cache.libraryLoads = KeyedMap.total (fun _ => 1) w.loads
  holder : ∀ i generation set, w.loads.lookup i = some (.storing generation set) →
    w.holder = some i
  cached : ∀ hit, w.cache.libraries = some hit →
    CachedOk w.cache.generations w.writes (w.now - hit.storedAt < w.cache.ttl) hit
  loads : ∀ i l, w.loads.lookup i = some l → w.LoadOk l
  writes : ∀ i x, w.writes.lookup i = some x → w.WriteOk x

/-! ### What the parts of a step keep -/

theorem Current.init : Current ({} : World Columns Options) where
  sound := .init
  off _ := rfl
  counted := rfl
  holder i generation set hl := by cases hl
  cached hit hh := by cases hh
  loads i l hl := by cases hl
  writes i x hx := by cases hx

def Returns (w w' : World Columns Options) (stage : WriteStage) : Prop :=
  ∀ i x, w'.writes.lookup i = some x → x.stage = stage → w.writes.lookup i = some x

theorem Seen.mono {set : StampedSet Columns Options} (h : Seen w.writes set)
    (hkept : w.Returns w' .kept) (hquiet : w.Returns w' .quiet) : Seen w'.writes set := by
  rintro i x hx (hs | hs)
  · exact h i x (hkept i x hx hs) (.inl hs)
  · exact h i x (hquiet i x hx hs) (.inr hs)

theorem ReadOk.mono {generation readAt : Nat}
    (h : ReadOk w.cache.generations w.writes generation readAt)
    (hext : w.cache.generations.Extends w'.cache.generations) (hquiet : w.Returns w' .quiet) :
    ReadOk w'.cache.generations w'.writes generation readAt where
  taken := Nat.le_trans h.taken hext.current
  after := hext.readAfter _ _ _ h.taken h.after
  quiet i x hx hs := h.quiet i x (hquiet i x hx hs) hs

theorem LoadOk.mono {l : LoadPhase Columns Options} (h : w.LoadOk l)
    (hext : w.cache.generations.Extends w'.cache.generations) (hquiet : w.Returns w' .quiet)
    (hstoring : ∀ generation set, l = .storing generation set → w.LoadOk l → w'.LoadOk l) :
    w'.LoadOk l := by
  cases l with
  | counted | ended => trivial
  | begun generation => exact Nat.le_trans h hext.current
  | reading generation readAt => exact ReadOk.mono h hext hquiet
  | found generation set => exact ReadOk.mono h hext hquiet
  | storing generation set => exact hstoring _ _ rfl h

/-- A write stays in order as long as no invalidation goes away, or back. -/
theorem WriteOk.mono {x : Write} (h : w.WriteOk x) (hcommits : w.commits ≤ w'.commits)
    (hkept : ∀ g v, w.cache.generations.invalidations.lookup g = some v →
      ∃ v', w'.cache.generations.invalidations.lookup g = some v' ∧ v'.wrote = v.wrote ∧
        v.stage ≤ v'.stage) : w'.WriteOk x := by
  obtain ⟨wrote, call, stage⟩ := x
  refine ⟨Nat.le_trans h.1 hcommits, ?_⟩
  cases stage with
  | committed | missed | kept | quiet | hit => trivial
  | clearing g =>
    obtain ⟨v, hv, hwrote⟩ := h.2
    obtain ⟨v', hv', hwrote', -⟩ := hkept g v hv
    exact ⟨v', hv', hwrote'.trans hwrote⟩
  | cleared g =>
    obtain ⟨v, hv, hwrote, hpos⟩ := h.2
    obtain ⟨v', hv', hwrote', hle⟩ := hkept g v hv
    exact ⟨v', hv', hwrote'.trans hwrote, Nat.lt_of_lt_of_le hpos hle⟩

/-- The clock, and the cache where it says nothing of the invalidations, may change. -/
theorem Current.frame (h : w.Current) (hcommits : w.commits ≤ w'.commits)
    (hgens : w'.cache.generations = w.cache.generations)
    (hon : w.cache.enabled = true → w'.cache.enabled = true)
    (hoff : w'.cache.enabled = false → w'.cache.libraries = none)
    (hcached : ∀ hit, w'.cache.libraries = some hit → w.cache.libraries = some hit ∧
      (w'.now - hit.storedAt < w'.cache.ttl → w.now - hit.storedAt < w.cache.ttl))
    (hloads : w'.loads = w.loads) (hcount : w'.cache.libraryLoads = w.cache.libraryLoads)
    (hholder : w'.holder = w.holder) (hwrites : w'.writes = w.writes) : w'.Current := by
  have hreturns : ∀ stage, w.Returns w' stage := fun stage i x hx _ => hwrites ▸ hx
  have hext : w.cache.generations.Extends w'.cache.generations := hgens ▸ .refl _
  refine ⟨?_, hoff, ?_, ?_, ?_, ?_, ?_⟩
  · rw [hgens]
    exact h.sound.mono hcommits
  · rw [hcount, hloads]
    exact h.counted
  · rw [hloads, hholder]
    exact h.holder
  · intro hit hhit
    obtain ⟨hhit, hlive⟩ := hcached hit hhit
    obtain ⟨htaken, hread, hsurv, hseen⟩ := h.cached hit hhit
    rw [← hgens] at htaken hread hsurv
    exact ⟨htaken, hread, hsurv, fun hl => (hseen (hlive hl)).mono (hreturns _) (hreturns _)⟩
  · intro i l hl
    rw [hloads] at hl
    refine (h.loads i l hl).mono hext (hreturns _) ?_
    rintro generation set rfl ⟨hread, hsurv, henabled, hseen⟩
    refine ⟨hread.mono hext (hreturns _), ?_, hon henabled, hseen.mono (hreturns _) (hreturns _)⟩
    rw [hgens]
    exact hsurv
  · intro i x hx
    rw [hwrites] at hx
    refine (h.writes i x hx).mono hcommits fun g v hv => ⟨v, ?_, rfl, Nat.le_refl _⟩
    rw [hgens]
    exact hv

/-! ### The writers' steps -/

theorem lookup_toStage {i j : Nat} {x y : Write} {stage : WriteStage}
    (h : (w.toStage i x stage).writes.lookup j = some y) :
    (j = i ∧ y = { x with stage := stage }) ∨ w.writes.lookup j = some y := by
  rw [toStage, KeyedMap.lookup_insert_eq] at h
  split at h
  · next hj => exact .inl ⟨hj, (Option.some.inj h).symm⟩
  · exact .inr h

theorem returns_toStage {i : Nat} {x : Write} {stage stage' : WriteStage} (hne : stage ≠ stage') :
    w.Returns (w.toStage i x stage) stage' := by
  intro j y hy hs
  rcases lookup_toStage hy with ⟨-, rfl⟩ | hy
  · exact absurd hs hne
  · exact hy

theorem Seen.toStage {set : StampedSet Columns Options} (h : Seen w.writes set) {i : Nat}
    {x : Write} {stage : WriteStage} (hbehind : stage = .kept ∨ stage = .quiet → x.Behind set) :
    Seen (w.toStage i x stage).writes set := by
  intro j y hy hs
  rcases lookup_toStage hy with ⟨-, rfl⟩ | hy
  · exact hbehind hs
  · exact h j y hy hs

/-- **A write goes on.**  When it keeps the stored set it holds no load's lock up, and
when it has found no load there is none. -/
theorem Current.toStage (h : w.Current) (i : Nat) {x : Write} {stage : WriteStage}
    (hok : w.WriteOk { x with stage := stage })
    (hseen : stage = .kept ∨ stage = .quiet → ∀ hit, w.cache.libraries = some hit →
      w.now - hit.storedAt < w.cache.ttl → x.Behind hit.set)
    (hkept : stage = .kept → w.holder = none) (hquiet : stage = .quiet → w.cache.libraryLoads = 0) :
    (w.toStage i x stage).Current := by
  refine ⟨h.sound, h.off, h.counted, h.holder, fun hit hhit => ?_, fun j l hl => ?_,
    fun j y hy => ?_⟩
  · obtain ⟨htaken, hread, hsurv, hset⟩ := h.cached hit hhit
    exact ⟨htaken, hread, hsurv, fun hlive =>
      (hset hlive).toStage fun hs => hseen hs hit hhit hlive⟩
  · have hnone : stage ≠ .quiet := by
      intro hs
      have hl' : w.loads.lookup j = some l := hl
      have hpos := KeyedMap.total_eq_add_erase (fun _ => 1) hl'
      have hzero := h.counted.symm.trans (hquiet hs)
      omega
    have hloads : (w.toStage i x stage).loads = w.loads := rfl
    rw [hloads] at hl
    refine (h.loads j l hl).mono (.refl _) (returns_toStage hnone) ?_
    rintro generation set rfl ⟨hread, hsurv, henabled, hset⟩
    refine ⟨hread.mono (.refl _) (returns_toStage hnone), hsurv, henabled, hset.toStage ?_⟩
    rintro (hs | hs)
    · have hholder := h.holder j generation set hl
      rw [hkept hs] at hholder
      cases hholder
    · exact absurd hs hnone
  · rcases lookup_toStage hy with ⟨-, rfl⟩ | hy
    · exact hok
    · exact h.writes j y hy

theorem Current.beginInvalidation (h : w.Current) {wrote : Nat} (hle : wrote ≤ w.commits) :
    Current { w with cache := w.cache.beginInvalidation wrote } := by
  have hext := Generations.extends_begin (g := w.cache.generations) () wrote
  refine ⟨h.sound.begin hle, h.off, h.counted, h.holder, fun hit hhit => ?_, fun i l hl => ?_,
    fun i x hx => ?_⟩
  · obtain ⟨htaken, hread, hsurv, hseen⟩ := h.cached hit hhit
    exact ⟨Nat.le_trans htaken hext.current, hext.readAfter _ _ _ htaken hread,
      hsurv.begin () wrote, hseen⟩
  · refine (h.loads i l hl).mono hext (fun _ _ hx _ => hx) ?_
    rintro generation set rfl ⟨hread, hsurv, henabled, hset⟩
    exact ⟨hread.mono hext fun _ _ hx _ => hx, hsurv.begin () wrote, henabled, hset⟩
  · exact (h.writes i x hx).mono (Nat.le_refl _) fun g v hv =>
      ⟨v, h.sound.begin_lookup () wrote hv, rfl, Nat.le_refl _⟩

theorem Current.clear (h : w.Current) (hholder : w.holder = none) {i : Nat}
    {v : Invalidation Unit} (hv : w.cache.generations.invalidations.lookup i = some v) :
    Current { w with cache := { w.cache with
      generations := w.cache.generations.advance i v, libraries := none } } := by
  have hext := Generations.extends_advance hv
  refine ⟨h.sound.advance hv, fun _ => rfl, h.counted, h.holder, fun hit hhit => ?_,
    fun j l hl => ?_, fun j x hx => ?_⟩
  · cases hhit
  · refine (h.loads j l hl).mono hext (fun _ _ hx _ => hx) ?_
    rintro generation set rfl -
    have hnone := h.holder j generation set hl
    rw [hholder] at hnone
    cases hnone
  · refine (h.writes j x hx).mono (Nat.le_refl _) fun g u hu => ?_
    obtain ⟨v', hv', hwrote, hle, -⟩ := Generations.lookup_advance_of_lookup hv hu
    exact ⟨v', hv', hwrote, hle⟩

theorem Current.live_eq (h : w.Current) {hit : CachedSet Columns Options}
    (hhit : w.cache.libraries = some hit) (hlive : w.now - hit.storedAt < w.cache.ttl) :
    w.cache.live w.now = some hit.set := by
  have hon : w.cache.enabled = true := by
    by_contra hoff
    rw [h.off (Bool.not_eq_true _ ▸ hoff)] at hhit
    cases hhit
  rw [RowCache.live, if_pos hon, hhit, Option.bind_some, if_pos hlive]

theorem behind_of_kept {ids : List String} {set : StampedSet Columns Options} {x : Write}
    (hcall : x.call = .noteItemsWritten ids) (hkept : w.lookAtSet ids = .kept)
    (hset : w.cache.live w.now = some set) : x.Behind set := by
  intro hchanges
  rw [hcall] at hchanges
  have hholds : set.value.holds ids = true := hchanges
  rw [lookAtSet, hset] at hkept
  dsimp only at hkept
  rw [if_pos hholds] at hkept
  cases hkept

theorem Current.hits (h : w.Current) {i : Nat} {x : Write} (hx : w.writes.lookup i = some x)
    (hs : some { w.toStage i x (.clearing (w.cache.generations.current + 1)) with
      cache := w.cache.beginInvalidation x.wrote } = some w') : w'.Current := by
  cases hs
  have hcommitted := (h.writes i x hx).1
  exact (h.beginInvalidation hcommitted).toStage i
    ⟨hcommitted, _, Generations.lookup_begin_self () x.wrote, rfl⟩ (by simp) (by simp) (by simp)

theorem Current.advanceWrite (h : w.Current) {i : Nat} {x : Write}
    (hx : w.writes.lookup i = some x)
    (hok : x.stage = .missed → w.lookAtLoads = .quiet → ∀ set ∈ w.cache.live w.now, x.Behind set)
    (hs : w.advanceWrite i x = some w') : w'.Current := by
  have hcommitted := (h.writes i x hx).1
  rw [World.advanceWrite] at hs
  split at hs
  · next ids _ hcall =>
    -- the look at the stored set: it needs the lock
    split at hs
    · cases hs
    · next hholder =>
      cases hs
      have hlook : w.lookAtSet ids = .missed ∨ w.lookAtSet ids = .hit ∨
          w.lookAtSet ids = .kept := by
        rw [lookAtSet]
        split
        · exact .inl rfl
        · split
          · exact .inr (.inl rfl)
          · exact .inr (.inr rfl)
      refine h.toStage i ?_ ?_ ?_ ?_
      · rcases hlook with hl | hl | hl <;> rw [hl] <;> exact ⟨hcommitted, trivial⟩
      · rintro hs hit hhit hlive
        rcases hs with hs | hs
        · exact behind_of_kept hcall hs (h.live_eq hhit hlive)
        · rcases hlook with hl | hl | hl <;> rw [hl] at hs <;> cases hs
      · exact fun _ => Option.not_isSome_iff_eq_none.mp hholder
      · intro hs
        rcases hlook with hl | hl | hl <;> rw [hl] at hs <;> cases hs
  · next hstage =>
    -- the look at the loads
    cases hs
    rw [lookAtLoads] at hok ⊢
    split at hok
    · next hpos =>
      rw [if_pos hpos]
      exact h.toStage i ⟨hcommitted, trivial⟩ (by simp) (by simp) (by simp)
    · next hzero =>
      rw [if_neg hzero]
      refine h.toStage i ⟨hcommitted, trivial⟩ (fun _ hit hhit hlive => ?_) (by simp)
        fun _ => Nat.eq_zero_of_not_pos hzero
      exact hok hstage rfl _ (h.live_eq hhit hlive)
  · exact h.hits hx hs
  · exact h.hits hx hs
  · next generation hstage =>
    -- the drop of the stored set: it needs the lock
    split at hs
    · cases hs
    · next hholder =>
      obtain ⟨cache, hcache, rfl⟩ := Option.map_eq_some_iff.mp hs
      obtain ⟨v, hv, rfl⟩ := Option.map_eq_some_iff.mp hcache
      obtain ⟨v', hv', hstage', hle, hlt⟩ := Generations.lookup_advance_of_lookup hv hv
      have hwrote : v.wrote = x.wrote := by
        have hok := (h.writes i x hx).2
        rw [hstage] at hok
        obtain ⟨u, hu, hwrote⟩ := hok
        rwa [Option.some.inj (hv.symm.trans hu)]
      refine (h.clear (Option.not_isSome_iff_eq_none.mp hholder) hv).toStage i
        ⟨hcommitted, v', hv', hstage'.trans hwrote, ?_⟩ (by simp) (by simp) (by simp)
      exact Nat.lt_of_le_of_lt (Nat.zero_le _) (hlt rfl)
  all_goals cases hs

/-! ### The loads' steps -/

theorem lookup_toPhase {i j : Nat} {l phase : LoadPhase Columns Options}
    (h : (w.toPhase i phase).loads.lookup j = some l) :
    (j = i ∧ l = phase) ∨ (j ≠ i ∧ w.loads.lookup j = some l) := by
  rw [toPhase, KeyedMap.lookup_insert_eq] at h
  split at h
  · next hj => exact .inl ⟨hj, (Option.some.inj h).symm⟩
  · next hj => exact .inr ⟨hj, h⟩

theorem total_toPhase {i : Nat} {l : LoadPhase Columns Options} (hl : w.loads.lookup i = some l)
    (phase : LoadPhase Columns Options) :
    KeyedMap.total (fun _ => 1) (w.toPhase i phase).loads =
      KeyedMap.total (fun _ => 1) w.loads := by
  have h : KeyedMap.total (fun _ => 1) (w.toPhase i phase).loads + 1 = _ :=
    KeyedMap.total_insert_add (fun _ => 1) hl
  exact Nat.add_right_cancel h

/-- **A load goes on**, to a phase that does not hold the lock. -/
theorem Current.toPhase (h : w.Current) {i : Nat} {l phase : LoadPhase Columns Options}
    (hl : w.loads.lookup i = some l) (hok : w.LoadOk phase)
    (hphase : ∀ generation set, phase ≠ .storing generation set) :
    (w.toPhase i phase).Current := by
  refine ⟨h.sound, h.off, h.counted.trans (total_toPhase hl phase).symm, fun j g set hj => ?_,
    h.cached, fun j l' hj => ?_, h.writes⟩
  · rcases lookup_toPhase hj with ⟨-, heq⟩ | ⟨-, hj⟩
    · exact absurd heq.symm (hphase g set)
    · exact h.holder j g set hj
  · rcases lookup_toPhase hj with ⟨-, rfl⟩ | ⟨-, hj⟩
    · exact hok
    · exact h.loads j l' hj

theorem Current.check (h : w.Current) {i generation : Nat} {set : StampedSet Columns Options}
    (hl : w.loads.lookup i = some (.found generation set)) (hholder : w.holder = none)
    (hmay : w.cache.mayPut generation = true)
    (hkept : ∀ e ∈ w.writes.entries, e.2.stage = .kept → e.2.Behind set) :
    Current { w.toPhase i (.storing generation set) with holder := some i } := by
  obtain ⟨hon, hcurrent⟩ := (Bool.and_eq_true _ _).mp hmay
  have hread : ReadOk w.cache.generations w.writes generation set.readAt := h.loads i _ hl
  refine ⟨h.sound, h.off, h.counted.trans (total_toPhase hl _).symm, fun j g set' hj => ?_,
    h.cached, fun j l' hj => ?_, h.writes⟩
  · rcases lookup_toPhase hj with ⟨rfl, -⟩ | ⟨-, hj⟩
    · rfl
    · have hother := h.holder j g set' hj
      rw [hholder] at hother
      cases hother
  · rcases lookup_toPhase hj with ⟨-, rfl⟩ | ⟨-, hj⟩
    · refine ⟨hread, ?_, hon, fun j x hx hs => ?_⟩
      · rw [← beq_iff_eq.mp hcurrent]
        exact h.sound.survives
      · rcases hs with hs | hs
        · exact hkept ⟨j, x⟩ (AList.mem_lookup_iff.mp hx) hs
        · exact fun _ => hread.quiet j x hx hs
    · exact h.loads j l' hj

theorem Current.put (h : w.Current) {i generation : Nat} {set : StampedSet Columns Options}
    (hl : w.loads.lookup i = some (.storing generation set)) :
    Current { w.toPhase i .ended with
      cache := w.cache.put w.now generation set, holder := none } := by
  obtain ⟨hread, hsurv, hon, hseen⟩ : w.LoadOk (.storing generation set) := h.loads i _ hl
  refine ⟨h.sound, fun hoff => ?_, h.counted.trans (total_toPhase hl _).symm,
    fun j g set' hj => ?_, fun hit hhit => ?_, fun j l' hj => ?_, h.writes⟩
  · rw [RowCache.put, hon] at hoff
    cases hoff
  · rcases lookup_toPhase hj with ⟨-, heq⟩ | ⟨hne, hj⟩
    · cases heq
    · have hsame := (h.holder j g set' hj).symm.trans (h.holder i generation set hl)
      exact absurd (Option.some.inj hsame) hne
  · cases hhit
    exact ⟨hread.taken, hread.after, hsurv, fun _ => hseen⟩
  · rcases lookup_toPhase hj with ⟨-, rfl⟩ | ⟨hne, hj⟩
    · trivial
    · have hok := h.loads j l' hj
      cases l' with
      | storing g set' =>
        have hsame := (h.holder j g set' hj).symm.trans (h.holder i generation set hl)
        exact absurd (Option.some.inj hsame) hne
      | counted | begun | reading | found | ended => exact hok

theorem Current.advanceLoad (h : w.Current) {i : Nat} {l : LoadPhase Columns Options}
    (hl : w.loads.lookup i = some l)
    (hok : ∀ p ∈ l.puts, w.cache.mayPut p.1 = true →
      ∀ e ∈ w.writes.entries, e.2.stage = .kept → e.2.Behind p.2)
    (hs : w.advanceLoad i l = some w') : w'.Current := by
  cases l with
  | counted =>
    cases hs
    exact h.toPhase hl (Nat.le_refl _) fun _ _ heq => by cases heq
  | begun generation =>
    cases hs
    have hgen : generation ≤ w.cache.generations.current := h.loads i _ hl
    refine h.toPhase hl ⟨hgen, h.sound.readAfter, fun j x hx _ => (h.writes j x hx).1⟩ ?_
    exact fun _ _ heq => by cases heq
  | reading | ended => cases hs
  | found generation set =>
    rw [World.advanceLoad] at hs
    split at hs
    · cases hs
    · next hholder =>
      split at hs
      · next hmay =>
        cases hs
        exact h.check hl (Option.not_isSome_iff_eq_none.mp hholder) hmay (hok _ rfl hmay)
      · cases hs
        exact h.toPhase hl trivial fun _ _ heq => by cases heq
  | storing generation set =>
    cases hs
    exact h.put hl

theorem Current.beginLoad (h : w.Current) {i : Nat} (hl : w.loads.lookup i = none) :
    Current { w.toPhase i .counted with
      cache := { w.cache with libraryLoads := w.cache.libraryLoads + 1 } } := by
  refine ⟨h.sound, h.off, ?_, fun j g set hj => ?_, h.cached, fun j l' hj => ?_, h.writes⟩
  · have hadd := KeyedMap.total_insert_of_lookup_none (fun _ => 1) hl
      (v := LoadPhase.counted)
    have hcount := h.counted
    show w.cache.libraryLoads + 1 = KeyedMap.total (fun _ => 1) (w.loads.insert i _)
    omega
  · rcases lookup_toPhase hj with ⟨-, heq⟩ | ⟨-, hj⟩
    · cases heq
    · exact h.holder j g set hj
  · rcases lookup_toPhase hj with ⟨-, rfl⟩ | ⟨-, hj⟩
    · trivial
    · exact h.loads j l' hj

theorem Current.dropLoad (h : w.Current) {i : Nat} {l : LoadPhase Columns Options}
    (hl : w.loads.lookup i = some l) :
    Current { w with
      loads := w.loads.erase i
      cache := { w.cache with libraryLoads := w.cache.libraryLoads - 1 } } := by
  have hkeep : ∀ j l', (w.loads.erase i).lookup j = some l' → w.loads.lookup j = some l' := by
    intro j l' hj
    rw [KeyedMap.lookup_erase_eq] at hj
    split at hj
    · cases hj
    · exact hj
  refine ⟨h.sound, h.off, ?_, fun j g set hj => h.holder j g set (hkeep j _ hj), h.cached,
    fun j l' hj => h.loads j l' (hkeep j l' hj), h.writes⟩
  have hsub := KeyedMap.total_eq_add_erase (fun _ => 1) hl
  have hcount := h.counted
  show w.cache.libraryLoads - 1 = KeyedMap.total (fun _ => 1) (w.loads.erase i)
  omega

theorem Current.commit (h : w.Current) (i : Nat) (call : Call) :
    Current { w with
      commits := w.commits + 1
      writes := w.writes.insert i { wrote := w.commits + 1, call := call } } := by
  have hlookup : ∀ j y, (w.writes.insert i { wrote := w.commits + 1, call := call }).lookup j =
      some y → y = { wrote := w.commits + 1, call := call } ∨ w.writes.lookup j = some y := by
    intro j y hy
    rw [KeyedMap.lookup_insert_eq] at hy
    split at hy
    · exact .inl (Option.some.inj hy).symm
    · exact .inr hy
  have hreturns : ∀ stage, stage ≠ .committed → w.Returns { w with
      commits := w.commits + 1
      writes := w.writes.insert i { wrote := w.commits + 1, call := call } } stage := by
    intro stage hne j y hy hs
    rcases hlookup j y hy with rfl | hy
    · exact absurd hs.symm hne
    · exact hy
  have hkept := hreturns .kept (by simp)
  have hquiet := hreturns .quiet (by simp)
  refine ⟨h.sound.mono (Nat.le_succ _), h.off, h.counted, h.holder, fun hit hhit => ?_,
    fun j l hl => ?_, fun j y hy => ?_⟩
  · obtain ⟨htaken, hread, hsurv, hseen⟩ := h.cached hit hhit
    exact ⟨htaken, hread, hsurv, fun hlive => (hseen hlive).mono hkept hquiet⟩
  · refine (h.loads j l hl).mono (.refl _) hquiet ?_
    rintro generation set rfl ⟨hread, hsurv, hon, hseen⟩
    exact ⟨hread.mono (.refl _) hquiet, hsurv, hon, hseen.mono hkept hquiet⟩
  · rcases hlookup j y hy with rfl | hy
    · exact ⟨Nat.le_refl _, trivial⟩
    · exact (h.writes j y hy).mono (Nat.le_succ _) fun g v hv => ⟨v, hv, rfl, Nat.le_refl _⟩

/-- **Every step keeps the invariant.** -/
theorem Current.step {e : Event Columns Options} (h : w.Current) (hok : w.Settled e)
    (hs : w.step e = some w') : w'.Current := by
  cases e with
  | tick =>
    cases hs
    exact h.frame (Nat.le_refl _) rfl id h.off (fun hit hhit => ⟨hhit, fun hlive => by
      dsimp only at hlive
      omega⟩) rfl rfl rfl rfl
  | enable ttl =>
    rw [World.step] at hs
    split at hs
    · cases hs
    · next hoff =>
      cases hs
      have hnone := h.off (Bool.not_eq_true _ ▸ hoff)
      refine h.frame (Nat.le_refl _) rfl (fun _ => rfl) (fun hon => by cases hon)
        (fun hit hhit => ?_) rfl rfl rfl rfl
      have hhit : w.cache.libraries = some hit := hhit
      rw [hnone] at hhit
      cases hhit
  | commit i call =>
    rw [World.step] at hs
    split at hs
    · cases hs
    · cases hs
      exact h.commit i call
  | advanceWrite i =>
    obtain ⟨x, hx, hs⟩ := Option.bind_eq_some_iff.mp hs
    exact h.advanceWrite hx (hok x hx) hs
  | beginLoad i =>
    rw [World.step] at hs
    split at hs
    · cases hs
    · next hnone =>
      cases hs
      exact h.beginLoad (Option.not_isSome_iff_eq_none.mp hnone)
  | advanceLoad i =>
    obtain ⟨l, hl, hs⟩ := Option.bind_eq_some_iff.mp hs
    exact h.advanceLoad hl (hok l hl) hs
  | finishReading i set =>
    rw [World.step] at hs
    split at hs
    · next generation readAt hl =>
      cases hs
      have hread : ReadOk w.cache.generations w.writes generation readAt := h.loads i _ hl
      exact h.toPhase hl hread fun _ _ heq => by cases heq
    · cases hs
    · cases hs
  | dropLoad i =>
    rw [World.step] at hs
    split at hs
    case h_5 | h_6 | h_7 => cases hs
    all_goals
      next hl =>
      cases hs
      exact h.dropLoad hl

theorem current_of_reaches (h : (librarySets Columns Options).Reaches World.Settled w) :
    w.Current := h.invariant .init fun _ _ _ hcurrent hok hs => hcurrent.step hok hs

end World

/-! ### What is served -/

def Write.Returned (x : Write) : Prop :=
  x.stage = .kept ∨ x.stage = .quiet ∨ ∃ generation, x.stage = .cleared generation

/-- **The library set is current**: what is served was read after every write that can
change it and whose call has returned. -/
theorem library_set_current {w : World Columns Options}
    (h : (librarySets Columns Options).Reaches World.Settled w) {i : Nat} {x : Write}
    (hx : w.writes.lookup i = some x) (hreturned : x.Returned) {set : StampedSet Columns Options}
    (hset : w.cache.live w.now = some set) (hchanges : x.call.changes set.value = true) :
    x.wrote ≤ set.readAt := by
  have hcurrent := World.current_of_reaches h
  obtain ⟨hit, hhit, rfl, hlive⟩ : ∃ hit, w.cache.libraries = some hit ∧ hit.set = set ∧
      w.now - hit.storedAt < w.cache.ttl := by
    rw [RowCache.live] at hset
    split at hset
    · obtain ⟨hit, hhit, hset⟩ := Option.bind_eq_some_iff.mp hset
      split at hset
      · next hlive => exact ⟨hit, hhit, Option.some.inj hset, hlive⟩
      · cases hset
    · cases hset
  have hcached := hcurrent.cached hit hhit
  rcases hreturned with hs | hs | ⟨generation, hs⟩
  · exact hcached.seen hlive i x hx (.inl hs) hchanges
  · exact hcached.seen hlive i x hx (.inr hs) hchanges
  · have hok := (hcurrent.writes i x hx).2
    rw [hs] at hok
    obtain ⟨v, hv, hwrote, hstage⟩ := hok
    rw [← hwrote]
    exact Generations.le_of_survives hcached.after hcached.survives hv trivial hstage

/-! ### A set from before a write that is served -/

private def libraries (ids : List String) : LibrarySet Unit Unit where
  rows := ids.map fun id => { id := id, columns := () }
  ancestors := []
  options := ∅

private def reads (i : Nat) (ids : List String) : List (Event Unit Unit) :=
  [.beginLoad i, .advanceLoad i, .advanceLoad i, .finishReading i (libraries ids)]

private def stores (i : Nat) : List (Event Unit Unit) :=
  [.advanceLoad i, .advanceLoad i, .dropLoad i]

/-- A write to the library's row while its set is loaded cancels the load; one to it while
the set is stored drops the set.  The next load is served. -/
theorem library_set_current_reload : ∃ w : World Unit Unit,
    (librarySets Unit Unit).Reaches World.Settled w ∧
    ∃ set, w.cache.live w.now = some set ∧ 2 ≤ set.readAt := by
  obtain ⟨w, hw⟩ : ∃ w, (librarySets Unit Unit).runWhile World.Settled {}
      ([Event.enable 30] ++ reads 0 ["a"] ++ [Event.commit 0 (.noteItemsWritten ["A"])] ++
        List.replicate 4 (.advanceWrite 0) ++ [Event.advanceLoad 0, .dropLoad 0] ++ reads 1 ["a"] ++
        stores 1 ++ [Event.commit 1 (.noteItemsWritten ["A"])] ++
        List.replicate 3 (.advanceWrite 1) ++ reads 2 ["a"] ++ stores 2) = some w :=
      Option.isSome_iff_exists.mp (by decide +kernel)
  have hr : (librarySets Unit Unit).Reaches World.Settled w := Machine.path_of_runWhile _ hw
  have hserved := @library_set_current Unit Unit w hr 1
  refine ⟨w, hr, ?_⟩
  obtain rfl := Option.some.inj hw
  exact ⟨_, rfl, hserved rfl (.inr (.inr ⟨_, rfl⟩)) rfl rfl⟩

/-- The load stores between the two looks, and ends: the set from before the write is
served once the call has returned. -/
theorem stored_between_the_looks : ∃ w : World Unit Unit,
    (librarySets Unit Unit).Reachable w ∧
    ∃ x set, w.writes.lookup 0 = some x ∧ x.Returned ∧ w.cache.live w.now = some set ∧
      x.call.changes set.value = true ∧ set.readAt < x.wrote := by
  obtain ⟨w, hw⟩ : ∃ w, (librarySets Unit Unit).run {}
      ([Event.enable 30] ++ reads 0 ["a"] ++
        [Event.commit 0 (.noteItemsWritten ["a"]), .advanceWrite 0] ++ stores 0 ++
        [Event.advanceWrite 0]) = some w :=
      Option.isSome_iff_exists.mp (by decide +kernel)
  refine ⟨w, Machine.reachable_of_run _ hw, ?_⟩
  obtain rfl := Option.some.inj hw
  exact ⟨_, _, rfl, .inr (.inl rfl), rfl, rfl, by decide⟩

end Ferrofin.Libraries
