import Ferrofin.Directories.Cache

/-!
# When a directory cache is fresh

An invalidation and a clear begin a new generation, and a listing read before is not
remembered after.  A relist does not: a slow reader that listed the folder before the
relist may put its old listing over the new one.  And what the image providers read of an
old listing may be remembered beside a newer one.  As long as neither happens
(`World.Settled`), whatever a lookup returns was read after the operations that had
returned when it started.
-/

namespace Ferrofin.Directories

open Lib Util

/-! ### The condition -/

/-- What a call is about to remember: the folder, the generation it took, and when it read
the folder. -/
def Task.keeps : Task → Option (Path × Nat × Nat)
  | .entries path _ (.keeping generation l) | .relist path _ (.keeping generation _ l)
  | .metadata path _ (.sharing _ (.keeping generation l)) => some (path, generation, l.readAt)
  | .metadata path _ (.storing generation m) => some (path, generation, m.readAt)
  | _ => none

def Task.keepsMetadata : Task → Option (Path × Nat × Nat)
  | .metadata path _ (.storing generation m) => some (path, generation, m.readAt)
  | _ => none

/-- The folder and the first step of a relist that is about to return, by its generation. -/
def Task.relists : Task → Option (Path × Nat × Nat)
  | .relist path _ (.keeping generation began _) => some (path, generation, began)
  | _ => none

/-- The folder and the first step of a relist that reads. -/
def Task.relistReads : Task → Option (Path × Nat)
  | .relist path _ (.reading _ began) => some (path, began)
  | _ => none

/-- No listing of a folder from before a relist of it that has returned is remembered; no
metadata is remembered beside another listing of its folder; and a relist that returns
without remembering what it read leaves nothing older of its folder. -/
def World.Settled (limits : DirectoryCacheLimits) (w : World) : Event → Prop
  | .advance i => ∀ task ∈ w.tasks.lookup i,
      (∀ k ∈ task.keeps, (w.opened limits).generation = k.2.1 →
        ∀ op ∈ w.operations, op.scope = .relist k.1 → op.began < k.2.2) ∧
      (∀ k ∈ task.keepsMetadata, (w.opened limits).generation = k.2.1 →
        ∀ l ∈ (w.opened limits).entries.lookup k.1, l.readAt = k.2.2) ∧
      ∀ k ∈ task.relists, (w.opened limits).generation ≠ k.2.1 →
        (w.opened limits).Newer k.1 k.2.2
  | .read i none => ∀ task ∈ w.tasks.lookup i, ∀ k ∈ task.relistReads, w.state.Newer k.1 k.2
  | .read _ (some _) | .tick | .call _ _ | .stat _ _ => True

instance (limits : DirectoryCacheLimits) (w : World) (e : Event) :
    Decidable (w.Settled limits e) := by
  cases e with
  | advance i =>
    exact inferInstanceAs (Decidable (∀ task ∈ w.tasks.lookup i, _ ∧ _ ∧ _))
  | read i result =>
    cases result with
    | none =>
      exact inferInstanceAs (Decidable (∀ task ∈ w.tasks.lookup i, ∀ k ∈ task.relistReads,
        w.state.Newer k.1 k.2))
    | some value => exact inferInstanceAs (Decidable True)
  | tick | call | stat => exact inferInstanceAs (Decidable True)

/-! ### The invariant -/

namespace World

variable {limits : DirectoryCacheLimits} {w w' : World}

/-- What was read at `readAt` is from after the operations on the folder that had returned
when the call started. -/
def Since (w : World) (path : Path) (started readAt : Nat) : Prop :=
  ∀ op ∈ w.operations, op.scope.covers path → op.completed < started → op.began < readAt

/-- What was read at `readAt` is from after the invalidations and clears of the folder, or
is not remembered any more. -/
def Guarded (w : World) (path : Path) (generation readAt : Nat) : Prop :=
  ∀ op ∈ w.operations, op.scope.covers path → op.scope = .relist path ∨ op.began < readAt ∨
    generation < w.state.generation

/-- `try_shared` is in order, in a call that took the generation `outer` before. -/
def SharedOk (w : World) (outer : Nat) (path : Path) (started : Nat) : SharedPhase → Prop
  | .probing => True
  | .reading generation => outer ≤ generation ∧ generation ≤ w.state.generation
  | .keeping generation l => (outer ≤ generation ∧ generation ≤ w.state.generation) ∧
      started ≤ l.readAt ∧ w.Guarded path generation l.readAt

def TaskOk (w : World) : Task → Prop
  | .entries path started phase => started ≤ w.clock ∧ w.SharedOk 0 path started phase
  | .metadata path started phase => started ≤ w.clock ∧ match phase with
      | .probing => True
      | .sharing generation phase => generation ≤ w.state.generation ∧
          w.SharedOk generation path started phase
      | .mapping generation l => generation ≤ w.state.generation ∧
          w.Since path started l.readAt ∧ w.Guarded path generation l.readAt
      | .storing generation m => generation ≤ w.state.generation ∧
          w.Since path started m.readAt ∧ w.Guarded path generation m.readAt
  | .relist path started phase => started ≤ w.clock ∧ match phase with
      | .forgetting => True
      | .reading generation began => generation ≤ w.state.generation ∧ began < w.clock
      | .keeping generation began l => generation ≤ w.state.generation ∧ began < l.readAt ∧
          began < w.clock ∧ started ≤ l.readAt ∧ w.Guarded path generation l.readAt
  | .returnedEntries path started l => started ≤ w.clock ∧
      ∀ l' ∈ l, w.Since path started l'.readAt
  | .returnedMetadata path started m => started ≤ w.clock ∧ w.Since path started m.readAt
  | .invalidate _ | .clear | .returned => True

structure Fresh (w : World) : Prop where
  counted : w.state.Counted
  oneListing : w.state.OneListing
  operations : ∀ op ∈ w.operations, op.began ≤ op.completed ∧ op.completed < w.clock
  newer : ∀ op ∈ w.operations, ∀ path, op.scope.covers path → w.state.Newer path op.began
  tasks : ∀ i task, w.tasks.lookup i = some task → w.TaskOk task

theorem Fresh.init : Fresh {} where
  counted := rfl
  oneListing path l m hl := by cases hl
  operations op hop := by cases hop
  newer op hop := by cases hop
  tasks i task ht := by cases ht

/-! ### What later steps keep -/

/-- Time passes: an operation that returns now is a relist, or has begun a generation. -/
structure Extends (w w' : World) : Prop where
  clock : w.clock ≤ w'.clock
  generation : w.state.generation ≤ w'.state.generation
  operations : ∀ op ∈ w'.operations, op ∈ w.operations ∨ op.completed = w.clock ∧
    ((∃ path, op.scope = .relist path) ∨ w.state.generation < w'.state.generation)

theorem Since.mono {path : Path} {started readAt : Nat} (h : w.Since path started readAt)
    (hext : w.Extends w') (hle : started ≤ w.clock) : w'.Since path started readAt := by
  intro op hop hcovers hlt
  rcases hext.operations op hop with hop | ⟨hnow, -⟩
  · exact h op hop hcovers hlt
  · omega

theorem Guarded.mono {path : Path} {generation readAt : Nat}
    (h : w.Guarded path generation readAt) (hext : w.Extends w')
    (hle : generation ≤ w.state.generation) : w'.Guarded path generation readAt := by
  intro op hop hcovers
  rcases hext.operations op hop with hop | ⟨-, ⟨path', hscope⟩ | hlt⟩
  · rcases h op hop hcovers with hrelist | hread | hgen
    · exact .inl hrelist
    · exact .inr (.inl hread)
    · exact .inr (.inr (Nat.lt_of_lt_of_le hgen hext.generation))
  · rw [hscope, Scope.covers, decide_eq_true_iff] at hcovers
    exact .inl (hcovers ▸ hscope)
  · exact .inr (.inr (Nat.lt_of_le_of_lt hle hlt))

theorem SharedOk.mono {outer : Nat} {path : Path} {started : Nat} {phase : SharedPhase}
    (h : w.SharedOk outer path started phase) (hext : w.Extends w') :
    w'.SharedOk outer path started phase := by
  cases phase with
  | probing => trivial
  | reading generation => exact ⟨h.1, Nat.le_trans h.2 hext.generation⟩
  | keeping generation l =>
    obtain ⟨⟨houter, hgen⟩, hread, hguard⟩ := h
    exact ⟨⟨houter, Nat.le_trans hgen hext.generation⟩, hread, hguard.mono hext hgen⟩

theorem TaskOk.mono {task : Task} (h : w.TaskOk task) (hext : w.Extends w') : w'.TaskOk task := by
  have hgen : ∀ {generation : Nat}, generation ≤ w.state.generation →
      generation ≤ w'.state.generation := fun hle => Nat.le_trans hle hext.generation
  have hclock : ∀ {t : Nat}, t ≤ w.clock → t ≤ w'.clock := fun hle => Nat.le_trans hle hext.clock
  cases task with
  | entries path started phase => exact ⟨hclock h.1, SharedOk.mono h.2 hext⟩
  | metadata path started phase =>
    obtain ⟨hle, hphase⟩ := h
    refine ⟨hclock hle, ?_⟩
    cases phase with
    | probing => trivial
    | sharing generation phase => exact ⟨hgen hphase.1, SharedOk.mono hphase.2 hext⟩
    | mapping generation l | storing generation l =>
      exact ⟨hgen hphase.1, hphase.2.1.mono hext hle, hphase.2.2.mono hext hphase.1⟩
  | relist path started phase =>
    obtain ⟨hle, hphase⟩ := h
    refine ⟨hclock hle, ?_⟩
    cases phase with
    | forgetting => trivial
    | reading generation began => exact ⟨hgen hphase.1, Nat.lt_of_lt_of_le hphase.2 hext.clock⟩
    | keeping generation began l =>
      obtain ⟨hg, hbegan, hnow, hread, hguard⟩ := hphase
      exact ⟨hgen hg, hbegan, Nat.lt_of_lt_of_le hnow hext.clock, hread, hguard.mono hext hg⟩
  | returnedEntries path started l =>
    exact ⟨hclock h.1, fun l' hl' => (h.2 l' hl').mono hext h.1⟩
  | returnedMetadata path started m => exact ⟨hclock h.1, h.2.mono hext h.1⟩
  | invalidate | clear | returned => trivial

structure StateOk (w : World) (s : State) : Prop where
  counted : s.Counted
  oneListing : s.OneListing
  generation : w.state.generation ≤ s.generation
  newer : ∀ op ∈ w.operations, ∀ path, op.scope.covers path → s.Newer path op.began

theorem Fresh.state (h : w.Fresh) : w.StateOk w.state :=
  ⟨h.counted, h.oneListing, Nat.le_refl _, h.newer⟩

theorem StateOk.within {s s' : State} (h : w.StateOk s) (hw : s.Within s') (hc : s'.Counted) :
    w.StateOk s' :=
  ⟨hc, h.oneListing.within hw, Nat.le_trans h.generation hw.generation,
    fun op hop path hcovers => (h.newer op hop path hcovers).within hw⟩

/-- **A call takes a step.** -/
theorem Fresh.goOn (h : w.Fresh) {i : Nat} {s : State} {task : Task}
    {operation : Option Operation} (hs : w.StateOk s)
    (hop : ∀ op ∈ operation, op.began ≤ op.completed ∧ op.completed = w.clock ∧
      ((∃ path, op.scope = .relist path) ∨ w.state.generation < s.generation) ∧
      ∀ path, op.scope.covers path → s.Newer path op.began)
    (htask : w.Extends (w.goOn i s task operation) → (w.goOn i s task operation).TaskOk task) :
    (w.goOn i s task operation).Fresh := by
  have hmem : ∀ op ∈ (w.goOn i s task operation).operations,
      op ∈ w.operations ∨ op ∈ operation := by
    intro op hmem
    rcases List.mem_append.mp hmem with hmem | hmem
    · exact .inl hmem
    · exact .inr (Option.mem_toList.mp hmem)
  have hext : w.Extends (w.goOn i s task operation) := by
    refine ⟨Nat.le_succ _, hs.generation, fun op hmem' => ?_⟩
    rcases hmem op hmem' with hold | hnew
    · exact .inl hold
    · exact .inr ⟨(hop op hnew).2.1, (hop op hnew).2.2.1⟩
  refine ⟨hs.counted, hs.oneListing, fun op hmem' => ?_, fun op hmem' path hcovers => ?_,
    fun j t ht => ?_⟩
  · have hclock : (w.goOn i s task operation).clock = w.clock + 1 := rfl
    rcases hmem op hmem' with hold | hnew
    · have hold := h.operations op hold
      omega
    · have hnew := hop op hnew
      omega
  · rcases hmem op hmem' with hold | hnew
    · exact hs.newer op hold path hcovers
    · exact (hop op hnew).2.2.2 path hcovers
  · have ht : (w.tasks.insert i task).lookup j = some t := ht
    rw [KeyedMap.lookup_insert_eq] at ht
    split at ht
    · exact Option.some.inj ht ▸ htask hext
    · exact (h.tasks j t ht).mono hext

theorem Fresh.goOn_none (h : w.Fresh) {i : Nat} {s : State} {task : Task} (hs : w.StateOk s)
    (htask : w.TaskOk task) : (w.goOn i s task none).Fresh :=
  h.goOn hs (fun _ hop => (by cases hop)) htask.mono

theorem Fresh.opened (h : w.Fresh) (limits : DirectoryCacheLimits) :
    Fresh { w with state := w.opened limits } := by
  have hok := h.state.within (State.within_dropIfIdleOrFull w.state w.now limits)
    (h.counted.dropIfIdleOrFull w.now limits)
  exact ⟨hok.counted, hok.oneListing, h.operations, hok.newer, fun i task ht =>
    (h.tasks i task ht).mono ⟨Nat.le_refl _, hok.generation, fun op hop => .inl hop⟩⟩

/-! ### The steps under the lock -/

theorem Fresh.since (h : w.Fresh) {path : Path} {started readAt : Nat} (hle : started ≤ readAt) :
    w.Since path started readAt := by
  intro op hop _ hlt
  have hop := h.operations op hop
  omega

theorem StateOk.keep (hok : w.StateOk w.state) {path : Path} {l : Listing FileSystemEntryInfo}
    {generation : Nat} (hguard : w.Guarded path generation l.readAt)
    (hrelist : w.state.generation = generation →
      ∀ op ∈ w.operations, op.scope = .relist path → op.began < l.readAt) :
    w.StateOk (w.state.keep path l generation) := by
  refine ⟨hok.counted.keep .., hok.oneListing.keep path l generation,
    (State.generation_keep ..).ge,
    fun op hop path' hcovers => (hok.newer op hop path' hcovers).keep fun hpath hg => ?_⟩
  subst hpath
  rcases hguard op hop hcovers with hscope | hread | hlt
  · exact hrelist hg op hop hscope
  · exact hread
  · omega

theorem StateOk.keepMetadata (hok : w.StateOk w.state) {path : Path}
    {m : Listing FileSystemMetadata} {generation : Nat}
    (hguard : w.Guarded path generation m.readAt)
    (hrelist : w.state.generation = generation →
      ∀ op ∈ w.operations, op.scope = .relist path → op.began < m.readAt)
    (hone : w.state.generation = generation →
      ∀ l ∈ w.state.entries.lookup path, l.readAt = m.readAt) :
    w.StateOk (w.state.keepMetadata path m generation) := by
  refine ⟨hok.counted.keepMetadata .., hok.oneListing.keepMetadata hone,
    (State.generation_keepMetadata ..).ge,
    fun op hop path' hcovers => (hok.newer op hop path' hcovers).keepMetadata fun hpath hg => ?_⟩
  subst hpath
  rcases hguard op hop hcovers with hscope | hread | hlt
  · exact hrelist hg op hop hscope
  · exact hread
  · omega

/-- `try_shared` takes a step: it stays in order, or returns a listing that is. -/
theorem SharedOk.advance (h : w.Fresh) {outer : Nat} {path : Path} {started : Nat}
    {phase : SharedPhase} (hok : w.SharedOk outer path started phase)
    (houter : outer ≤ w.state.generation)
    (hrelist : ∀ generation l, phase = .keeping generation l → w.state.generation = generation →
      ∀ op ∈ w.operations, op.scope = .relist path → op.began < l.readAt)
    {s : State} {r : Listing FileSystemEntryInfo ⊕ SharedPhase}
    (hs : advanceShared w.state path phase = some (s, r)) :
    w.StateOk s ∧
      (∀ l, r = .inl l → w.Since path started l.readAt ∧ w.Guarded path outer l.readAt) ∧
      ∀ next, r = .inr next → w.SharedOk outer path started next := by
  cases phase with
  | probing =>
    rw [advanceShared, Option.some.injEq, Prod.mk.injEq] at hs
    obtain ⟨rfl, hr⟩ := hs
    refine ⟨h.state, fun l hl => ?_, fun next hnext => ?_⟩
    · have hhit : w.state.entries.lookup path = some l := by
        rw [hl] at hr
        split at hr
        · next hhit => rw [hhit, Sum.inl.inj hr]
        · cases hr
      have hnewer : ∀ op ∈ w.operations, op.scope.covers path → op.began < l.readAt :=
        fun op hop hcovers => (h.newer op hop path hcovers).1 l hhit
      exact ⟨fun op hop hcovers _ => hnewer op hop hcovers,
        fun op hop hcovers => .inr (.inl (hnewer op hop hcovers))⟩
    · rw [hnext] at hr
      split at hr
      · cases hr
      · obtain rfl := Sum.inr.inj hr
        exact ⟨houter, Nat.le_refl _⟩
  | reading => cases hs
  | keeping generation l =>
    rw [advanceShared, Option.some.injEq, Prod.mk.injEq] at hs
    obtain ⟨rfl, rfl⟩ := hs
    obtain ⟨⟨hle, -⟩, hread, hguard⟩ := hok
    refine ⟨h.state.keep hguard (hrelist generation l rfl), fun l' hl' => ?_,
      fun next hnext => by cases hnext⟩
    obtain rfl := Sum.inl.inj hl'
    refine ⟨h.since hread, fun op hop hcovers => ?_⟩
    rcases hguard op hop hcovers with hscope | hbegan | hlt
    · exact .inl hscope
    · exact .inr (.inl hbegan)
    · exact .inr (.inr (Nat.lt_of_le_of_lt hle hlt))

/-- `file_system_entries` takes a step. -/
theorem Fresh.advanceMetadata (h : w.Fresh) {path : Path} {started : Nat} {phase : MetadataPhase}
    (hok : w.TaskOk (.metadata path started phase))
    (hrelist : ∀ k ∈ Task.keeps (.metadata path started phase), w.state.generation = k.2.1 →
      ∀ op ∈ w.operations, op.scope = .relist k.1 → op.began < k.2.2)
    (hone : ∀ k ∈ Task.keepsMetadata (.metadata path started phase),
      w.state.generation = k.2.1 → ∀ l ∈ w.state.entries.lookup k.1, l.readAt = k.2.2)
    {s : State} {task : Task} (hs : advanceMetadata w.state path started phase = some (s, task)) :
    w.StateOk s ∧ w.TaskOk task := by
  obtain ⟨hle, hok⟩ := hok
  cases phase with
  | probing =>
    rw [Directories.advanceMetadata, Option.some.injEq, Prod.mk.injEq] at hs
    obtain ⟨rfl, rfl⟩ := hs
    refine ⟨h.state, ?_⟩
    split
    · next m hhit =>
      exact ⟨hle, fun op hop hcovers _ => (h.newer op hop path hcovers).2 m hhit⟩
    · exact ⟨hle, Nat.le_refl _, trivial⟩
  | sharing generation phase =>
    rw [Directories.advanceMetadata] at hs
    obtain ⟨⟨s', r⟩, hshared, heq⟩ := Option.map_eq_some_iff.mp hs
    obtain ⟨hstate, hl, hnext⟩ := SharedOk.advance h hok.2 hok.1 (by
      rintro g l rfl
      exact hrelist _ rfl) hshared
    cases r with
    | inl l =>
      obtain ⟨rfl, rfl⟩ := Prod.mk.inj heq
      exact ⟨hstate, hle, hok.1, hl l rfl⟩
    | inr next =>
      obtain ⟨rfl, rfl⟩ := Prod.mk.inj heq
      exact ⟨hstate, hle, hok.1, hnext next rfl⟩
  | mapping => cases hs
  | storing generation m =>
    rw [Directories.advanceMetadata, Option.some.injEq, Prod.mk.injEq] at hs
    obtain ⟨rfl, rfl⟩ := hs
    exact ⟨h.state.keepMetadata hok.2.2 (hrelist _ rfl) (hone _ rfl), hle, hok.2.1⟩

theorem Fresh.advance (h : w.Fresh) {i : Nat} {task : Task} (hok : w.TaskOk task)
    (hrelist : ∀ k ∈ task.keeps, w.state.generation = k.2.1 →
      ∀ op ∈ w.operations, op.scope = .relist k.1 → op.began < k.2.2)
    (hone : ∀ k ∈ task.keepsMetadata, w.state.generation = k.2.1 →
      ∀ l ∈ w.state.entries.lookup k.1, l.readAt = k.2.2)
    (hleft : ∀ k ∈ task.relists, w.state.generation ≠ k.2.1 → w.state.Newer k.1 k.2.2)
    {s : State} {task' : Task} {operation : Option Operation}
    (hs : task.advance w.clock w.state = some (s, task', operation)) :
    (w.goOn i s task' operation).Fresh := by
  cases task with
  | entries path started phase =>
    obtain ⟨hle, hok⟩ := hok
    obtain ⟨⟨s', r⟩, hshared, heq⟩ := Option.map_eq_some_iff.mp hs
    obtain ⟨hstate, hl, hnext⟩ := SharedOk.advance h hok (Nat.zero_le _) (by
      rintro g l rfl
      exact hrelist _ rfl) hshared
    cases r with
    | inl l =>
      cases heq
      refine h.goOn_none hstate ⟨hle, fun l' hl' => ?_⟩
      obtain rfl := Option.some.inj hl'
      exact (hl l rfl).1
    | inr next =>
      cases heq
      exact h.goOn_none hstate ⟨hle, hnext next rfl⟩
  | metadata path started phase =>
    obtain ⟨⟨s', task⟩, hmeta, heq⟩ := Option.map_eq_some_iff.mp hs
    cases heq
    obtain ⟨hstate, htask⟩ := h.advanceMetadata hok hrelist hone hmeta
    exact h.goOn_none hstate htask
  | relist path started phase =>
    obtain ⟨hle, hok⟩ := hok
    cases phase with
    | forgetting =>
      cases hs
      refine h.goOn (h.state.within (State.within_forget ..) (h.counted.forget path))
        (fun _ hop => (by cases hop)) fun hext => ?_
      exact ⟨Nat.le_trans hle hext.clock, hext.generation, Nat.lt_succ_self _⟩
    | reading => cases hs
    | keeping generation began l =>
      cases hs
      obtain ⟨hgen, hbegan, hnow, hread, hguard⟩ := hok
      refine h.goOn (h.state.keep hguard (hrelist _ rfl)) (fun op hop => ?_) fun hext => ?_
      · cases hop
        refine ⟨Nat.le_of_lt hnow, rfl, .inl ⟨path, rfl⟩, fun path' hcovers => ?_⟩
        obtain rfl : path' = path := of_decide_eq_true hcovers
        by_cases hg : w.state.generation = generation
        · subst hg
          exact State.newer_keep _ hbegan
        · rw [State.keep, if_pos hg]
          exact hleft _ rfl hg
      · refine ⟨Nat.le_trans hle hext.clock, fun l' hl' => ?_⟩
        obtain rfl := Option.some.inj hl'
        exact (h.since hread).mono hext hle
  | invalidate path =>
    cases hs
    obtain ⟨hwithin, hlt⟩ := State.within_invalidate w.state path
    refine h.goOn (h.state.within hwithin (h.counted.invalidate path)) (fun op hop => ?_)
      fun _ => trivial
    cases hop
    exact ⟨Nat.le_refl _, rfl, .inr hlt, fun path' hcovers =>
      State.newer_invalidate _ (of_decide_eq_true hcovers) _⟩
  | clear =>
    cases hs
    refine h.goOn (h.state.within (State.within_reset _) .reset) (fun op hop => ?_)
      fun _ => trivial
    cases hop
    exact ⟨Nat.le_refl _, rfl, .inr (Nat.lt_succ_self _), fun path' _ =>
      State.newer_reset w.state path' _⟩
  | returnedEntries | returnedMetadata | returned => cases hs

/-! ### The other steps -/

theorem Fresh.guarded_now (h : w.Fresh) (path : Path) (generation : Nat) :
    w.Guarded path generation w.clock := by
  intro op hop _
  have hop := h.operations op hop
  exact .inr (.inl (by omega))

/-- `try_shared` reads the folder. -/
theorem Fresh.sharedRead (h : w.Fresh) {outer generation started : Nat} {path : Path}
    (hok : w.SharedOk outer path started (.reading generation)) (hle : started ≤ w.clock)
    (value : List FileSystemEntryInfo) :
    w.SharedOk outer path started
      (.keeping generation { value := value, readAt := w.clock }) :=
  ⟨hok, hle, h.guarded_now path generation⟩

theorem Fresh.read (h : w.Fresh) {i : Nat} {task : Task} (hok : w.TaskOk task)
    {result : Option (List FileSystemEntryInfo)}
    (hleft : result = none → ∀ k ∈ task.relistReads, w.state.Newer k.1 k.2) {task' : Task}
    {operation : Option Operation} (hs : task.read w.clock result = some (task', operation)) :
    (w.goOn i w.state task' operation).Fresh := by
  rw [Task.read.eq_def] at hs
  split at hs
  · -- a lookup of the entries
    cases hs
    obtain ⟨hle, hok⟩ := hok
    cases result with
    | some value => exact h.goOn_none h.state ⟨hle, h.sharedRead hok hle value⟩
    | none => exact h.goOn_none h.state ⟨hle, fun l hl => (by cases hl)⟩
  · -- a lookup of the metadata
    cases hs
    obtain ⟨hle, hgen, hok⟩ := hok
    cases result with
    | some value => exact h.goOn_none h.state ⟨hle, hgen, h.sharedRead hok hle value⟩
    | none => exact h.goOn_none h.state ⟨hle, hgen, h.since hle, h.guarded_now _ _⟩
  · -- a relist
    next path started generation began =>
    obtain ⟨hle, hgen, hnow⟩ := hok
    cases result with
    | some value =>
      cases hs
      refine h.goOn h.state (fun _ hop => (by cases hop)) fun hext => ?_
      exact ⟨Nat.le_trans hle hext.clock, hgen, hnow, Nat.lt_of_lt_of_le hnow hext.clock, hle,
        (h.guarded_now path generation).mono hext hgen⟩
    | none =>
      cases hs
      refine h.goOn h.state (fun op hop => ?_) fun hext =>
        ⟨Nat.le_trans hle hext.clock, fun l hl => (by cases hl)⟩
      cases hop
      refine ⟨Nat.le_of_lt hnow, rfl, .inl ⟨path, rfl⟩, fun path' hcovers => ?_⟩
      obtain rfl : path' = path := of_decide_eq_true hcovers
      exact hleft rfl _ rfl
  · cases hs

theorem Fresh.stat (h : w.Fresh) {i : Nat} {task task' : Task} (hok : w.TaskOk task)
    {length : Path → Nat} (hs : task.stat length = some task') :
    (w.goOn i w.state task' none).Fresh := by
  rw [Task.stat.eq_def] at hs
  split at hs
  · cases hs
    exact h.goOn_none h.state hok
  · cases hs

/-- **Every step keeps the invariant.** -/
theorem Fresh.step {e : Event} (h : w.Fresh) (hok : w.Settled limits e)
    (hs : w.step limits e = some w') : w'.Fresh := by
  cases e with
  | tick =>
    cases hs
    refine ⟨h.counted, h.oneListing, fun op hop => ?_, h.newer, fun i task ht =>
      (h.tasks i task ht).mono ⟨Nat.le_succ _, Nat.le_refl _, fun op hop => .inl hop⟩⟩
    have hop := h.operations op hop
    exact ⟨hop.1, Nat.lt_succ_of_lt hop.2⟩
  | call i call =>
    rw [World.step] at hs
    split at hs
    · cases hs
    · cases hs
      refine h.goOn_none h.state ?_
      cases call with
      | entries path | metadata path | relist path => exact ⟨Nat.le_refl _, trivial⟩
      | invalidate | clear => trivial
  | advance i =>
    obtain ⟨task, ht, hs⟩ := Option.bind_eq_some_iff.mp hs
    obtain ⟨⟨s, task', operation⟩, hadvance, rfl⟩ := Option.map_eq_some_iff.mp hs
    obtain ⟨hrelist, hone, hleft⟩ := hok task ht
    have hopened := h.opened limits
    exact hopened.advance (hopened.tasks i task ht) hrelist hone hleft hadvance
  | read i result =>
    obtain ⟨task, ht, hs⟩ := Option.bind_eq_some_iff.mp hs
    obtain ⟨⟨task', operation⟩, hread, rfl⟩ := Option.map_eq_some_iff.mp hs
    refine h.read (h.tasks i task ht) ?_ hread
    rintro rfl
    exact hok task ht
  | stat i length =>
    obtain ⟨task, ht, hs⟩ := Option.bind_eq_some_iff.mp hs
    obtain ⟨task', hstat, rfl⟩ := Option.map_eq_some_iff.mp hs
    exact h.stat (h.tasks i task ht) hstat

theorem fresh_of_reaches (h : (directoryCache limits).Reaches (World.Settled limits) w) :
    w.Fresh := h.invariant .init fun _ _ _ hfresh hok hs => hfresh.step hok hs

end World

/-! ### What is returned -/

def Task.served : Task → Option (Path × Nat × Nat)
  | .returnedEntries path started (some l) => some (path, started, l.readAt)
  | .returnedMetadata path started m => some (path, started, m.readAt)
  | .returnedEntries _ _ none | .entries _ _ _ | .metadata _ _ _ | .relist _ _ _ | .invalidate _
  | .clear | .returned => none

/-- **The directory cache is fresh**: what a call returns was read after the operations on
the folder had begun that had returned when the call started; what is remembered of a
folder comes from one listing; and the records are counted right, and bounded. -/
theorem directory_cache_fresh {limits : DirectoryCacheLimits} {w : World}
    (h : (directoryCache limits).Reaches (World.Settled limits) w) :
    (∀ i task, w.tasks.lookup i = some task → ∀ path started readAt,
      task.served = some (path, started, readAt) → ∀ op ∈ w.operations,
        op.scope.covers path → op.completed < started → op.began < readAt) ∧
    w.state.OneListing ∧ w.state.Counted ∧ (w.opened limits).records < limits.maxRecords := by
  have hfresh := World.fresh_of_reaches h
  refine ⟨fun i task ht path started readAt hserved => ?_, hfresh.oneListing, hfresh.counted,
    State.records_dropIfIdleOrFull ..⟩
  have hok := hfresh.tasks i task ht
  cases task with
  | returnedEntries path started l =>
    cases l with
    | none => cases hserved
    | some l =>
      cases hserved
      exact hok.2 l rfl
  | returnedMetadata path started m =>
    cases hserved
    exact hok.2
  | entries | metadata | relist | invalidate | clear | returned => cases hserved

/-! ### What goes wrong -/

private def tenRecords : DirectoryCacheLimits :=
  { maxRecords := 10, maxRecords_pos := by decide, idleTimeout := 300 }

private def folder : Path := ['/', 'f']

private def file : FileSystemEntryInfo :=
  { name := "a.mkv", path := "/f/a.mkv".toList, type_ := .file }

private def misses (i : Nat) (found : List FileSystemEntryInfo) : List Event :=
  [.call i (.entries folder), .advance i, .read i (some found)]

private def relists (i : Nat) (found : List FileSystemEntryInfo) : List Event :=
  [.call i (.relist folder), .advance i, .read i (some found), .advance i]

/-- After an invalidation of a file in the folder, and after a relist, the folder is read
again. -/
theorem directory_cache_fresh_relist : ∃ w : World,
    (directoryCache tenRecords).Reaches (World.Settled tenRecords) w ∧
    ∃ l, w.tasks.lookup 4 = some (.returnedEntries folder 13 (some l)) ∧ 9 < l.readAt := by
  obtain ⟨w, hw⟩ : ∃ w, (directoryCache tenRecords).runWhile (World.Settled tenRecords) {}
      (misses 0 [] ++ [Event.advance 0, .call 1 (.invalidate file.path), .advance 1] ++
        [Event.call 2 (.metadata folder), .tick] ++ relists 3 [file] ++
        [Event.tick, .call 4 (.entries folder), .advance 4]) = some w :=
      Option.isSome_iff_exists.mp (by decide +kernel)
  have hr : (directoryCache tenRecords).Reaches (World.Settled tenRecords) w :=
    Machine.path_of_runWhile _ hw
  have hserved := (directory_cache_fresh hr).1 4
  refine ⟨w, hr, ?_⟩
  obtain rfl := Option.some.inj hw
  exact ⟨_, rfl, hserved _ rfl folder _ _ rfl
    { scope := .relist folder, began := 9, completed := 11 } (.tail _ (.head _)) rfl (by decide)⟩

/-- A reader that listed the folder before a relist remembers its listing after it, and the
next lookup returns that. -/
theorem stale_after_relist : ∃ w : World, (directoryCache tenRecords).Reachable w ∧
    ∃ task path started readAt, w.tasks.lookup 2 = some task ∧
      task.served = some (path, started, readAt) ∧
      ∃ op ∈ w.operations, op.scope.covers path = true ∧ op.completed < started ∧
        readAt < op.began := by
  obtain ⟨w, hw⟩ : ∃ w, (directoryCache tenRecords).run {}
      (misses 0 [] ++ relists 1 [file] ++
        [Event.advance 0, .call 2 (.entries folder), .advance 2]) = some w :=
      Option.isSome_iff_exists.mp (by decide +kernel)
  refine ⟨w, Machine.reachable_of_run _ hw, ?_⟩
  obtain rfl := Option.some.inj hw
  exact ⟨_, _, _, _, rfl, rfl, { scope := .relist folder, began := 4, completed := 6 },
    .head _, rfl, by decide, by decide⟩

end Ferrofin.Directories
