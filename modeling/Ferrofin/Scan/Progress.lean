import Ferrofin.Lib.KeyedMap
import Ferrofin.Lib.Machine
import Mathlib.Algebra.Order.Field.Basic
import Mathlib.Algebra.Order.Ring.Rat
import Mathlib.Data.List.Dedup
import Mathlib.Data.List.Induction

/-!
# What a library shows of its scans

`scan_progress.rs`: a scan owns a run with the counts of its libraries, and a library shows the run
that `visible` picks.  Reports are sent under the lock of the runs and published in the order they
were sent in; a sample of the timer is a `tick`, here at any moment.  A percentage is the exact
ratio of which the source has a double.
-/

namespace Ferrofin.Scan.Progress

open Lib
open List (append_assoc append_nil forall_mem_nil mem_append mem_map mem_of_mem_filter
  mem_singleton)

inductive ScanPhase where
  | queued | planning | items | finalizing
deriving DecidableEq

/-- A 128 bit id, as its number. -/
abbrev Uuid := Nat

structure LibraryScanProgress where
  scanId : Nat
  libraryId : Uuid
  completed : Nat := 0
  total : Option Nat := none
  phase : ScanPhase := .queued

def LibraryScanProgress.percent (p : LibraryScanProgress) : ℚ :=
  if 0 < p.total.getD 0 then 100 * p.completed / p.total.getD 0
  else if p.phase = .finalizing then 100 else 0

inductive Status where
  | idle | queued | active
deriving DecidableEq

structure Update where
  progress : LibraryScanProgress
  percent : ℚ
  status : Status

def Update.active (p : LibraryScanProgress) : Update :=
  ⟨p, p.percent, if p.phase = .queued then .queued else .active⟩

theorem Update.active_status (p : LibraryScanProgress) : (active p).status ≠ .idle := by
  rw [active]
  split
  · exact fun h => by cases h
  · exact fun h => by cases h

/-- The maps of all runs in one list, older runs first: an entry carries its two keys. -/
structure State where
  nextId : Nat := 0
  runs : List LibraryScanProgress := []

namespace State

/-- The loop of `visible`, at one entry. -/
def see (libraries : KeyedMap Uuid LibraryScanProgress) (p : LibraryScanProgress) :
    KeyedMap Uuid LibraryScanProgress :=
  match libraries.lookup p.libraryId with
  | none => libraries.insert p.libraryId p
  | some current =>
    if current.phase = .queued ∧ p.phase ≠ .queued then libraries.insert p.libraryId p
    else libraries

def visible (s : State) : KeyedMap Uuid LibraryScanProgress := s.runs.foldl see ∅

/-- The entries of a library. -/
def covering (s : State) (library : Uuid) : List LibraryScanProgress :=
  s.runs.filter fun p => p.libraryId = library

/-- `Report::active`. -/
def report (s : State) (library : Uuid) : Option Update :=
  (s.visible.lookup library).map .active

def queued (s : State) (libraries : List Uuid) : State where
  nextId := s.nextId + 1
  runs := s.runs ++ libraries.dedup.map fun library =>
    { scanId := s.nextId + 1, libraryId := library }

/-- Changes the entries of a run in place. -/
def modify (s : State) (id : Nat) (f : LibraryScanProgress → LibraryScanProgress) :
    State :=
  { s with runs := s.runs.map fun p => if p.scanId = id then f p else p }

def activate (s : State) (id : Nat) : State :=
  s.modify id fun p => { p with phase := .planning }

/-- Each total goes to the entry of its library. -/
def planned (s : State) (id : Nat) (totals : List (Uuid × Nat)) : State :=
  s.modify id fun p => { p with
    total := totals.foldl (fun total t => if t.1 = p.libraryId then some t.2 else total) (some 0)
    phase := .items }

def advance (s : State) (id : Nat) (library : Uuid) : State :=
  s.modify id fun p =>
    { p with completed :=
        if p.libraryId = library then min (p.completed + 1) (p.total.getD 0) else p.completed }

def finalizing (s : State) (id : Nat) : State :=
  s.modify id fun p => { p with phase := .finalizing }

def remove (s : State) (id : Nat) : State :=
  { s with runs := s.runs.filter fun p => p.scanId ≠ id }

/-- What `remove` reports: nothing of a library where another run is shown. -/
def ended (s : State) (id : Nat) (completed : Bool) (library : Uuid) : Option Update :=
  ((s.covering library).find? fun p => p.scanId = id).bind fun p =>
    if (s.visible.lookup library).all (·.scanId ≠ id) then none
    else some <| ((s.remove id).visible.lookup library).elim
      ⟨p, if completed then 100 else 0, .idle⟩ .active

end State

/-- The runs, and the updates of each library that are sent and that are published.  A report has
at most one of a library; their order between libraries is left out. -/
structure Tracker where
  state : State := {}
  sent : Uuid → List Update := fun _ => []
  published : Uuid → List Update := fun _ => []

inductive Event where
  | queued (libraries : List Uuid)
  | activate (id : Nat)
  | planned (id : Nat) (totals : List (Uuid × Nat))
  | advance (id : Nat) (library : Uuid)
  | finalizing (id : Nat)
  | remove (id : Nat) (completed : Bool)
  | publish
  | tick

/-- The run whose guard takes the step. -/
def Event.run : Event → Option Nat
  | .activate id | .planned id _ | .advance id _ | .finalizing id | .remove id _ => some id
  | .queued _ | .publish | .tick => none

/-- The run that gets its totals. -/
def Event.plans : Event → Option Nat
  | .planned id _ => some id
  | .queued _ | .activate _ | .advance .. | .finalizing _ | .remove .. | .publish | .tick => none

namespace Tracker

def send (t : Tracker) (report : Uuid → Option Update) : Tracker :=
  { t with sent := fun library => t.sent library ++ (report library).toList }

def publish (t : Tracker) : Tracker :=
  { t with sent := fun _ => [], published := fun library => t.published library ++ t.sent library }

def step (t : Tracker) : Event → Tracker
  | .queued libraries => { t with state := t.state.queued libraries }
  | .activate id => { t with state := t.state.activate id }.send (t.state.activate id).report
  | .planned id totals => { t with state := t.state.planned id totals }
  | .advance id library => { t with state := t.state.advance id library }
  | .finalizing id => { t with state := t.state.finalizing id }
  | .remove id completed =>
    { t with state := t.state.remove id }.send (t.state.ended id completed)
  | .publish => t.publish
  | .tick => (t.send t.state.report).publish

end Tracker

def scanProgress : Machine Tracker Event := ⟨{}, fun t e => some (t.step e)⟩

/-! ### What a library shows -/

section

variable {p : LibraryScanProgress} {ps qs : List LibraryScanProgress}

/-- The first progress at work, else the first that waits. -/
def shown (ps : List LibraryScanProgress) : Option LibraryScanProgress :=
  (ps.find? fun p => p.phase ≠ .queued).or ps.head?

theorem shown_concat (ps : List LibraryScanProgress) (p : LibraryScanProgress) :
    shown (ps ++ [p]) = some ((shown ps).elim p fun current =>
      if current.phase = .queued ∧ p.phase ≠ .queued then p else current) := by
  cases ps with
  | nil => by_cases hp : p.phase = .queued <;> simp [shown, hp]
  | cons q ps =>
    rw [shown, shown, List.find?_append]
    cases h : (q :: ps).find? fun p => p.phase ≠ .queued with
    | some current =>
      have hc := List.find?_some h
      simp_all
    | none =>
      have hq := List.find?_eq_none.mp h q List.mem_cons_self
      by_cases hp : p.phase = .queued <;> simp_all

theorem mem_of_shown (h : shown ps = some p) : p ∈ ps := by
  rcases Option.or_eq_some_iff.mp h with h | ⟨-, h⟩
  · exact List.mem_of_find?_eq_some h
  · exact List.mem_of_mem_head? h

theorem shown_eq_none (h : shown ps = none) : ps = [] :=
  List.head?_eq_none_iff.mp (Option.or_eq_none_iff.mp h).2

end

variable {s : State} {l : Uuid} {p : LibraryScanProgress} {id : Nat}

namespace State

/-- **A library shows its oldest run at work**, and where none is, its oldest run. -/
theorem lookup_visible (s : State) (l : Uuid) :
    s.visible.lookup l = shown (s.covering l) := by
  rw [visible, covering]
  induction s.runs using List.reverseRecOn with
  | nil => rfl
  | append_singleton runs p ih =>
    rw [List.foldl_concat, List.filter_append, see]
    by_cases hl : p.libraryId = l
    · subst hl
      rw [List.filter_singleton, decide_eq_true rfl, cond_true, shown_concat, ← ih]
      cases h : (runs.foldl see ∅).lookup p.libraryId with
      | none => exact AList.lookup_insert _
      | some current =>
        rw [Option.elim_some]
        by_cases hc : current.phase = .queued ∧ p.phase ≠ .queued
        · rw [if_pos hc]
          exact (congrArg _ (if_pos hc)).trans (AList.lookup_insert _)
        · rw [if_neg hc]
          exact (congrArg _ (if_neg hc)).trans h
    · rw [List.filter_singleton, decide_eq_false hl, cond_false, append_nil, ← ih]
      split
      · exact AList.lookup_insert_ne (Ne.symm hl)
      · split
        · exact AList.lookup_insert_ne (Ne.symm hl)
        · rfl

theorem covering_queued (s : State) (libraries : List Uuid) (l : Uuid) :
    (s.queued libraries).covering l = s.covering l ++
      if l ∈ libraries then [{ scanId := s.nextId + 1, libraryId := l }] else [] := by
  rw [covering, queued, List.filter_append, List.filter_map]
  refine congrArg (s.covering l ++ ·) ?_
  rw [Function.comp_def, List.filter_eq, List.count_dedup]
  split <;> rfl

theorem covering_modify {f : LibraryScanProgress → LibraryScanProgress}
    (hf : ∀ p, (f p).libraryId = p.libraryId) (s : State) (id : Nat) (l : Uuid) :
    (s.modify id f).covering l = (s.covering l).map fun p => if p.scanId = id then f p else p := by
  rw [covering, modify, List.filter_map]
  refine congrArg (List.map _) (List.filter_congr fun p _ => ?_)
  rw [Function.comp_apply]
  split
  · rw [hf]
  · rfl

theorem covering_remove (s : State) (id : Nat) (l : Uuid) :
    (s.remove id).covering l = (s.covering l).filter fun p => p.scanId ≠ id := by
  rw [covering, covering, remove, List.filter_comm]

/-- In each library older runs come first, and every run was given its id. -/
structure Sound (s : State) : Prop where
  ordered : ∀ l, (s.covering l).Pairwise fun p q => p.scanId < q.scanId
  given : ∀ p ∈ s.runs, p.scanId ≤ s.nextId

end State

namespace Tracker

variable {t : Tracker}

/-- The updates of a library, in the order they are published in. -/
def updates (t : Tracker) (l : Uuid) : List Update :=
  t.published l ++ t.sent l

/-- What a change in place leaves of an entry. -/
structure Keeps (f : LibraryScanProgress → LibraryScanProgress) : Prop where
  scanId : ∀ p, (f p).scanId = p.scanId
  libraryId : ∀ p, (f p).libraryId = p.libraryId

theorem state_step (t : Tracker) (e : Event) :
    (∃ libraries, (t.step e).state = t.state.queued libraries) ∨
    (∃ id f, e.run = some id ∧ Keeps f ∧ (t.step e).state = t.state.modify id f) ∨
    (∃ id completed, e = .remove id completed ∧ (t.step e).state = t.state.remove id) ∨
    (t.step e).state = t.state := by
  cases e with
  | queued libraries => exact .inl ⟨libraries, rfl⟩
  | remove id completed => exact .inr (.inr (.inl ⟨id, completed, rfl, rfl⟩))
  | publish => exact .inr (.inr (.inr rfl))
  | tick => exact .inr (.inr (.inr rfl))
  | _ =>
    refine .inr (.inl ⟨_, _, rfl, ?_, rfl⟩)
    exact ⟨fun _ => rfl, fun _ => rfl⟩

theorem Keeps.scanId_ite {f : LibraryScanProgress → LibraryScanProgress} (hf : Keeps f)
    (id : Nat) (p : LibraryScanProgress) :
    (if p.scanId = id then f p else p).scanId = p.scanId := by
  split
  · exact hf.scanId p
  · rfl

theorem sound_step (h : t.state.Sound) (e : Event) : (t.step e).state.Sound := by
  rcases t.state_step e with ⟨libraries, hs⟩ | ⟨id, f, -, hf, hs⟩ | ⟨id, _, -, hs⟩ | hs <;> rw [hs]
  · refine ⟨fun l => ?_, fun p hp => ?_⟩
    · rw [State.covering_queued]
      refine List.pairwise_append.mpr ⟨h.ordered l, by split <;> simp, fun p hp q hq => ?_⟩
      split at hq
      · rw [mem_singleton.mp hq]
        exact Nat.lt_succ_of_le (h.given p (mem_of_mem_filter hp))
      · cases hq
    · rcases mem_append.mp hp with hp | hp
      · exact (h.given p hp).trans (Nat.le_succ _)
      · obtain ⟨_, -, rfl⟩ := mem_map.mp hp
        exact le_rfl
  · refine ⟨fun l => ?_, fun p hp => ?_⟩
    · rw [State.covering_modify hf.libraryId]
      refine List.pairwise_map.mpr ((h.ordered l).imp fun hlt => ?_)
      rwa [hf.scanId_ite, hf.scanId_ite]
    · obtain ⟨q, hq, rfl⟩ := mem_map.mp hp
      exact (hf.scanId_ite id q).trans_le (h.given q hq)
  · refine ⟨fun l => ?_, fun p hp => h.given p (mem_of_mem_filter hp)⟩
    rw [State.covering_remove]
    exact (h.ordered l).filter _
  · exact h

theorem sound_of_reachable (h : scanProgress.Reachable t) : t.state.Sound :=
  h.invariant ⟨fun _ => .nil, forall_mem_nil _⟩ fun _ e _ hs _ he =>
    Option.some.inj he ▸ sound_step hs e

/-! ### An enclosing scan -/

theorem covering_step {front : List LibraryScanProgress} {r : Nat} {e : Event}
    (hfront : ∀ q ∈ front, q.scanId ≤ r) (hrun : ∀ id ∈ e.run, r < id)
    (h : front <+: t.state.covering l) : front <+: (t.step e).state.covering l := by
  obtain ⟨younger, h⟩ := h
  rcases t.state_step e with ⟨libraries, hs⟩ | ⟨id, f, he, hf, hs⟩ | ⟨id, _, rfl, hs⟩ | hs <;>
    rw [hs]
  · rw [State.covering_queued, ← h, append_assoc]
    exact List.prefix_append ..
  · have hkeep : front.map (fun p => if p.scanId = id then f p else p) = front :=
      (List.map_congr_left fun q hq => if_neg ((hfront q hq).trans_lt (hrun id he)).ne).trans
        (List.map_id' _)
    rw [State.covering_modify hf.libraryId, ← h, List.map_append, hkeep]
    exact List.prefix_append ..
  · have hkeep : front.filter (fun p => p.scanId ≠ id) = front :=
      List.filter_eq_self.mpr fun q hq =>
        decide_eq_true ((hfront q hq).trans_lt (hrun id rfl)).ne
    rw [State.covering_remove, ← h, List.filter_append, hkeep]
    exact List.prefix_append ..
  · exact ⟨younger, h⟩

/-- **Whatever younger scans do, a library goes on showing the scan at work that it shows.** -/
theorem enclosing_stands {t' : Tracker} (h : scanProgress.Reachable t)
    (hshown : t.state.visible.lookup l = some p) (hwork : p.phase ≠ .queued)
    (hpath : scanProgress.Path (fun _ e => ∀ id ∈ e.run, p.scanId < id) t t') :
    t'.state.visible.lookup l = some p := by
  have hsound := sound_of_reachable h
  rw [State.lookup_visible] at hshown ⊢
  have hfind : (t.state.covering l).find? (fun p => p.phase ≠ .queued) = some p := by
    rcases Option.or_eq_some_iff.mp hshown with hfind | ⟨hnone, hhead⟩
    · exact hfind
    · exact absurd (decide_eq_true hwork)
        (List.find?_eq_none.mp hnone p (List.mem_of_mem_head? hhead))
  obtain ⟨-, older, younger, hcovering, holder⟩ := List.find?_eq_some_iff_append.mp hfind
  have hordered := hsound.ordered l
  rw [hcovering] at hordered
  have hlt := (List.pairwise_append.mp hordered).2.2
  have hfront : ∀ q ∈ older ++ [p], q.scanId ≤ p.scanId := by
    intro q hq
    rcases mem_append.mp hq with hq | hq
    · exact (hlt q hq p List.mem_cons_self).le
    · rw [mem_singleton.mp hq]
  obtain ⟨younger', hcovering'⟩ := hpath.invariant
    (I := fun t => older ++ [p] <+: t.state.covering l)
    ⟨younger, by rw [hcovering, append_assoc]; rfl⟩
    fun t e _ ht hrun he => Option.some.inj he ▸ covering_step hfront hrun ht
  rw [append_assoc] at hcovering'
  have hfind' : (t'.state.covering l).find? (fun p => p.phase ≠ .queued) = some p :=
    List.find?_eq_some_iff_append.mpr
      ⟨decide_eq_true hwork, older, younger', hcovering'.symm, holder⟩
  rw [shown, hfind']
  rfl

theorem enclosing_stands_nested :
    ([.queued [1], .activate 2, .remove 2 true].foldl step
      ([.queued [1, 2], .activate 1].foldl step {})).state.visible.lookup 1 =
        some { scanId := 1, libraryId := 1, phase := .planning } :=
  enclosing_stands (Machine.reachable_of_run [.queued [1, 2], .activate 1] rfl) rfl (by decide)
    (Machine.path_of_runWhile [.queued [1], .activate 2, .remove 2 true] rfl)

/-! ### What is published -/

theorem mem_covering_of_visible (h : s.visible.lookup l = some p) : p ∈ s.covering l := by
  rw [State.lookup_visible] at h
  exact mem_of_shown h

/-- What is published of a library: the progress that is shown, or once no run has the library any
more, its end. -/
structure Publishes (t t' : Tracker) (l : Uuid) (o : Option Update) : Prop where
  updates : t'.updates l = t.updates l ++ o.toList
  covered : o = none → t'.state.covering l = [] → t.state.covering l = []
  shown : ∀ u ∈ o, (∃ p ∈ t'.state.covering l, u = .active p) ∨
    (u.status = .idle ∧ t'.state.covering l = [] ∧ u.progress ∈ t.state.covering l ∧
      0 ≤ u.percent ∧ u.percent ≤ 100)

theorem publishes_step (t : Tracker) (e : Event) (l : Uuid) : ∃ o, t.Publishes (t.step e) l o := by
  have hquiet : ∀ {t'}, t'.updates l = t.updates l →
      (t'.state.covering l = [] → t.state.covering l = []) → ∃ o, t.Publishes t' l o :=
    fun hu hc => ⟨none, hu.trans (append_nil _).symm, fun _ => hc, fun _ h => by cases h⟩
  have hmodify : ∀ {id f}, Keeps f → (t.state.modify id f).covering l = [] →
      t.state.covering l = [] := fun hf hc => by
    rw [State.covering_modify hf.libraryId] at hc
    exact List.map_eq_nil_iff.mp hc
  have hreport : ∀ s : State, ∀ u ∈ s.report l, ∃ p ∈ s.covering l, u = .active p := by
    intro s u hu
    obtain ⟨p, hp, rfl⟩ := Option.map_eq_some_iff.mp hu
    exact ⟨p, mem_covering_of_visible hp, rfl⟩
  cases e with
  | queued libraries =>
    refine hquiet rfl fun hc => ?_
    rw [Tracker.step, State.covering_queued] at hc
    exact (List.append_eq_nil_iff.mp hc).1
  | activate id =>
    exact ⟨_, (append_assoc ..).symm, fun _ => hmodify ⟨fun _ => rfl, fun _ => rfl⟩,
      fun u hu => .inl (hreport (t.state.activate id) u hu)⟩
  | planned => exact hquiet rfl (hmodify ⟨fun _ => rfl, fun _ => rfl⟩)
  | advance => exact hquiet rfl (hmodify ⟨fun _ => rfl, fun _ => rfl⟩)
  | finalizing => exact hquiet rfl (hmodify ⟨fun _ => rfl, fun _ => rfl⟩)
  | publish => exact hquiet (append_nil _) id
  | tick =>
    refine ⟨_, ?_, fun _ => id, fun u hu => .inl (hreport t.state u hu)⟩
    exact (append_nil _).trans (append_assoc ..).symm
  | remove id completed =>
    refine ⟨_, (append_assoc ..).symm, fun hnone hc => ?_, fun u hu => ?_⟩
    · have hc : (t.state.remove id).covering l = [] := hc
      rw [State.covering_remove] at hc
      cases hq : (t.state.covering l).find? fun p => p.scanId = id with
      | none =>
        have hstay : (t.state.covering l).filter (fun p => p.scanId ≠ id) = t.state.covering l :=
          List.filter_eq_self.mpr fun q hq' => by simpa using List.find?_eq_none.mp hq q hq'
        exact hstay.symm.trans hc
      | some q =>
        rw [State.ended, hq, Option.bind_some] at hnone
        split at hnone
        · next hall =>
          cases hv : t.state.visible.lookup l with
          | none =>
            rw [State.lookup_visible] at hv
            exact shown_eq_none hv
          | some p =>
            -- another run is shown, and stays
            rw [hv] at hall
            have hp : p ∈ (t.state.covering l).filter fun p => p.scanId ≠ id :=
              List.mem_filter.mpr ⟨mem_covering_of_visible hv, hall⟩
            rw [hc] at hp
            cases hp
        · cases hnone
    · obtain ⟨q, hq, hu⟩ := Option.bind_eq_some_iff.mp hu
      split at hu
      · cases hu
      · cases hu
        cases hv : (t.state.remove id).visible.lookup l with
        | none =>
          rw [State.lookup_visible] at hv
          refine .inr ⟨rfl, shown_eq_none hv, List.mem_of_find?_eq_some hq, ?_⟩
          change 0 ≤ (if completed then 100 else 0 : ℚ) ∧ (if completed then 100 else 0 : ℚ) ≤ 100
          split <;> norm_num
        | some p => exact .inl ⟨p, mem_covering_of_visible hv, rfl⟩

/-- The end of a scan is told once no run has its library, and nothing of it is told later. -/
structure Told (t : Tracker) (l : Uuid) : Prop where
  ended : t.state.covering l = [] → ∀ u ∈ (t.updates l).getLast?, u.status = .idle
  final : (t.updates l).Pairwise fun u v => u.status = .idle → u.progress.scanId < v.progress.scanId
  younger : ∀ u ∈ t.updates l, u.status = .idle →
    ∀ p ∈ t.state.covering l, u.progress.scanId < p.scanId
  given : ∀ u ∈ t.updates l, u.progress.scanId ≤ t.state.nextId

theorem scanId_step {e : Event} (hp : p ∈ (t.step e).state.covering l) :
    (∃ q ∈ t.state.covering l, p.scanId = q.scanId) ∨ t.state.nextId < p.scanId := by
  rcases t.state_step e with ⟨libraries, hs⟩ | ⟨id, f, -, hf, hs⟩ | ⟨id, _, -, hs⟩ | hs <;>
    rw [hs] at hp
  · rw [State.covering_queued] at hp
    rcases mem_append.mp hp with hp | hp
    · exact .inl ⟨p, hp, rfl⟩
    · split at hp
      · rw [mem_singleton.mp hp]
        exact .inr (Nat.lt_succ_self _)
      · cases hp
  · rw [State.covering_modify hf.libraryId] at hp
    obtain ⟨q, hq, rfl⟩ := mem_map.mp hp
    exact .inl ⟨q, hq, hf.scanId_ite id q⟩
  · rw [State.covering_remove] at hp
    exact .inl ⟨p, mem_of_mem_filter hp, rfl⟩
  · exact .inl ⟨p, hp, rfl⟩

theorem Told.step (h : t.Told l) (hsound : t.state.Sound) (e : Event) :
    (t.step e).Told l := by
  obtain ⟨o, ho⟩ := publishes_step t e l
  have hsound' := sound_step hsound e
  have hyounger : ∀ u ∈ t.updates l, u.status = .idle →
      ∀ p ∈ (t.step e).state.covering l, u.progress.scanId < p.scanId := by
    intro u hu hidle p hp
    rcases scanId_step hp with ⟨q, hq, heq⟩ | hlt
    · exact heq ▸ h.younger u hu hidle q hq
    · exact (h.given u hu).trans_lt hlt
  have hnext : t.state.nextId ≤ (t.step e).state.nextId := by
    cases e <;> first | exact le_rfl | exact Nat.le_succ _
  cases o with
  | none =>
    have hu : (t.step e).updates l = t.updates l := ho.updates.trans (append_nil _)
    rw [← hu] at hyounger
    refine ⟨fun hc => ?_, ?_, hyounger, fun u hu' => ?_⟩
    · exact hu ▸ h.ended (ho.covered rfl hc)
    · exact hu ▸ h.final
    · exact (h.given u (hu ▸ hu')).trans hnext
  | some u =>
    have hu : (t.step e).updates l = t.updates l ++ [u] := ho.updates
    have hcase := ho.shown u rfl
    refine ⟨fun hc v hv => ?_, ?_, fun v hv hidle p hp => ?_, fun v hv => ?_⟩
    · rw [hu, List.getLast?_concat] at hv
      cases hv
      rcases hcase with ⟨p, hp, -⟩ | ⟨hidle, -⟩
      · rw [hc] at hp
        cases hp
      · exact hidle
    · rw [hu]
      refine List.pairwise_append.mpr ⟨h.final, List.pairwise_singleton .., ?_⟩
      intro v hv w hw hidle
      rw [mem_singleton.mp hw]
      rcases hcase with ⟨p, hp, rfl⟩ | ⟨-, -, hp, -⟩
      · exact hyounger v hv hidle p hp
      · exact h.younger v hv hidle _ hp
    · rw [hu] at hv
      rcases mem_append.mp hv with hv | hv
      · exact hyounger v hv hidle p hp
      · obtain rfl := mem_singleton.mp hv
        rcases hcase with ⟨q, -, rfl⟩ | ⟨-, hc, -⟩
        · exact absurd hidle (Update.active_status q)
        · rw [hc] at hp
          cases hp
    · rw [hu] at hv
      rcases mem_append.mp hv with hv | hv
      · exact (h.given v hv).trans hnext
      · obtain rfl := mem_singleton.mp hv
        rcases hcase with ⟨q, hq, rfl⟩ | ⟨-, -, hq, -⟩
        · exact hsound'.given q (mem_of_mem_filter hq)
        · exact (hsound.given _ (mem_of_mem_filter hq)).trans hnext

theorem told_of_reachable (h : scanProgress.Reachable t) (l : Uuid) : t.Told l := by
  have hboth := h.invariant (I := fun t => t.state.Sound ∧ t.Told l)
    ⟨⟨fun _ => .nil, forall_mem_nil _⟩,
      ⟨fun _ _ hu => (by cases hu), .nil, forall_mem_nil _, forall_mem_nil _⟩⟩
    fun t e _ ⟨hs, ht⟩ _ he => Option.some.inj he ▸ ⟨sound_step hs e, ht.step hs e⟩
  exact hboth.2

/-- **Where no scan has a library any more, the last that is told of it is an end.** -/
theorem uncovered_is_idle (h : scanProgress.Reachable t) (hl : t.state.visible.lookup l = none) :
    ∀ u ∈ (t.updates l).getLast?, u.status = .idle := by
  rw [State.lookup_visible] at hl
  exact (told_of_reachable h l).ended (shown_eq_none hl)

/-- A scan of two libraries, and one of the first of them inside it. -/
def nested : List Event :=
  [.queued [1, 2], .activate 1, .planned 1 [(1, 4)], .advance 1 1, .queued [1], .activate 2,
    .remove 2 true, .tick, .finalizing 1, .remove 1 true, .publish]

theorem uncovered_is_idle_nested :
    ((nested.foldl step {}).updates 1).getLast?.all (·.status = .idle) = true :=
  (Option.all_eq_true _ _).mpr fun u hu => decide_eq_true
    (uncovered_is_idle (Machine.reachable_of_run nested rfl) rfl u hu)

/-- **An end is final**: what is told of the library later is of younger scans, as are those that
have it. -/
theorem idle_is_final (h : scanProgress.Reachable t) (l : Uuid) :
    (t.updates l).Pairwise
        (fun u v => u.status = .idle → u.progress.scanId < v.progress.scanId) ∧
      ∀ u ∈ t.updates l, u.status = .idle →
        ∀ p ∈ t.state.covering l, u.progress.scanId < p.scanId :=
  ⟨(told_of_reachable h l).final, (told_of_reachable h l).younger⟩

theorem idle_is_final_nested : ((nested.foldl step {}).updates 1).Pairwise
    (fun u v => u.status = .idle → u.progress.scanId < v.progress.scanId) :=
  (idle_is_final (Machine.reachable_of_run nested rfl) 1).1

/-! ### Percentages -/

theorem percent_between (h : p.completed ≤ p.total.getD 0) : 0 ≤ p.percent ∧ p.percent ≤ 100 := by
  rw [LibraryScanProgress.percent]
  split
  · next hpos =>
    have htotal : (0 : ℚ) < (p.total.getD 0 : ℕ) := Nat.cast_pos.mpr hpos
    refine ⟨div_nonneg (mul_nonneg (by norm_num) (Nat.cast_nonneg _)) htotal.le,
      (div_le_iff₀ htotal).mpr ?_⟩
    exact mul_le_mul_of_nonneg_left (Nat.cast_le.mpr h) (by norm_num)
  · split <;> norm_num

def PlansOnce (t : Tracker) (e : Event) : Prop :=
  ∀ id ∈ e.plans, ∀ p ∈ t.state.runs, p.scanId = id → p.total = none

instance (t : Tracker) (e : Event) : Decidable (t.PlansOnce e) :=
  inferInstanceAs (Decidable (∀ id ∈ _, ∀ p ∈ _, _))

theorem counted_step {e : Event} (h : ∀ p ∈ t.state.runs, p.completed ≤ p.total.getD 0)
    (honce : t.PlansOnce e) : ∀ p ∈ (t.step e).state.runs, p.completed ≤ p.total.getD 0 := by
  have hmodify : ∀ {id f}, (∀ p ∈ t.state.runs, p.scanId = id →
      (f p).completed ≤ (f p).total.getD 0) →
      ∀ p ∈ (t.state.modify id f).runs, p.completed ≤ p.total.getD 0 := fun hf p hp => by
    obtain ⟨q, hq, rfl⟩ := mem_map.mp hp
    split
    · next hid => exact hf q hq hid
    · exact h q hq
  cases e with
  | queued libraries =>
    intro p hp
    rcases mem_append.mp hp with hp | hp
    · exact h p hp
    · obtain ⟨_, -, rfl⟩ := mem_map.mp hp
      exact le_rfl
  | activate => exact hmodify fun p hp _ => h p hp
  | planned id totals =>
    refine hmodify fun p hp hid => ?_
    have hzero := h p hp
    rw [honce id rfl p hp hid] at hzero
    exact hzero.trans (Nat.zero_le _)
  | advance id library =>
    refine hmodify fun p hp _ => ?_
    dsimp only
    split
    · exact min_le_right ..
    · exact h p hp
  | finalizing => exact hmodify fun p hp _ => h p hp
  | remove => exact fun p hp => h p (mem_of_mem_filter hp)
  | publish => exact h
  | tick => exact h

/-- **Where each scan is planned once, every percentage that is told is one.** -/
theorem percent_in_range (h : scanProgress.Reaches PlansOnce t) (l : Uuid) :
    ∀ u ∈ t.updates l, 0 ≤ u.percent ∧ u.percent ≤ 100 := by
  have hboth := h.invariant (I := fun t => (∀ p ∈ t.state.runs, p.completed ≤ p.total.getD 0) ∧
      ∀ u ∈ t.updates l, 0 ≤ u.percent ∧ u.percent ≤ 100)
    ⟨forall_mem_nil _, forall_mem_nil _⟩ fun t e _ ⟨hc, ht⟩ honce he => by
      obtain rfl := Option.some.inj he
      have hc' := counted_step hc honce
      refine ⟨hc', fun u hu => ?_⟩
      obtain ⟨o, ho⟩ := publishes_step t e l
      rw [ho.updates] at hu
      rcases mem_append.mp hu with hu | hu
      · exact ht u hu
      · rcases ho.shown u (Option.mem_toList.mp hu) with ⟨p, hp, rfl⟩ | ⟨-, -, -, hpercent⟩
        · exact percent_between (hc' p (mem_of_mem_filter hp))
        · exact hpercent
  exact hboth.2

theorem percent_in_range_nested :
    ((nested.foldl step {}).updates 1).all (fun u => 0 ≤ u.percent ∧ u.percent ≤ 100) = true :=
  List.all_eq_true.mpr fun u hu => decide_eq_true
    (percent_in_range (Machine.path_of_runWhile nested rfl) 1 u hu)

end Tracker

end Ferrofin.Scan.Progress
