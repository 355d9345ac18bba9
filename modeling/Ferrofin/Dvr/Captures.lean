import Ferrofin.Dvr.Arms

/-!
# What a capture leaves behind

A capture opens a live stream when its source needs that, writes a row for the recording and
registers itself; when it ends it has to undo all of this.  `captures` is `dvr` with the ledger of
the streams that captures opened and closed and of the recordings' rows, a row going by the
number of its capture.

In every run a capture that ends is registered no more and has closed what it opened, once
(`released_of_reachable`).  Its row is settled only where the writes between go through
(`captures_settled`): when the timer cannot be written behind the row, the row's id is lost with
the error, and nobody settles it (`recording_left`).
-/

namespace Ferrofin.Dvr

open Lib
open Lib.KeyedMap (lookup_erase_eq lookup_insert_eq)

/-- The live streams and the recordings' rows of captures. -/
structure Ledger where
  opened : List Nat := []
  closed : List Nat := []
  recordings : KeyedMap Nat RecordingStatus := ∅

/-- What a step of the capture `i` does to the ledger; `opens` says whether its source has to be
opened. -/
def Ledger.book (l : Ledger) (i : Nat) (opens : Bool) : Work → Answer → Ledger
  | .opening _ _, .done => if opens then { l with opened := l.opened ++ [i] } else l
  -- `insert_recording`
  | .inserting _ _, .done => { l with recordings := l.recordings.insert i .inProgress }
  -- `finish_capture`
  | .closing _ _ _ _, .done => if i ∈ l.opened then { l with closed := l.closed ++ [i] } else l
  -- `delete_recording`
  | .retrying _ _, .done => { l with recordings := l.recordings.erase i }
  | .discarding, .done => { l with recordings := l.recordings.erase i }
  -- `finish_recording`
  | .finishing _, .done =>
    if (l.recordings.lookup i).isSome then
      { l with recordings := l.recordings.insert i .completed }
    else l
  | _, _ => l

structure Books where
  manager : Manager := {}
  ledger : Ledger := {}

namespace Books

variable (s : Books)

def step : Event × Bool → Option Books
  | (.step i a, opens) => (s.manager.step (.step i a)).map fun m =>
    { manager := m
      ledger := match s.manager.tasks.lookup i with
        | some task => s.ledger.book i opens task.work a
        | none => s.ledger }
  | (event, _) => (s.manager.step event).map fun m => { s with manager := m }

/-- What a capture that has ended has to leave behind. -/
structure Settled (id : String) (i : Nat) : Prop where
  notActive : s.manager.active.lookup id = none
  closed : s.ledger.closed.count i = s.ledger.opened.count i
  once : s.ledger.opened.count i ≤ 1
  row : s.ledger.recordings.lookup i ≠ some .inProgress

end Books

/-- The machine of all interleavings, with the ledger. -/
def captures : Machine Books (Event × Bool) where
  init := {}
  step := Books.step

/-- The capture writes to its recording's row, or has just written it. -/
def Work.writesRow : Work → Bool
  | .starting _ _ | .retrying _ _ | .finishing _ | .discarding => true
  | _ => false

/-- No write that a recording's row depends on fails: the timer's behind the row, and the one that
deletes or finishes the row. -/
def Books.writes (s : Books) : Event × Bool → Bool
  | (.step i (.failed _), _) =>
    match s.manager.tasks.lookup i with
    | some task => !task.work.writesRow
    | none => true
  | _ => true

def Work.unopened : Work → Bool
  | .inserting _ _ | .starting _ _ | .recording _ _ | .closing _ _ _ _ => false
  | .weighing _ _ _ _ | .retrying _ _ | .retryCounting _ _ | .retryPersisting _ => false
  | .finishing _ | .completing _ | .discarding | .dropping | .returning | .over => false
  | .arming claims _ | .scheduling claims _ => !claims
  | _ => true

def Work.holds : Work → Bool
  | .inserting _ _ | .starting _ _ | .recording _ _ | .closing _ _ _ _ => true
  | _ => false

/-- The task may have a row in progress, and settles it. -/
def Work.owes : Work → Bool
  | .starting _ _ | .recording _ _ | .retrying _ _ | .finishing _ | .discarding => true
  | .closing _ _ began _ | .weighing _ _ began _ => began
  | _ => false

def Work.registered : Work → Bool
  | .starting _ _ | .recording _ _ | .closing _ _ _ _ => true
  | _ => false

@[simp] theorem unopened_armed (claims : Bool) : (Work.armed claims).unopened = false := by
  cases claims <;> rfl

@[simp] theorem holds_armed (claims : Bool) : (Work.armed claims).holds = false := by
  cases claims <;> rfl

/-! ### What a step does -/

section next

variable {m : Manager} {i : Nat} {id : String} {w w' : Work} {a : Answer} {e : Effect}

theorem next_activate (h : Work.next m i id w a = some (.activate, w')) : w'.registered = true := by
  revert h
  fun_cases Work.next m i id w a <;> grind [settle, Work.registered]

theorem next_registered (h : Work.next m i id w a = some (e, w')) (hw : w.registered = true) :
    e = .deactivate ∨ w'.registered = true := by
  cases w with
  | starting | recording | closing =>
    cases a <;> cases h <;> first | exact .inl rfl | exact .inr rfl
  | _ => cases hw

theorem next_opens (h : Work.next m i id w a = some (e, w')) (hw : w.holds = false)
    (hw' : w'.holds = true) : ∃ timer info, w = .opening timer info ∧ a = .done := by
  revert h
  fun_cases Work.next m i id w a <;> grind [holds_armed, settle, Work.holds]

theorem next_closes (h : Work.next m i id w a = some (e, w')) (hw : w.holds = true)
    (hw' : w'.holds = false) :
    ∃ timer info began failed, w = .closing timer info began failed ∧ a = .done := by
  cases w with
  | inserting | starting | recording => cases a <;> cases h <;> cases hw'
  | closing =>
    cases a <;> cases h
    exact ⟨_, _, _, _, rfl, rfl⟩
  | _ => cases hw

theorem next_unopened (h : Work.next m i id w a = some (e, w')) (hw : w.unopened = false) :
    w'.unopened = false := by
  revert h
  fun_cases Work.next m i id w a <;> grind [unopened_armed, settle, Work.unopened]

theorem owes_settle (timer : TimerInfo) (info : TimerRecordingInfo) (began failed recorded : Bool) :
    (settle m id timer info began failed recorded).2.owes = began := by
  cases began <;> simp only [settle] <;> grind [Work.owes]

theorem next_owes (h : Work.next m i id w a = some (e, w')) (hw : w.owes = true)
    (hw' : w'.owes = false) :
    (w.writesRow = true ∧ ∃ closed, a = .failed closed) ∨
      (a = .done ∧ ((∃ timer retries, w = .retrying timer retries) ∨
        (∃ timer, w = .finishing timer) ∨ w = .discarding)) := by
  cases w with
  | starting =>
    cases a <;> cases h
    · cases hw'
    · exact .inl ⟨rfl, _, rfl⟩
  | recording => cases a <;> cases h <;> cases hw'
  | closing _ _ began failed =>
    cases a <;> cases h
    exact absurd (hw.symm.trans hw') nofun
  | weighing timer info began failed =>
    cases a with
    | recorded recorded =>
      have heq : (settle m id timer info began failed recorded).2.owes = began :=
        owes_settle timer info began failed recorded
      rw [Option.some.inj h, hw'] at heq
      exact absurd (hw.symm.trans heq.symm) nofun
    | _ => cases h
  | retrying =>
    cases a <;> cases h
    · exact .inr ⟨rfl, .inl ⟨_, _, rfl⟩⟩
    · exact .inl ⟨rfl, _, rfl⟩
  | finishing =>
    cases a <;> cases h
    · exact .inr ⟨rfl, .inr (.inl ⟨_, rfl⟩)⟩
    · exact .inl ⟨rfl, _, rfl⟩
  | discarding =>
    cases a <;> cases h
    · exact .inr ⟨rfl, .inr (.inr rfl)⟩
    · exact .inl ⟨rfl, _, rfl⟩
  | _ => cases hw

/-- A step opens a stream, writes the row, closes the stream, settles the row, or does nothing
to the ledger. -/
theorem next_book (h : Work.next m i id w a = some (e, w')) (l : Ledger) (opens : Bool) :
    (w.unopened = true ∧ w'.holds = true ∧ w'.owes = false ∧
      l.book i opens w a = if opens then { l with opened := l.opened ++ [i] } else l) ∨
    (w.holds = true ∧ w'.holds = true ∧ w'.unopened = false ∧ w'.owes = true ∧
      l.book i opens w a = { l with recordings := l.recordings.insert i .inProgress }) ∨
    (w.holds = true ∧ w'.holds = false ∧ w'.unopened = false ∧ w'.owes = w.owes ∧
      l.book i opens w a = if i ∈ l.opened then { l with closed := l.closed ++ [i] } else l) ∨
    (w.holds = false ∧ w'.holds = false ∧ w'.unopened = false ∧ w.unopened = false ∧
      (l.book i opens w a).opened = l.opened ∧ (l.book i opens w a).closed = l.closed ∧
      (∀ j ≠ i, (l.book i opens w a).recordings.lookup j = l.recordings.lookup j) ∧
      (l.book i opens w a).recordings.lookup i ≠ some .inProgress) ∨
    (l.book i opens w a = l ∧ w'.holds = w.holds ∧ (w'.unopened = true → w.unopened = true) ∧
      (w.owes = true → w'.owes = false → w.writesRow = true ∧ ∃ closed, a = .failed closed)) := by
  fun_cases Ledger.book l i opens w a with
  | case1 timer info hopens =>
    cases h
    exact .inl ⟨rfl, rfl, rfl, (if_pos hopens).symm⟩
  | case2 timer info hopens =>
    cases h
    exact .inl ⟨rfl, rfl, rfl, (if_neg hopens).symm⟩
  | case3 =>
    cases h
    exact .inr (.inl ⟨rfl, rfl, rfl, rfl, rfl⟩)
  | case4 timer info began failed hopened =>
    cases h
    exact .inr (.inr (.inl ⟨rfl, rfl, rfl, rfl, (if_pos hopened).symm⟩))
  | case5 timer info began failed hopened =>
    cases h
    exact .inr (.inr (.inl ⟨rfl, rfl, rfl, rfl, (if_neg hopened).symm⟩))
  | case6 | case7 | case8 | case9 =>
    cases h
    refine .inr (.inr (.inr (.inl ⟨rfl, rfl, rfl, rfl, rfl, rfl, ?_, ?_⟩)))
    · grind [lookup_insert_eq, lookup_erase_eq]
    · grind [lookup_insert_eq, lookup_erase_eq]
  | case10 _ _ hopening _ hclosing hretrying hdiscarding hfinishing =>
    refine .inr (.inr (.inr (.inr ⟨rfl, ?_, fun hw' => ?_, fun hw hw' => ?_⟩)))
    · cases hw : w.holds with
      | false =>
        by_contra hw'
        obtain ⟨timer, info, hopen, ha⟩ := next_opens h hw (by simpa using hw')
        exact hopening timer info hopen ha
      | true =>
        by_contra hw'
        obtain ⟨timer, info, began, failed, hclose, ha⟩ :=
          next_closes h hw (by simpa using hw')
        exact hclosing timer info began failed hclose ha
    · by_contra hw
      rw [next_unopened h (by simpa using hw)] at hw'
      cases hw'
    · rcases next_owes h hw hw' with hfailed | ⟨ha, ⟨timer, retries, hr⟩ | ⟨timer, hf⟩ | hd⟩
      · exact hfailed
      · exact (hretrying timer retries hr ha).elim
      · exact (hfinishing timer hf ha).elim
      · exact (hdiscarding hd ha).elim

end next

theorem unopened_of_holds {w : Work} (h : w.holds = true) : w.unopened = false := by
  cases w <;> first | rfl | cases h

theorem of_unopened {w : Work} (h : w.unopened = true) : w.holds = false ∧ w.owes = false := by
  cases w <;> first | exact ⟨rfl, rfl⟩ | cases h

theorem unopened_work (operation : Operation) : operation.work.unopened = true := by
  cases operation <;> rfl

/-- The ledger of a task, at its work; the row matters under a condition only. -/
structure Booked (P : Prop) (l : Ledger) (i : Nat) (w : Work) : Prop where
  opened : l.opened.count i ≤ if w.unopened then 0 else 1
  closed : l.closed.count i = if w.holds then 0 else l.opened.count i
  row : P → w.owes = false → l.recordings.lookup i ≠ some .inProgress

namespace Booked

variable {P : Prop} {l : Ledger} {m : Manager} {i j : Nat} {id : String} {w w' : Work} {a : Answer}
  {e : Effect}

theorem of_unopened (h : Booked P l i w) (hw : w.unopened = true) (hw' : w'.unopened = true) :
    Booked P l i w' := by
  obtain ⟨hholds, howes⟩ := Dvr.of_unopened hw
  obtain ⟨hholds', -⟩ := Dvr.of_unopened hw'
  have hopened := h.opened
  have hclosed := h.closed
  rw [hw] at hopened
  rw [hholds] at hclosed
  exact ⟨by rw [hw']; exact hopened, by rw [hholds']; exact hclosed, fun hp _ => h.row hp howes⟩

theorem other (h : Booked P l j w) (hne : j ≠ i) (opens : Bool) (v : Work) (a : Answer) :
    Booked P (l.book i opens v a) j w := by
  have hopened : (l.book i opens v a).opened.count j = l.opened.count j := by
    fun_cases Ledger.book l i opens v a <;> simp [hne.symm]
  have hclosed : (l.book i opens v a).closed.count j = l.closed.count j := by
    fun_cases Ledger.book l i opens v a <;> simp [hne.symm]
  have hrow : (l.book i opens v a).recordings.lookup j = l.recordings.lookup j := by
    fun_cases Ledger.book l i opens v a <;>
      grind [lookup_insert_eq, lookup_erase_eq]
  exact ⟨hopened ▸ h.opened, by rw [hclosed, hopened]; exact h.closed,
    fun hp ho => hrow ▸ h.row hp ho⟩

/-- **A step keeps the ledger of its task.** -/
theorem next (h : Booked P l i w) (hn : Work.next m i id w a = some (e, w'))
    (hwrites : P → w.writesRow = true → ∀ closed, a ≠ .failed closed) (opens : Bool) :
    Booked P (l.book i opens w a) i w' := by
  obtain ⟨hopened, hclosed, hrow⟩ := h
  rcases next_book hn l opens with ⟨hu, hh', ho', heq⟩ | ⟨hh, hh', hu', ho', heq⟩ |
    ⟨hh, hh', hu', ho', heq⟩ | ⟨hh, hh', hu', hu, ho, hc, -, hr⟩ | ⟨heq, hh', hu', ho'⟩
  · obtain ⟨hh, ho⟩ := Dvr.of_unopened hu
    rw [hu] at hopened
    rw [hh] at hclosed
    have hzero : l.opened.count i = 0 := Nat.le_zero.mp hopened
    refine ⟨?_, ?_, fun hp _ => ?_⟩ <;> rw [heq]
    · rw [unopened_of_holds hh']
      cases opens <;> simp [hzero]
    · rw [hh']
      cases opens <;> simpa [hzero] using hclosed
    · cases opens <;> exact hrow hp ho
  · rw [hh] at hclosed
    rw [unopened_of_holds hh] at hopened
    refine ⟨?_, ?_, fun _ ho => ?_⟩
    · rw [heq, hu']
      exact hopened
    · rw [heq, hh']
      exact hclosed
    · rw [ho'] at ho
      cases ho
  · rw [hh] at hclosed
    rw [unopened_of_holds hh] at hopened
    have hclosed : l.closed.count i = 0 := hclosed
    have hopened : l.opened.count i ≤ 1 := hopened
    refine ⟨?_, ?_, fun hp ho => ?_⟩ <;> rw [heq]
    · rw [hu']
      split <;> exact hopened
    · rw [hh']
      split
      · next hmem =>
        have hpos := List.count_pos_iff.mpr hmem
        simp only [List.count_append, List.count_singleton_self, Bool.false_eq_true, if_false]
        omega
      · next hmem => simpa [List.count_eq_zero.mpr hmem] using hclosed
    · split <;> exact hrow hp (ho' ▸ ho)
  · rw [hh] at hclosed
    rw [hu] at hopened
    exact ⟨by rw [ho, hu']; exact hopened, by rw [hc, ho, hh']; exact hclosed, fun _ _ => hr⟩
  · refine ⟨?_, ?_, fun hp ho => ?_⟩ <;> rw [heq]
    · split
      · next hun =>
        rw [hu' hun] at hopened
        exact hopened
      · split at hopened <;> omega
    · rw [hh']
      exact hclosed
    · cases how : w.owes with
      | false => exact hrow hp how
      | true =>
        obtain ⟨hwr, closed, hfail⟩ := ho' how ho
        exact absurd hfail (hwrites hp hwr closed)

end Booked

/-! ### Runs -/

def Manager.Registered (m : Manager) : Prop :=
  ∀ id, m.active.lookup id ≠ none → ∃ j w, m.tasks.lookup j = some ⟨id, w⟩ ∧ w.registered = true

theorem active_apply {m : Manager} {i : Nat} {id id' : String} {e : Effect}
    (h : (m.apply i id e).active.lookup id' ≠ none) :
    (e = .activate ∧ id' = id) ∨ (m.active.lookup id' ≠ none ∧ (e = .deactivate → id' ≠ id)) := by
  cases e with
  | activate =>
    simp only [Manager.apply, lookup_insert_eq] at h
    split at h
    · next heq => exact .inl ⟨rfl, heq⟩
    · exact .inr ⟨h, fun he => by cases he⟩
  | deactivate =>
    simp only [Manager.apply, lookup_erase_eq] at h
    split at h
    · exact absurd rfl h
    · next hne => exact .inr ⟨h, fun _ => hne⟩
  | stop =>
    refine .inr ⟨fun hnone => h ?_, fun he => by cases he⟩
    simp [Manager.apply, hnone]
  | _ => exact .inr ⟨h, fun he => by cases he⟩

theorem Manager.Registered.step {m m' : Manager} (h : m.Registered) (ha : Arms m) {event : Event}
    (hs : m.step event = some m') : m'.Registered := by
  cases event with
  | tick elapsed =>
    cases hs
    exact h
  | start id operation =>
    cases hs
    intro id' hid
    obtain ⟨j, w, ht, hw⟩ := h id' hid
    refine ⟨j, w, ?_, hw⟩
    simp only [Manager.goOn, lookup_insert_eq, if_neg (Nat.ne_of_lt (ha.lt ht))]
    exact ht
  | step i a =>
    obtain ⟨id, w, e, w', ht, hn, rfl⟩ := step_cases hs
    intro id' hid
    have hself : ((m.apply i id e).goOn i ⟨id, w'⟩).tasks.lookup i = some ⟨id, w'⟩ := by
      simp [Manager.goOn]
    have hother : ∀ j v, j ≠ i → m.tasks.lookup j = some ⟨id', v⟩ →
        ((m.apply i id e).goOn i ⟨id, w'⟩).tasks.lookup j = some ⟨id', v⟩ := by
      intro j v hne htj
      simp only [Manager.goOn, lookup_insert_eq, if_neg hne]
      exact ha.lookup_apply htj
    rcases active_apply hid with ⟨rfl, rfl⟩ | ⟨hactive, hdeact⟩
    · exact ⟨i, w', hself, next_activate hn⟩
    · obtain ⟨j, v, htj, hv⟩ := h id' hactive
      by_cases hji : j = i
      · obtain rfl := hji
        rw [ht] at htj
        obtain ⟨rfl, rfl⟩ := Task.mk.inj (Option.some.inj htj)
        rcases next_registered hn hv with he | hw'
        · exact absurd rfl (hdeact he)
        · exact ⟨_, w', hself, hw'⟩
      · exact ⟨j, v, hother j v hji htj, hv⟩

/-- **Of a capture that has ended, nothing is registered.**  Whoever is registered holds the
claim. -/
theorem notActive_of_returning {m : Manager} (h : dvr.Reachable m) {id : String} {i : Nat}
    (ht : m.tasks.lookup i = some ⟨id, .returning⟩) : m.active.lookup id = none := by
  have hreg : m.Registered := by
    have hboth := h.invariant (I := fun m => dvr.Reachable m ∧ m.Registered)
      ⟨.start, fun id hid => absurd rfl hid⟩ fun m _ m' ⟨hm, hr⟩ _ hs =>
        ⟨hm.next trivial hs, hr.step (arms_of_reachable hm) hs⟩
    exact hboth.2
  by_contra hne
  obtain ⟨j, w, htj, hw⟩ := hreg id hne
  have hclaims : w.claims = true := by
    cases w <;> first | rfl | cases hw
  obtain rfl := (claims_of_reachable h).unique id i j ⟨_, ht, rfl⟩ ⟨_, htj, hclaims⟩
  rw [ht] at htj
  obtain ⟨-, rfl⟩ := Task.mk.inj (Option.some.inj htj)
  cases hw

/-- The ledger of every task, and of those to come. -/
structure Kept (P : Prop) (s : Books) : Prop where
  fresh : ∀ j, s.manager.nextTask ≤ j → Booked P s.ledger j .restarting
  tasks : ∀ j id w, s.manager.tasks.lookup j = some ⟨id, w⟩ → Booked P s.ledger j w

theorem task_apply {m : Manager} {i j : Nat} {id id' : String} {e : Effect} {w : Work}
    (h : (m.apply i id e).tasks.lookup j = some ⟨id', w⟩) :
    m.tasks.lookup j = some ⟨id', w⟩ ∨ (j = m.nextTask ∧ w.unopened = true) := by
  have hinsert : ∀ {id due}, (m.tasks.insert m.nextTask ⟨id, .sleeping due⟩).lookup j =
      some ⟨id', w⟩ → m.tasks.lookup j = some ⟨id', w⟩ ∨ (j = m.nextTask ∧ w.unopened = true) := by
    intro id due ht
    rw [lookup_insert_eq] at ht
    split at ht
    · next heq =>
      cases ht
      exact .inr ⟨heq, rfl⟩
    · exact .inl ht
  cases e with
  | schedule | retryRead => exact hinsert h
  | _ => exact .inl h

theorem Kept.step {P : Prop} {s s' : Books} (h : Kept P s) (ha : Arms s.manager)
    {event : Event × Bool} (hwrites : P → s.writes event = true) (hs : s.step event = some s') :
    Kept P s' := by
  obtain ⟨event, opens⟩ := event
  cases event with
  | tick elapsed =>
    cases hs
    exact ⟨h.fresh, h.tasks⟩
  | start id operation =>
    cases hs
    refine ⟨fun j hj => h.fresh j (Nat.le_of_succ_le hj), fun j id' w ht => ?_⟩
    simp only [Manager.goOn, lookup_insert_eq] at ht
    split at ht
    · next heq =>
      cases ht
      exact (h.fresh j (Nat.le_of_eq heq.symm)).of_unopened rfl (unopened_work operation)
    · exact h.tasks j id' w ht
  | step i a =>
    obtain ⟨m', hm, rfl⟩ := Option.map_eq_some_iff.mp hs
    obtain ⟨id, w, e, w', ht, hn, rfl⟩ := step_cases hm
    have hlt := ha.lt ht
    simp only [ht]
    have hfresh : ∀ j, s.manager.nextTask ≤ j →
        Booked P (s.ledger.book i opens w a) j .restarting := fun j hj =>
      (h.fresh j hj).other (by omega) opens w a
    refine ⟨fun j hj => hfresh j (Nat.le_trans (nextTask_le_apply e) hj), fun j id' v htj => ?_⟩
    simp only [Manager.goOn, lookup_insert_eq] at htj
    split at htj
    · next heq =>
      obtain rfl := heq
      cases htj
      refine (h.tasks j id w ht).next hn (fun hp hwr closed hfail => ?_) opens
      have := hwrites hp
      simp [Books.writes, hfail, ht, hwr] at this
    · next hne =>
      rcases task_apply htj with htj | ⟨rfl, hv⟩
      · exact (h.tasks j id' v htj).other hne opens w a
      · exact (hfresh _ (Nat.le_refl _)).of_unopened rfl hv

theorem reachable_of_step {s s' : Books} (h : dvr.Reachable s.manager) {event : Event × Bool}
    (hs : s.step event = some s') : dvr.Reachable s'.manager := by
  have hmanager : dvr.step s.manager event.1 = some s'.manager := by
    obtain ⟨event, opens⟩ := event
    cases event with
    | tick elapsed =>
      cases hs
      rfl
    | start id operation =>
      cases hs
      rfl
    | step i a =>
      obtain ⟨m', hm, rfl⟩ := Option.map_eq_some_iff.mp hs
      exact hm
  exact h.next trivial hmanager

theorem kept_of_reaches {P : Prop} {s : Books}
    (h : captures.Reaches (fun s event => P → s.writes event = true) s) :
    dvr.Reachable s.manager ∧ Kept P s := by
  have hinit : Kept P {} :=
    ⟨fun j _ => ⟨Nat.le_refl 0, rfl, fun _ _ => nofun⟩, fun j id w ht => by cases ht⟩
  have hstart : dvr.Reachable {} := Machine.Reaches.start
  exact h.invariant (I := fun s : Books => dvr.Reachable s.manager ∧ Kept P s) ⟨hstart, hinit⟩
    fun s event s' ⟨hm, hk⟩ hok hs =>
      ⟨reachable_of_step hm hs, hk.step (arms_of_reachable hm) hok hs⟩

/-- **However a capture ends, it is registered no more and has closed what it opened, once.** -/
theorem released_of_reachable {s : Books} {id : String} {i : Nat} (h : captures.Reachable s)
    (ht : s.manager.tasks.lookup i = some ⟨id, .returning⟩) :
    s.manager.active.lookup id = none ∧ s.ledger.closed.count i = s.ledger.opened.count i ∧
      s.ledger.opened.count i ≤ 1 := by
  obtain ⟨hm, hk⟩ := kept_of_reaches (P := False) (h.mono fun _ _ _ hp => hp.elim)
  have hbooked := hk.tasks i id _ ht
  exact ⟨notActive_of_returning hm ht, hbooked.closed, hbooked.opened⟩

/-- **Where the writes a recording's row depends on go through, a capture that ends leaves
nothing behind**: it is not registered, its live stream was closed once if it was opened, and no
row of it is in progress, in any run and whatever else became of it. -/
theorem captures_settled {s : Books} {id : String} {i : Nat}
    (h : captures.Reaches (fun s event => s.writes event = true) s)
    (ht : s.manager.tasks.lookup i = some ⟨id, .returning⟩) : s.Settled id i := by
  obtain ⟨hm, hk⟩ := kept_of_reaches (P := True) (h.mono fun _ _ hok _ => hok)
  have hbooked := hk.tasks i id _ ht
  exact ⟨notActive_of_returning hm ht, hbooked.closed, hbooked.opened, hbooked.row trivial rfl⟩

/-- A timer is created, fires, and its capture has opened the channel and written the row. -/
def inserted : List (Event × Bool) :=
  [.start "a" (.create { startDate := 9000, endDate := 12000 }), .step 0 .done, .step 0 .nothing,
    .step 0 .nothing, .tick 9000, .step 1 .nothing, .step 1 .done, .step 1 (.guide none),
    .step 1 .nothing, .step 1 .nothing, .step 1 .done, .step 1 .done].map fun event => (event, true)

def finished : List (Event × Bool) :=
  [.step 1 .done, .step 1 .done, .step 1 .done, .step 1 (.recorded true), .step 1 .done,
    .step 1 .done].map fun event => (event, true)

/-- The timer cannot be written; the capture is given up and tried again. -/
def unpersisted : List (Event × Bool) :=
  [.step 1 (.failed false), .step 1 .done, .step 1 (.recorded false), .step 1 .nothing,
    .step 1 .done, .step 1 .nothing, .step 1 .nothing].map fun event => (event, true)

theorem captures_settled_finished : ∃ s,
    captures.Reaches (fun s event => s.writes event = true) s ∧
      s.manager.tasks.lookup 1 = some ⟨"a", .returning⟩ ∧ s.ledger.opened = [1] ∧
      s.Settled "a" 1 := by
  obtain ⟨s, hs, ht, ho⟩ : ∃ s, captures.runWhile (fun s event => s.writes event = true) {}
      (inserted ++ finished) = some s ∧ s.manager.tasks.lookup 1 = some ⟨"a", .returning⟩ ∧
        s.ledger.opened = [1] := ⟨_, rfl, rfl, rfl⟩
  have h := Machine.path_of_runWhile _ hs
  exact ⟨s, h, ht, ho, captures_settled h ht⟩

theorem released_of_reachable_unpersisted : ∃ s, captures.Reachable s ∧ s.ledger.opened = [1] ∧
    s.manager.active.lookup "a" = none ∧ s.ledger.closed.count 1 = s.ledger.opened.count 1 := by
  obtain ⟨s, hs, ht, ho⟩ : ∃ s, captures.run {} (inserted ++ unpersisted) = some s ∧
      s.manager.tasks.lookup 1 = some ⟨"a", .returning⟩ ∧ s.ledger.opened = [1] :=
    ⟨_, rfl, rfl, rfl⟩
  have h := Machine.reachable_of_run _ hs
  have hreleased := released_of_reachable h ht
  exact ⟨s, h, ho, hreleased.1, hreleased.2.1⟩

/-- **A recording is left in progress**: its capture ended, and will be tried again. -/
theorem recording_left : ¬ ∀ s id i, captures.Reachable s →
    s.manager.tasks.lookup i = some ⟨id, .returning⟩ → s.Settled id i := by
  intro hall
  obtain ⟨s, hs, ht, hrow⟩ : ∃ s, captures.run {} (inserted ++ unpersisted) = some s ∧
      s.manager.tasks.lookup 1 = some ⟨"a", .returning⟩ ∧
        s.ledger.recordings.lookup 1 = some .inProgress := ⟨_, rfl, rfl, rfl⟩
  exact (hall s "a" 1 (Machine.reachable_of_run _ hs) ht).row hrow

end Ferrofin.Dvr
