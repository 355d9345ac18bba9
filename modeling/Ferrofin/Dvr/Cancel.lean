import Ferrofin.Dvr.Arms

/-!
# A cancelled timer stays cancelled

A task that read a timer's row goes on with a copy of it (`Work.copy`), and writes the copy back
where the row may be gone.  When a cancel writes the row off while a fire of the timer holds a
copy, the capture starts or goes on and brings the row back (`captured_after_cancel`).  Where no
other task holds a copy when the row is written off, and no fire reads the row of a cancelled
timer (`Manager.settled`), a cancel is final (`cancel_final`).
-/

namespace Ferrofin.Dvr

open Lib
open Lib.KeyedMap (lookup_erase_eq lookup_insert_eq)

def Work.fires : Work → Bool
  | .guiding _ | .claiming _ _ | .claimed _ _ | .opening _ _ | .inserting _ _ => true
  | .starting _ _ | .recording _ _ | .closing _ _ _ _ | .weighing _ _ _ _ => true
  | .retrying _ _ | .retryCounting _ _ | .retryPersisting _ => true
  | .finishing _ | .completing _ => true
  | _ => false

/-- The copy of the row that the task may still write. -/
def Work.copy : Work → Option TimerInfo
  | .guiding timer | .claiming timer _ | .claimed timer _ | .opening timer _ => some timer
  | .inserting timer _ | .starting timer _ | .recording timer _ => some timer
  | .closing timer _ _ _ | .weighing timer _ _ _ | .retrying timer _ => some timer
  | .retryCounting timer _ | .retryPersisting timer => some timer
  | .finishing timer | .completing timer => some timer
  | .refreshChecking timer | .refreshGuiding timer | .refreshPersisting timer => some timer
  | .updateChecking _ _ timer | .updatePersisting timer => some timer
  | .cancelWriting _ _ timer => timer
  | _ => none

def Work.captures : Work → Bool
  | .opening _ _ | .inserting _ _ | .starting _ _ | .recording _ _ => true
  | _ => false

def Work.final : Work → Option Nat
  | .cancelDisarming n | .cancelForgetting n | .cancelStopping n | .cancelled n => some n
  | _ => none

namespace Manager

variable (m : Manager)

/-- A task of the timer other than `i` holds a copy of its row. -/
def heldElsewhere (i : Nat) (id : String) : Bool :=
  KeyedMap.values (m.tasks.erase i) |>.any fun task => task.id == id && task.work.copy.isSome

/-- A cancel wrote the timer off, and it was not created again. -/
def writtenOff (id : String) : Bool :=
  KeyedMap.values m.tasks |>.any fun task =>
    task.id == id && task.work.final == some (m.created id)

/-- What spares a cancel: nobody else holds a copy of the row when a cancel writes it off or it
is deleted afterwards, and no fire reads the row of a cancelled timer. -/
def settled : Event → Bool
  | .step i .done =>
    match m.tasks.lookup i with
    | some ⟨id, .cancelWriting _ _ _⟩ => !m.heldElsewhere i id
    | some ⟨id, .ended⟩ | some ⟨id, .dropping⟩ | some ⟨id, .removed⟩ =>
      !(m.writtenOff id && m.heldElsewhere i id)
    | some ⟨id, .reading⟩ => (m.rows.lookup id).all fun row => row.timer.status != .cancelled
    | _ => true
  | _ => true

/-- A cancel of the timer has returned, and it was not created again. -/
def Cancelled (id : String) : Prop :=
  ∃ i, m.tasks.lookup i = some ⟨id, .cancelled (m.created id)⟩

/-- What a cancel promises of a later moment: nothing captures for the timer, and its row is
cancelled, and not there if it was not. -/
structure CancelHolds (id : String) (m' : Manager) : Prop where
  idle : ∀ i w, m'.tasks.lookup i = some ⟨id, w⟩ → w.captures = false
  cancelled : ∀ row, m'.rows.lookup id = some row → row.timer.status = .cancelled
  gone : m.rows.lookup id = none → m'.rows.lookup id = none

end Manager

@[simp] theorem copy_armed (claims : Bool) : (Work.armed claims).copy = none := by
  cases claims <;> rfl

@[simp] theorem final_armed (claims : Bool) : (Work.armed claims).final = none := by
  cases claims <;> rfl

@[simp] theorem status_copyProgramIntoTimer (program : GuideProgramRow) (timer : TimerInfo) :
    (copyProgramIntoTimer program timer).status = timer.status := rfl

theorem fires_of_captures {w : Work} (h : w.captures = true) :
    w.fires = true ∧ ∃ timer, w.copy = some timer := by
  cases w with
  | opening timer | inserting timer | starting timer | recording timer => exact ⟨rfl, timer, rfl⟩
  | _ => cases h

/-! ### What a task may write -/

section next

variable {m : Manager} {i : Nat} {id : String} {w w' : Work} {a : Answer} {e : Effect}

/-- A copy was read just now, or is what the task had, with the status it had unless the task is
a fire. -/
theorem next_copy {timer : TimerInfo} (h : Work.next m i id w a = some (e, w'))
    (hc : w'.copy = some timer) :
    (∃ row, m.rows.lookup id = some row ∧ row.timer = timer ∧
        (w'.fires = true → w = .reading ∧ a = .done)) ∨
      (∃ timer', w.copy = some timer' ∧ w.fires = w'.fires ∧
        (w.fires = false → timer.status = timer'.status)) := by
  revert h hc
  fun_cases Work.next m i id w a <;>
    grind [settle, Work.copy, Work.fires, copy_armed, status_copyProgramIntoTimer,
      Option.map_eq_some_iff]

/-- What a task writes to the row is its copy, with the status it had or cancelled unless the
task is a fire. -/
theorem next_persist {timer : TimerInfo} {isManual : Bool}
    (h : Work.next m i id w a = some (.persist timer isManual, w')) :
    w.copy.isSome ∧ (w.fires = false → timer.status = .cancelled ∨
      w.copy.map TimerInfo.status = some timer.status) := by
  revert h
  fun_cases Work.next m i id w a <;> grind [settle, Work.copy, Work.fires]

theorem next_delete (h : Work.next m i id w a = some (.delete, w')) :
    a = .done ∧ w'.copy = none ∧ (w = .ended ∨ w = .dropping ∨ w = .removed ∨
      ∃ isSeriesCancelled isManual timer, w = .cancelWriting isSeriesCancelled isManual timer) := by
  revert h
  fun_cases Work.next m i id w a <;> grind [settle, Work.copy]

theorem next_final {n : Nat} (h : Work.next m i id w a = some (e, w')) (hf : w'.final = some n) :
    w.final = some n ∨ (n = m.created id ∧ a = .done ∧
      ∃ isSeriesCancelled isManual timer, w = .cancelWriting isSeriesCancelled isManual timer) := by
  revert h hf
  fun_cases Work.next m i id w a <;> grind [settle, Work.final, final_armed]

theorem next_final_of_final {n : Nat} (h : Work.next m i id w a = some (e, w'))
    (hf : w.final = some n) : w'.final = some n := by
  revert h hf
  fun_cases Work.next m i id w a <;> grind [settle, Work.final]

theorem next_cancelWriting {isSeriesCancelled isManual : Bool} {timer : Option TimerInfo}
    (h : Work.next m i id (.cancelWriting isSeriesCancelled isManual timer) .done = some (e, w')) :
    w' = .cancelDisarming (m.created id) ∧
      (e = .delete ∨ ∃ timer, e = .persist timer isManual ∧ timer.status = .cancelled) := by
  simp only [Work.next, Option.some.injEq, Prod.mk.injEq] at h
  obtain ⟨rfl, rfl⟩ := h
  refine ⟨rfl, ?_⟩
  split
  · split
    · exact .inl rfl
    · exact .inr ⟨_, rfl, rfl⟩
  · exact .inl rfl

end next

/-! ### What a step leaves -/

section after

variable {m : Manager} {i j : Nat} {id id' : String} {w w' v : Work} {e : Effect}

theorem task_after (h : ((m.apply i id e).goOn i ⟨id, w'⟩).tasks.lookup j = some ⟨id', v⟩) :
    (j = i ∧ id' = id ∧ v = w') ∨ (j ≠ i ∧ m.tasks.lookup j = some ⟨id', v⟩) ∨
      ∃ due, v = .sleeping due := by
  simp only [Manager.goOn, lookup_insert_eq] at h
  split at h
  · next heq =>
    cases h
    exact .inl ⟨heq, rfl, rfl⟩
  · next hne => exact .inr ((tasks_apply h).imp_left fun ht => ⟨hne, ht⟩)

theorem rows_apply_of_ne (hne : id' ≠ id) :
    (m.apply i id e).rows.lookup id' = m.rows.lookup id' := by
  cases e with
  | persist | create =>
    exact (lookup_insert_eq ..).trans (if_neg hne)
  | delete => exact (lookup_erase_eq ..).trans (if_neg hne)
  | _ => rfl

theorem created_apply_of_ne (hne : id' ≠ id) : (m.apply i id e).created id' = m.created id' := by
  cases e with
  | create =>
    show ((m.creations.insert id _).lookup id').getD 0 = _
    rw [lookup_insert_eq, if_neg hne]
    rfl
  | _ => rfl

theorem created_apply (he : ∀ timer, e ≠ .create timer) :
    (m.apply i id e).created id' = m.created id' := by
  cases e with
  | create timer => exact absurd rfl (he timer)
  | _ => rfl

theorem created_create {timer : TimerInfo} :
    (m.apply i id (.create timer)).created id = m.created id + 1 := by
  show ((m.creations.insert id _).lookup id).getD 0 = _
  rw [lookup_insert_eq, if_pos rfl]
  rfl

theorem created_le_apply : m.created id' ≤ (m.apply i id e).created id' := by
  by_cases hid : id' = id
  · subst hid
    cases e with
    | create => rw [created_create]; exact Nat.le_succ _
    | _ => exact Nat.le_refl _
  · rw [created_apply_of_ne hid]

theorem rows_apply_ne_none (he : e ≠ .delete) (h : m.rows.lookup id' ≠ none) :
    (m.apply i id e).rows.lookup id' ≠ none := by
  have hinsert : ∀ row, (m.rows.insert id row).lookup id' ≠ none := by
    intro row
    rw [lookup_insert_eq]
    split
    · exact nofun
    · exact h
  cases e with
  | delete => exact absurd rfl he
  | persist | create => exact hinsert _
  | _ => exact h

end after

namespace Manager

variable {m : Manager} {i j : Nat} {id : String}

/-- A cancel wrote the timer off, and it was not created again. -/
def WrittenOff (m : Manager) (id : String) : Prop :=
  ∃ i w, m.tasks.lookup i = some ⟨id, w⟩ ∧ w.final = some (m.created id)

theorem writtenOff_of_mem (h : m.WrittenOff id) : m.writtenOff id = true := by
  obtain ⟨i, w, ht, hf⟩ := h
  refine List.any_eq_true.mpr ⟨_, KeyedMap.mem_values_of_lookup ht, ?_⟩
  simp [hf]

theorem heldElsewhere_of_mem {w : Work} {timer : TimerInfo} (hne : j ≠ i)
    (ht : m.tasks.lookup j = some ⟨id, w⟩) (hc : w.copy = some timer) :
    m.heldElsewhere i id = true := by
  have ht' : (m.tasks.erase i).lookup j = some ⟨id, w⟩ := by
    rw [lookup_erase_eq, if_neg hne]
    exact ht
  refine List.any_eq_true.mpr ⟨_, KeyedMap.mem_values_of_lookup ht', ?_⟩
  simp [hc]

end Manager

/-! ### What a cancel leaves -/

structure Quiet (m : Manager) : Prop where
  finals : ∀ id i w n, m.tasks.lookup i = some ⟨id, w⟩ → w.final = some n → n ≤ m.created id
  copies : ∀ id, m.WrittenOff id → ∀ i w timer, m.tasks.lookup i = some ⟨id, w⟩ →
    w.copy = some timer → w.fires = false ∧ timer.status = .cancelled ∧ m.rows.lookup id ≠ none
  rows : ∀ id, m.WrittenOff id → ∀ row, m.rows.lookup id = some row →
    row.timer.status = .cancelled

namespace Quiet

variable {m : Manager} {i j : Nat} {id id' : String} {w w' v : Work} {a : Answer} {e : Effect}

theorem writtenOff_of_ne (hne : id' ≠ id)
    (h : ((m.apply i id e).goOn i ⟨id, w'⟩).WrittenOff id') : m.WrittenOff id' := by
  obtain ⟨j, v, ht, hf⟩ := h
  have hf' : v.final = some (m.created id') := hf.trans (congrArg some (created_apply_of_ne hne))
  rcases task_after ht with ⟨-, hid, -⟩ | ⟨-, ht⟩ | ⟨due, rfl⟩
  · exact absurd hid hne
  · exact ⟨j, v, ht, hf'⟩
  · cases hf

theorem writtenOff_before (h : Quiet m) (ht : m.tasks.lookup i = some ⟨id, w⟩)
    (hn : Work.next m i id w a = some (e, w'))
    (hw : ((m.apply i id e).goOn i ⟨id, w'⟩).WrittenOff id) :
    (∀ timer, e ≠ .create timer) ∧ (m.WrittenOff id ∨ (a = .done ∧
      ∃ isSeriesCancelled isManual timer,
        w = .cancelWriting isSeriesCancelled isManual timer)) := by
  obtain ⟨j, v, ht', hf⟩ := hw
  have hle : m.created id ≤ (m.apply i id e).created id := created_le_apply
  -- what is final was so before, or is what the step wrote off
  have hbefore : (∃ j v, m.tasks.lookup j = some ⟨id, v⟩ ∧
      v.final = some ((m.apply i id e).created id)) ∨
      ((m.apply i id e).created id = m.created id ∧ a = .done ∧ ∃ isSeriesCancelled isManual timer,
        w = .cancelWriting isSeriesCancelled isManual timer) := by
    rcases task_after ht' with ⟨-, -, rfl⟩ | ⟨-, ht'⟩ | ⟨due, rfl⟩
    · exact (next_final hn hf).imp_left fun hf => ⟨i, w, ht, hf⟩
    · exact .inl ⟨j, v, ht', hf⟩
    · cases hf
  have hcreate : ∀ timer, e ≠ .create timer := by
    rintro timer rfl
    rw [created_create] at hbefore
    rcases hbefore with ⟨j, v, ht', hf⟩ | ⟨heq, -⟩
    · exact absurd (h.finals id j v _ ht' hf) (by omega)
    · omega
  refine ⟨hcreate, hbefore.imp (fun ⟨j, v, ht', hf⟩ => ⟨j, v, ht', ?_⟩) fun hc => hc.2⟩
  rw [hf, created_apply hcreate]

theorem cancelWriting {isSeriesCancelled isManual : Bool} {timer : Option TimerInfo}
    (hn : Work.next m i id (.cancelWriting isSeriesCancelled isManual timer) .done = some (e, w'))
    (hheld : m.heldElsewhere i id = false) :
    (∀ j v timer, ((m.apply i id e).goOn i ⟨id, w'⟩).tasks.lookup j = some ⟨id, v⟩ →
      v.copy ≠ some timer) ∧
    (∀ row, ((m.apply i id e).goOn i ⟨id, w'⟩).rows.lookup id = some row →
      row.timer.status = .cancelled) := by
  obtain ⟨rfl, he⟩ := next_cancelWriting hn
  refine ⟨fun j v timer ht' hc => ?_, fun row hrow => ?_⟩
  · rcases task_after ht' with ⟨-, -, rfl⟩ | ⟨hne, ht'⟩ | ⟨due, rfl⟩
    · cases hc
    · rw [Manager.heldElsewhere_of_mem hne ht' hc] at hheld
      cases hheld
    · cases hc
  · rcases he with rfl | ⟨timer, rfl, hs⟩
    · have hnone : (m.rows.erase id).lookup id = some row := hrow
      rw [lookup_erase_eq, if_pos rfl] at hnone
      cases hnone
    · have hsome : (m.rows.insert id ⟨timer, _⟩).lookup id = some row := hrow
      rw [lookup_insert_eq, if_pos rfl] at hsome
      cases hsome
      exact hs

theorem rows_after (h : Quiet m) (hw : m.WrittenOff id) (ht : m.tasks.lookup i = some ⟨id, w⟩)
    (hn : Work.next m i id w a = some (e, w')) (he : ∀ timer, e ≠ .create timer) :
    ∀ row, (m.apply i id e).rows.lookup id = some row → row.timer.status = .cancelled := by
  intro row hrow
  cases e with
  | create timer => exact absurd rfl (he timer)
  | delete =>
    have hnone : (m.rows.erase id).lookup id = some row := hrow
    rw [lookup_erase_eq, if_pos rfl] at hnone
    cases hnone
  | persist timer isManual =>
    have hsome : (m.rows.insert id ⟨timer, _⟩).lookup id = some row := hrow
    rw [lookup_insert_eq, if_pos rfl] at hsome
    cases hsome
    obtain ⟨hcopy, hstatus⟩ := next_persist hn
    obtain ⟨timer', hc⟩ := Option.isSome_iff_exists.mp hcopy
    obtain ⟨hfires, hs, -⟩ := h.copies id hw i w timer' ht hc
    rcases hstatus hfires with hs' | hs'
    · exact hs'
    · rw [hc] at hs'
      exact (Option.some.inj hs').symm.trans hs
  | _ => exact h.rows id hw row hrow

theorem copies_after (h : Quiet m) (hw : m.WrittenOff id) (ht : m.tasks.lookup i = some ⟨id, w⟩)
    (hn : Work.next m i id w a = some (e, w'))
    (hread : w = .reading → a = .done → ∀ row, m.rows.lookup id = some row →
      row.timer.status ≠ .cancelled)
    (hdelete : e = .delete → m.heldElsewhere i id = false) {timer : TimerInfo}
    (hv : ((m.apply i id e).goOn i ⟨id, w'⟩).tasks.lookup j = some ⟨id, v⟩)
    (hc : v.copy = some timer) :
    v.fires = false ∧ timer.status = .cancelled ∧ (m.apply i id e).rows.lookup id ≠ none := by
  rcases task_after hv with ⟨-, -, rfl⟩ | ⟨hne, hv⟩ | ⟨due, rfl⟩
  · have hkept : e ≠ .delete := by
      rintro rfl
      rw [(next_delete hn).2.1] at hc
      cases hc
    rcases next_copy hn hc with ⟨row, hrow, rfl, hfires⟩ | ⟨timer', hc', hfires, hs⟩
    · have hcancelled := h.rows id hw row hrow
      refine ⟨?_, hcancelled, rows_apply_ne_none hkept (by rw [hrow]; exact nofun)⟩
      by_contra hf
      obtain ⟨hwr, ha⟩ := hfires (by simpa using hf)
      exact hread hwr ha row hrow hcancelled
    · obtain ⟨hf, hs', hrow⟩ := h.copies id hw i w timer' ht hc'
      exact ⟨hfires ▸ hf, (hs hf).trans hs', rows_apply_ne_none hkept hrow⟩
  · obtain ⟨hf, hs, hrow⟩ := h.copies id hw j v timer hv hc
    refine ⟨hf, hs, rows_apply_ne_none ?_ hrow⟩
    intro he
    have hheld := hdelete he
    rw [Manager.heldElsewhere_of_mem hne hv hc] at hheld
    cases hheld
  · cases hc

end Quiet

/-! ### What spares a cancel -/

namespace Manager

variable {m : Manager} {i : Nat} {id : String} {w : Work}

theorem settled_cancelWriting {isSeriesCancelled isManual : Bool} {timer : Option TimerInfo}
    (h : m.settled (.step i .done) = true)
    (ht : m.tasks.lookup i = some ⟨id, .cancelWriting isSeriesCancelled isManual timer⟩) :
    m.heldElsewhere i id = false := by
  simpa [settled, ht] using h

theorem settled_reading (h : m.settled (.step i .done) = true)
    (ht : m.tasks.lookup i = some ⟨id, .reading⟩) {row : Row}
    (hrow : m.rows.lookup id = some row) : row.timer.status ≠ .cancelled := by
  simpa [settled, ht, hrow] using h

theorem settled_delete (h : m.settled (.step i .done) = true)
    (ht : m.tasks.lookup i = some ⟨id, w⟩) (hw : w = .ended ∨ w = .dropping ∨ w = .removed)
    (hoff : m.WrittenOff id) : m.heldElsewhere i id = false := by
  rcases hw with rfl | rfl | rfl <;> simpa [settled, ht, writtenOff_of_mem hoff] using h

end Manager

theorem copy_work (operation : Operation) :
    operation.work.copy = none ∧ operation.work.final = none := by
  cases operation <;> exact ⟨rfl, rfl⟩

namespace Quiet

variable {m m' : Manager}

theorem start (h : Quiet m) (id : String) (operation : Operation) :
    Quiet (Manager.goOn { m with nextTask := m.nextTask + 1 } m.nextTask
      ⟨id, operation.work⟩) := by
  have hold : ∀ {j id' v}, (m.tasks.insert m.nextTask ⟨id, operation.work⟩).lookup j =
      some ⟨id', v⟩ → (v.copy = none ∧ v.final = none) ∨ m.tasks.lookup j = some ⟨id', v⟩ := by
    intro j id' v ht
    rw [lookup_insert_eq] at ht
    split at ht
    · cases ht
      exact .inl (copy_work operation)
    · exact .inr ht
  have hoff : ∀ {id'}, Manager.WrittenOff (Manager.goOn { m with nextTask := m.nextTask + 1 }
      m.nextTask ⟨id, operation.work⟩) id' → m.WrittenOff id' := by
    rintro id' ⟨j, v, ht, hf⟩
    rcases hold ht with ⟨-, hn⟩ | ht
    · rw [hn] at hf
      cases hf
    · exact ⟨j, v, ht, hf⟩
  refine ⟨fun id' j v n ht hf => ?_, fun id' hw j v timer ht hc => ?_,
    fun id' hw row hrow => h.rows id' (hoff hw) row hrow⟩
  · rcases hold ht with ⟨-, hn⟩ | ht
    · rw [hn] at hf
      cases hf
    · exact h.finals id' j v n ht hf
  · rcases hold ht with ⟨hn, -⟩ | ht
    · rw [hn] at hc
      cases hc
    · exact h.copies id' (hoff hw) j v timer ht hc

theorem step (h : Quiet m) {event : Event} (hset : m.settled event = true)
    (hs : m.step event = some m') : Quiet m' := by
  cases event with
  | tick elapsed => cases hs; exact ⟨h.finals, h.copies, h.rows⟩
  | start id operation => cases hs; exact h.start id operation
  | step i a =>
    obtain ⟨id, w, e, w', ht, hn, rfl⟩ := step_cases hs
    have hread : w = .reading → a = .done → ∀ row, m.rows.lookup id = some row →
        row.timer.status ≠ .cancelled := by
      rintro rfl rfl row hrow
      exact Manager.settled_reading hset ht hrow
    -- what the step leaves of the timer itself, when it is written off
    have hself : ((m.apply i id e).goOn i ⟨id, w'⟩).WrittenOff id →
        (∀ j v timer, ((m.apply i id e).goOn i ⟨id, w'⟩).tasks.lookup j = some ⟨id, v⟩ →
          v.copy = some timer → v.fires = false ∧ timer.status = .cancelled ∧
            (m.apply i id e).rows.lookup id ≠ none) ∧
        (∀ row, (m.apply i id e).rows.lookup id = some row → row.timer.status = .cancelled) := by
      intro hoff
      obtain ⟨hcreate, hoff⟩ := writtenOff_before h ht hn hoff
      by_cases hcw : a = .done ∧ ∃ isSeriesCancelled isManual timer,
          w = .cancelWriting isSeriesCancelled isManual timer
      · obtain ⟨rfl, isSeriesCancelled, isManual, timer, rfl⟩ := hcw
        obtain ⟨hcopy, hrows⟩ := cancelWriting hn (Manager.settled_cancelWriting hset ht)
        exact ⟨fun j v timer hv hc => absurd hc (hcopy j v timer hv), hrows⟩
      · have hoff' := hoff.resolve_right hcw
        have hdelete : e = .delete → m.heldElsewhere i id = false := by
          rintro rfl
          obtain ⟨rfl, -, hw⟩ := next_delete hn
          have hw' : w = .ended ∨ w = .dropping ∨ w = .removed := by
            rcases hw with hw | hw | hw | hw
            · exact .inl hw
            · exact .inr (.inl hw)
            · exact .inr (.inr hw)
            · exact absurd ⟨rfl, hw⟩ hcw
          exact Manager.settled_delete hset ht hw' hoff'
        exact ⟨fun j v timer hv hc => copies_after h hoff' ht hn hread hdelete hv hc,
          rows_after h hoff' ht hn hcreate⟩
    refine ⟨fun id' j v n hv hf => ?_, fun id' hoff j v timer hv hc => ?_,
      fun id' hoff row hrow => ?_⟩
    · have hle : m.created id' ≤ (m.apply i id e).created id' := created_le_apply
      refine Nat.le_trans ?_ hle
      rcases task_after hv with ⟨-, rfl, rfl⟩ | ⟨-, hv⟩ | ⟨due, rfl⟩
      · rcases next_final hn hf with hf | ⟨rfl, -⟩
        · exact h.finals id' i w n ht hf
        · exact Nat.le_refl _
      · exact h.finals id' j v n hv hf
      · cases hf
    · by_cases hid : id' = id
      · subst hid
        exact (hself hoff).1 j v timer hv hc
      · have hrows : (m.apply i id e).rows.lookup id' = m.rows.lookup id' := rows_apply_of_ne hid
        rcases task_after hv with ⟨-, hid', -⟩ | ⟨-, hv⟩ | ⟨due, rfl⟩
        · exact absurd hid' hid
        · obtain ⟨hf, hs, hrow⟩ := h.copies id' (writtenOff_of_ne hid hoff) j v timer hv hc
          exact ⟨hf, hs, fun hnone => hrow (hrows.symm.trans hnone)⟩
        · cases hc
    · by_cases hid : id' = id
      · subst hid
        exact (hself hoff).2 row hrow
      · have hrows : (m.apply i id e).rows.lookup id' = m.rows.lookup id' := rows_apply_of_ne hid
        exact h.rows id' (writtenOff_of_ne hid hoff) row (hrows.symm.trans hrow)

end Quiet

theorem quiet_of_reaches {m : Manager} (h : dvr.Reaches (fun m event => m.settled event = true) m) :
    Quiet m := by
  refine h.invariant ?_ fun m _ m' hm hset hs => hm.step hset hs
  have hoff : ∀ id, ¬ Manager.WrittenOff {} id := by
    rintro id ⟨i, w, ht, -⟩
    cases ht
  refine ⟨fun id i w n ht => ?_, fun id hw => absurd hw (hoff id), fun id hw => absurd hw (hoff id)⟩
  cases ht

/-! ### Once a cancel has returned -/

namespace Manager

variable {m m' : Manager} {id : String} {event : Event}

theorem created_le_of_step (hs : m.step event = some m') : m.created id ≤ m'.created id := by
  cases event with
  | tick | start => cases hs; exact Nat.le_refl _
  | step i a =>
    obtain ⟨id', w, e, w', -, -, rfl⟩ := step_cases hs
    exact created_le_apply

theorem WrittenOff.step (h : m.WrittenOff id) (ha : Arms m) (hs : m.step event = some m')
    (hc : m'.created id = m.created id) : m'.WrittenOff id := by
  obtain ⟨j, v, ht, hf⟩ := h
  rw [← hc] at hf
  cases event with
  | tick elapsed => cases hs; exact ⟨j, v, ht, hf⟩
  | start id' operation =>
    cases hs
    refine ⟨j, v, ?_, hf⟩
    simp only [goOn, lookup_insert_eq]
    rw [if_neg (Nat.ne_of_lt (ha.lt ht))]
    exact ht
  | step i a =>
    obtain ⟨id', w, e, w', ht', hn, rfl⟩ := step_cases hs
    by_cases hij : j = i
    · subst hij
      cases ht.symm.trans ht'
      refine ⟨j, w', ?_, next_final_of_final hn hf⟩
      simp only [goOn, lookup_insert_eq, if_true]
    · refine ⟨j, v, ?_, hf⟩
      simp only [goOn, lookup_insert_eq, if_neg hij]
      exact ha.lookup_apply ht

theorem WrittenOff.gone (h : m.WrittenOff id) (hq : Quiet m) (hs : m.step event = some m')
    (hc : m'.created id = m.created id) (hrow : m.rows.lookup id = none) :
    m'.rows.lookup id = none := by
  cases event with
  | tick | start => cases hs; exact hrow
  | step i a =>
    obtain ⟨id', w, e, w', ht, hn, rfl⟩ := step_cases hs
    by_cases hid : id = id'
    · subst hid
      cases e with
      | persist timer isManual =>
        obtain ⟨timer', hcopy⟩ := Option.isSome_iff_exists.mp (next_persist hn).1
        exact absurd hrow (hq.copies id h i w timer' ht hcopy).2.2
      | create timer =>
        exact absurd ((@created_create m i id timer).symm.trans hc) (Nat.succ_ne_self _)
      | delete => exact (lookup_erase_eq ..).trans (if_pos rfl)
      | _ => exact hrow
    · exact (rows_apply_of_ne hid).trans hrow

/-- What a run from `m` keeps of a timer that was written off there. -/
theorem WrittenOff.path (h : m.WrittenOff id) (ha : Arms m) (hq : Quiet m)
    (hp : dvr.Path (fun m event => m.settled event = true) m m')
    (hc : m'.created id = m.created id) :
    Quiet m' ∧ m'.WrittenOff id ∧ (m.rows.lookup id = none → m'.rows.lookup id = none) := by
  -- a timer that was not created by the end was not on the way
  have hrun := Machine.Path.invariant (I := fun s : Manager => Arms s ∧ Quiet s ∧
      m.created id ≤ s.created id ∧ (s.created id = m.created id →
        s.WrittenOff id ∧ (m.rows.lookup id = none → s.rows.lookup id = none))) hp
    ⟨ha, hq, Nat.le_refl _, fun _ => ⟨h, fun hrow => hrow⟩⟩ ?_
  · exact ⟨hrun.2.1, hrun.2.2.2 hc⟩
  · rintro s event t ⟨hsa, hsq, hle, hkept⟩ hset hs
    have hmono : s.created id ≤ t.created id := created_le_of_step hs
    refine ⟨hsa.step hs, hsq.step hset hs, Nat.le_trans hle hmono, fun heq => ?_⟩
    have hsame : t.created id = s.created id := by omega
    obtain ⟨hoff, hgone⟩ := hkept (by omega)
    exact ⟨hoff.step hsa hs hsame, fun hrow => hoff.gone hsq hs hsame (hgone hrow)⟩

end Manager

/-- **Where nobody else holds a copy of the row when a cancel writes it off, and no fire reads the
row of a cancelled timer, a cancel that has returned is final, until the timer is created
again.** -/
theorem cancel_final {m m' : Manager} {id : String}
    (h : dvr.Reaches (fun m event => m.settled event = true) m) (hret : m.Cancelled id)
    (hp : dvr.Path (fun m event => m.settled event = true) m m')
    (hc : m'.created id = m.created id) : m.CancelHolds id m' := by
  obtain ⟨j, hj⟩ := hret
  have hoff : m.WrittenOff id := ⟨j, _, hj, rfl⟩
  obtain ⟨hq, hoff', hgone⟩ :=
    hoff.path (arms_of_reachable h.reachable) (quiet_of_reaches h) hp hc
  refine ⟨fun i w ht => ?_, hq.rows id hoff', hgone⟩
  by_contra hcap
  obtain ⟨hfires, timer, hcopy⟩ := fires_of_captures (Bool.not_eq_false _ ▸ hcap)
  have := (hq.copies id hoff' i w timer ht hcopy).1
  rw [hfires] at this
  cases this

def scheduling : List Event :=
  [.start "a" (.create { startDate := 9000, endDate := 12000 }), .step 0 .done, .step 0 .nothing,
    .step 0 .nothing]

def cancelling (i : Nat) : List Event :=
  [.start "a" (.cancel false true), .step i .done, .step i .done, .step i .nothing,
    .step i .nothing, .step i .nothing]

/-- A fire reads the row, and then the timer is cancelled. -/
def cancelledFire : List Event :=
  scheduling ++ [Event.tick 9000, .step 1 .nothing, .step 1 .done] ++ cancelling 2

def capturing : List Event :=
  [.step 1 (.guide none), .step 1 .nothing, .step 1 .nothing, .step 1 .done, .step 1 .done,
    .step 1 .done]

theorem cancel_final_before_fire : ∃ m m',
    dvr.Reaches (fun m event => m.settled event = true) m ∧ m.Cancelled "a" ∧
    dvr.Path (fun m event => m.settled event = true) m m' ∧ m'.created "a" = m.created "a" ∧
    m.CancelHolds "a" m' := by
  obtain ⟨m, hm, hret, hc⟩ : ∃ m, dvr.runWhile (fun m event => m.settled event = true) {}
      (scheduling ++ cancelling 2) = some m ∧ m.Cancelled "a" ∧ m.created "a" = 1 :=
    ⟨_, rfl, ⟨2, rfl⟩, rfl⟩
  obtain ⟨m', hm', hc'⟩ : ∃ m', dvr.runWhile (fun m event => m.settled event = true) {}
      (scheduling ++ cancelling 2 ++ [Event.tick 9000, .step 1 .nothing, .start "a" .refresh,
        .step 3 .done]) = some m' ∧ m'.created "a" = 1 :=
      Lib.exists_of_decide (by decide +kernel)
  have h : dvr.Reaches (fun m event => m.settled event = true) m := Machine.path_of_runWhile _ hm
  have hp := Machine.path_of_runWhile _ (Machine.runWhile_of_append hm hm')
  have hcc : m'.created "a" = m.created "a" := hc'.trans hc.symm
  exact ⟨m, m', h, hret, hp, hcc, cancel_final h hret hp hcc⟩

/-- **A cancel is not final**: a fire that has read the row goes on after the cancel returned, and
captures under a row that is back. -/
theorem captured_after_cancel : ¬ ∀ m m' id, dvr.Reachable m → m.Cancelled id →
    dvr.Path (fun _ _ => True) m m' → m'.created id = m.created id → m.CancelHolds id m' := by
  intro hall
  obtain ⟨m, hm, hret, hc⟩ : ∃ m, dvr.run {} cancelledFire = some m ∧ m.Cancelled "a" ∧
      m.created "a" = 1 := ⟨_, rfl, ⟨2, rfl⟩, rfl⟩
  obtain ⟨m', w, hm', hc', ht, hcap⟩ : ∃ m' w, dvr.run {} (cancelledFire ++ capturing) = some m' ∧
      m'.created "a" = 1 ∧ m'.tasks.lookup 1 = some ⟨"a", w⟩ ∧ w.captures = true :=
    ⟨_, _, rfl, rfl, rfl, rfl⟩
  have hp := Machine.path_of_runWhile _ (Machine.runWhile_of_append hm hm')
  have hholds := hall m m' "a" (Machine.reachable_of_run _ hm) hret hp (hc'.trans hc.symm)
  exact Bool.false_ne_true ((hholds.idle 1 w ht).symm.trans hcap)

end Ferrofin.Dvr
