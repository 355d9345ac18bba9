import Ferrofin.Dvr.Manager

/-!
# One fire and one capture at a time

A fire that was superseded or disarmed never takes itself out of the armed timers
(`not_mem_fired_of_path`), the last fire that a timer was armed with is pending until it has come
due (`Arms`), and the claim on a timer is held by one fire at a time (`Claims`).  So a timer has
at most one fire that can still take effect and at most one capture, however arming, updates,
refreshes and retries meet (`one_fire_one_capture`).
-/

namespace Ferrofin.Dvr

open Lib
open Lib.KeyedMap (lookup_erase_eq lookup_insert_eq)

/-- The task holds the claim on its timer (`FiringClaim`). -/
def Work.claims : Work → Bool
  | .claimed _ _ | .opening _ _ | .inserting _ _ | .starting _ _ | .recording _ _ => true
  | .closing _ _ _ _ | .weighing _ _ _ _ | .retrying _ _ | .retryCounting _ _ => true
  | .retryPersisting _ | .finishing _ | .completing _ | .discarding | .dropping => true
  | .returning => true
  | .arming claims _ | .scheduling claims _ => claims
  | _ => false

@[simp] theorem claims_armed (claims : Bool) : (Work.armed claims).claims = claims := by
  cases claims <;> rfl

theorem armed_ne_sleeping (claims : Bool) (due : Nat) : Work.armed claims ≠ .sleeping due := by
  cases claims <;> exact nofun

/-! ### What a task does next -/

section next

variable {m : Manager} {i : Nat} {id : String} {w w' : Work} {a : Answer} {e : Effect}

theorem next_sleeping {due : Nat} (h : Work.next m i id (.sleeping due) a = some (e, w')) :
    due ≤ m.now ∧ (((i ∈ m.flagged ∨ m.armed.lookup id ≠ some i) ∧ e = .none ∧ w' = .over) ∨
      (i ∉ m.flagged ∧ m.armed.lookup id = some i ∧ e = .unarm ∧ w' = .reading)) := by
  cases a with
  | nothing =>
    simp only [Work.next] at h
    grind
  | _ => simp [Work.next] at h

theorem next_ne_sleeping (h : Work.next m i id w a = some (e, w')) (due : Nat) :
    w' ≠ .sleeping due := by
  revert h
  fun_cases Work.next m i id w a <;> grind [armed_ne_sleeping, settle]

theorem next_unarm (h : Work.next m i id w a = some (.unarm, w')) :
    ∃ due, w = .sleeping due := by
  revert h
  fun_cases Work.next m i id w a <;> grind [settle]

theorem next_retryRead (h : Work.next m i id w a = some (.retryRead, w')) :
    m.armed.lookup id = none := by
  revert h
  fun_cases Work.next m i id w a <;> grind [settle, Option.isSome_iff_ne_none]

theorem next_claims (h : Work.next m i id w a = some (e, w')) :
    (e = .claim ∧ id ∉ m.firing ∧ w.claims = false ∧ w'.claims = true) ∨
      (e = .release ∧ w.claims = true ∧ w'.claims = false) ∨
      (e ≠ .claim ∧ e ≠ .release ∧ w'.claims = w.claims) := by
  revert h
  fun_cases Work.next m i id w a <;> grind [claims_armed, settle, Work.claims]

end next

/-- A task that is there after a step was there before, or is a fire that was spawned. -/
theorem tasks_apply {m : Manager} {i j : Nat} {id id' : String} {e : Effect} {w : Work}
    (h : (m.apply i id e).tasks.lookup j = some ⟨id', w⟩) :
    m.tasks.lookup j = some ⟨id', w⟩ ∨ ∃ due, w = .sleeping due := by
  have hinsert : ∀ {id due}, (m.tasks.insert m.nextTask ⟨id, .sleeping due⟩).lookup j =
      some ⟨id', w⟩ → m.tasks.lookup j = some ⟨id', w⟩ ∨ ∃ due, w = .sleeping due := by
    intro id due ht
    rw [lookup_insert_eq] at ht
    split at ht
    · cases ht
      exact .inr ⟨due, rfl⟩
    · exact .inl ht
  cases e with
  | schedule | retryRead => exact hinsert h
  | _ => exact .inl h

/-! ### The armed timers -/

/-- What is armed is a sleeping fire that was not disarmed, and what a timer was armed with last
is still armed or fired when it was due. -/
structure Arms (m : Manager) : Prop where
  fresh : ∀ i, m.nextTask ≤ i → m.tasks.lookup i = none
  flagged : ∀ i ∈ m.flagged, i < m.nextTask
  fired : ∀ i ∈ m.fired, ∀ id due, m.tasks.lookup i ≠ some ⟨id, .sleeping due⟩
  firedLt : ∀ i ∈ m.fired, i < m.nextTask
  armed : ∀ id i, m.armed.lookup id = some i →
    (∃ due, m.tasks.lookup i = some ⟨id, .sleeping due⟩) ∧ i ∉ m.flagged
  last : ∀ id i due, m.lastArms.lookup id = some (i, due) →
    (m.armed.lookup id = some i ∧ m.tasks.lookup i = some ⟨id, .sleeping due⟩) ∨
      (i ∈ m.fired ∧ due ≤ m.now)

namespace Arms

variable {m : Manager} {i : Nat} {id : String}

theorem lt (h : Arms m) {task : Task} (ht : m.tasks.lookup i = some task) : i < m.nextTask := by
  by_contra hlt
  rw [h.fresh i (Nat.le_of_not_lt hlt)] at ht
  cases ht

theorem lookup_apply (h : Arms m) {j : Nat} {task : Task} {e : Effect}
    (ht : m.tasks.lookup j = some task) : (m.apply i id e).tasks.lookup j = some task := by
  have hinsert : ∀ task', (m.tasks.insert m.nextTask task').lookup j = some task := fun _ =>
    (lookup_insert_eq ..).trans ((if_neg (Nat.ne_of_lt (h.lt ht))).trans ht)
  cases e with
  | schedule | retryRead => exact hinsert _
  | _ => exact ht

theorem id_eq (h : Arms m) {id' : String} (ha : m.armed.lookup id = some i)
    (ha' : m.armed.lookup id' = some i) : id = id' := by
  obtain ⟨⟨due, ht⟩, -⟩ := h.armed id i ha
  obtain ⟨⟨due', ht'⟩, -⟩ := h.armed id' i ha'
  rw [ht] at ht'
  cases ht'
  rfl

theorem notMem_flagged (h : Arms m) {id' : String} (hne : id' ≠ id)
    (ha : m.armed.lookup id' = some i) : i ∉ m.flagged ++ (m.armed.lookup id).toList := by
  intro hi
  rcases List.mem_append.mp hi with hi | hi
  · exact (h.armed id' i ha).2 hi
  · rw [Option.mem_toList] at hi
    exact hne (h.id_eq ha hi)

theorem flagged_lt (h : Arms m) : ∀ j ∈ m.flagged ++ (m.armed.lookup id).toList,
    j < m.nextTask := by
  intro j hj
  rcases List.mem_append.mp hj with hj | hj
  · exact h.flagged j hj
  · rw [Option.mem_toList] at hj
    obtain ⟨⟨due, ht⟩, -⟩ := h.armed id j hj
    exact h.lt ht

theorem disarm (h : Arms m) : Arms (m.disarm id) where
  fresh := h.fresh
  flagged := h.flagged_lt
  fired := h.fired
  firedLt := h.firedLt
  armed id' i ha := by
    simp only [Manager.disarm, lookup_erase_eq] at ha ⊢
    split at ha
    · cases ha
    · next hne => exact ⟨(h.armed id' i ha).1, h.notMem_flagged hne ha⟩
  last id' i due ha := by
    simp only [Manager.disarm, lookup_erase_eq] at ha ⊢
    split at ha
    · cases ha
    · next hne =>
      rw [if_neg hne]
      exact h.last id' i due ha

/-- The fire that a timer is armed with takes the place of the one before. -/
theorem scheduleFire (h : Arms m) (delay : Nat) : Arms (m.scheduleFire id delay) where
  fresh i hi := by
    simp only [Manager.scheduleFire, Manager.spawnFire, lookup_insert_eq] at hi ⊢
    rw [if_neg (by omega)]
    exact h.fresh i (by omega)
  flagged j hj := Nat.lt_succ_of_lt (h.flagged_lt j hj)
  fired i hi id' due ht := by
    simp only [Manager.scheduleFire, Manager.spawnFire, lookup_insert_eq] at hi ht
    rw [if_neg (Nat.ne_of_lt (h.firedLt i hi))] at ht
    exact h.fired i hi id' due ht
  firedLt i hi := Nat.lt_succ_of_lt (h.firedLt i hi)
  armed id' i ha := by
    simp only [Manager.scheduleFire, Manager.spawnFire, lookup_insert_eq] at ha ⊢
    split at ha
    · next heq =>
      cases ha
      subst heq
      exact ⟨⟨_, by rw [if_pos rfl]⟩, fun hi => Nat.lt_irrefl _ (h.flagged_lt _ hi)⟩
    · next hne =>
      obtain ⟨⟨due, ht⟩, -⟩ := h.armed id' i ha
      rw [if_neg (Nat.ne_of_lt (h.lt ht))]
      exact ⟨⟨due, ht⟩, h.notMem_flagged hne ha⟩
  last id' i due ha := by
    simp only [Manager.scheduleFire, Manager.spawnFire, lookup_insert_eq] at ha ⊢
    split at ha
    · next heq =>
      cases ha
      subst heq
      exact .inl ⟨by rw [if_pos rfl], by rw [if_pos rfl]⟩
    · next hne =>
      rw [if_neg hne]
      rcases h.last id' i due ha with ⟨hi, ht⟩ | hf
      · rw [if_neg (Nat.ne_of_lt (h.lt ht))]
        exact .inl ⟨hi, ht⟩
      · exact .inr hf

theorem unarm (h : Arms m) {due : Nat} {w : Work} (hw : ∀ due, w ≠ .sleeping due)
    (ht : m.tasks.lookup i = some ⟨id, .sleeping due⟩) (hdue : due ≤ m.now)
    (ha : m.armed.lookup id = some i) : Arms ((m.apply i id .unarm).goOn i ⟨id, w⟩) where
  fresh j hj := by
    simp only [Manager.goOn, Manager.apply, lookup_insert_eq] at hj ⊢
    rw [if_neg (by have := h.lt ht; omega)]
    exact h.fresh j hj
  flagged := h.flagged
  fired j hj id' due' hj' := by
    simp only [Manager.goOn, Manager.apply, lookup_insert_eq] at hj hj'
    split at hj'
    · cases hj'
      exact hw due' rfl
    · next hne =>
      rcases List.mem_append.mp hj with hj | hj
      · exact h.fired j hj id' due' hj'
      · exact hne (List.mem_singleton.mp hj)
  firedLt j hj := by
    rcases List.mem_append.mp hj with hj | hj
    · exact h.firedLt j hj
    · rw [List.mem_singleton.mp hj]
      exact h.lt ht
  armed id' j ha' := by
    simp only [Manager.goOn, Manager.apply, lookup_erase_eq,
      lookup_insert_eq] at ha' ⊢
    split at ha'
    · cases ha'
    · next hne =>
      have hij : j ≠ i := by
        rintro rfl
        exact hne (h.id_eq ha' ha)
      rw [if_neg hij]
      exact h.armed id' j ha'
  last id' j due' hl := by
    simp only [Manager.goOn, Manager.apply, lookup_erase_eq,
      lookup_insert_eq] at hl ⊢
    rcases h.last id' j due' hl with ⟨hj, ht'⟩ | ⟨hf, hd⟩
    · by_cases hne : id' = id
      · subst hne
        cases ha.symm.trans hj
        cases ht.symm.trans ht'
        exact .inr ⟨List.mem_append_right _ (List.mem_singleton_self _), hdue⟩
      · have hij : j ≠ i := by
          rintro rfl
          exact hne (h.id_eq hj ha)
        rw [if_neg hne, if_neg hij]
        exact .inl ⟨hj, ht'⟩
    · exact .inr ⟨List.mem_append_left _ hf, hd⟩

theorem goOn (h : Arms m) {w : Work} (hw : ∀ due, w ≠ .sleeping due) (hi : i < m.nextTask)
    (hna : ∀ id, m.armed.lookup id ≠ some i) : Arms (m.goOn i ⟨id, w⟩) where
  fresh j hj := by
    simp only [Manager.goOn, lookup_insert_eq] at hj ⊢
    rw [if_neg (by omega)]
    exact h.fresh j hj
  flagged := h.flagged
  fired j hj id' due' hj' := by
    simp only [Manager.goOn, lookup_insert_eq] at hj hj'
    split at hj'
    · cases hj'
      exact hw due' rfl
    · exact h.fired j hj id' due' hj'
  firedLt := h.firedLt
  armed id' j ha := by
    simp only [Manager.goOn, lookup_insert_eq] at ha ⊢
    have hij : j ≠ i := by
      rintro rfl
      exact hna id' ha
    rw [if_neg hij]
    exact h.armed id' j ha
  last id' j due hl := by
    simp only [Manager.goOn, lookup_insert_eq] at hl ⊢
    rcases h.last id' j due hl with ⟨hj, ht⟩ | hf
    · have hij : j ≠ i := by
        rintro rfl
        exact hna id' hj
      rw [if_neg hij]
      exact .inl ⟨hj, ht⟩
    · exact .inr hf

theorem apply (h : Arms m) {e : Effect} (hu : e ≠ .unarm)
    (hr : e = .retryRead → m.armed.lookup id = none) : Arms (m.apply i id e) := by
  cases e with
  | unarm => exact absurd rfl hu
  | disarm => exact h.disarm
  | schedule delay => exact h.scheduleFire delay
  | retryRead =>
    -- nothing is armed, so nothing is disarmed for it
    have hnone : (m.armed.lookup id).toList = [] := by rw [hr rfl]; rfl
    have hs : Arms (m.scheduleFire id (retryIntervalSeconds * 1000)) := h.scheduleFire _
    simp only [Manager.scheduleFire, hnone, List.append_nil] at hs
    exact ⟨hs.fresh, hs.flagged, hs.fired, hs.firedLt, hs.armed, hs.last⟩
  | _ => exact ⟨h.fresh, h.flagged, h.fired, h.firedLt, h.armed, h.last⟩

end Arms

theorem notArmed_apply {m : Manager} {i j : Nat} {id : String} (e : Effect) (hj : j < m.nextTask)
    (hna : ∀ id, m.armed.lookup id ≠ some j) (id' : String) :
    (m.apply i id e).armed.lookup id' ≠ some j := by
  have herase : (m.armed.erase id).lookup id' ≠ some j := by
    rw [lookup_erase_eq]
    split
    · exact nofun
    · exact hna id'
  have hinsert : (m.armed.insert id m.nextTask).lookup id' ≠ some j := by
    rw [lookup_insert_eq]
    split
    · exact fun heq => Nat.ne_of_gt hj (Option.some.inj heq)
    · exact hna id'
  cases e with
  | unarm | disarm => exact herase
  | schedule | retryRead => exact hinsert
  | _ => exact hna id'

theorem nextTask_le_apply {m : Manager} {i : Nat} {id : String} (e : Effect) :
    m.nextTask ≤ (m.apply i id e).nextTask := by
  cases e with
  | schedule | retryRead => exact Nat.le_succ _
  | _ => exact Nat.le_refl _

theorem Arms.step {m m' : Manager} (h : Arms m) {event : Event} (hs : m.step event = some m') :
    Arms m' := by
  cases event with
  | tick elapsed =>
    cases hs
    refine ⟨h.fresh, h.flagged, h.fired, h.firedLt, h.armed, fun id i due hl => ?_⟩
    exact (h.last id i due hl).imp_right fun hf => ⟨hf.1, Nat.le_add_right_of_le hf.2⟩
  | start id operation =>
    cases hs
    have h' : Arms { m with nextTask := m.nextTask + 1 } :=
      ⟨fun i hi => h.fresh i (Nat.le_of_succ_le hi), fun i hi => Nat.lt_succ_of_lt (h.flagged i hi),
        h.fired, fun i hi => Nat.lt_succ_of_lt (h.firedLt i hi), h.armed, h.last⟩
    refine h'.goOn (fun due => by cases operation <;> exact nofun) (Nat.lt_succ_self _) ?_
    intro id' ha
    obtain ⟨⟨due, ht⟩, -⟩ := h.armed id' _ ha
    exact Nat.lt_irrefl _ (h.lt ht)
  | step i a =>
    obtain ⟨id, w, e, w', ht, hn, rfl⟩ := step_cases hs
    by_cases hsleep : ∃ due, w = .sleeping due
    · obtain ⟨due, rfl⟩ := hsleep
      have hw := next_ne_sleeping hn
      obtain ⟨hdue, ⟨hnot, rfl, -⟩ | ⟨-, ha, rfl, -⟩⟩ := next_sleeping hn
      · refine h.goOn hw (h.lt ht) fun id' ha => ?_
        obtain ⟨⟨due', ht'⟩, hf⟩ := h.armed id' i ha
        cases ht.symm.trans ht'
        exact hnot.elim hf fun hna => hna ha
      · exact h.unarm hw ht hdue ha
    · have hna : ∀ id, m.armed.lookup id ≠ some i := by
        intro id' ha
        obtain ⟨⟨due, ht'⟩, -⟩ := h.armed id' i ha
        cases ht.symm.trans ht'
        exact hsleep ⟨due, rfl⟩
      have he : Arms (m.apply i id e) :=
        h.apply (by rintro rfl; exact hsleep (next_unarm hn))
          (by rintro rfl; exact next_retryRead hn)
      exact he.goOn (next_ne_sleeping hn) (Nat.lt_of_lt_of_le (h.lt ht) (nextTask_le_apply e))
        (notArmed_apply e (h.lt ht) hna)

theorem arms_of_reachable {m : Manager} (h : dvr.Reachable m) : Arms m := by
  refine h.invariant ?_ fun m _ m' hm _ hs => hm.step hs
  exact ⟨fun _ _ => rfl, nofun, nofun, nofun, nofun, nofun⟩

/-! ### Superseded fires -/

structure Manager.Superseded (m : Manager) (i : Nat) : Prop where
  lt : i < m.nextTask
  notArmed : ∀ id, m.armed.lookup id ≠ some i
  notFired : i ∉ m.fired

theorem Manager.Superseded.step {m m' : Manager} {i : Nat} (h : m.Superseded i) {event : Event}
    (hs : m.step event = some m') : m'.Superseded i := by
  cases event with
  | tick elapsed => cases hs; exact ⟨h.lt, h.notArmed, h.notFired⟩
  | start id operation => cases hs; exact ⟨Nat.lt_succ_of_lt h.lt, h.notArmed, h.notFired⟩
  | step j a =>
    obtain ⟨id, w, e, w', ht, hn, rfl⟩ := step_cases hs
    refine ⟨Nat.lt_of_lt_of_le h.lt (nextTask_le_apply e), notArmed_apply e h.lt h.notArmed, ?_⟩
    cases e with
    | unarm =>
      obtain ⟨due, rfl⟩ := next_unarm hn
      obtain ⟨-, ⟨-, heq, -⟩ | ⟨-, ha, -⟩⟩ := next_sleeping hn
      · cases heq
      intro hi
      rcases List.mem_append.mp hi with hi | hi
      · exact h.notFired hi
      · rw [List.mem_singleton.mp hi] at h
        exact h.notArmed id ha
    | _ => exact h.notFired

/-- The task captures for the timer, or settles it afterwards: it holds the claim. -/
def Manager.Captures (m : Manager) (id : String) (i : Nat) : Prop :=
  ∃ w, m.tasks.lookup i = some ⟨id, w⟩ ∧ w.claims = true

/-- Whoever holds the claim on a timer holds it alone. -/
structure Claims (m : Manager) : Prop where
  unique : ∀ id i j, m.Captures id i → m.Captures id j → i = j
  firing : ∀ id i, m.Captures id i → id ∈ m.firing

theorem captures_goOn {m : Manager} {i j : Nat} {id id' : String} {w : Work}
    (h : (m.goOn i ⟨id, w⟩).Captures id' j) :
    (j = i ∧ id' = id ∧ w.claims = true) ∨ (j ≠ i ∧ m.Captures id' j) := by
  obtain ⟨w', ht, hw'⟩ := h
  simp only [Manager.goOn, lookup_insert_eq] at ht
  split at ht
  · next heq =>
    cases ht
    exact .inl ⟨heq, rfl, hw'⟩
  · next hne => exact .inr ⟨hne, w', ht, hw'⟩

theorem captures_apply {m : Manager} {i j : Nat} {id id' : String} {e : Effect}
    (h : (m.apply i id e).Captures id' j) : m.Captures id' j := by
  obtain ⟨w, ht, hw⟩ := h
  rcases tasks_apply ht with ht | ⟨due, rfl⟩
  · exact ⟨w, ht, hw⟩
  · cases hw

theorem firing_apply {m : Manager} {i : Nat} {id : String} {e : Effect} (hc : e ≠ .claim)
    (hr : e ≠ .release) : (m.apply i id e).firing = m.firing := by
  cases e with
  | claim => exact absurd rfl hc
  | release => exact absurd rfl hr
  | _ => rfl

theorem Claims.step {m m' : Manager} (h : Claims m) {event : Event}
    (hs : m.step event = some m') : Claims m' := by
  cases event with
  | tick elapsed => cases hs; exact ⟨h.unique, h.firing⟩
  | start id operation =>
    cases hs
    have hold : ∀ {id' j}, Manager.Captures (Manager.goOn { m with nextTask := m.nextTask + 1 }
        m.nextTask ⟨id, operation.work⟩) id' j → m.Captures id' j := by
      intro id' j hc
      rcases captures_goOn hc with ⟨-, -, hw⟩ | ⟨-, hc⟩
      · cases operation <;> cases hw
      · exact hc
    exact ⟨fun id i j hi hj => h.unique id i j (hold hi) (hold hj),
      fun id i hi => h.firing id i (hold hi)⟩
  | step i a =>
    obtain ⟨id, w, e, w', ht, hn, rfl⟩ := step_cases hs
    -- who holds a claim afterwards is the task that went on, or held it before
    have hold : ∀ {id' j}, ((m.apply i id e).goOn i ⟨id, w'⟩).Captures id' j →
        (j = i ∧ id' = id ∧ w'.claims = true) ∨ (j ≠ i ∧ m.Captures id' j) :=
      fun hc => (captures_goOn hc).imp_right fun hc => ⟨hc.1, captures_apply hc.2⟩
    rcases next_claims hn with ⟨rfl, hfree, -, hw'⟩ | ⟨rfl, hw, hw'⟩ | ⟨hc, hr, hw'⟩
    · refine ⟨fun id' j k hj hk => ?_, fun id' j hj => ?_⟩
      · rcases hold hj with ⟨hji, hjd, -⟩ | ⟨-, hj'⟩ <;>
          rcases hold hk with ⟨hki, hkd, -⟩ | ⟨-, hk'⟩
        · rw [hji, hki]
        · exact absurd (hjd ▸ h.firing id' k hk') hfree
        · exact absurd (hkd ▸ h.firing id' j hj') hfree
        · exact h.unique id' j k hj' hk'
      · rcases hold hj with ⟨-, hjd, -⟩ | ⟨-, hj'⟩
        · exact List.mem_append_right _ (List.mem_singleton.mpr hjd)
        · exact List.mem_append_left _ (h.firing id' j hj')
    · have hold' : ∀ {id' j}, ((m.apply i id .release).goOn i ⟨id, w'⟩).Captures id' j →
          j ≠ i ∧ m.Captures id' j := fun hc =>
        (hold hc).resolve_left fun hi => by rw [hw'] at hi; exact Bool.false_ne_true hi.2.2
      refine ⟨fun id' j k hj hk => h.unique id' j k (hold' hj).2 (hold' hk).2, fun id' j hj => ?_⟩
      obtain ⟨hji, hj'⟩ := hold' hj
      refine List.mem_filter.mpr ⟨h.firing id' j hj', decide_eq_true fun heq => ?_⟩
      exact hji (h.unique id' j i hj' ⟨w, heq ▸ ht, hw⟩)
    · have hold' : ∀ {id' j}, ((m.apply i id e).goOn i ⟨id, w'⟩).Captures id' j →
          m.Captures id' j := by
        intro id' j hj
        rcases hold hj with ⟨hji, hjd, hcl⟩ | ⟨-, hj'⟩
        · exact ⟨w, by rw [hji, hjd]; exact ht, hw' ▸ hcl⟩
        · exact hj'
      refine ⟨fun id' j k hj hk => h.unique id' j k (hold' hj) (hold' hk), fun id' j hj => ?_⟩
      have hf : ((m.apply i id e).goOn i ⟨id, w'⟩).firing = m.firing := firing_apply hc hr
      rw [hf]
      exact h.firing id' j (hold' hj)

theorem claims_of_reachable {m : Manager} (h : dvr.Reachable m) : Claims m := by
  refine h.invariant ?_ fun m _ m' hm _ hs => hm.step hs
  have hnone : ∀ id i, ¬ Manager.Captures {} id i := by
    rintro id i ⟨w, ht, -⟩
    cases ht
  exact ⟨fun id i _ hi => absurd hi (hnone id i), fun id i hi => absurd hi (hnone id i)⟩

end Ferrofin.Dvr
