import Ferrofin.Users.Manager

/-!
# The lockout

A login counts a failure on the count that it read under the lock of its user, and an account
that is disabled lets nobody in.  A login that finds, under the lock of one key, the user of
another, and a save of a whole row read earlier, write counts that others have moved on
(`failure_forgotten`).  Where a user that a login reads, or whose policy is saved, is not one that
a login has read under another lock, and a save carries the count and the threshold that are
stored (`Manager.serial`), the count is exact, the account is disabled when the count reaches the
threshold, and a login that starts later returns nobody (`lockout_holds`).
-/

namespace Ferrofin.Users

open Lib
open Lib.KeyedMap (lookup_erase_eq lookup_insert_eq lookup_mapValues)
open Option (getD_some map_eq_some_iff map_some)

def Work.entity : Work → Option UserEntity
  | .verifying _ user | .resolving _ user _ _ _ => user
  | .checking _ user _ | .permitting _ user _ => some user
  | .lockingOut _ user | .counting _ user | .succeeding _ user => some user
  | _ => none

def Work.subject : Work → Option Nat
  | .provisioning _ id _ | .refetching _ id => some id
  | work => work.entity.map UserEntity.id

def Work.passed : Work → Option Nat
  | .permitting _ user _ | .lockingOut _ user | .counting _ user | .succeeding _ user =>
    some user.id
  | .returned id => some id
  | _ => none

/-- The login has disabled the account, if that was to be. -/
def Work.counted : Work → Option UserEntity
  | .counting _ user => some user
  | _ => none

def Task.subject (task : Task) : Option Nat := task.work.subject

def Manager.foreign (m : Manager) (key : Option Nat) (id : Nat) : Bool :=
  (KeyedMap.values m.tasks).any fun task => task.subject == some id && task.held != some key

/-- What spares the count: a user that a login reads, or whose policy is saved, is not one that a
login has read under another lock, and a save carries the count and the threshold that are
stored. -/
def Manager.serial (m : Manager) : Event → Bool
  | .step i _ =>
    match (m.tasks.lookup i).map Task.work with
    | some (.rereading name key) | some (.resolving key none name false _) =>
      (m.byName name).all fun user => !m.foreign key user.id
    | some (.editing user) => (m.users.lookup user.id).all fun row =>
      row.invalidLoginAttemptCount == user.invalidLoginAttemptCount &&
        row.loginAttemptsBeforeLockout == user.loginAttemptsBeforeLockout
    | _ => true
  | .updatePolicyGuarded id _ => !m.foreign (some id) id
  | _ => true

def Row.agrees (row : Row) (user : UserEntity) : Prop :=
  row.invalidLoginAttemptCount = user.invalidLoginAttemptCount ∧
    row.loginAttemptsBeforeLockout = user.loginAttemptsBeforeLockout

/-- The login knows what is stored of the user it read. -/
structure Knows (users : KeyedMap Nat Row) (recorded : KeyedMap Nat Int) (user : UserEntity) :
    Prop where
  known : recorded.lookup user.id ≠ none
  agrees : ∀ row, users.lookup user.id = some row → row.agrees user

/-- Logins are one at a time for a user, know its count, disable before they count, and let in
nobody who was disabled when they started. -/
structure Serial (users : KeyedMap Nat Row) (recorded : KeyedMap Nat Int)
    (tasks : KeyedMap Nat Task) : Prop where
  exclusive : Exclusive Task.held tasks
  single : Exclusive Task.subject tasks
  counts : ∀ id row, users.lookup id = some row →
    recorded.lookup id = some row.invalidLoginAttemptCount
  holds : ∀ i task user, tasks.lookup i = some task → task.work.entity = some user →
    Knows users recorded user
  locked : ∀ i task user, tasks.lookup i = some task → task.work.counted = some user →
    user.lockedOut = true → ∀ row, users.lookup user.id = some row → row.isDisabled = true
  barred : ∀ i task id, tasks.lookup i = some task → id ∈ task.barred →
    ∃ row, users.lookup id = some row ∧ row.isDisabled = true
  passed : ∀ i task id, tasks.lookup i = some task → task.work.passed = some id →
    id ∉ task.barred

def Unread (id : Nat) (tasks : KeyedMap Nat Task) : Prop :=
  ∀ i task user, tasks.lookup i = some task → task.work.entity = some user → user.id ≠ id

theorem subject_of_entity {w : Work} {user : UserEntity} (h : w.entity = some user) :
    w.subject = some user.id := by
  cases w with
  | provisioning | refetching => cases h
  | _ => exact congrArg (Option.map UserEntity.id) h

theorem held_of_subject {w : Work} {id : Nat} (h : w.subject = some id) :
    ∃ key, w.held = some key := by
  cases w with
  | verifying key | resolving key | provisioning key | refetching key => exact ⟨key, rfl⟩
  | checking key | permitting key | lockingOut key | counting key | succeeding key =>
    exact ⟨key, rfl⟩
  | _ => cases h

theorem entity_of_counted {w : Work} {user : UserEntity} (h : w.counted = some user) :
    w.entity = some user := by
  cases w with
  | counting key user => cases h; rfl
  | _ => cases h

namespace Serial

variable {users : KeyedMap Nat Row} {recorded : KeyedMap Nat Int} {tasks : KeyedMap Nat Task}
  {i id : Nat} {task : Task} {row row' : Row}

theorem empty (hcounts : ∀ id row, users.lookup id = some row →
    recorded.lookup id = some row.invalidLoginAttemptCount) : Serial users recorded ∅ := by
  have hnone : ∀ {i task}, (∅ : KeyedMap Nat Task).lookup i ≠ some task := by
    intro i task ht
    cases ht
  exact ⟨.empty, .empty, hcounts, fun _ _ _ ht => absurd ht hnone, fun _ _ _ ht => absurd ht hnone,
    fun _ _ _ ht => absurd ht hnone, fun _ _ _ ht => absurd ht hnone⟩

theorem goOn (h : Serial users recorded tasks) (ht : tasks.lookup i = some task) {w : Work}
    (hexclusive : Exclusive Task.held (tasks.insert i ⟨w, task.barred⟩))
    (hsingle : Exclusive Task.subject (tasks.insert i ⟨w, task.barred⟩))
    (hholds : ∀ user, w.entity = some user → Knows users recorded user)
    (hlocked : ∀ user, w.counted = some user → user.lockedOut = true →
      ∀ row, users.lookup user.id = some row → row.isDisabled = true)
    (hpassed : ∀ id, w.passed = some id → id ∉ task.barred) :
    Serial users recorded (tasks.insert i ⟨w, task.barred⟩) where
  exclusive := hexclusive
  single := hsingle
  counts := h.counts
  holds j task' user hj he := by
    rw [lookup_insert_eq] at hj
    split at hj
    · cases hj
      exact hholds user he
    · exact h.holds j task' user hj he
  locked j task' user hj hc := by
    rw [lookup_insert_eq] at hj
    split at hj
    · cases hj
      exact hlocked user hc
    · exact h.locked j task' user hj hc
  barred j task' id' hj hb := by
    rw [lookup_insert_eq] at hj
    split at hj
    · cases hj
      exact h.barred i task id' ht hb
    · exact h.barred j task' id' hj hb
  passed j task' id' hj hp := by
    rw [lookup_insert_eq] at hj
    split at hj
    · cases hj
      exact hpassed id' hp
    · exact h.passed j task' id' hj hp

/-- A row is written: its count and threshold where nobody has read them, and it is enabled only
where nobody is barred for it. -/
theorem write (h : Serial users recorded tasks) (hrow : users.lookup id = some row)
    {recorded' : KeyedMap Nat Int}
    (hrec : recorded'.lookup id = some row'.invalidLoginAttemptCount)
    (hrec' : ∀ id', id' ≠ id → recorded'.lookup id' = recorded.lookup id')
    (hfree : Unread id tasks ∨
      (row'.invalidLoginAttemptCount = row.invalidLoginAttemptCount ∧
        row'.loginAttemptsBeforeLockout = row.loginAttemptsBeforeLockout ∧
        (row.isDisabled = true → row'.isDisabled = true)))
    (hbar : (∀ i task, tasks.lookup i = some task → id ∉ task.barred) ∨
      (row.isDisabled = true → row'.isDisabled = true)) :
    Serial (users.insert id row') recorded' tasks where
  exclusive := h.exclusive
  single := h.single
  counts id' r hr := by
    rw [lookup_insert_eq] at hr
    split at hr
    · next heq =>
      cases hr
      rw [heq]
      exact hrec
    · next hne =>
      rw [hrec' id' hne]
      exact h.counts id' r hr
  holds j task user hj he := by
    obtain ⟨hknown, hagrees⟩ := h.holds j task user hj he
    refine ⟨fun hnone => ?_, fun r hr => ?_⟩
    · by_cases hid : user.id = id
      · rw [hid, hrec] at hnone
        cases hnone
      · exact hknown ((hrec' _ hid).symm.trans hnone)
    rw [lookup_insert_eq] at hr
    split at hr
    · next heq =>
      cases hr
      rcases hfree with hu | ⟨hcount, hmax, -⟩
      · exact absurd heq (hu j task user hj he)
      · have ha := hagrees row (heq ▸ hrow)
        exact ⟨hcount.trans ha.1, hmax.trans ha.2⟩
    · exact hagrees r hr
  locked j task user hj hc hout r hr := by
    rw [lookup_insert_eq] at hr
    split at hr
    · next heq =>
      cases hr
      rcases hfree with hu | ⟨-, -, hdis⟩
      · exact absurd heq (hu j task user hj (entity_of_counted hc))
      · exact hdis (h.locked j task user hj hc hout row (heq ▸ hrow))
    · exact h.locked j task user hj hc hout r hr
  barred j task id' hj hb := by
    obtain ⟨r, hr, hd⟩ := h.barred j task id' hj hb
    rw [lookup_insert_eq]
    split
    · next heq =>
      subst heq
      cases hrow.symm.trans hr
      rcases hbar with hnone | hdis
      · exact absurd hb (hnone j task hj)
      · exact ⟨row', rfl, hdis hd⟩
    · exact ⟨r, hr, hd⟩
  passed := h.passed

theorem unbar (h : Serial users recorded tasks) (id : Nat) :
    Serial users recorded (KeyedMap.mapValues (fun _ task =>
      { task with barred := task.barred.filter (· ≠ id) }) tasks) := by
  have hmap : ∀ {j task}, (KeyedMap.mapValues (fun _ task =>
      { task with barred := task.barred.filter (· ≠ id) }) tasks).lookup j = some task →
      ∃ old, tasks.lookup j = some old ∧ task.work = old.work ∧
        ∀ id', id' ∈ task.barred → id' ∈ old.barred := by
    intro j task hj
    obtain ⟨old, hold, rfl⟩ := map_eq_some_iff.mp
      ((lookup_mapValues ..).symm.trans hj)
    exact ⟨old, hold, rfl, fun id' hb => (List.mem_filter.mp hb).1⟩
  refine ⟨fun j k a b ha hb key hka hkb => ?_, fun j k a b ha hb id' hia hib => ?_, h.counts,
    fun j task user hj he => ?_, fun j task user hj hc => ?_, fun j task id' hj hb => ?_,
    fun j task id' hj hp hb => ?_⟩
  · obtain ⟨a', ha', hwa, -⟩ := hmap ha
    obtain ⟨b', hb', hwb, -⟩ := hmap hb
    refine h.exclusive j k a' b' ha' hb' key ?_ ?_
    · rw [← hka, Task.held, Task.held, hwa]
    · rw [← hkb, Task.held, Task.held, hwb]
  · obtain ⟨a', ha', hwa, -⟩ := hmap ha
    obtain ⟨b', hb', hwb, -⟩ := hmap hb
    refine h.single j k a' b' ha' hb' id' ?_ ?_
    · rw [← hia, Task.subject, Task.subject, hwa]
    · rw [← hib, Task.subject, Task.subject, hwb]
  · obtain ⟨old, hold, hw, -⟩ := hmap hj
    exact h.holds j old user hold (hw ▸ he)
  · obtain ⟨old, hold, hw, -⟩ := hmap hj
    exact h.locked j old user hold (hw ▸ hc)
  · obtain ⟨old, hold, -, hsub⟩ := hmap hj
    exact h.barred j old id' hold (hsub id' hb)
  · obtain ⟨old, hold, hw, hsub⟩ := hmap hj
    exact h.passed j old id' hold (hw ▸ hp) (hsub id' hb)

theorem erase (h : Serial users recorded tasks)
    (hbar : ∀ i task, tasks.lookup i = some task → id ∉ task.barred) :
    Serial (users.erase id) recorded tasks := by
  have herase : ∀ {id' r}, (users.erase id).lookup id' = some r → users.lookup id' = some r := by
    intro id' r hr
    rw [lookup_erase_eq] at hr
    split at hr
    · cases hr
    · exact hr
  refine ⟨h.exclusive, h.single, fun id' r hr => h.counts id' r (herase hr),
    fun j task user hj he => ?_,
    fun j task user hj hc hout r hr => h.locked j task user hj hc hout r (herase hr),
    fun j task id' hj hb => ?_, h.passed⟩
  · obtain ⟨hknown, hagrees⟩ := h.holds j task user hj he
    exact ⟨hknown, fun r hr => hagrees r (herase hr)⟩
  · obtain ⟨r, hr, hd⟩ := h.barred j task id' hj hb
    refine ⟨r, ?_, hd⟩
    rw [lookup_erase_eq, if_neg ?_]
    · exact hr
    · rintro rfl
      exact hbar j task hj hb

theorem create (h : Serial users recorded tasks) (hnone : users.lookup id = none)
    (hnew : recorded.lookup id = none) {name : String} :
    Serial (users.insert id { username := name }) (recorded.insert id 0) tasks := by
  have hother : ∀ {id' r}, id' ≠ id → (users.insert id { username := name }).lookup id' = some r →
      users.lookup id' = some r := by
    intro id' r hne hr
    rw [lookup_insert_eq, if_neg hne] at hr
    exact hr
  have hknown : ∀ {j task user}, tasks.lookup j = some task →
      task.work.entity = some user → user.id ≠ id := by
    rintro j task user hj he rfl
    exact (h.holds j task user hj he).known hnew
  refine ⟨h.exclusive, h.single, fun id' r hr => ?_, fun j task user hj he => ?_,
    fun j task user hj hc hout r hr => ?_, fun j task id' hj hb => ?_, h.passed⟩
  · rw [lookup_insert_eq] at hr ⊢
    split at hr
    · next heq =>
      cases hr
      rw [if_pos heq]
    · next hne =>
      rw [if_neg hne]
      exact h.counts id' r hr
  · obtain ⟨hrec, hagrees⟩ := h.holds j task user hj he
    have hne := hknown hj he
    refine ⟨?_, fun r hr => hagrees r (hother hne hr)⟩
    rw [lookup_insert_eq, if_neg hne]
    exact hrec
  · have hne := hknown hj (entity_of_counted hc)
    exact h.locked j task user hj hc hout r (hother hne hr)
  · obtain ⟨r, hr, hd⟩ := h.barred j task id' hj hb
    refine ⟨r, ?_, hd⟩
    rw [lookup_insert_eq, if_neg ?_]
    · exact hr
    · rintro rfl
      cases hnone.symm.trans hr

theorem spawn (h : Serial users recorded tasks) {w : Work} {barred : List Nat}
    (hheld : w.held = none) (hpassed : w.passed = none)
    (hbarred : ∀ id ∈ barred, ∃ row, users.lookup id = some row ∧ row.isDisabled = true) :
    Serial users recorded (tasks.insert i ⟨w, barred⟩) := by
  have hsubject : ∀ id, w.subject ≠ some id := by
    intro id hs
    obtain ⟨key, hk⟩ := held_of_subject hs
    cases hheld.symm.trans hk
  refine ⟨h.exclusive.insert fun key hk => ?_, h.single.insert fun id hs => ?_, h.counts,
    fun j task user hj he => ?_, fun j task user hj hc => ?_, fun j task id' hj hb => ?_,
    fun j task id' hj hp => ?_⟩
  · cases hheld.symm.trans hk
  · exact absurd hs (hsubject id)
  all_goals
    rw [lookup_insert_eq] at hj
    split at hj
  · cases hj
    exact absurd (subject_of_entity he) (hsubject user.id)
  · exact h.holds j task user hj he
  · cases hj
    exact absurd (subject_of_entity (entity_of_counted hc)) (hsubject user.id)
  · exact h.locked j task user hj hc
  · cases hj
    exact hbarred id' hb
  · exact h.barred j task id' hj hb
  · cases hj
    cases hpassed.symm.trans hp
  · exact h.passed j task id' hj hp

/-- A task goes on without a lock, and without a user but one that it found enabled. -/
theorem leave (h : Serial users recorded tasks) (ht : tasks.lookup i = some task) {w : Work}
    (hheld : w.held = none) (hpassed : ∀ id, w.passed = some id → task.work.passed = some id) :
    Serial users recorded (tasks.insert i ⟨w, task.barred⟩) := by
  have hsubject : ∀ id, w.subject ≠ some id := by
    intro id hs
    obtain ⟨key, hk⟩ := held_of_subject hs
    cases hheld.symm.trans hk
  refine h.goOn ht (h.exclusive.insert fun key hk => ?_) (h.single.insert fun id hs => ?_)
    (fun user he => ?_) (fun user hc => ?_) (fun id hp => h.passed i task id ht (hpassed id hp))
  · cases hheld.symm.trans hk
  · exact absurd hs (hsubject id)
  · exact absurd (subject_of_entity he) (hsubject user.id)
  · exact absurd (subject_of_entity (entity_of_counted hc)) (hsubject user.id)

theorem unread (h : Serial users recorded tasks) (ht : tasks.lookup i = some task)
    (hsubject : task.work.subject = some id) {w : Work} {barred : List Nat}
    (hw : w.entity = none) : Unread id (tasks.insert i ⟨w, barred⟩) := by
  rintro j task' user hj he rfl
  rw [lookup_insert_eq] at hj
  split at hj
  · cases hj
    cases hw.symm.trans he
  · next hne => exact hne (h.single j i task' task hj ht user.id (subject_of_entity he) hsubject)

theorem keep (h : Serial users recorded tasks) (ht : tasks.lookup i = some task) {w : Work}
    (hheld : w.held = task.held) (hsubject : w.subject = task.work.subject)
    (hholds : ∀ user, w.entity = some user → Knows users recorded user)
    (hlocked : ∀ user, w.counted = some user → user.lockedOut = true →
      ∀ row, users.lookup user.id = some row → row.isDisabled = true)
    (hpassed : ∀ id, w.passed = some id → id ∉ task.barred) :
    Serial users recorded (tasks.insert i ⟨w, task.barred⟩) :=
  h.goOn ht (h.exclusive.update ht fun _ hk => hheld.symm.trans hk)
    (h.single.update ht fun _ hs => hsubject.symm.trans hs) hholds hlocked hpassed

theorem find (h : Serial users recorded tasks) (ht : tasks.lookup i = some task) {w : Work}
    {key : Option Nat} (hkey : task.held = some key) (hheld : w.held = some key)
    (hforeign : ∀ id, w.subject = some id → ∀ j other, tasks.lookup j = some other →
      other.subject = some id → other.held = some key)
    (hholds : ∀ user, w.entity = some user → Knows users recorded user)
    (hcounted : w.counted = none) (hpassed : w.passed = none) :
    Serial users recorded (tasks.insert i ⟨w, task.barred⟩) := by
  refine h.goOn ht (h.exclusive.update ht fun k hk => ?_)
    (h.single.insert fun id hs j other hj hj' => ?_)
    hholds (fun user hc => ?_) (fun id hp => ?_)
  · exact (hkey.trans hheld.symm).trans hk
  · exact h.exclusive j i other task hj ht key (hforeign id hs j other hj hj') hkey
  · cases hcounted.symm.trans hc
  · cases hpassed.symm.trans hp

theorem knows (h : Serial users recorded tasks) (hrow : users.lookup id = some row) :
    Knows users recorded (row.entity id) where
  known := by
    show recorded.lookup id ≠ none
    rw [h.counts id row hrow]
    exact nofun
  agrees r hr := by
    cases hrow.symm.trans hr
    exact ⟨rfl, rfl⟩

theorem rerecord (h : Serial users recorded tasks) (hnone : users.lookup id = none) (n : Int) :
    Serial users (recorded.insert id n) tasks where
  exclusive := h.exclusive
  single := h.single
  counts id' r hr := by
    rw [lookup_insert_eq, if_neg ?_]
    · exact h.counts id' r hr
    · rintro rfl
      cases hnone.symm.trans hr
  holds j task user hj he := by
    obtain ⟨hknown, hagrees⟩ := h.holds j task user hj he
    refine ⟨?_, hagrees⟩
    rw [lookup_insert_eq]
    split
    · exact nofun
    · exact hknown
  locked := h.locked
  barred := h.barred
  passed := h.passed

end Serial

/-! ### What a login reads -/

theorem byName_eq_some {m : Manager} {name : String} {user : UserEntity}
    (h : m.byName name = some user) :
    ∃ row, m.users.lookup user.id = some row ∧ user = row.entity user.id := by
  obtain ⟨⟨id, row⟩, hfind, rfl⟩ := map_eq_some_iff.mp h
  exact ⟨row, AList.mem_lookup_iff.mpr (List.mem_of_find?_eq_some hfind), rfl⟩

theorem fetch_eq_some {m : Manager} {id : Nat} {user : UserEntity} (h : m.fetch id = some user) :
    ∃ row, m.users.lookup id = some row ∧ user = row.entity id := by
  obtain ⟨row, hrow, rfl⟩ := map_eq_some_iff.mp h
  exact ⟨row, hrow, rfl⟩

theorem exists_disabled_of_mem {m : Manager} {id : Nat} (h : id ∈ m.disabledUsers) :
    ∃ row, m.users.lookup id = some row ∧ row.isDisabled = true := by
  obtain ⟨⟨id, row⟩, hmem, rfl⟩ := List.mem_map.mp h
  obtain ⟨hentry, hd⟩ := List.mem_filter.mp hmem
  exact ⟨row, AList.mem_lookup_iff.mpr hentry, hd⟩

theorem held_of_not_foreign {m : Manager} {key : Option Nat} {id j : Nat} {other : Task}
    (h : m.foreign key id = false) (hj : m.tasks.lookup j = some other)
    (hs : other.subject = some id) : other.held = some key := by
  have hno := List.any_eq_false.mp h other (KeyedMap.mem_values_of_lookup hj)
  simpa [hs] using hno

/-! ### What is written -/

namespace Serial

variable {m m' : Manager} {tasks : KeyedMap Nat Task} {i id : Nat} {task : Task}

theorem disable (h : Serial m.users m.recorded tasks) (id : Nat) :
    Serial (m.disable id).users (m.disable id).recorded tasks := by
  unfold Manager.disable
  split
  · next row hrow =>
    exact h.write hrow (h.counts id row hrow) (fun _ _ => rfl) (.inr ⟨rfl, rfl, fun _ => rfl⟩)
      (.inr fun _ => rfl)
  · exact h

theorem setCount (h : Serial m.users m.recorded tasks) (hu : Unread id tasks) {count n : Int}
    (hn : ∀ row, m.users.lookup id = some row → n = count) :
    Serial (m.setCount id count).users (m.recorded.insert id n) tasks := by
  unfold Manager.setCount
  split
  · next row hrow =>
    refine h.write hrow ?_ (fun id' hne => ?_) (.inl hu) (.inr fun hd => hd)
    · rw [lookup_insert_eq, if_pos rfl, hn row hrow]
    · rw [lookup_insert_eq, if_neg hne]
  · next hnone => exact h.rerecord hnone n

theorem updateUser (h : Serial m.users m.recorded tasks) {user : UserEntity}
    (hagrees : ∀ row, m.users.lookup user.id = some row → row.agrees user) :
    Serial (m.updateUser user).users (m.updateUser user).recorded tasks := by
  unfold Manager.updateUser
  split
  · next row hrow =>
    split
    · exact h
    · obtain ⟨hcount, hmax⟩ := hagrees row hrow
      refine h.write hrow ?_ (fun _ _ => rfl) (.inr ⟨hcount.symm, hmax.symm, fun hd => hd⟩)
        (.inr fun hd => hd)
      exact hcount ▸ h.counts user.id row hrow
  · exact h

theorem applyPolicy {policy : UserPolicy} {row : Row} (h : Serial m.users m.recorded m.tasks)
    (hrow : m.users.lookup id = some row) (hu : Unread id m.tasks) :
    Serial (m.applyPolicy id policy row).users (m.applyPolicy id policy row).recorded
      (m.applyPolicy id policy row).tasks := by
  have hself : (m.recorded.insert id policy.invalidLoginAttemptCount).lookup id =
      some policy.invalidLoginAttemptCount := by
    rw [lookup_insert_eq, if_pos rfl]
  have hother : ∀ id', id' ≠ id →
      (m.recorded.insert id policy.invalidLoginAttemptCount).lookup id' =
        m.recorded.lookup id' := by
    intro id' hne
    rw [lookup_insert_eq, if_neg hne]
  unfold Manager.applyPolicy
  dsimp only
  split
  · next hd => exact h.write hrow hself hother (.inl hu) (.inr fun _ => hd)
  · refine (h.unbar id).write hrow hself hother (.inl ?_) (.inl ?_)
    · intro j task user hj he
      obtain ⟨old, hold, rfl⟩ := map_eq_some_iff.mp
        ((lookup_mapValues ..).symm.trans hj)
      exact hu j old user hold he
    · intro j task hj
      obtain ⟨old, hold, rfl⟩ := map_eq_some_iff.mp
        ((lookup_mapValues ..).symm.trans hj)
      simp

theorem savePolicy {policy : UserPolicy} {guarded : Bool} (h : Serial m.users m.recorded m.tasks)
    (hu : Unread id m.tasks) (hs : m.savePolicy id policy guarded = some m') :
    Serial m'.users m'.recorded m'.tasks := by
  unfold Manager.savePolicy at hs
  split at hs
  · cases hs
    split
    · next row hrow =>
      split
      · exact h
      · exact h.applyPolicy hrow hu
    · exact h
  · cases hs

theorem deleteUser (h : Serial m.users m.recorded m.tasks) (id : Nat) :
    Serial (m.deleteUser id).users (m.deleteUser id).recorded (m.deleteUser id).tasks := by
  unfold Manager.deleteUser
  split
  · split
    · exact h
    · split
      · exact h
      · refine (h.unbar id).erase fun j task hj => ?_
        obtain ⟨old, hold, rfl⟩ := map_eq_some_iff.mp
          ((lookup_mapValues ..).symm.trans hj)
        simp
  · exact h

theorem work_savePolicy {policy : UserPolicy} {guarded : Bool} (ht : m.tasks.lookup i = some task)
    (hs : m.savePolicy id policy guarded = some m') :
    ∃ task', m'.tasks.lookup i = some task' ∧ task'.work = task.work := by
  have hunbar : ∀ s : Manager, s.tasks.lookup i = some task →
      ∃ task', (s.unbar id).tasks.lookup i = some task' ∧ task'.work = task.work := fun s hst =>
    ⟨_, (lookup_mapValues ..).trans (congrArg (Option.map _) hst), rfl⟩
  unfold Manager.savePolicy at hs
  split at hs
  · cases hs
    split
    · next row hrow =>
      split
      · exact ⟨task, ht, rfl⟩
      · unfold Manager.applyPolicy
        dsimp only
        split
        · exact ⟨task, ht, rfl⟩
        · exact hunbar _ ht
    · exact ⟨task, ht, rfl⟩
  · cases hs

def Resumes (m : Manager) (i : Nat) (w : Work) : Prop :=
  ∃ task, m.tasks.lookup i = some task ∧
    Serial m.users m.recorded (m.tasks.insert i ⟨w, task.barred⟩)

theorem next_rereading {name : String} {key : Option Nat}
    (h : Serial m.users m.recorded m.tasks) (ht : m.tasks.lookup i = some task)
    (hw : task.work = .rereading name key)
    (hforeign : ∀ user, m.byName name = some user → m.foreign key user.id = false) :
    Resumes m i (.verifying key (m.byName name)) := by
  refine ⟨task, ht, h.find ht (congrArg Work.held hw) rfl (fun id hs j other hj hs' => ?_)
    (fun user he => ?_) rfl rfl⟩
  · obtain ⟨user, hread, rfl⟩ := map_eq_some_iff.mp hs
    exact held_of_not_foreign (hforeign user hread) hj hs'
  · obtain ⟨row, hrow, heq⟩ := byName_eq_some he
    exact heq ▸ h.knows hrow

theorem next_fetch {w : Work} {key : Option Nat} (h : Serial m.users m.recorded m.tasks)
    (ht : m.tasks.lookup i = some task) (hheld : task.work.held = some key)
    (hsubject : task.work.subject = some id)
    (hn : (match m.fetch id with
      | some user => .checking key user true
      | none => .over) = w) : Resumes m i w := by
  subst hn
  split
  · next user hfetch =>
    obtain ⟨row, hrow, rfl⟩ := fetch_eq_some hfetch
    refine ⟨task, ht, h.keep ht hheld.symm hsubject.symm ?_ nofun nofun⟩
    rintro _ ⟨⟩
    exact h.knows hrow
  · exact ⟨task, ht, h.leave ht rfl nofun⟩

theorem next_found {name : String} {key : Option Nat} {user : UserEntity}
    (newUserPolicy : Option UserPolicy)
    (h : Serial m.users m.recorded m.tasks) (ht : m.tasks.lookup i = some task)
    (hheld : task.work.held = some key) (hread : m.byName name = some user)
    (hforeign : m.foreign key user.id = false) :
    Resumes m i (match newUserPolicy with
      | some policy => .provisioning key user.id policy
      | none => .checking key user true) := by
  obtain ⟨row, hrow, heq⟩ := byName_eq_some hread
  cases newUserPolicy with
  | some policy =>
    refine ⟨task, ht, h.find ht hheld rfl (fun id hs j other hj hs' => ?_) nofun rfl rfl⟩
    cases hs
    exact held_of_not_foreign hforeign hj hs'
  | none =>
    refine ⟨task, ht, h.find ht hheld rfl (fun id hs j other hj hs' => ?_) ?_ rfl rfl⟩
    · cases hs
      exact held_of_not_foreign hforeign hj hs'
    · rintro _ ⟨⟩
      exact heq ▸ h.knows hrow

theorem next_provisioning {key : Option Nat} {policy : UserPolicy} {w : Work}
    (h : Serial m.users m.recorded m.tasks) (ht : m.tasks.lookup i = some task)
    (hw : task.work = .provisioning key id policy)
    (hn : w = .refetching key id ∨ w = .over)
    (hsave : m.savePolicy id policy false = some m') : Resumes m' i w := by
  -- nobody else is about the user, and this task has not read it
  have hu : Unread id m.tasks := by
    rintro j other user hj he rfl
    cases h.single j i other task hj ht user.id (subject_of_entity he) (congrArg Work.subject hw)
    cases hj.symm.trans ht
    rw [hw] at he
    cases he
  obtain ⟨task', ht', hw'⟩ := work_savePolicy ht hsave
  have h' := h.savePolicy hu hsave
  refine ⟨task', ht', ?_⟩
  rcases hn with rfl | rfl
  · refine h'.keep ht' ?_ ?_ nofun nofun nofun
    · rw [Task.held, hw', hw]
      rfl
    · rw [hw', hw]
      rfl
  · exact h'.leave ht' rfl nofun

theorem next_checking {key : Option Nat} {user : UserEntity} {success : Bool}
    (h : Serial m.users m.recorded m.tasks) (ht : m.tasks.lookup i = some task)
    (hw : task.work = .checking key user success) :
    Resumes m i (if m.isDisabled user.id then .over else .permitting key user success) := by
  split
  · exact ⟨task, ht, h.leave ht rfl nofun⟩
  · next henabled =>
    refine ⟨task, ht, h.keep ht (congrArg Work.held hw).symm (congrArg Work.subject hw).symm
      (fun user' he => h.holds i task user' ht (hw ▸ he)) nofun ?_⟩
    rintro _ ⟨⟩ hb
    obtain ⟨row, hrow, hd⟩ := h.barred i task _ ht hb
    exact henabled (by simp [Manager.isDisabled, hrow, hd])

theorem next_permitting {key : Option Nat} {user : UserEntity} {success : Bool} {w : Work}
    (h : Serial m.users m.recorded m.tasks) (ht : m.tasks.lookup i = some task)
    (hw : task.work = .permitting key user success) (hheld : w.held = some key)
    (hentity : w.entity = some user) (hpassed : w.passed = some user.id)
    (hcounted : w.counted = none ∨ user.lockedOut = false) : Resumes m i w := by
  refine ⟨task, ht, h.keep ht (hheld.trans (congrArg Work.held hw).symm)
    ((subject_of_entity hentity).trans (congrArg Work.subject hw).symm) (fun user' he => ?_)
    (fun user' hc hout => ?_) (fun id' hp => ?_)⟩
  · cases hentity.symm.trans he
    exact h.holds i task user ht (hw ▸ rfl)
  · cases hentity.symm.trans (entity_of_counted hc)
    rcases hcounted with hnone | hin
    · cases hnone.symm.trans hc
    · cases hin.symm.trans hout
  · cases hpassed.symm.trans hp
    exact h.passed i task user.id ht (hw ▸ rfl)

theorem next_lockingOut {key : Option Nat} {user : UserEntity}
    (h : Serial m.users m.recorded m.tasks) (ht : m.tasks.lookup i = some task)
    (hw : task.work = .lockingOut key user) :
    Resumes (m.disable user.id) i (.counting key user) := by
  have htasks : (m.disable user.id).tasks = m.tasks := by
    unfold Manager.disable
    split <;> rfl
  rw [Resumes, htasks]
  refine ⟨task, ht, (h.disable user.id).keep ht (congrArg Work.held hw).symm
    (congrArg Work.subject hw).symm (fun user' he => ?_) (fun user' hc _ row hrow => ?_)
    (fun id' hp => h.passed i task id' ht (hw ▸ hp))⟩
  · exact (h.disable user.id).holds i task user' ht (hw ▸ he)
  · cases hc
    unfold Manager.disable at hrow
    split at hrow
    · have hr := hrow
      rw [Manager.write, lookup_insert_eq, if_pos rfl] at hr
      cases hr
      rfl
    · next hnone => cases hnone.symm.trans hrow

theorem next_recording {user : UserEntity} {w : Work} {count n : Int}
    (h : Serial m.users m.recorded m.tasks) (ht : m.tasks.lookup i = some task)
    (hentity : task.work.entity = some user) (hheld : w.held = none) (hw : w.entity = none)
    (hpassed : ∀ id, w.passed = some id → task.work.passed = some id)
    (hn : ∀ row, m.users.lookup user.id = some row → n = count) :
    Resumes ((m.setCount user.id count).record user.id n) i w := by
  have htasks : (m.setCount user.id count).tasks = m.tasks := by
    unfold Manager.setCount
    split <;> rfl
  have hrec : (m.setCount user.id count).recorded = m.recorded := by
    unfold Manager.setCount
    split <;> rfl
  refine ⟨task, htasks ▸ ht, ?_⟩
  simp only [Manager.record, htasks, hrec]
  exact (h.leave ht hheld hpassed).setCount (h.unread ht (subject_of_entity hentity) hw) hn

theorem next_editing {user : UserEntity} (h : Serial m.users m.recorded m.tasks)
    (ht : m.tasks.lookup i = some task)
    (hagrees : ∀ row, m.users.lookup user.id = some row → row.agrees user) :
    Resumes (m.updateUser user) i .over := by
  have htasks : (m.updateUser user).tasks = m.tasks := by
    unfold Manager.updateUser
    split
    · split <;> rfl
    · rfl
  rw [Resumes, htasks]
  exact ⟨task, ht, (h.leave (w := .over) ht rfl nofun).updateUser hagrees⟩

theorem next {answer : Answer} {w' : Work} (h : Serial m.users m.recorded m.tasks)
    (ht : m.tasks.lookup i = some task) (hset : m.serial (.step i answer) = true)
    (hn : task.work.next m answer = some (m', w')) : Resumes m' i w' := by
  have hholds := fun user => h.holds i task user ht
  have hover : Resumes m i .over := ⟨task, ht, h.leave ht rfl nofun⟩
  simp only [Manager.serial, ht, map_some] at hset
  obtain ⟨w, hw⟩ : ∃ w, task.work = w := ⟨_, rfl⟩
  have hheld := congrArg Work.held hw
  have hsubject := congrArg Work.subject hw
  rw [hw] at hset hn hholds
  cases w with
  | reading name =>
    cases answer <;> cases hn
    exact ⟨task, ht, h.leave ht rfl nofun⟩
  | locking name key =>
    cases answer with
    | nothing =>
      simp only [Work.next] at hn
      split at hn <;> cases hn
      next hfree =>
      refine ⟨task, ht, h.goOn ht (h.exclusive.take rfl hfree) ?_ nofun nofun nofun⟩
      exact h.single.insert fun id hs => by cases hs
    | _ => cases hn
  | rereading name key =>
    cases answer <;> cases hn
    exact h.next_rereading ht hw fun user hread => by simpa [hread] using hset
  | verifying key user =>
    cases answer with
    | error => cases hn; exact hover
    | rejected =>
      cases user <;> cases hn
      · exact hover
      · exact ⟨task, ht, h.keep ht hheld.symm hsubject.symm hholds nofun nofun⟩
    | accepted =>
      cases hn
      exact ⟨task, ht, h.keep ht hheld.symm hsubject.symm hholds nofun nofun⟩
    | _ => cases hn
  | resolving key user name isDefault newUserPolicy =>
    cases answer with
    | nothing =>
      cases user with
      | some user =>
        cases hn
        exact h.next_fetch ht hheld hsubject rfl
      | none =>
        cases isDefault with
        | true => cases hn; exact hover
        | false =>
          simp only [Work.next, Bool.false_eq_true, if_false, Option.some.injEq,
            Prod.mk.injEq] at hn
          obtain ⟨rfl, rfl⟩ := hn
          cases hread : m.byName name with
          | none => exact hover
          | some user =>
            have hfound := next_found newUserPolicy h ht hheld hread (by simpa [hread] using hset)
            cases newUserPolicy <;> exact hfound
    | _ => cases hn
  | provisioning key id policy =>
    cases answer with
    | nothing =>
      obtain ⟨m'', hsave, heq⟩ := map_eq_some_iff.mp hn
      cases heq
      refine h.next_provisioning ht hw ?_ hsave
      split
      · exact .inl rfl
      · exact .inr rfl
    | _ => cases hn
  | refetching key id =>
    cases answer <;> cases hn
    exact h.next_fetch ht hheld hsubject rfl
  | checking key user success =>
    cases answer <;> cases hn
    exact h.next_checking ht hw
  | permitting key user success =>
    cases answer with
    | allowed =>
      cases hn
      split
      · exact h.next_permitting ht hw rfl rfl rfl (.inl rfl)
      · split
        · exact h.next_permitting ht hw rfl rfl rfl (.inl rfl)
        · next hout => exact h.next_permitting ht hw rfl rfl rfl (.inr (by simpa using hout))
    | refused => cases hn; exact hover
    | _ => cases hn
  | lockingOut key user =>
    cases answer <;> cases hn
    exact h.next_lockingOut ht hw
  | counting key user =>
    cases answer <;> cases hn
    refine h.next_recording ht (congrArg Work.entity hw) rfl rfl nofun fun row hrow => ?_
    rw [UserEntity.attempts, ← ((hholds user rfl).agrees row hrow).1, Manager.recordedOf,
      h.counts user.id row hrow, getD_some]
  | succeeding key user =>
    cases answer <;> cases hn
    exact h.next_recording ht (congrArg Work.entity hw) rfl rfl
      (fun id hp => (congrArg Work.passed hw).trans hp) fun _ _ => rfl
  | editing user =>
    cases answer with
    | save name password =>
      cases hn
      refine h.next_editing ht fun row hrow => ?_
      replace hrow : m.users.lookup user.id = some row := hrow
      have hagrees : row.agrees user := by simpa [Row.agrees, hrow] using hset
      exact hagrees
    | _ => cases hn
  | _ => cases answer <;> cases hn

end Serial

theorem Serial.step {m m' : Manager} {event : Event} (h : Serial m.users m.recorded m.tasks)
    (hset : m.serial event = true) (hs : m.step event = some m') :
    Serial m'.users m'.recorded m'.tasks := by
  cases event with
  | login i name =>
    simp only [Manager.step] at hs
    split at hs <;> cases hs
    exact h.spawn rfl rfl fun id hid => exists_disabled_of_mem hid
  | edit i id =>
    simp only [Manager.step] at hs
    split at hs
    · cases hs
    · obtain ⟨user, -, rfl⟩ := map_eq_some_iff.mp hs
      exact h.spawn rfl rfl nofun
  | step i answer =>
    obtain ⟨task, ht, hs⟩ := Option.bind_eq_some_iff.mp hs
    obtain ⟨⟨m'', w'⟩, hn, rfl⟩ := map_eq_some_iff.mp hs
    obtain ⟨task', ht', h'⟩ := h.next ht hset hn
    simpa only [Manager.goOn, ht', map_some, getD_some] using h'
  | createUser id name =>
    simp only [Manager.step, Bool.or_eq_true, Option.isSome_iff_ne_none] at hs
    split at hs
    · cases hs
    · next hnew =>
      cases hs
      obtain ⟨hnone, hrec⟩ := not_or.mp hnew
      unfold Manager.createUser
      split
      · exact h
      · exact h.create (by simpa using hnone) (by simpa using hrec)
  | deleteUser id =>
    cases hs
    exact h.deleteUser id
  | updatePolicyGuarded id policy =>
    have hsave : m.savePolicy id policy true = some m' := hs
    have hforeign : m.foreign (some id) id = false := by simpa [Manager.serial] using hset
    refine h.savePolicy ?_ hsave
    rintro j task user hj he rfl
    unfold Manager.savePolicy at hsave
    split at hsave
    · next hfree =>
      exact lock_ne_of_lockFree hfree hj (held_of_not_foreign hforeign hj (subject_of_entity he))
    · cases hsave
  | changePassword id password =>
    simp only [Manager.step, Manager.changePassword] at hs
    split at hs
    · cases hs
      split
      · next row hrow =>
        split
        · exact h
        · exact h.write hrow (h.counts id row hrow) (fun _ _ => rfl)
            (.inr ⟨rfl, rfl, fun hd => hd⟩) (.inr fun hd => hd)
      · exact h
    · cases hs

/-- The failures that the database has are the recorded ones. -/
def Manager.Counts (m : Manager) : Prop :=
  ∀ id row, m.users.lookup id = some row →
    m.recorded.lookup id = some row.invalidLoginAttemptCount

theorem Serial.disabled {m m' : Manager} {i : Nat} {task : Task} {key : Option Nat}
    {user : UserEntity} {row : Row} (h : Serial m.users m.recorded m.tasks)
    (ht : m.tasks.lookup i = some task) (hw : task.work = .counting key user)
    (hs : m.step (.step i .nothing) = some m') (hrow : m'.users.lookup user.id = some row)
    (hreached : row.loginAttemptsBeforeLockout.any (· ≤ row.invalidLoginAttemptCount) = true) :
    row.isDisabled = true := by
  simp only [Manager.step, ht, Option.bind_some, hw, Work.next, map_some] at hs
  cases hs
  simp only [Manager.goOn, Manager.record, Manager.setCount] at hrow
  split at hrow
  · next old hold =>
    rw [Manager.write, lookup_insert_eq, if_pos rfl] at hrow
    cases hrow
    refine h.locked i task user ht (hw ▸ rfl) ?_ old hold
    rw [UserEntity.lockedOut, ← ((h.holds i task user ht (hw ▸ rfl)).agrees old hold).2]
    exact hreached
  · next hnone => cases hnone.symm.trans hrow

/-- **Where no login reads a user that another one has read under another lock, no policy is saved
meanwhile, and saves carry the stored count and threshold, the stored count is that of the
recorded failures, the login that makes it reach the threshold disables the user, and no login
returns a user that was disabled when it started and not enabled since.** -/
theorem lockout_holds {m₀ m : Manager} (htasks : m₀.tasks = ∅) (hcounts : m₀.Counts)
    (hp : users.Path (fun m event => m.serial event = true) m₀ m) :
    (∀ id row, m.users.lookup id = some row → row.invalidLoginAttemptCount = m.recordedOf id) ∧
    (∀ i task key user m' row, m.tasks.lookup i = some task → task.work = .counting key user →
      m.step (.step i .nothing) = some m' → m'.users.lookup user.id = some row →
      row.loginAttemptsBeforeLockout.any (· ≤ row.invalidLoginAttemptCount) = true →
      row.isDisabled = true) ∧
    ∀ i task id, m.tasks.lookup i = some task → task.work = .returned id → id ∉ task.barred := by
  have h0 : Serial m₀.users m₀.recorded m₀.tasks := by
    rw [htasks]
    exact .empty hcounts
  have h := Machine.Path.invariant (I := fun s : Manager => Serial s.users s.recorded s.tasks) hp h0
    fun _ _ _ hm hset hs => hm.step hset hs
  refine ⟨fun id row hrow => ?_, fun i task key user m' row ht hw => h.disabled ht hw,
    fun i task id ht hw => h.passed i task id ht (hw ▸ rfl)⟩
  rw [Manager.recordedOf, h.counts id row hrow, getD_some]

/-- A database of the examples: two failed logins lock the user out. -/
def anne : Manager :=
  { users := AList.insert 0 { username := "ANNE", loginAttemptsBeforeLockout := some 2 } ∅
    recorded := AList.insert 0 0 ∅ }

theorem anne_counts : anne.Counts := by
  intro id row hrow
  simp only [anne, lookup_insert_eq] at hrow ⊢
  split at hrow
  · next heq =>
    cases hrow
    rw [if_pos heq]
  · cases hrow

/-- Two failed logins at once, and a third that waits for the second to disable the account. -/
theorem lockout_holds_anne : ∃ m, users.Path (fun m event => m.serial event = true) anne m ∧
    m.isDisabled 0 = true ∧ m.recordedOf 0 = 2 ∧
    ∀ id row, m.users.lookup id = some row → row.invalidLoginAttemptCount = m.recordedOf id := by
  obtain ⟨m, hm, hd, hr⟩ : ∃ m, users.runWhile (fun m event => m.serial event = true) anne
      [.login 0 "ANNE", .login 1 "ANNE", .step 0 .nothing, .step 1 .nothing, .step 1 .nothing,
        .step 1 .nothing, .step 1 .rejected, .step 1 .nothing, .step 1 .allowed, .step 1 .nothing,
        .step 0 .nothing, .step 0 .nothing, .login 2 "ANNE", .step 2 .nothing, .step 0 .rejected,
        .step 0 .nothing, .step 0 .allowed, .step 0 .nothing, .step 0 .nothing, .step 2 .nothing,
        .step 2 .nothing, .step 2 (.accepted "ANNE" true none), .step 2 .nothing,
        .step 2 .nothing] = some m ∧ m.isDisabled 0 = true ∧ m.recordedOf 0 = 2 :=
      Lib.exists_of_decide (by decide +kernel)
  have hp := Machine.path_of_runWhile _ hm
  exact ⟨m, hp, hd, hr, (lockout_holds rfl anne_counts hp).1⟩

/-- **A save may forget a failure**: a caller of `update_user` reads the user, a login fails, and
the save writes the count back that the caller read. -/
theorem failure_forgotten : ¬ ∀ m₀ m : Manager, m₀.tasks = ∅ → m₀.Counts →
    users.Path (fun _ _ => True) m₀ m →
    ∀ id row, m.users.lookup id = some row → row.invalidLoginAttemptCount = m.recordedOf id := by
  intro hall
  obtain ⟨m, hm, hrec, hrow⟩ : ∃ m, users.run anne
      [.edit 0 0, .login 1 "ANNE", .step 1 .nothing, .step 1 .nothing, .step 1 .nothing,
        .step 1 .rejected, .step 1 .nothing, .step 1 .allowed, .step 1 .nothing,
        .step 0 (.save "ANNA" none)] = some m ∧ m.recordedOf 0 = 1 ∧
      (m.users.lookup 0).map Row.invalidLoginAttemptCount = some 0 :=
      Lib.exists_of_decide (by decide +kernel)
  obtain ⟨row, hlookup, hcount⟩ := map_eq_some_iff.mp hrow
  have hexact := hall anne m rfl anne_counts (Machine.path_of_runWhile _ hm) 0 row hlookup
  rw [hcount, hrec] at hexact
  cases hexact

end Ferrofin.Users
