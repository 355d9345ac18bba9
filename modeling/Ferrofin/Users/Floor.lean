import Ferrofin.Users.Manager

/-!
# The administration floor

Deleting a user and saving a policy leave an administrator, and a guarded policy save leaves an
enabled user.  Deleting the last enabled user is not refused, a lockout disables whoever it is
(`locked_out_alone`), and the policy for new users is saved without the guard.  Where these do not
take the last enabled user or an administrator the guard would keep (`Manager.spares`), there is
always an administrator and an enabled user (`floors_kept`).
-/

namespace Ferrofin.Users

open Lib

structure Floors (users : KeyedMap Nat Row) : Prop where
  admin : ∃ id row, users.lookup id = some row ∧ row.isAdministrator = true
  enabled : ∃ id row, users.lookup id = some row ∧ row.isDisabled = false

namespace Manager

variable (m : Manager)

def keepsEnabled (id : Nat) : Bool :=
  m.isDisabled id || (KeyedMap.values (m.users.erase id)).any (!·.isDisabled)

/-- `delete_user` refuses: there is no such user, no other one, or no other administrator. -/
def refusesDeletion (id : Nat) : Bool :=
  m.userCount == 1 ||
    (m.users.lookup id).all fun row => row.isAdministrator && m.adminCount == 1

/-- What spares the floors: a user that is deleted or locked out is not the last enabled one, and
the policy for new users would pass the guard. -/
def spares : Event → Bool
  | .deleteUser id => m.refusesDeletion id || m.keepsEnabled id
  | .step i _ =>
    match (m.tasks.lookup i).map Task.work with
    | some (.lockingOut _ user) => m.keepsEnabled user.id
    | some (.provisioning _ id policy) =>
      (m.users.lookup id).all fun row => (m.refusal policy row).isNone
    | _ => true
  | _ => true

end Manager

/-- Where one of the rows that count has the property, there is another if there is not just
one. -/
theorem exists_other {p : Row → Bool} {users : KeyedMap Nat Row} {id : Nat} {row : Row}
    (hrow : users.lookup id = some row) (hp : p row = true)
    (hcount : (KeyedMap.values users).countP p ≠ 1) :
    ∃ id' row', id' ≠ id ∧ users.lookup id' = some row' ∧ p row' = true := by
  rw [(KeyedMap.perm_values_of_lookup hrow).countP_eq, List.countP_cons_of_pos hp] at hcount
  have hpos : 0 < (KeyedMap.values (users.erase id)).countP p := by omega
  obtain ⟨row', hmem, hp'⟩ := List.countP_pos_iff.mp hpos
  obtain ⟨id', hrow'⟩ := KeyedMap.exists_lookup_of_mem_values hmem
  rw [KeyedMap.lookup_erase_eq] at hrow'
  split at hrow'
  · cases hrow'
  · next hne => exact ⟨id', row', hne, hrow', hp'⟩

namespace Floors

variable {users : KeyedMap Nat Row} {id : Nat} {row row' : Row}

/-- A row that is written anew with an administrator and an enabled user somewhere. -/
theorem insert
    (hadmin : row'.isAdministrator = true ∨
      ∃ id' r, id' ≠ id ∧ users.lookup id' = some r ∧ r.isAdministrator = true)
    (henabled : row'.isDisabled = false ∨
      ∃ id' r, id' ≠ id ∧ users.lookup id' = some r ∧ r.isDisabled = false) :
    Floors (users.insert id row') := by
  have hself : (users.insert id row').lookup id = some row' := by
    rw [KeyedMap.lookup_insert_eq, if_pos rfl]
  have hother : ∀ {id'}, id' ≠ id → (users.insert id row').lookup id' = users.lookup id' := by
    intro id' hne
    rw [KeyedMap.lookup_insert_eq, if_neg hne]
  constructor
  · rcases hadmin with ha | ⟨id', r, hne, hr, ha⟩
    · exact ⟨id, row', hself, ha⟩
    · exact ⟨id', r, (hother hne).trans hr, ha⟩
  · rcases henabled with he | ⟨id', r, hne, hr, he⟩
    · exact ⟨id, row', hself, he⟩
    · exact ⟨id', r, (hother hne).trans hr, he⟩

theorem admin_or (h : Floors users) (hrow : users.lookup id = some row) :
    row.isAdministrator = true ∨
      ∃ id' r, id' ≠ id ∧ users.lookup id' = some r ∧ r.isAdministrator = true := by
  obtain ⟨id', r, hr, ha⟩ := h.admin
  by_cases hid : id' = id
  · subst hid
    cases hrow.symm.trans hr
    exact .inl ha
  · exact .inr ⟨id', r, hid, hr, ha⟩

theorem enabled_or (h : Floors users) (hrow : users.lookup id = some row) :
    row.isDisabled = false ∨
      ∃ id' r, id' ≠ id ∧ users.lookup id' = some r ∧ r.isDisabled = false := by
  obtain ⟨id', r, hr, he⟩ := h.enabled
  by_cases hid : id' = id
  · subst hid
    cases hrow.symm.trans hr
    exact .inl he
  · exact .inr ⟨id', r, hid, hr, he⟩

theorem insert_same (h : Floors users) (hrow : users.lookup id = some row)
    (hadmin : row'.isAdministrator = row.isAdministrator)
    (hdisabled : row'.isDisabled = row.isDisabled) : Floors (users.insert id row') := by
  apply insert
  · rw [hadmin]
    exact h.admin_or hrow
  · rw [hdisabled]
    exact h.enabled_or hrow

theorem insert_new (h : Floors users) (hnone : users.lookup id = none) :
    Floors (users.insert id row') := by
  have hne : ∀ {id' r}, users.lookup id' = some r → id' ≠ id := by
    rintro id' r hr rfl
    cases hnone.symm.trans hr
  obtain ⟨i, r, hr, ha⟩ := h.admin
  obtain ⟨j, s, hs, he⟩ := h.enabled
  exact insert (.inr ⟨i, r, hne hr, hr, ha⟩) (.inr ⟨j, s, hne hs, hs, he⟩)

end Floors

namespace Manager

variable {m m' : Manager} {id : Nat} {row : Row}

theorem exists_of_keepsEnabled (h : m.keepsEnabled id = true) (hrow : m.users.lookup id = some row)
    (hen : row.isDisabled = false) :
    ∃ id' r, id' ≠ id ∧ m.users.lookup id' = some r ∧ r.isDisabled = false := by
  simp only [keepsEnabled, isDisabled, hrow, Option.any_some, hen, Bool.false_or,
    List.any_eq_true, Bool.not_eq_true'] at h
  obtain ⟨r, hmem, hr⟩ := h
  obtain ⟨id', hr'⟩ := KeyedMap.exists_lookup_of_mem_values hmem
  rw [KeyedMap.lookup_erase_eq] at hr'
  split at hr'
  · cases hr'
  · next hne => exact ⟨id', r, hne, hr', hr⟩

theorem floors_disable (h : Floors m.users) (hk : m.keepsEnabled id = true) :
    Floors (m.disable id).users := by
  unfold disable
  split
  · next row hrow =>
    have hadmin := h.admin_or hrow
    refine Floors.insert hadmin ?_
    rcases h.enabled_or hrow with hen | hother
    · exact .inr (exists_of_keepsEnabled hk hrow hen)
    · exact .inr hother
  · exact h

theorem floors_setCount (h : Floors m.users) (count : Int) :
    Floors (m.setCount id count).users := by
  unfold setCount
  split
  · next row hrow => exact h.insert_same hrow rfl rfl
  · exact h

theorem floors_updateUser (h : Floors m.users) (user : UserEntity) :
    Floors (m.updateUser user).users := by
  unfold updateUser
  split
  · next row hrow =>
    split
    · exact h
    · exact h.insert_same hrow rfl rfl
  · exact h

theorem floors_applyPolicy {policy : UserPolicy} (h : Floors m.users)
    (hrow : m.users.lookup id = some row) (hr : m.refusal policy row = none) :
    Floors (m.applyPolicy id policy row).users := by
  have hwrite : (m.applyPolicy id policy row).users = m.users.insert id { row with
      invalidLoginAttemptCount := policy.invalidLoginAttemptCount
      loginAttemptsBeforeLockout := policy.maxLoginAttempts
      isAdministrator := policy.isAdministrator
      isDisabled := policy.isDisabled } := by
    unfold applyPolicy
    dsimp only
    split <;> rfl
  rw [hwrite]
  simp only [refusal, policyUpdateRefusal] at hr
  split at hr
  · cases hr
  next hdemote =>
  split at hr
  · cases hr
  next hadmin =>
  split at hr
  · cases hr
  next hlast =>
  apply Floors.insert
  · rcases h.admin_or hrow with ha | hother
    · cases hp : policy.isAdministrator with
      | true => exact .inl rfl
      | false =>
        refine .inr (exists_other hrow ha fun hcount => hdemote ?_)
        simp [hp, ha, adminCount, hcount]
    · exact .inr hother
  · rcases h.enabled_or hrow with he | hother
    · cases hp : policy.isDisabled with
      | false => exact .inl rfl
      | true =>
        obtain ⟨id', r, hne, hr', he'⟩ := exists_other (p := fun row => !row.isDisabled) hrow
          (by simp [he]) fun hcount => hlast (by simp [hp, he, enabledCount, hcount])
        exact .inr ⟨id', r, hne, hr', by simpa using he'⟩
    · exact .inr hother

theorem floors_deleteUser (h : Floors m.users)
    (hk : (m.refusesDeletion id || m.keepsEnabled id) = true) :
    Floors (m.deleteUser id).users := by
  unfold deleteUser
  split
  · next row hrow =>
    split
    · exact h
    · split
      · exact h
      · next hmany hlast =>
        replace hk : m.keepsEnabled id = true :=
          (Bool.or_eq_true _ _ ▸ hk).resolve_left fun hr => by
            simp [refusesDeletion, hrow, hmany, hlast] at hr
        have herase : ∀ {id'}, id' ≠ id → (m.users.erase id).lookup id' = m.users.lookup id' := by
          intro id' hne
          rw [KeyedMap.lookup_erase_eq, if_neg hne]
        have hadmin : ∃ id' r, id' ≠ id ∧ m.users.lookup id' = some r ∧
            r.isAdministrator = true := by
          rcases h.admin_or hrow with ha | hother
          · refine exists_other hrow ha fun hcount => hlast ?_
            simp [ha, adminCount, hcount]
          · exact hother
        have henabled : ∃ id' r, id' ≠ id ∧ m.users.lookup id' = some r ∧
            r.isDisabled = false := by
          rcases h.enabled_or hrow with he | hother
          · exact exists_of_keepsEnabled hk hrow he
          · exact hother
        obtain ⟨i, r, hi, hr, ha⟩ := hadmin
        obtain ⟨j, s, hj, hs, he⟩ := henabled
        exact ⟨⟨i, r, (herase hi).trans hr, ha⟩, ⟨j, s, (herase hj).trans hs, he⟩⟩
  · exact h

theorem floors_savePolicy {policy : UserPolicy} {guarded : Bool} (h : Floors m.users)
    (hg : guarded = false → ∀ row, m.users.lookup id = some row → m.refusal policy row = none)
    (hs : m.savePolicy id policy guarded = some m') : Floors m'.users := by
  unfold savePolicy at hs
  split at hs
  · cases hs
    split
    · next row hrow =>
      split
      · exact h
      · next hr =>
        refine floors_applyPolicy h hrow ?_
        cases guarded with
        | false => exact hg rfl row hrow
        | true => simpa using hr
    · exact h
  · cases hs

/-- A task's step keeps the floors, where it is not one of those that nothing guards. -/
theorem floors_next {i : Nat} {task : Task} {answer : Answer} {w' : Work}
    (h : Floors m.users) (ht : m.tasks.lookup i = some task)
    (hset : m.spares (.step i answer) = true) (hn : task.work.next m answer = some (m', w')) :
    Floors m'.users := by
  simp only [spares, ht, Option.map_some] at hset
  generalize task.work = w at hset hn
  cases w with
  | lockingOut key user =>
    cases answer <;> cases hn
    exact floors_disable h hset
  | counting key user =>
    cases answer <;> cases hn
    exact floors_setCount h _
  | succeeding key user =>
    cases answer <;> cases hn
    exact floors_setCount h _
  | editing user =>
    cases answer <;> cases hn
    exact floors_updateUser h _
  | provisioning key id policy =>
    cases answer with
    | nothing =>
      obtain ⟨m'', hsave, heq⟩ := Option.map_eq_some_iff.mp hn
      cases heq
      refine floors_savePolicy h (fun _ row hrow => ?_) hsave
      dsimp only at hset
      rw [hrow] at hset
      simpa using hset
    | _ => cases hn
  | locking name key =>
    cases answer with
    | nothing =>
      simp only [Work.next] at hn
      split at hn <;> cases hn
      exact h
    | _ => cases hn
  | _ => cases answer <;> cases hn <;> exact h

end Manager

theorem Floors.step {m m' : Manager} (h : Floors m.users) {event : Event}
    (hset : m.spares event = true) (hs : m.step event = some m') : Floors m'.users := by
  cases event with
  | login i name =>
    simp only [Manager.step] at hs
    split at hs <;> cases hs
    exact h
  | edit i id =>
    simp only [Manager.step] at hs
    split at hs
    · cases hs
    · obtain ⟨user, -, rfl⟩ := Option.map_eq_some_iff.mp hs
      exact h
  | step i answer =>
    obtain ⟨task, ht, hs⟩ := Option.bind_eq_some_iff.mp hs
    obtain ⟨⟨m'', w'⟩, hn, rfl⟩ := Option.map_eq_some_iff.mp hs
    have hfloors := Manager.floors_next h ht hset hn
    exact hfloors
  | createUser id name =>
    simp only [Manager.step, Bool.or_eq_true, Option.isSome_iff_ne_none] at hs
    split at hs
    · cases hs
    · next hnew =>
      cases hs
      unfold Manager.createUser
      split
      · exact h
      · exact h.insert_new (by simpa using (not_or.mp hnew).1)
  | deleteUser id =>
    cases hs
    exact Manager.floors_deleteUser h hset
  | updatePolicyGuarded id policy =>
    have hsave : m.savePolicy id policy true = some m' := hs
    exact Manager.floors_savePolicy h (fun hg => by cases hg) hsave
  | changePassword id password =>
    simp only [Manager.step, Manager.changePassword] at hs
    split at hs
    · cases hs
      split
      · next row hrow =>
        split
        · exact h
        · exact h.insert_same hrow rfl rfl
      · exact h
    · cases hs

/-- **Where no deletion and no lockout takes the last enabled user, and the policy for new users
would pass the guard, every run from a database with an enabled administrator keeps a user, an
administrator and an enabled user.** -/
theorem floors_kept {m m' : Manager}
    (h0 : ∃ id row, m.users.lookup id = some row ∧ row.isAdministrator = true ∧
      row.isDisabled = false)
    (hp : users.Path (fun m event => m.spares event = true) m m') :
    m'.userCount ≠ 0 ∧ Floors m'.users := by
  obtain ⟨id, row, hrow, ha, he⟩ := h0
  have h := Machine.Path.invariant (I := fun s : Manager => Floors s.users) hp
    ⟨⟨id, row, hrow, ha⟩, ⟨id, row, hrow, he⟩⟩ fun _ _ _ hm hset hs => hm.step hset hs
  obtain ⟨id', row', hrow', -⟩ := h.admin
  exact ⟨Nat.ne_of_gt (List.length_pos_of_mem (KeyedMap.mem_values_of_lookup hrow')), h⟩

/-- A database of the examples: an administrator that one failed login locks out. -/
def alone : Manager :=
  { users := AList.insert 0 {
      username := "ROOT"
      isAdministrator := true
      loginAttemptsBeforeLockout := some 1 } ∅ }

/-- A failed login, of an administrator beside another. -/
def failedLogin (i : Nat) (name : String) : List Event :=
  [.login i name, .step i .nothing, .step i .nothing, .step i .nothing, .step i .rejected,
    .step i .nothing, .step i .allowed, .step i .nothing]

/-- A second user is made an administrator before the first is locked out. -/
theorem floors_kept_beside : ∃ m,
    users.Path (fun m event => m.spares event = true) alone m ∧ m.isDisabled 0 = true ∧
    m.userCount ≠ 0 ∧ Floors m.users := by
  obtain ⟨m, hm, hd⟩ : ∃ m, users.runWhile (fun m event => m.spares event = true) alone
      ([Event.createUser 1 "ANNE",
        .updatePolicyGuarded 1 { isAdministrator := true, isDisabled := false }] ++
        failedLogin 0 "ROOT") = some m ∧ m.isDisabled 0 = true := ⟨_, rfl, rfl⟩
  have hp := Machine.path_of_runWhile _ hm
  exact ⟨m, hp, hd, floors_kept ⟨0, _, rfl, rfl, rfl⟩ hp⟩

/-- **A lockout may leave nobody**: one failed login disables the only user. -/
theorem locked_out_alone : ¬ ∀ m m' : Manager, (∃ id row, m.users.lookup id = some row ∧
      row.isAdministrator = true ∧ row.isDisabled = false) →
    users.Path (fun _ _ => True) m m' → m'.userCount ≠ 0 ∧ Floors m'.users := by
  intro hall
  obtain ⟨m, hm, hrow⟩ : ∃ m, users.run alone (failedLogin 0 "ROOT") = some m ∧
      (KeyedMap.values m.users).all Row.isDisabled = true :=
      Lib.exists_of_decide (by decide +kernel)
  obtain ⟨-, -, id, row, hlookup, hen⟩ :=
    hall alone m ⟨0, _, rfl, rfl, rfl⟩ (Machine.path_of_runWhile _ hm)
  have hdis := List.all_eq_true.mp hrow row (KeyedMap.mem_values_of_lookup hlookup)
  rw [hen] at hdis
  cases hdis

end Ferrofin.Users
