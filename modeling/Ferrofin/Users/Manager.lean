import Ferrofin.Lib.Machine
import Ferrofin.Lib.KeyedLock

/-!
# Users and logins

`FerrofinUserManager`: user rows, the operations on them, each a transaction of the one writer,
and logins, which read the user, wait for the lock of the user they read, read again, have the
providers check the password and write the failure count at the end (`Work.next`).  `users` is
the machine of all interleavings of such tasks, cut at every await.

User names stand for their normalized form.  What the providers answer, and whether a client may
log in from where and when it does, is told from outside.  A policy save holds the lock of its
user around one transaction and is one step; of policies and rows there is what counts and bars
logins and what makes administrators.  History: `recorded`, the failures that were recorded for a
user, with those a policy save says there were; in a login, `barred`: the users that were disabled
when it started and not enabled since.
-/

namespace Ferrofin.Users

open Lib

structure UserEntity where
  id : Nat
  username : String
  password : Option String := none
  invalidLoginAttemptCount : Int := 0
  loginAttemptsBeforeLockout : Option Int := none
deriving DecidableEq

/-- A row of `Users` with its permissions. -/
structure Row where
  username : String
  password : Option String := none
  invalidLoginAttemptCount : Int := 0
  loginAttemptsBeforeLockout : Option Int := none
  isAdministrator : Bool := false
  isDisabled : Bool := false
deriving DecidableEq

structure UserPolicy where
  isAdministrator : Bool
  isDisabled : Bool
  invalidLoginAttemptCount : Int := 0
  loginAttemptsBeforeLockout : Int := -1

structure PolicyGuardState where
  wasAdministrator : Bool
  wasDisabled : Bool
  administrators : Nat
  enabledUsers : Nat

def policyUpdateRefusal (state : PolicyGuardState) (policy : UserPolicy) : Option String :=
  if !policy.isAdministrator && state.wasAdministrator && state.administrators == 1 then
    some "there must be at least one user in the system with administrative access"
  else if policy.isDisabled && state.wasAdministrator then
    some "administrators cannot be disabled"
  else if policy.isDisabled && !state.wasDisabled && state.enabledUsers == 1 then
    some "there must be at least one enabled user in the system"
  else none

/-- What a policy's number of login attempts means: -1 is unlimited, 0 is 3. -/
def UserPolicy.maxLoginAttempts (policy : UserPolicy) : Option Int :=
  if policy.loginAttemptsBeforeLockout = -1 then none
  else if policy.loginAttemptsBeforeLockout = 0 then some 3
  else some policy.loginAttemptsBeforeLockout

def Row.entity (row : Row) (id : Nat) : UserEntity :=
  { id := id, username := row.username, password := row.password
    invalidLoginAttemptCount := row.invalidLoginAttemptCount
    loginAttemptsBeforeLockout := row.loginAttemptsBeforeLockout }

def UserEntity.attempts (user : UserEntity) : Int := user.invalidLoginAttemptCount + 1

def UserEntity.lockedOut (user : UserEntity) : Bool :=
  user.loginAttemptsBeforeLockout.any (· ≤ user.attempts)

/-- A task's next step, and what it holds for it; a key is the user whose login lock it is.  A
login reads the user by name (`reading`), waits for the lock (`locking`), reads again
(`rereading`) and has the password checked (`verifying`); then it finds the user that was accepted
(`resolving` to `refetching`), checks whether it may log in (`checking`, `permitting`), and
records how it went.  `editing` is a caller of `update_user`. -/
inductive Work where
  | reading (name : String)
  | locking (name : String) (key : Option Nat)
  | rereading (name : String) (key : Option Nat)
  | verifying (key : Option Nat) (user : Option UserEntity)
  | resolving (key : Option Nat) (user : Option UserEntity) (name : String) (isDefault : Bool)
      (newUserPolicy : Option UserPolicy)
  | provisioning (key : Option Nat) (id : Nat) (policy : UserPolicy)
  | refetching (key : Option Nat) (id : Nat)
  | checking (key : Option Nat) (user : UserEntity) (success : Bool)
  | permitting (key : Option Nat) (user : UserEntity) (success : Bool)
  | lockingOut (key : Option Nat) (user : UserEntity)
  | counting (key : Option Nat) (user : UserEntity)
  | succeeding (key : Option Nat) (user : UserEntity)
  | returned (id : Nat)
  | editing (user : UserEntity)
  | over

def Work.held : Work → Option (Option Nat)
  | .rereading _ key | .verifying key _ | .resolving key _ _ _ _ | .provisioning key _ _ => some key
  | .refetching key _ | .checking key _ _ | .permitting key _ _ => some key
  | .lockingOut key _ | .counting key _ | .succeeding key _ => some key
  | _ => none

structure Task where
  work : Work
  barred : List Nat := []

def Task.held (task : Task) : Option (Option Nat) := task.work.held

structure Manager where
  users : KeyedMap Nat Row := ∅
  tasks : KeyedMap Nat Task := ∅
  recorded : KeyedMap Nat Int := ∅

inductive Answer where
  | nothing
  | rejected
  | error
  | accepted (name : String) (isDefault : Bool) (newUserPolicy : Option UserPolicy)
  | allowed
  | refused
  | save (name : String) (password : Option String)

namespace Manager

variable (m : Manager)

/-- `get_user_by_name`. -/
def byName (name : String) : Option UserEntity :=
  (m.users.entries.find? fun entry => entry.2.username == name).map fun entry =>
    entry.2.entity entry.1

/-- `fetch_user`. -/
def fetch (id : Nat) : Option UserEntity := (m.users.lookup id).map (Row.entity · id)

def nameTaken (name : String) (exclude : Option Nat) : Bool :=
  m.users.entries.any fun entry => entry.2.username == name && exclude != some entry.1

/-- How many users there are, how many administrators, how many enabled. -/
def userCount : Nat := (KeyedMap.values m.users).length

def adminCount : Nat := (KeyedMap.values m.users).countP Row.isAdministrator

def enabledCount : Nat := (KeyedMap.values m.users).countP (!·.isDisabled)

/-- A user is enabled, or gone: nobody is barred for it any longer. -/
def unbar (id : Nat) : Manager :=
  { m with tasks := KeyedMap.mapValues (fun _ task =>
      { task with barred := task.barred.filter (· ≠ id) }) m.tasks }

def write (id : Nat) (row : Row) : Manager := { m with users := m.users.insert id row }

def applyPolicy (id : Nat) (policy : UserPolicy) (row : Row) : Manager :=
  let m := m.write id { row with
    invalidLoginAttemptCount := policy.invalidLoginAttemptCount
    loginAttemptsBeforeLockout := policy.maxLoginAttempts
    isAdministrator := policy.isAdministrator
    isDisabled := policy.isDisabled }
  let m := { m with recorded := m.recorded.insert id policy.invalidLoginAttemptCount }
  if policy.isDisabled then m else m.unbar id

def refusal (policy : UserPolicy) (row : Row) : Option String :=
  policyUpdateRefusal {
    wasAdministrator := row.isAdministrator
    wasDisabled := row.isDisabled
    administrators := m.adminCount
    enabledUsers := m.enabledCount } policy

/-- `save_policy` by a task that waits for the lock of the user; without the user it fails. -/
def savePolicy (id : Nat) (policy : UserPolicy) (guarded : Bool) : Option Manager :=
  if lockFree Task.held (some id) m.tasks then some (
    match m.users.lookup id with
    | some row =>
      if guarded && (m.refusal policy row).isSome then m else m.applyPolicy id policy row
    | none => m)
  else none

def createUser (id : Nat) (name : String) : Manager :=
  if m.nameTaken name none then m
  else { m.write id { username := name } with recorded := m.recorded.insert id 0 }

def deleteUser (id : Nat) : Manager :=
  match m.users.lookup id with
  | some row =>
    if m.userCount = 1 then m
    else if row.isAdministrator && m.adminCount == 1 then m
    else unbar { m with users := m.users.erase id } id
  | none => m

def updateUser (user : UserEntity) : Manager :=
  match m.users.lookup user.id with
  | some row =>
    if m.nameTaken user.username (some user.id) then m
    else m.write user.id { row with
      username := user.username
      password := user.password
      invalidLoginAttemptCount := user.invalidLoginAttemptCount
      loginAttemptsBeforeLockout := user.loginAttemptsBeforeLockout }
  | none => m

/-- `change_password` by a task that waits for the lock of the user; administrators have one. -/
def changePassword (id : Nat) (password : Option String) : Option Manager :=
  if lockFree Task.held (some id) m.tasks then some (
    match m.users.lookup id with
    | some row =>
      if password.isNone && row.isAdministrator then m
      else m.write id { row with password := password }
    | none => m)
  else none

/-- `set_permission(IsDisabled, true)`. -/
def disable (id : Nat) : Manager :=
  match m.users.lookup id with
  | some row => m.write id { row with isDisabled := true }
  | none => m

def setCount (id : Nat) (count : Int) : Manager :=
  match m.users.lookup id with
  | some row => m.write id { row with invalidLoginAttemptCount := count }
  | none => m

def recordedOf (id : Nat) : Int := (m.recorded.lookup id).getD 0

def record (id : Nat) (count : Int) : Manager := { m with recorded := m.recorded.insert id count }

def isDisabled (id : Nat) : Bool := (m.users.lookup id).any Row.isDisabled

end Manager

def Work.next (m : Manager) : Work → Answer → Option (Manager × Work)
  -- `authenticate_user`
  | .reading name, .nothing =>
    some (m, .locking name ((m.byName name).map UserEntity.id))
  | .locking name key, .nothing =>
    if lockFree Task.held key m.tasks then some (m, .rereading name key) else none
  | .rereading name key, .nothing => some (m, .verifying key (m.byName name))
  -- `authenticate_with_providers`
  | .verifying _ _, .error => some (m, .over)
  | .verifying key user, .rejected => some (m,
      match user with
      | some user => .checking key user false
      | none => .over)
  | .verifying key user, .accepted name isDefault newUserPolicy =>
    some (m, .resolving key user name isDefault newUserPolicy)
  | .resolving key user name isDefault newUserPolicy, .nothing => some (m,
      match user with
      | some user =>
        match m.fetch user.id with
        | some user => .checking key user true
        | none => .over
      | none =>
        if isDefault then .over
        else match m.byName name, newUserPolicy with
          | some user, some policy => .provisioning key user.id policy
          | some user, none => .checking key user true
          | none, _ => .over)
  | .provisioning key id policy, .nothing =>
    (m.savePolicy id policy false).map fun m' =>
      (m', if (m.users.lookup id).isSome then .refetching key id else .over)
  | .refetching key id, .nothing => some (m,
      match m.fetch id with
      | some user => .checking key user true
      | none => .over)
  | .checking key user success, .nothing =>
    some (m, if m.isDisabled user.id then .over else .permitting key user success)
  | .permitting key user success, .allowed => some (m,
      if success then .succeeding key user
      else if user.lockedOut then .lockingOut key user else .counting key user)
  | .permitting _ _ _, .refused => some (m, .over)
  -- `record_login_failure`
  | .lockingOut key user, .nothing => some (m.disable user.id, .counting key user)
  | .counting _ user, .nothing =>
    some ((m.setCount user.id user.attempts).record user.id (m.recordedOf user.id + 1), .over)
  | .succeeding _ user, .nothing =>
    some ((m.setCount user.id 0).record user.id 0, .returned user.id)
  -- `update_user`, some time after its caller read the user
  | .editing user, .save name password =>
    some (m.updateUser { user with username := name, password := password }, .over)
  | _, _ => none

inductive Event where
  | login (i : Nat) (name : String)
  | edit (i : Nat) (id : Nat)
  | step (i : Nat) (answer : Answer)
  | createUser (id : Nat) (name : String)
  | deleteUser (id : Nat)
  | updatePolicyGuarded (id : Nat) (policy : UserPolicy)
  | changePassword (id : Nat) (password : Option String)

namespace Manager

variable (m : Manager)

def disabledUsers : List Nat :=
  (m.users.entries.filter fun entry => entry.2.isDisabled).map Sigma.fst

def goOn (i : Nat) (work : Work) (barred : List Nat) : Manager :=
  { m with tasks := m.tasks.insert i { work := work, barred := barred } }

/-- One step; a new user has an id of its own (`Uuid::new_v4`), and so has a task. -/
def step : Event → Option Manager
  | .login i name =>
    if (m.tasks.lookup i).isSome then none else some (m.goOn i (.reading name) m.disabledUsers)
  | .edit i id =>
    if (m.tasks.lookup i).isSome then none
    else (m.fetch id).map fun user => m.goOn i (.editing user) []
  | .step i answer =>
    (m.tasks.lookup i).bind fun task =>
      (task.work.next m answer).map fun (m', work) =>
        m'.goOn i work (((m'.tasks.lookup i).map Task.barred).getD [])
  | .createUser id name =>
    if (m.users.lookup id).isSome || (m.recorded.lookup id).isSome then none
    else some (m.createUser id name)
  | .deleteUser id => some (m.deleteUser id)
  | .updatePolicyGuarded id policy => m.savePolicy id policy true
  | .changePassword id password => m.changePassword id password

end Manager

def users : Machine Manager Event where
  init := {}
  step := Manager.step

end Ferrofin.Users
