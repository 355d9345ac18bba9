import Ferrofin.Lib.Generations
import Ferrofin.Lib.Machine
import Ferrofin.Util.Text

/-!
# The auth caches and their lookups

`AuthCache` (`auth_cache.rs`) keeps what a token resolves to and the assembled user
DTOs, under one generation; `RowCache` (`row_cache.rs`) keeps the users' policy rows,
under one of its own.  What a method does under a lock is one function here, and an
invalidation is cut where it lets go of one: it begins a generation, and then sweeps
its maps one after another.

The rest of a row, and what a query returns, are parameters.  `Stamped.readAt` and the
`tag` of an entry are history: how many writes had been committed when a value was
read, and the generation it was stored under.

`caches` is the machine of all interleavings of writers, who commit and then
invalidate, and of lookups: a token is resolved (`resolve_device_token`), a user's DTO
is assembled (`get_user_dto`), a user's policy rows are read (`user_policy`).  A lookup
looks into its cache, takes the generation, reads the database query by query, and
stores; between any two of these steps anything may happen, and it may end at any of
them (a failed read, a client that went away).

The policy of a token's resolution is that of the user's DTO, which may come from the
cache of the DTOs.
-/

namespace Ferrofin.Auth

open Lib Util

structure Stamped (α : Type) where
  value : α
  readAt : Nat

structure UserEntity (Columns : Type) where
  id : String
  columns : Columns
deriving DecidableEq

/-- `UserDto`, by what it is assembled from: the user's row, its permissions and
preferences, and its access schedules.  Its policy is made of the same. -/
structure UserDto (Columns Maps Schedules : Type) where
  user : UserEntity Columns
  maps : Stamped Maps
  schedules : Stamped Schedules

structure TokenResolution (Device Columns Maps Schedules : Type) where
  device : Stamped Device
  user : Option (Stamped (UserEntity Columns))
  policy : Option (UserDto Columns Maps Schedules)

structure CachedAuth (Device Columns Maps Schedules : Type) where
  resolution : TokenResolution Device Columns Maps Schedules
  cachedAt : Nat
  tag : Nat

structure CachedUserDto (Columns Maps Schedules : Type) where
  entity : UserEntity Columns
  dto : UserDto Columns Maps Schedules
  cachedAt : Nat
  tag : Nat

/-- `AuthCache`.  The scope of an invalidation is a user's id, or everything. -/
structure AuthCache (Device Columns Maps Schedules : Type) where
  ttl : Nat
  generations : Generations (Option String) := {}
  entries : KeyedMap String (CachedAuth Device Columns Maps Schedules) := ∅
  userDtos : KeyedMap String (CachedUserDto Columns Maps Schedules) := ∅

structure UserPolicyRows where
  permissions : Stamped (List (Int × Bool))
  preferences : Stamped (List (Int × String))

/-- `Stamped<UserPolicyRows>`. -/
structure CachedRows where
  value : UserPolicyRows
  storedAt : Nat
  tag : Nat

/-- `RowCache`, the policies. -/
structure RowCache where
  enabled : Bool := false
  ttl : Nat := 0
  generations : Generations (Option String) := {}
  policies : KeyedMap String CachedRows := ∅

def authCacheMaxEntries : Nat := 4096

def makeRoom {ν : Type} (m : KeyedMap String ν) : KeyedMap String ν :=
  if authCacheMaxEntries ≤ m.keys.length then ∅ else m

/-- An invalidation of the scope drops what is of the user. -/
def covers (user : Option String) : Option String → Bool
  | none => true
  | some id => user.any fun u => eqIgnoreAsciiCase u id

/-! ### The auth cache -/

section AuthCache

variable {Device Columns Maps Schedules : Type}

def TokenResolution.userId (r : TokenResolution Device Columns Maps Schedules) : Option String :=
  r.user.map fun u => u.value.id

namespace AuthCache

variable (c : AuthCache Device Columns Maps Schedules)

def get (now : Nat) (token : String) : Option (TokenResolution Device Columns Maps Schedules) :=
  (c.entries.lookup token).bind fun hit =>
    if c.ttl < now - hit.cachedAt then none else some hit.resolution

def put (now generation : Nat) (token : String)
    (resolution : TokenResolution Device Columns Maps Schedules) :
    AuthCache Device Columns Maps Schedules :=
  if c.generations.current = generation then { c with
    entries := (makeRoom c.entries).insert token
      { resolution := resolution, cachedAt := now, tag := generation } }
  else c

def getUserDto [DecidableEq Columns] (now : Nat) (entity : UserEntity Columns) :
    Option (UserDto Columns Maps Schedules) :=
  (c.userDtos.lookup entity.id).bind fun hit =>
    if c.ttl < now - hit.cachedAt ∨ hit.entity ≠ entity then none else some hit.dto

def putUserDto (now generation : Nat) (entity : UserEntity Columns)
    (dto : UserDto Columns Maps Schedules) : AuthCache Device Columns Maps Schedules :=
  if c.generations.current = generation then { c with
    userDtos := (makeRoom c.userDtos).insert entity.id
      { entity := entity, dto := dto, cachedAt := now, tag := generation } }
  else c

/-- The entries after `clear`, or after `invalidate_user`. -/
def keptEntries (scope : Option String) :
    KeyedMap String (CachedAuth Device Columns Maps Schedules) :=
  match scope with
  | none => ∅
  | some _ => KeyedMap.retain (fun _ hit => !covers hit.resolution.userId scope) c.entries

/-- The user DTOs after `clear`, or after `invalidate_user`. -/
def keptUserDtos (scope : Option String) : KeyedMap String (CachedUserDto Columns Maps Schedules) :=
  match scope with
  | none => ∅
  | some _ => KeyedMap.retain (fun id _ => !covers (some id) scope) c.userDtos

/-- `clear` and `invalidate_user`, up to the new generation. -/
def beginInvalidation (scope : Option String) (wrote : Nat) :
    AuthCache Device Columns Maps Schedules :=
  { c with generations := c.generations.begin scope wrote }

def invalidate (i : Nat) : Option (AuthCache Device Columns Maps Schedules) :=
  (c.generations.invalidations.lookup i).bind fun v =>
    match v.stage with
    | 0 => some { c with
        generations := c.generations.advance i v
        entries := c.keptEntries v.scope }
    | 1 => some { c with
        generations := c.generations.advance i v
        userDtos := c.keptUserDtos v.scope }
    | _ => none

end AuthCache

end AuthCache

/-! ### The row cache -/

namespace RowCache

variable (c : RowCache)

def policy (now : Nat) (userId : String) : Option UserPolicyRows :=
  if c.enabled then
    (c.policies.lookup (toAsciiLowercase userId)).bind fun hit =>
      if now - hit.storedAt < c.ttl then some hit.value else none
  else none

def putPolicy (now generation : Nat) (userId : String) (rows : UserPolicyRows) : RowCache :=
  if c.enabled ∧ c.generations.current = generation then { c with
    policies := c.policies.insert (toAsciiLowercase userId)
      { value := rows, storedAt := now, tag := generation } }
  else c

/-- `invalidate_policy`, up to the new generation. -/
def beginInvalidation (userId : Option String) (wrote : Nat) : RowCache :=
  { c with generations := c.generations.begin userId wrote }

/-- The policies after `invalidate_policy`. -/
def keptPolicies (userId : Option String) : KeyedMap String CachedRows :=
  match userId with
  | none => ∅
  | some id => c.policies.erase (toAsciiLowercase id)

def invalidate (i : Nat) : Option RowCache :=
  (c.generations.invalidations.lookup i).bind fun v =>
    match v.stage with
    | 0 => some { c with
        generations := c.generations.advance i v
        policies := c.keptPolicies v.scope }
    | _ => none

end RowCache

variable {Database Device Columns Maps Schedules : Type}

/-- What the queries read: `device_by_token`, the user of a device, the permission and
preference maps and the access schedules of a user, and its policy rows. -/
structure Queries (Database Device Columns Maps Schedules : Type) where
  deviceByToken : Database → String → Option Device
  userOf : Database → Device → Option (UserEntity Columns)
  maps : Database → String → Maps
  schedules : Database → String → Schedules
  permissions : Database → String → List (Int × Bool)
  preferences : Database → String → List (Int × String)

/-- Where `get_user_dto` stands: before its look into the cache, after a miss, with the
generation taken, with the maps read, and with the schedules read. -/
inductive DtoPhase (Maps Schedules : Type) where
  | probing
  | capturing
  | reading (generation : Nat)
  | scheduling (generation : Nat) (maps : Stamped Maps)
  | storing (generation : Nat) (maps : Stamped Maps) (schedules : Stamped Schedules)

/-- Where `resolve_device_token` stands: before its look into the cache, after a miss,
with the generation taken, with the device read, in `get_user_dto` for the user of the
device, and with all it stores. -/
inductive TokenPhase (Device Columns Maps Schedules : Type) where
  | probing
  | capturing
  | device (generation : Nat)
  | user (generation : Nat) (device : Stamped Device)
  | dto (generation : Nat) (device : Stamped Device) (user : Stamped (UserEntity Columns))
      (phase : DtoPhase Maps Schedules)
  | storing (generation : Nat) (resolution : TokenResolution Device Columns Maps Schedules)

/-- Where `user_policy` stands: before its look into the cache, after a miss, with the
generation taken, with the permissions read, and with the preferences read. -/
inductive PolicyPhase where
  | probing
  | capturing
  | permissions (generation : Nat)
  | preferences (generation : Nat) (permissions : Stamped (List (Int × Bool)))
  | storing (generation : Nat) (rows : UserPolicyRows)

/-- A lookup under way.  A request refreshes the columns of its device that it reports. -/
inductive Lookup (Device Columns Maps Schedules : Type) where
  | token (token : String) (refresh : Device → Device)
      (phase : TokenPhase Device Columns Maps Schedules)
  | dto (entity : UserEntity Columns) (phase : DtoPhase Maps Schedules)
  | policy (userId : String) (phase : PolicyPhase)

/-- The database with the number of writes committed to it, the clock, the caches, and
the lookups. -/
structure World (Database Device Columns Maps Schedules : Type) where
  db : Database
  commits : Nat := 0
  now : Nat := 0
  auth : AuthCache Device Columns Maps Schedules
  rows : RowCache := {}
  lookups : KeyedMap Nat (Lookup Device Columns Maps Schedules) := ∅

/-- What happens.  `wrote` is the number of the write an invalidation is for; lookups have
numbers of their own. -/
inductive Event (Database Device Columns : Type) where
  | commit (db : Database)
  | tick
  | beginAuth (scope : Option String) (wrote : Nat)
  | invalidateAuth (i : Nat)
  | enableRows (ttl : Nat)
  | beginRows (scope : Option String) (wrote : Nat)
  | invalidateRows (i : Nat)
  | lookupToken (i : Nat) (token : String) (refresh : Device → Device)
  | lookupDto (i : Nat) (entity : UserEntity Columns)
  | lookupPolicy (i : Nat) (userId : String)
  | advance (i : Nat)
  | abort (i : Nat)

namespace World

variable (Q : Queries Database Device Columns Maps Schedules)
  (w : World Database Device Columns Maps Schedules)

def stamp {α : Type} (value : α) : Stamped α := { value := value, readAt := w.commits }

def goOn (i : Nat) (next : Option (Lookup Device Columns Maps Schedules)) :
    World Database Device Columns Maps Schedules :=
  { w with lookups := match next with
    | some l => w.lookups.insert i l
    | none => w.lookups.erase i }

def start (i : Nat) (l : Lookup Device Columns Maps Schedules) :
    Option (World Database Device Columns Maps Schedules) :=
  if (w.lookups.lookup i).isSome then none else some (w.goOn i (some l))

/-- The next step of `get_user_dto`, which returns the DTO in the end. -/
def advanceDto [DecidableEq Columns] (entity : UserEntity Columns) :
    DtoPhase Maps Schedules →
      World Database Device Columns Maps Schedules ×
        (UserDto Columns Maps Schedules ⊕ DtoPhase Maps Schedules)
  | .probing => (w, match w.auth.getUserDto w.now entity with
    | some dto => .inl dto
    | none => .inr .capturing)
  | .capturing => (w, .inr (.reading w.auth.generations.current))
  | .reading generation =>
    (w, .inr (.scheduling generation (w.stamp (Q.maps w.db entity.id))))
  | .scheduling generation maps =>
    (w, .inr (.storing generation maps (w.stamp (Q.schedules w.db entity.id))))
  | .storing generation maps schedules =>
    let dto : UserDto Columns Maps Schedules :=
      { user := entity, maps := maps, schedules := schedules }
    ({ w with auth := w.auth.putUserDto w.now generation entity dto }, .inl dto)

/-- The next step of `resolve_device_token`; `none` when it has returned. -/
def advanceToken [DecidableEq Columns] (token : String) (refresh : Device → Device) :
    TokenPhase Device Columns Maps Schedules →
      World Database Device Columns Maps Schedules ×
        Option (TokenPhase Device Columns Maps Schedules)
  | .probing => (w, match w.auth.get w.now token with
    | some _ => none
    | none => some .capturing)
  | .capturing => (w, some (.device w.auth.generations.current))
  | .device generation => (w, (Q.deviceByToken w.db token).map fun device =>
    .user generation (w.stamp device))
  | .user generation device =>
    let refreshed : Stamped Device := { device with value := refresh device.value }
    (w, match Q.userOf w.db device.value with
    | none => some (.storing generation { device := refreshed, user := none, policy := none })
    | some user => some (.dto generation refreshed (w.stamp user) .probing))
  | .dto generation device user phase =>
    match w.advanceDto Q user.value phase with
    | (w', .inl dto) =>
      (w', some (.storing generation { device := device, user := some user, policy := some dto }))
    | (w', .inr phase) => (w', some (.dto generation device user phase))
  | .storing generation resolution =>
    ({ w with auth := w.auth.put w.now generation token resolution }, none)

/-- The next step of `user_policy`; `none` when it has returned. -/
def advancePolicy (userId : String) :
    PolicyPhase → World Database Device Columns Maps Schedules × Option PolicyPhase
  | .probing => (w, match w.rows.policy w.now userId with
    | some _ => none
    | none => some .capturing)
  | .capturing => (w, some (.permissions w.rows.generations.current))
  | .permissions generation =>
    (w, some (.preferences generation (w.stamp (Q.permissions w.db userId))))
  | .preferences generation permissions =>
    (w, some (.storing generation {
      permissions := permissions
      preferences := w.stamp (Q.preferences w.db userId) }))
  | .storing generation rows =>
    ({ w with rows := w.rows.putPolicy w.now generation userId rows }, none)

def advance [DecidableEq Columns] (i : Nat) :
    Lookup Device Columns Maps Schedules → World Database Device Columns Maps Schedules
  | .token token refresh phase =>
    match w.advanceToken Q token refresh phase with
    | (w', next) => w'.goOn i (next.map (.token token refresh))
  | .dto entity phase =>
    match w.advanceDto Q entity phase with
    | (w', .inl _) => w'.goOn i none
    | (w', .inr phase) => w'.goOn i (some (.dto entity phase))
  | .policy userId phase =>
    match w.advancePolicy Q userId phase with
    | (w', next) => w'.goOn i (next.map (.policy userId))

def step [DecidableEq Columns] : Event Database Device Columns →
    Option (World Database Device Columns Maps Schedules)
  | .commit db => some { w with db := db, commits := w.commits + 1 }
  | .tick => some { w with now := w.now + 1 }
  | .beginAuth scope wrote =>
    if wrote ≤ w.commits then some { w with auth := w.auth.beginInvalidation scope wrote }
    else none
  | .invalidateAuth i => (w.auth.invalidate i).map fun auth => { w with auth := auth }
  | .enableRows ttl => some { w with rows := { w.rows with enabled := true, ttl := ttl } }
  | .beginRows scope wrote =>
    if wrote ≤ w.commits then some { w with rows := w.rows.beginInvalidation scope wrote }
    else none
  | .invalidateRows i => (w.rows.invalidate i).map fun rows => { w with rows := rows }
  | .lookupToken i token refresh => w.start i (.token token refresh .probing)
  | .lookupDto i entity => w.start i (.dto entity .probing)
  | .lookupPolicy i userId => w.start i (.policy userId .probing)
  | .advance i => (w.lookups.lookup i).map fun l => w.advance Q i l
  | .abort i => some (w.goOn i none)

end World

def caches [DecidableEq Columns] (Q : Queries Database Device Columns Maps Schedules)
    (db : Database) (ttl : Nat) :
    Machine (World Database Device Columns Maps Schedules) (Event Database Device Columns) where
  init := { db := db, auth := { ttl := ttl } }
  step w := w.step Q

end Ferrofin.Auth
