import Ferrofin.Policies.Stored
import Mathlib.Data.Rat.Defs

/-!
# The policy that is read back

What is written of a kind is what is read of it, whatever was stored before (`Holds`).  So the
policy that is read back is the saved one, but for the lists of texts, which are cut at each comma
(`buildUserPolicy_savePolicy`): the saved policy is read back exactly when no text of its lists has
a comma and none is a single empty text (`savePolicy_readBack`).
-/

namespace Ferrofin.Policies

open Lib Util
open Visibility (UnratedItem)

/-! ### Rows of a kind -/

section

variable {V W : Type} {rows : List (KindRow V)} {userId : Uuid} {kind kind' : ℤ} {v v' : V}

def Holds (rows : List (KindRow V)) (userId : Uuid) (kind : ℤ) (v : V) : Prop :=
  (∀ r ∈ rows, r.userId = userId → r.kind = kind → r.value = v) ∧
    ∃ r ∈ rows, r.userId = userId ∧ r.kind = kind

theorem mem_updateKind {r : KindRow V} (h : r ∈ updateKind rows userId kind v) :
    ∃ r' ∈ rows, r.userId = r'.userId ∧ r.kind = r'.kind ∧
      r.value = if r'.userId = userId ∧ r'.kind = kind then v else r'.value := by
  obtain ⟨r', hr', rfl⟩ := List.mem_map.mp h
  refine ⟨r', hr', ?_⟩
  split <;> exact ⟨rfl, rfl, rfl⟩

theorem exists_mem_updateKind (userId : Uuid) (v : V) {userId' : Uuid}
    (h : ∃ r ∈ rows, r.userId = userId' ∧ r.kind = kind') :
    ∃ r ∈ updateKind rows userId kind v, r.userId = userId' ∧ r.kind = kind' := by
  obtain ⟨r, hr, hmatch⟩ := h
  refine ⟨_, List.mem_map_of_mem hr, ?_⟩
  split <;> exact hmatch

theorem holds_setKind (rows : List (KindRow V)) (userId : Uuid) (kind : ℤ) (v : V) :
    Holds (setKind rows userId kind v) userId kind v := by
  have hvalue : ∀ r ∈ updateKind rows userId kind v, r.userId = userId → r.kind = kind →
      r.value = v := by
    intro r hr huser hkind
    obtain ⟨r', -, huser', hkind', hv⟩ := mem_updateKind hr
    rw [hv, if_pos ⟨huser'.symm.trans huser, hkind'.symm.trans hkind⟩]
  unfold setKind
  dsimp only
  split
  · next hany =>
    obtain ⟨r, hr, hmatch⟩ := List.any_eq_true.mp hany
    rw [Bool.and_eq_true, decide_eq_true_iff, decide_eq_true_iff] at hmatch
    exact ⟨hvalue, r, hr, hmatch⟩
  · refine ⟨fun r hr huser hkind => ?_, _, List.mem_append_right _ (List.mem_singleton.mpr rfl),
      rfl, rfl⟩
    rcases List.mem_append.mp hr with hr | hr
    · exact hvalue r hr huser hkind
    · rw [List.mem_singleton.mp hr]

theorem Holds.setKind (h : Holds rows userId kind v) (hne : kind ≠ kind') :
    Holds (setKind rows userId kind' v') userId kind v := by
  have hvalue : ∀ r ∈ updateKind rows userId kind' v', r.userId = userId → r.kind = kind →
      r.value = v := by
    intro r hr huser hkind
    obtain ⟨r', hr', huser', hkind', hv⟩ := mem_updateKind hr
    rw [hv, if_neg fun hmatch => hne (hkind.symm.trans (hkind'.trans hmatch.2))]
    exact h.1 r' hr' (huser'.symm.trans huser) (hkind'.symm.trans hkind)
  obtain ⟨r, hr, hmatch⟩ := exists_mem_updateKind userId v' h.2
  unfold Policies.setKind
  dsimp only
  split
  · exact ⟨hvalue, r, hr, hmatch⟩
  · refine ⟨fun r hr huser hkind => ?_, r, List.mem_append_left _ hr, hmatch⟩
    rcases List.mem_append.mp hr with hr | hr
    · exact hvalue r hr huser hkind
    · rw [List.mem_singleton.mp hr] at hkind
      exact absurd hkind.symm hne

theorem Holds.foldl {κ ι : Type} (value : κ → ℤ) (encode : ι → V) {entries : List (κ × ι)}
    (hfree : kind ∉ entries.map fun e => value e.1) (h : Holds rows userId kind v) :
    Holds (entries.foldl (fun rows e => Policies.setKind rows userId (value e.1) (encode e.2)) rows)
      userId kind v := by
  induction entries generalizing rows with
  | nil => exact h
  | cons e entries ih =>
    rw [List.map_cons, List.mem_cons, not_or] at hfree
    exact ih hfree.2 (h.setKind hfree.1)

theorem holds_foldl {κ ι : Type} (userId : Uuid) (value : κ → ℤ) (encode : ι → V)
    {entries : List (κ × ι)}
    (hnodup : (entries.map fun e => value e.1).Nodup) {e : κ × ι} (he : e ∈ entries)
    (rows : List (KindRow V)) :
    Holds (entries.foldl (fun rows e => Policies.setKind rows userId (value e.1) (encode e.2)) rows)
      userId (value e.1) (encode e.2) := by
  induction entries generalizing rows with
  | nil => cases he
  | cons e' entries ih =>
    rw [List.map_cons, List.nodup_cons] at hnodup
    rcases List.mem_cons.mp he with rfl | he
    · rw [List.foldl_cons]
      exact (holds_setKind ..).foldl value encode hnodup.1
    · exact ih hnodup.2 he _

theorem Holds.lookup_byKind (h : Holds rows userId kind v) (read : V → W) :
    (Database.byKind rows userId read).lookup kind = some (read v) := by
  obtain ⟨hvalue, r, hr, huser, hkind⟩ := h
  refine KeyedMap.lookup_extend_of_forall (fun e he hek => ?_) (.inr ?_)
  · obtain ⟨r, hr, rfl⟩ := List.mem_map.mp he
    obtain ⟨hr, huser⟩ := List.mem_filter.mp hr
    exact congrArg read (hvalue r hr (of_decide_eq_true huser) hek)
  · exact ⟨(r.kind, read r.value),
      List.mem_map_of_mem (List.mem_filter.mpr ⟨hr, decide_eq_true huser⟩), hkind⟩

end

/-! ### Enumerations and numbers -/

def IsI32 (n : ℤ) : Prop := -2 ^ 31 ≤ n ∧ n < 2 ^ 31

theorem isI32_zero : IsI32 0 := ⟨by decide, by decide⟩

theorem castI32_eq {n : ℤ} (h : IsI32 n) : castI32 n = n := if_pos h

theorem map_castI32 {n : Option ℤ} (h : ∀ m ∈ n, IsI32 m) : n.map castI32 = n := by
  cases n with
  | none => rfl
  | some m => rw [Option.map_some, castI32_eq (h m rfl)]

theorem isWhitespace_of_mem_decimal {n : ℤ} {c : Char} (h : c ∈ decimal n) :
    isWhitespace c = false := by
  rcases mem_decimal h with h | rfl
  · exact isWhitespace_of_isDigit h
  · rfl

theorem decimal_ne_nil (n : ℤ) : decimal n ≠ [] := by
  unfold decimal
  split
  · exact List.cons_ne_nil _ _
  · exact Nat.toDigits_ne_nil

theorem tryParse_decimal {T : Type} {members : List (Text × ℕ)} {fromDiscriminant : ℤ → T} {n : ℤ}
    (h : IsI32 n) (ignoreCase : Bool) :
    tryParse members fromDiscriminant (decimal n) ignoreCase = some (fromDiscriminant n) := by
  obtain ⟨c, s, hs⟩ := List.exists_cons_of_ne_nil (decimal_ne_nil n)
  have hc : (c.isDigit || c == '-' || c == '+') = true := by
    rcases mem_decimal (n := n) (c := c) (by rw [hs]; exact List.mem_cons_self) with h | rfl
    · rw [h]
      rfl
    · rfl
  have hhead : (decimal n).head?.any (fun c => c.isDigit || c == '-' || c == '+') = true := by
    rw [hs]
    exact hc
  rw [tryParse, trimChars_of_forall fun c hc => isWhitespace_of_mem_decimal hc]
  dsimp only
  rw [if_neg (decimal_ne_nil n), if_pos hhead, parseInt_decimal h.1 h.2]

/-- **An unrated item is read as it was written.** -/
theorem parseUnratedItem_unratedName {item : UnratedItem}
    (hnamed : unratedFromValue (unratedValue item) = item) (h : IsI32 (unratedValue item)) :
    parseUnratedItem (unratedName item) = some item := by
  cases item with
  | unrecognized n =>
    exact (tryParse_decimal h true).trans (congrArg some hnamed)
  | _ => decide +kernel

theorem delimiter_notMem_unratedName (item : UnratedItem) :
    preferenceDelimiter ∉ unratedName item := by
  cases item with
  | unrecognized n =>
    intro h
    rcases mem_decimal h with h | h <;> cases h
  | _ => decide +kernel

theorem unratedName_ne_nil (item : UnratedItem) : unratedName item ≠ [] := by
  cases item with
  | unrecognized n => exact decimal_ne_nil n
  | _ => decide +kernel

/-! ### Schedules -/

variable {Hour : Type} {db : Database Hour} {policy : UserPolicy Hour} {userId : Uuid}

/-- The schedules of a user that are read back are the saved ones, with ids of the server. -/
theorem map_replaceSchedules (userId : Uuid) (rows : List (ScheduleRow Hour))
    (schedules : List (AccessSchedule Hour)) :
    ((replaceSchedules rows userId schedules).filter (·.userId = userId)).map
        (fun r => (r.dayOfWeek, r.startHour, r.endHour)) =
      schedules.map fun s => (s.dayOfWeek.jsonValue, s.startHour, s.endHour) := by
  have hadd : ∀ rows : List (ScheduleRow Hour),
      ((schedules.foldl (addSchedule userId) rows).filter (·.userId = userId)).map
          (fun r => (r.dayOfWeek, r.startHour, r.endHour)) =
        (rows.filter (·.userId = userId)).map (fun r => (r.dayOfWeek, r.startHour, r.endHour)) ++
          schedules.map fun s => (s.dayOfWeek.jsonValue, s.startHour, s.endHour) := by
    induction schedules with
    | nil => simp
    | cons s schedules ih =>
      intro rows
      rw [List.foldl_cons, ih]
      simp [addSchedule]
  have hremoved : (rows.filter (·.userId ≠ userId)).filter (·.userId = userId) = [] := by
    simp [List.filter_filter]
  rw [replaceSchedules, hadd, hremoved]
  rfl

/-! ### The whole policy -/

/-- The parts of a policy that are saved; schedules without their ids, and no number of login
attempts stands for 3. -/
def UserPolicy.persisted (policy : UserPolicy Hour) : UserPolicy Hour :=
  { policy with
    loginAttemptsBeforeLockout :=
      if policy.loginAttemptsBeforeLockout = 0 then 3 else policy.loginAttemptsBeforeLockout
    accessSchedules := policy.accessSchedules.map fun s => { s with id := 0, userId := 0 }
    blockedChannels := none
    blockedMediaFolders := none }

/-- A policy whose lists of texts are joined and cut again. -/
def UserPolicy.recut (policy : UserPolicy Hour) : UserPolicy Hour :=
  let recut (texts : List Text) : List Text :=
    cells preferenceDelimiter (List.intercalate [preferenceDelimiter] texts)
  { policy with
    blockedTags := recut policy.blockedTags
    allowedTags := recut policy.allowedTags
    enabledDevices := recut policy.enabledDevices
    enableContentDeletionFromFolders := recut policy.enableContentDeletionFromFolders }

/-- A policy as a request gives it: numbers of 32 bits, and a value without a name only where no
name stands for it. -/
structure UserPolicy.WellFormed (policy : UserPolicy Hour) : Prop where
  maxParentalRating : ∀ n ∈ policy.maxParentalRating, IsI32 n
  maxParentalSubRating : ∀ n ∈ policy.maxParentalSubRating, IsI32 n
  invalidLoginAttemptCount : IsI32 policy.invalidLoginAttemptCount
  loginAttemptsBeforeLockout : IsI32 policy.loginAttemptsBeforeLockout
  maxActiveSessions : IsI32 policy.maxActiveSessions
  remoteClientBitrateLimit : IsI32 policy.remoteClientBitrateLimit
  syncPlayAccess :
    SyncPlayUserAccessType.fromStored policy.syncPlayAccess.jsonValue = policy.syncPlayAccess
  dayOfWeek : ∀ s ∈ policy.accessSchedules,
    DynamicDayOfWeek.fromJsonValue s.dayOfWeek.jsonValue = s.dayOfWeek
  unrated : ∀ item ∈ policy.blockUnratedItems,
    unratedFromValue (unratedValue item) = item ∧ IsI32 (unratedValue item)

def Listable (texts : List Text) : Prop :=
  texts ≠ [[]] ∧ ∀ text ∈ texts, preferenceDelimiter ∉ text

def UserPolicy.Listable (policy : UserPolicy Hour) : Prop :=
  Policies.Listable policy.blockedTags ∧ Policies.Listable policy.allowedTags ∧
    Policies.Listable policy.enabledDevices ∧
    Policies.Listable policy.enableContentDeletionFromFolders

theorem perm_writePolicy (db : Database Hour) (policy : UserPolicy Hour) (userId : Uuid) :
    ∀ e ∈ policyPermissions policy,
      perm (Database.byKind (db.writePolicy userId policy).permissions userId (· == 1)) e.1 =
        e.2 := by
  intro e he
  have hkinds : (policyPermissions policy).map (fun e => e.1.value) =
      [0, 1, 2, 3, 4, 5, 6, 7, 8, 9, 10, 11, 12, 13, 15, 14, 16, 18, 19, 21, 22, 23, 20, 17] := rfl
  have hholds := holds_foldl userId PermissionKind.value
    (fun b : Bool => if b then (1 : ℤ) else 0) (by rw [hkinds]; decide) he db.permissions
  rw [perm, Database.writePolicy]
  dsimp only [setPermission]
  rw [hholds.lookup_byKind]
  cases e.2 <;> rfl

theorem pref_writePolicy (db : Database Hour) (policy : UserPolicy Hour) (userId : Uuid) :
    ∀ e ∈ Database.policyPreferences policy,
      pref (Database.byKind (db.writePolicy userId policy).preferences userId id) e.1 =
        cells preferenceDelimiter (List.intercalate [preferenceDelimiter] e.2) := by
  intro e he
  have hkinds : (Database.policyPreferences policy).map (fun e => e.1.value) =
      [10, 0, 12, 4, 3, 5, 6] := rfl
  have hholds := holds_foldl userId PreferenceKind.value
    (List.intercalate [preferenceDelimiter]) (by rw [hkinds]; decide) he db.preferences
  rw [pref, Database.writePolicy]
  dsimp only [setPreference]
  rw [hholds.lookup_byKind]
  rfl

theorem filterMap_cells_map {α : Type} {write : α → Text} {read : Text → Option α} {items : List α}
    (hwrite : ∀ item, preferenceDelimiter ∉ write item ∧ write item ≠ [])
    (hread : ∀ item ∈ items, read (write item) = some item) :
    (cells preferenceDelimiter (List.intercalate [preferenceDelimiter]
      (items.map write))).filterMap read = items := by
  have hcells : cells preferenceDelimiter (List.intercalate [preferenceDelimiter]
      (items.map write)) = items.map write := by
    refine cells_intercalate_iff.mpr ⟨fun h => ?_, fun text htext => ?_⟩
    · obtain ⟨item, -, hnil⟩ := List.mem_map.mp (h ▸ List.mem_singleton.mpr rfl)
      exact (hwrite item).2 hnil
    · obtain ⟨item, -, rfl⟩ := List.mem_map.mp htext
      exact (hwrite item).1
  rw [hcells, List.filterMap_map]
  clear hcells
  induction items with
  | nil => rfl
  | cons item items ih =>
    rw [List.forall_mem_cons] at hread
    rw [List.filterMap_cons, Function.comp_apply, hread.1]
    exact congrArg (item :: ·) (ih hread.2)

theorem filterMap_cells_toText (ids : List Uuid) :
    (cells preferenceDelimiter (List.intercalate [preferenceDelimiter]
      (ids.map Uuid.toText))).filterMap parseDotnetGuid = ids := by
  refine filterMap_cells_map (fun id => ⟨fun h => ?_, id.toText_ne_nil⟩)
    fun id _ => id.parseDotnetGuid_toText
  exact id.forall_mem_toText (p := (· ≠ preferenceDelimiter)) (by decide) (by decide) _ h rfl

theorem filterMap_cells_unratedName {items : List UnratedItem}
    (h : ∀ item ∈ items, unratedFromValue (unratedValue item) = item ∧
      IsI32 (unratedValue item)) :
    (cells preferenceDelimiter (List.intercalate [preferenceDelimiter]
      (items.map unratedName))).filterMap parseUnratedItem = items :=
  filterMap_cells_map
    (fun item => ⟨delimiter_notMem_unratedName item, unratedName_ne_nil item⟩)
    fun item hitem => parseUnratedItem_unratedName (h item hitem).1 (h item hitem).2

theorem listSchedules_writePolicy (h : policy.WellFormed) :
    ((db.writePolicy userId policy).listSchedules userId).map
        (fun s => { s with id := 0, userId := 0 }) =
      policy.accessSchedules.map fun s => { s with id := 0, userId := 0 } := by
  have hrows := congrArg (List.map fun t : ℤ × Hour × Hour =>
      ({ id := 0, userId := 0, dayOfWeek := DynamicDayOfWeek.fromJsonValue t.1,
         startHour := t.2.1, endHour := t.2.2 } : AccessSchedule Hour))
    (map_replaceSchedules userId db.schedules policy.accessSchedules)
  rw [List.map_map, List.map_map] at hrows
  rw [Database.listSchedules, Database.writePolicy, List.map_map]
  refine hrows.trans (List.map_congr_left fun s hs => ?_)
  rw [Function.comp_apply, h.dayOfWeek s hs]

theorem id_of_find? {users : List UserRow} {u : UserRow}
    (hu : users.find? (·.id = userId) = some u) : u.id = userId := by
  have h := List.find?_some hu
  exact of_decide_eq_true h

theorem userPolicy_writePolicy {u : UserRow} (hu : db.users.find? (·.id = userId) = some u) :
    (db.writePolicy userId policy).userPolicy userId =
      some ((db.writePolicy userId policy).buildUserPolicy (Database.updateUser policy u)) := by
  have hid : u.id = userId := id_of_find? hu
  have hsame : (fun v : UserRow => decide (v.id = userId)) ∘
      (fun v => if v.id = userId then Database.updateUser policy v else v) =
        fun v => decide (v.id = userId) := by
    funext v
    rw [Function.comp_apply]
    split <;> rfl
  have hfind : (db.writePolicy userId policy).users.find? (·.id = userId) =
      some (Database.updateUser policy u) := by
    rw [Database.writePolicy, List.find?_map, hsame, hu, Option.map_some, if_pos hid]
  rw [Database.userPolicy, hfind, Option.map_some]

theorem maxLoginAttempts_eq (h : IsI32 policy.loginAttemptsBeforeLockout) :
    ((Database.maxLoginAttempts policy).map castI32).getD (-1) =
      if policy.loginAttemptsBeforeLockout = 0 then 3 else policy.loginAttemptsBeforeLockout := by
  unfold Database.maxLoginAttempts
  split
  · next hunlimited =>
    rw [hunlimited]
    rfl
  · split
    · rfl
    · exact castI32_eq h

/-- **The policy that is read back** is the saved one, with its lists cut at each comma. -/
theorem buildUserPolicy_writePolicy (h : policy.WellFormed) {u : UserRow} (hu : u.id = userId) :
    ((db.writePolicy userId policy).buildUserPolicy (Database.updateUser policy u)).persisted =
      policy.recut.persisted := by
  have hid : (Database.updateUser policy u).id = userId := hu
  have hperm := perm_writePolicy db policy userId
  have hpref := pref_writePolicy db policy userId
  simp only [policyPermissions, Database.policyPreferences, List.forall_mem_cons,
    List.not_mem_nil, false_implies, implies_true, and_true] at hperm hpref
  unfold Database.buildUserPolicy UserPolicy.persisted UserPolicy.recut
  dsimp only
  have hlogin : (if policy.loginAttemptsBeforeLockout = 0 then (3 : ℤ)
      else policy.loginAttemptsBeforeLockout) ≠ 0 := by
    split
    · decide
    · assumption
  simp only [hid, hperm, hpref, guidPref, listSchedules_writePolicy h]
  simp only [Database.updateUser, maxLoginAttempts_eq h.loginAttemptsBeforeLockout, if_neg hlogin,
    filterMap_cells_toText, filterMap_cells_unratedName h.unrated,
    map_castI32 h.maxParentalRating, map_castI32 h.maxParentalSubRating,
    castI32_eq h.invalidLoginAttemptCount, castI32_eq h.maxActiveSessions, Option.map_some,
    castI32_eq h.remoteClientBitrateLimit, Option.getD_some, h.syncPlayAccess]

theorem recut_persisted_iff : policy.recut.persisted = policy.persisted ↔ policy.Listable := by
  unfold UserPolicy.Listable Policies.Listable
  rw [← cells_intercalate_iff, ← cells_intercalate_iff, ← cells_intercalate_iff,
    ← cells_intercalate_iff]
  constructor
  · intro h
    exact ⟨congrArg UserPolicy.blockedTags h, congrArg UserPolicy.allowedTags h,
      congrArg UserPolicy.enabledDevices h,
      congrArg UserPolicy.enableContentDeletionFromFolders h⟩
  · rintro ⟨hblocked, hallowed, hdevices, hfolders⟩
    rw [UserPolicy.recut]
    dsimp only
    rw [hblocked, hallowed, hdevices, hfolders]

/-- **The saved policy is read back exactly when its texts have no commas.** -/
theorem savePolicy_readBack (h : policy.WellFormed) {guarded newlyDisabled : Bool}
    {db' : Database Hour} (hsave : db.savePolicy userId policy guarded = .ok (db', newlyDisabled)) :
    ∃ read, db'.userPolicy userId = some read ∧
      (read.persisted = policy.persisted ↔ policy.Listable) := by
  unfold Database.savePolicy at hsave
  split at hsave
  · next hany =>
    split at hsave
    · cases hsave
    · obtain ⟨rfl, -⟩ := Prod.mk.inj (Except.ok.inj hsave)
      obtain ⟨u, hu⟩ := Option.isSome_iff_exists.mp
        (List.find?_isSome.mpr (List.any_eq_true.mp hany))
      have hid : u.id = userId := id_of_find? hu
      refine ⟨_, userPolicy_writePolicy hu, ?_⟩
      rw [buildUserPolicy_writePolicy h hid, recut_persisted_iff]
  · cases hsave

/-- A database with one user and nothing else. -/
def oneUser : Database ℚ where
  users := [{
    id := 1
    maxActiveSessions := 0
    maxParentalRatingScore := none
    maxParentalRatingSubScore := none
    loginAttemptsBeforeLockout := none
    enableUserPreferenceAccess := true
    invalidLoginAttemptCount := 0
    remoteClientBitrateLimit := none
    authenticationProviderId := []
    passwordResetProviderId := []
    syncPlayAccess := 0
    rowVersion := 0 }]
  permissions := []
  preferences := []
  schedules := []

def blocking (tag : Text) : UserPolicy ℚ := { blockedTags := [tag] }

theorem blocking_wellFormed (tag : Text) : (blocking tag).WellFormed where
  maxParentalRating := nofun
  maxParentalSubRating := nofun
  invalidLoginAttemptCount := isI32_zero
  loginAttemptsBeforeLockout := show IsI32 (-1) from ⟨by decide, by decide⟩
  maxActiveSessions := isI32_zero
  remoteClientBitrateLimit := isI32_zero
  syncPlayAccess := rfl
  dayOfWeek := nofun
  unrated := nofun

theorem savePolicy_oneUser (tag : Text) :
    oneUser.savePolicy 1 (blocking tag) false =
      .ok (oneUser.writePolicy 1 (blocking tag), false) := rfl

/-- A policy of several tags, folders and hours. -/
def parental : UserPolicy ℚ where
  blockedTags := ["gore".toList, "horror".toList]
  allowedTags := ["family".toList, "nature".toList]
  enableContentDeletionFromFolders := ["f1".toList, "f2".toList]
  enabledDevices := ["tv".toList]
  enabledFolders := [21, 22]
  blockedMediaFolders := some [23]
  blockUnratedItems := [.movie]
  accessSchedules := [⟨0, 1, .weekday, 16, 19⟩, ⟨0, 1, .sunday, 9, 21 / 2⟩]

theorem parental_wellFormed : parental.WellFormed where
  maxParentalRating := nofun
  maxParentalSubRating := nofun
  invalidLoginAttemptCount := isI32_zero
  loginAttemptsBeforeLockout := show IsI32 (-1) from ⟨by decide, by decide⟩
  maxActiveSessions := isI32_zero
  remoteClientBitrateLimit := isI32_zero
  syncPlayAccess := rfl
  dayOfWeek := by decide
  unrated item hitem := by
    obtain rfl := List.mem_singleton.mp hitem
    exact ⟨rfl, by decide, by decide⟩

theorem savePolicy_readBack_gore :
    ∃ read, (oneUser.writePolicy 1 parental).userPolicy 1 = some read ∧
      read.persisted = parental.persisted := by
  obtain ⟨read, hread, hiff⟩ := savePolicy_readBack parental_wellFormed
    (show oneUser.savePolicy 1 parental false = .ok (oneUser.writePolicy 1 parental, false)
      from rfl)
  refine ⟨read, hread, hiff.mpr ?_⟩
  unfold UserPolicy.Listable Listable
  decide

/-- The tag `drama,comedy` is read back as two tags. -/
theorem blocked_tag_cut :
    ¬∀ (db db' : Database ℚ) (policy : UserPolicy ℚ) (userId : Uuid) (guarded newlyDisabled : Bool),
      policy.WellFormed → db.savePolicy userId policy guarded = .ok (db', newlyDisabled) →
        ∃ read, db'.userPolicy userId = some read ∧ read.persisted = policy.persisted := by
  intro h
  obtain ⟨read, hread, hsame⟩ := h oneUser _ (blocking "drama,comedy".toList) 1 false false
    (blocking_wellFormed _) (savePolicy_oneUser _)
  have hcut : ((oneUser.writePolicy 1 (blocking "drama,comedy".toList)).userPolicy 1).map
      UserPolicy.blockedTags = some ["drama".toList, "comedy".toList] := by decide +kernel
  have htags : read.blockedTags = ["drama,comedy".toList] := congrArg UserPolicy.blockedTags hsame
  rw [hread, Option.map_some, htags] at hcut
  exact absurd hcut (by decide +kernel)

end Ferrofin.Policies
