import Ferrofin.Auth.Lookup

/-!
# The user DTOs and the policy rows are current

Whatever is in the two caches was read after the writes of the invalidations that are
through with them, in every run (`World.Current`).  The lookups under way have read what
they have read under the generation they took.
-/

namespace Ferrofin.Auth

open Lib Util

variable {Database Device Columns Maps Schedules : Type}

/-! ### What was read when -/

def UserDto.stamps (dto : UserDto Columns Maps Schedules) : List Nat :=
  [dto.maps.readAt, dto.schedules.readAt]

def TokenResolution.stamps (r : TokenResolution Device Columns Maps Schedules) : List Nat :=
  r.device.readAt :: (r.user.toList.map Stamped.readAt ++ r.policy.toList.flatMap UserDto.stamps)

def UserPolicyRows.stamps (rows : UserPolicyRows) : List Nat :=
  [rows.permissions.readAt, rows.preferences.readAt]

/-- What an invalidation of the scope drops, of the policy rows under a key. -/
def coversKey (key : String) : Option String → Bool
  | none => true
  | some id => key == toAsciiLowercase id

/-- All was read after the writes of the invalidations that had begun. -/
def AllAfter (g : Generations (Option String)) (drops : Option String → Bool) (tag : Nat)
    (stamps : List Nat) : Prop :=
  ∀ t ∈ stamps, g.ReadAfter (fun scope => drops scope = true) tag t

structure Kept (g : Generations (Option String)) (drops : Option String → Bool)
    (cache tag : Nat) (stamps : List Nat) : Prop where
  tag_le : tag ≤ g.current
  after : AllAfter g drops tag stamps
  survives : g.Survives (fun scope => drops scope = true) cache tag

section Reads

variable {g g' : Generations (Option String)} {drops : Option String → Bool}
  {now cache tag tag' : Nat} {stamps : List Nat}

theorem AllAfter.extend (h : AllAfter g drops tag stamps) (he : g.Extends g')
    (htag : tag ≤ g.current) : AllAfter g' drops tag stamps :=
  fun t ht => he.readAfter _ _ _ htag (h t ht)

theorem AllAfter.of_le (h : AllAfter g drops tag stamps) (hle : tag' ≤ tag) :
    AllAfter g drops tag' stamps := fun t ht => (h t ht).of_le hle

theorem AllAfter.restrict (h : AllAfter g (fun _ => true) tag stamps)
    (drops : Option String → Bool) : AllAfter g drops tag stamps :=
  fun t ht i v hv _ hi => h t ht i v hv rfl hi

theorem allAfter_now (hs : g.Sound now) : AllAfter g drops tag [now] := by
  intro t ht
  rw [List.mem_singleton.mp ht]
  exact hs.readAfter

theorem allAfter_append {more : List Nat} :
    AllAfter g drops tag (stamps ++ more) ↔
      AllAfter g drops tag stamps ∧ AllAfter g drops tag more := List.forall_mem_append

theorem Kept.store (hs : g.Sound now) (htag : g.current = tag)
    (h : AllAfter g drops tag stamps) : Kept g drops cache tag stamps :=
  ⟨htag.ge, h, htag ▸ hs.survives⟩

theorem Kept.begin (h : Kept g drops cache tag stamps) (scope : Option String) (wrote : Nat) :
    Kept (g.begin scope wrote) drops cache tag stamps :=
  ⟨Nat.le_succ_of_le h.tag_le, h.after.extend (Generations.extends_begin _ _) h.tag_le,
    h.survives.begin scope wrote⟩

theorem Kept.advance (h : Kept g drops cache tag stamps) {i : Nat}
    {v : Invalidation (Option String)} (hv : g.invalidations.lookup i = some v)
    (hkeep : v.stage = cache → drops v.scope = false) :
    Kept (g.advance i v) drops cache tag stamps :=
  ⟨h.tag_le, h.after.extend (Generations.extends_advance hv) h.tag_le,
    h.survives.advance hv fun hstage hdrops => by rw [hkeep hstage] at hdrops; cases hdrops⟩

/-- **What is kept was read after the writes of the invalidations that are through.** -/
theorem Kept.le (h : Kept g drops cache tag stamps) {i : Nat}
    {v : Invalidation (Option String)} (hv : g.invalidations.lookup i = some v)
    (hd : drops v.scope = true) (hstage : cache < v.stage) : ∀ t ∈ stamps, v.wrote ≤ t :=
  fun t ht => Generations.le_of_survives (h.after t ht) h.survives hv hd hstage

end Reads

/-! ### Lookups under way -/

/-- `get_user_dto` has read what it has read under the generation it took. -/
def DtoPhase.Ok (g : Generations (Option String)) (least : Nat) :
    DtoPhase Maps Schedules → Prop
  | .probing | .capturing => True
  | .reading t => least ≤ t ∧ t ≤ g.current
  | .scheduling t maps => (least ≤ t ∧ t ≤ g.current) ∧ AllAfter g (fun _ => true) t [maps.readAt]
  | .storing t maps schedules =>
    (least ≤ t ∧ t ≤ g.current) ∧ AllAfter g (fun _ => true) t [maps.readAt, schedules.readAt]

def TokenPhase.Ok (g : Generations (Option String)) :
    TokenPhase Device Columns Maps Schedules → Prop
  | .probing | .capturing => True
  | .device t => t ≤ g.current
  | .user t d => t ≤ g.current ∧ AllAfter g (fun _ => true) t [d.readAt]
  | .dto t d u phase =>
    t ≤ g.current ∧ AllAfter g (fun _ => true) t [d.readAt, u.readAt] ∧ phase.Ok g t
  | .storing t r => t ≤ g.current ∧ AllAfter g (covers r.userId) t r.stamps

/-- So has `user_policy`. -/
def PolicyPhase.Ok (g : Generations (Option String)) : PolicyPhase → Prop
  | .probing | .capturing => True
  | .permissions t => t ≤ g.current
  | .preferences t perms => t ≤ g.current ∧ AllAfter g (fun _ => true) t [perms.readAt]
  | .storing t rows => t ≤ g.current ∧ AllAfter g (fun _ => true) t rows.stamps

section Phases

variable {g g' : Generations (Option String)}

theorem DtoPhase.Ok.extend {phase : DtoPhase Maps Schedules} {least : Nat}
    (h : phase.Ok g least) (he : g.Extends g') : phase.Ok g' least := by
  cases phase with
  | probing | capturing => trivial
  | reading t => exact ⟨h.1, h.2.trans he.current⟩
  | scheduling t maps => exact ⟨⟨h.1.1, h.1.2.trans he.current⟩, h.2.extend he h.1.2⟩
  | storing t maps schedules => exact ⟨⟨h.1.1, h.1.2.trans he.current⟩, h.2.extend he h.1.2⟩

theorem TokenPhase.Ok.extend {phase : TokenPhase Device Columns Maps Schedules} (h : phase.Ok g)
    (he : g.Extends g') : phase.Ok g' := by
  cases phase with
  | probing | capturing => trivial
  | device t => exact h.trans he.current
  | user t d => exact ⟨h.1.trans he.current, h.2.extend he h.1⟩
  | dto t d u phase =>
    exact ⟨h.1.trans he.current, h.2.1.extend he h.1, h.2.2.extend he⟩
  | storing t r => exact ⟨h.1.trans he.current, h.2.extend he h.1⟩

theorem PolicyPhase.Ok.extend {phase : PolicyPhase} (h : phase.Ok g) (he : g.Extends g') :
    phase.Ok g' := by
  cases phase with
  | probing | capturing => trivial
  | permissions t => exact h.trans he.current
  | preferences t perms => exact ⟨h.1.trans he.current, h.2.extend he h.1⟩
  | storing t rows => exact ⟨h.1.trans he.current, h.2.extend he h.1⟩

end Phases

/-- `get_user_dto` inside the lookup of a token. -/
def TokenPhase.nested : TokenPhase Device Columns Maps Schedules → Option (DtoPhase Maps Schedules)
  | .dto _ _ _ phase => some phase
  | .probing | .capturing | .device _ | .user _ _ | .storing _ _ => none

/-- A lookup, as far as it reads user DTOs and policy rows. -/
def Lookup.Ok (auth rows : Generations (Option String)) :
    Lookup Device Columns Maps Schedules → Prop
  | .token _ _ phase => ∀ p ∈ phase.nested, p.Ok auth 0
  | .dto _ phase => phase.Ok auth 0
  | .policy _ phase => phase.Ok rows

theorem Lookup.Ok.extend {auth auth' rows rows' : Generations (Option String)}
    {l : Lookup Device Columns Maps Schedules} (h : l.Ok auth rows) (ha : auth.Extends auth')
    (hr : rows.Extends rows') : l.Ok auth' rows' := by
  cases l with
  | token token refresh phase => exact fun p hp => (h p hp).extend ha
  | dto entity phase => exact DtoPhase.Ok.extend h ha
  | policy userId phase => exact PolicyPhase.Ok.extend h hr

namespace World

variable {Q : Queries Database Device Columns Maps Schedules}
  {w w' : World Database Device Columns Maps Schedules}

/-! ### The user DTOs and the policy rows -/

/-- The invariant: the user DTOs and the policy rows in the caches are kept, and the
lookups under way read under the generation they took. -/
structure Current (w : World Database Device Columns Maps Schedules) : Prop where
  auth : w.auth.generations.Sound w.commits
  rows : w.rows.generations.Sound w.commits
  userDtos : ∀ id hit, w.auth.userDtos.lookup id = some hit →
    hit.dto.user = hit.entity ∧
      Kept w.auth.generations (covers (some id)) 1 hit.tag hit.dto.stamps
  policies : ∀ key hit, w.rows.policies.lookup key = some hit →
    Kept w.rows.generations (coversKey key) 0 hit.tag hit.value.stamps
  lookups : ∀ i l, w.lookups.lookup i = some l → l.Ok w.auth.generations w.rows.generations

theorem Current.init (db : Database) (ttl : Nat) :
    Current ({ db := db, auth := { ttl := ttl } } :
      World Database Device Columns Maps Schedules) where
  auth := .init
  rows := .init
  userDtos id hit hh := by cases hh
  policies key hit hh := by cases hh
  lookups i l hl := by cases hl

theorem Current.goOn (h : w.Current) (i : Nat)
    {next : Option (Lookup Device Columns Maps Schedules)}
    (hnext : ∀ l ∈ next, l.Ok w.auth.generations w.rows.generations) : (w.goOn i next).Current := by
  refine ⟨h.auth, h.rows, h.userDtos, h.policies, fun j l hl => ?_⟩
  cases next with
  | none =>
    rw [World.goOn, KeyedMap.lookup_erase_eq] at hl
    split at hl
    · cases hl
    · exact h.lookups j l hl
  | some l' =>
    rw [World.goOn, KeyedMap.lookup_insert_eq] at hl
    split at hl
    · cases hl
      exact hnext l rfl
    · exact h.lookups j l hl

theorem lookup_makeRoom {ν : Type} {m : KeyedMap String ν} {k : String} {v : ν}
    (h : (makeRoom m).lookup k = some v) : m.lookup k = some v := by
  rw [makeRoom] at h
  split at h
  · cases h
  · exact h

theorem Current.putUserDto (h : w.Current) {t : Nat} {dto : UserDto Columns Maps Schedules}
    (hread : AllAfter w.auth.generations (fun _ => true) t dto.stamps) :
    Current { w with auth := w.auth.putUserDto w.now t dto.user dto } := by
  rw [AuthCache.putUserDto]
  split
  · next hcurrent =>
    refine ⟨h.auth, h.rows, fun id hit hhit => ?_, h.policies, h.lookups⟩
    rw [KeyedMap.lookup_insert_eq] at hhit
    split at hhit
    · next hid =>
      cases hhit
      exact ⟨rfl, .store h.auth hcurrent (hread.restrict _)⟩
    · exact h.userDtos id hit (lookup_makeRoom hhit)
  · exact h

theorem Current.put (h : w.Current) (t : Nat) (token : String)
    (r : TokenResolution Device Columns Maps Schedules) :
    Current { w with auth := w.auth.put w.now t token r } := by
  rw [AuthCache.put]
  split
  · exact ⟨h.auth, h.rows, h.userDtos, h.policies, h.lookups⟩
  · exact h

theorem Current.putPolicy (h : w.Current) {t : Nat} {rows : UserPolicyRows}
    (hread : AllAfter w.rows.generations (fun _ => true) t rows.stamps) (userId : String) :
    Current { w with rows := w.rows.putPolicy w.now t userId rows } := by
  rw [RowCache.putPolicy]
  split
  · next hcurrent =>
    refine ⟨h.auth, h.rows, h.userDtos, fun key hit hhit => ?_, h.lookups⟩
    rw [KeyedMap.lookup_insert_eq] at hhit
    split at hhit
    · cases hhit
      exact .store h.rows hcurrent.2 (hread.restrict _)
    · exact h.policies key hit hhit
  · exact h

variable [DecidableEq Columns]

/-- `get_user_dto` reads on under the generation it took. -/
theorem advanceDto_ok (hs : w.auth.generations.Sound w.commits) {entity : UserEntity Columns}
    {phase next : DtoPhase Maps Schedules} {least : Nat} (h : phase.Ok w.auth.generations least)
    (hleast : least ≤ w.auth.generations.current)
    (hnext : (w.advanceDto Q entity phase).2 = .inr next) : next.Ok w.auth.generations least := by
  cases phase with
  | probing =>
    rw [advanceDto] at hnext
    dsimp only at hnext
    split at hnext
    · cases hnext
    · obtain rfl := Sum.inr.inj hnext
      trivial
  | capturing =>
    obtain rfl := Sum.inr.inj hnext
    exact ⟨hleast, Nat.le_refl _⟩
  | reading t =>
    obtain rfl := Sum.inr.inj hnext
    exact ⟨h, allAfter_now hs⟩
  | scheduling t maps =>
    obtain rfl := Sum.inr.inj hnext
    exact ⟨h.1, allAfter_append.mpr ⟨h.2, allAfter_now hs⟩⟩
  | storing t maps schedules => cases hnext

theorem Current.advanceDto (h : w.Current) (Q : Queries Database Device Columns Maps Schedules)
    (entity : UserEntity Columns) {phase : DtoPhase Maps Schedules} {least : Nat}
    (hphase : phase.Ok w.auth.generations least) :
    (w.advanceDto Q entity phase).1.Current ∧
      (w.advanceDto Q entity phase).1.auth.generations = w.auth.generations ∧
      (w.advanceDto Q entity phase).1.rows = w.rows := by
  cases phase with
  | probing | capturing | reading | scheduling => exact ⟨h, rfl, rfl⟩
  | storing t maps schedules =>
    have hread : AllAfter w.auth.generations (fun _ => true) t
        ({ user := entity, maps := maps, schedules := schedules } :
          UserDto Columns Maps Schedules).stamps := hphase.2
    refine ⟨h.putUserDto hread, ?_, rfl⟩
    show (w.auth.putUserDto w.now t entity _).generations = _
    rw [AuthCache.putUserDto]
    split <;> rfl

/-- `resolve_device_token`, as far as it assembles a user's DTO. -/
theorem Current.advanceToken (h : w.Current) (Q : Queries Database Device Columns Maps Schedules)
    (token : String) (refresh : Device → Device)
    {phase : TokenPhase Device Columns Maps Schedules}
    (hphase : ∀ p ∈ phase.nested, p.Ok w.auth.generations 0) :
    (w.advanceToken Q token refresh phase).1.Current ∧
      ∀ next ∈ (w.advanceToken Q token refresh phase).2, ∀ p ∈ next.nested,
        p.Ok (w.advanceToken Q token refresh phase).1.auth.generations 0 := by
  cases phase with
  | probing =>
    refine ⟨h, fun next hnext p hp => ?_⟩
    rw [World.advanceToken] at hnext
    dsimp only at hnext
    split at hnext
    · cases hnext
    · cases hnext
      cases hp
  | capturing =>
    refine ⟨h, fun next hnext p hp => ?_⟩
    cases hnext
    cases hp
  | device t =>
    refine ⟨h, fun next hnext p hp => ?_⟩
    obtain ⟨d, -, rfl⟩ := Option.map_eq_some_iff.mp hnext
    cases hp
  | user t d =>
    refine ⟨h, fun next hnext p hp => ?_⟩
    rw [World.advanceToken] at hnext
    dsimp only at hnext
    split at hnext <;> obtain rfl := Option.some.inj hnext
    · cases hp
    · cases hp
      trivial
  | dto t d u phase =>
    have hok := hphase phase rfl
    obtain ⟨hcurrent, hgens, -⟩ := h.advanceDto Q u.value hok
    have hnextOk : ∀ next, (w.advanceDto Q u.value phase).2 = .inr next →
        next.Ok w.auth.generations 0 := fun next => advanceDto_ok h.auth hok (Nat.zero_le _)
    rw [World.advanceToken]
    generalize w.advanceDto Q u.value phase = r at hcurrent hgens hnextOk
    obtain ⟨w₁, dto | phase'⟩ := r
    · refine ⟨hcurrent, fun next hnext p hp => ?_⟩
      cases hnext
      cases hp
    · refine ⟨hcurrent, fun next hnext p hp => ?_⟩
      cases hnext
      cases hp
      show DtoPhase.Ok w₁.auth.generations 0 phase'
      rw [hgens]
      exact hnextOk phase' rfl
  | storing t r => exact ⟨h.put t token r, fun next hnext => by cases hnext⟩

omit [DecidableEq Columns] in
/-- `user_policy` reads on under the generation it took, and stores. -/
theorem Current.advancePolicy (h : w.Current)
    (Q : Queries Database Device Columns Maps Schedules) (userId : String) {phase : PolicyPhase}
    (hphase : phase.Ok w.rows.generations) :
    (w.advancePolicy Q userId phase).1.Current ∧
      ∀ next ∈ (w.advancePolicy Q userId phase).2,
        next.Ok (w.advancePolicy Q userId phase).1.rows.generations := by
  cases phase with
  | probing =>
    refine ⟨h, fun next hnext => ?_⟩
    rw [World.advancePolicy] at hnext
    dsimp only at hnext
    split at hnext
    · cases hnext
    · cases hnext
      trivial
  | capturing =>
    refine ⟨h, fun next hnext => ?_⟩
    cases hnext
    exact Nat.le_refl _
  | permissions t =>
    refine ⟨h, fun next hnext => ?_⟩
    cases hnext
    exact ⟨hphase, allAfter_now h.rows⟩
  | preferences t perms =>
    refine ⟨h, fun next hnext => ?_⟩
    cases hnext
    exact ⟨hphase.1, allAfter_append.mpr ⟨hphase.2, allAfter_now h.rows⟩⟩
  | storing t rows => exact ⟨h.putPolicy hphase.2 userId, fun next hnext => by cases hnext⟩

theorem Current.advance (h : w.Current) (i : Nat) {l : Lookup Device Columns Maps Schedules}
    (hl : l.Ok w.auth.generations w.rows.generations) : (w.advance Q i l).Current := by
  cases l with
  | token token refresh phase =>
    obtain ⟨hcurrent, hnext⟩ := h.advanceToken Q token refresh hl
    refine hcurrent.goOn i fun l hl => ?_
    obtain ⟨next, hn, rfl⟩ := Option.map_eq_some_iff.mp hl
    exact hnext next hn
  | dto entity phase =>
    obtain ⟨hcurrent, hgens, -⟩ := h.advanceDto Q entity hl
    have hnext : ∀ next, (w.advanceDto Q entity phase).2 = .inr next →
        next.Ok w.auth.generations 0 := fun next => advanceDto_ok h.auth hl (Nat.zero_le _)
    rw [World.advance]
    generalize w.advanceDto Q entity phase = r at hcurrent hgens hnext
    obtain ⟨w₁, dto | phase'⟩ := r
    · exact hcurrent.goOn i fun l hl => by cases hl
    · refine hcurrent.goOn i fun l hl => ?_
      cases hl
      show DtoPhase.Ok w₁.auth.generations 0 phase'
      rw [hgens]
      exact hnext phase' rfl
  | policy userId phase =>
    obtain ⟨hcurrent, hnext⟩ := h.advancePolicy Q userId hl
    refine hcurrent.goOn i fun l hl => ?_
    obtain ⟨next, hn, rfl⟩ := Option.map_eq_some_iff.mp hl
    exact hnext next hn

omit [DecidableEq Columns] in
theorem start_eq {i : Nat} {l : Lookup Device Columns Maps Schedules}
    (h : w.start i l = some w') : w' = w.goOn i (some l) := by
  rw [start] at h
  split at h
  · cases h
  · exact (Option.some.inj h).symm

omit [DecidableEq Columns] in
/-- What `clear` and `invalidate_user` keep of the user DTOs. -/
theorem lookup_keptUserDtos {c : AuthCache Device Columns Maps Schedules} {scope : Option String}
    {id : String} {hit : CachedUserDto Columns Maps Schedules}
    (h : (c.keptUserDtos scope).lookup id = some hit) :
    c.userDtos.lookup id = some hit ∧ covers (some id) scope = false := by
  cases scope with
  | none => cases h
  | some u =>
    rw [AuthCache.keptUserDtos, KeyedMap.lookup_retain, Option.filter_eq_some_iff] at h
    exact ⟨h.1, by simpa using h.2⟩

/-- What `invalidate_policy` keeps. -/
theorem lookup_keptPolicies {c : RowCache} {userId : Option String} {key : String}
    {hit : CachedRows} (h : (c.keptPolicies userId).lookup key = some hit) :
    c.policies.lookup key = some hit ∧ coversKey key userId = false := by
  cases userId with
  | none => cases h
  | some id =>
    rw [RowCache.keptPolicies, KeyedMap.lookup_erase_eq] at h
    split at h
    · cases h
    · next hne => exact ⟨h, beq_eq_false_iff_ne.mpr hne⟩

omit [DecidableEq Columns] in
theorem Current.invalidateAuth (h : w.Current) {i : Nat}
    {auth : AuthCache Device Columns Maps Schedules} (hauth : w.auth.invalidate i = some auth) :
    Current { w with auth := auth } := by
  obtain ⟨v, hv, hauth⟩ := Option.bind_eq_some_iff.mp hauth
  have hext := Generations.extends_advance hv
  have hlookups : ∀ i l, w.lookups.lookup i = some l →
      l.Ok (w.auth.generations.advance _ v) w.rows.generations :=
    fun i l hl => (h.lookups i l hl).extend hext (.refl _)
  split at hauth
  · next hstage =>
    cases hauth
    refine ⟨h.auth.advance hv, h.rows, fun id hit hhit => ?_, h.policies, hlookups⟩
    obtain ⟨huser, hkept⟩ := h.userDtos id hit hhit
    refine ⟨huser, hkept.advance hv fun hone => ?_⟩
    rw [hstage] at hone
    cases hone
  · cases hauth
    refine ⟨h.auth.advance hv, h.rows, fun id hit hhit => ?_, h.policies, hlookups⟩
    obtain ⟨hhit, hcovers⟩ := lookup_keptUserDtos hhit
    obtain ⟨huser, hkept⟩ := h.userDtos id hit hhit
    exact ⟨huser, hkept.advance hv fun _ => hcovers⟩
  · cases hauth

omit [DecidableEq Columns] in
theorem Current.invalidateRows (h : w.Current) {i : Nat} {rows : RowCache}
    (hrows : w.rows.invalidate i = some rows) : Current { w with rows := rows } := by
  obtain ⟨v, hv, hrows⟩ := Option.bind_eq_some_iff.mp hrows
  split at hrows
  · obtain rfl := Option.some.inj hrows
    refine ⟨h.auth, h.rows.advance hv, h.userDtos, fun key hit hhit => ?_, fun i l hl => ?_⟩
    · obtain ⟨hhit, hcovers⟩ := lookup_keptPolicies hhit
      exact (h.policies key hit hhit).advance hv fun _ => hcovers
    · exact (h.lookups i l hl).extend (.refl _) (Generations.extends_advance hv)
  · cases hrows

/-- **Every step keeps the user DTOs and the policy rows current.** -/
theorem Current.step {e : Event Database Device Columns} (h : w.Current)
    (hs : w.step Q e = some w') : w'.Current := by
  cases e with
  | commit db =>
    cases hs
    exact ⟨h.auth.mono (Nat.le_succ _), h.rows.mono (Nat.le_succ _), h.userDtos, h.policies,
      h.lookups⟩
  | tick =>
    cases hs
    exact ⟨h.auth, h.rows, h.userDtos, h.policies, h.lookups⟩
  | beginAuth scope wrote =>
    rw [World.step] at hs
    split at hs
    · next hle =>
      cases hs
      refine ⟨h.auth.begin hle, h.rows, fun id hit hhit => ?_, h.policies, fun i l hl => ?_⟩
      · obtain ⟨huser, hkept⟩ := h.userDtos id hit hhit
        exact ⟨huser, hkept.begin scope wrote⟩
      · exact (h.lookups i l hl).extend (Generations.extends_begin _ _) (.refl _)
    · cases hs
  | invalidateAuth i =>
    obtain ⟨auth, hauth, rfl⟩ := Option.map_eq_some_iff.mp hs
    exact h.invalidateAuth hauth
  | enableRows ttl =>
    cases hs
    exact ⟨h.auth, h.rows, h.userDtos, h.policies, h.lookups⟩
  | beginRows scope wrote =>
    rw [World.step] at hs
    split at hs
    · next hle =>
      cases hs
      refine ⟨h.auth, h.rows.begin hle, h.userDtos, fun key hit hhit => ?_, fun i l hl => ?_⟩
      · exact (h.policies key hit hhit).begin scope wrote
      · exact (h.lookups i l hl).extend (.refl _) (Generations.extends_begin _ _)
    · cases hs
  | invalidateRows i =>
    obtain ⟨rows, hrows, rfl⟩ := Option.map_eq_some_iff.mp hs
    exact h.invalidateRows hrows
  | lookupToken i token refresh =>
    rw [start_eq hs]
    refine h.goOn i fun l hl => ?_
    cases hl
    exact fun p hp => by cases hp
  | lookupDto i entity =>
    rw [start_eq hs]
    refine h.goOn i fun l hl => ?_
    cases hl
    trivial
  | lookupPolicy i userId =>
    rw [start_eq hs]
    refine h.goOn i fun l hl => ?_
    cases hl
    trivial
  | advance i =>
    obtain ⟨l, hl, rfl⟩ := Option.map_eq_some_iff.mp hs
    exact h.advance i (h.lookups i l hl)
  | abort i =>
    cases hs
    exact h.goOn i fun l hl => by cases hl

end World

end Ferrofin.Auth
