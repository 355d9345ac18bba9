import Ferrofin.Auth.Current

/-!
# Nothing revoked is served

The resolution of a token takes its policy from the user's DTO, and that may come from
the cache of the DTOs.  An invalidation drops the resolutions before the DTOs, so a
lookup that began after it can store a policy from before its write, which it drops no
more.  As long as no lookup finds such a DTO (`World.Settled`), the resolutions are
current as well.
-/

namespace Ferrofin.Auth

open Lib Util

variable {Database Device Columns Maps Schedules : Type}

/-! ### The condition -/

def Lookup.probes : Lookup Device Columns Maps Schedules → Option (Nat × UserEntity Columns)
  | .token _ _ (.dto generation _ user .probing) => some (generation, user.value)
  | .token _ _ _ | .dto _ _ | .policy _ _ => none

/-- The invalidations that had begun with generation `tag` and have still to drop the
user's DTO are for writes the DTO had read. -/
def NoneAhead (g : Generations (Option String)) (tag : Nat) (id : String)
    (stamps : List Nat) : Prop :=
  ∀ e ∈ g.invalidations.entries, e.1 ≤ tag → covers (some id) e.2.scope = true →
    e.2.stage ≤ 1 → ∀ t ∈ stamps, e.2.wrote ≤ t

instance (g : Generations (Option String)) (tag : Nat) (id : String) (stamps : List Nat) :
    Decidable (NoneAhead g tag id stamps) :=
  inferInstanceAs (Decidable (∀ e ∈ g.invalidations.entries, e.1 ≤ tag →
    covers (some id) e.2.scope = true → e.2.stage ≤ 1 → ∀ t ∈ stamps, e.2.wrote ≤ t))

/-- No lookup of a token takes its policy from a DTO of before the write of an
invalidation that had begun when the lookup took its generation. -/
def World.Settled [DecidableEq Columns] (w : World Database Device Columns Maps Schedules) :
    Event Database Device Columns → Prop
  | .advance i => ∀ l ∈ w.lookups.lookup i, ∀ p ∈ l.probes,
      ∀ dto ∈ w.auth.getUserDto w.now p.2,
        NoneAhead w.auth.generations p.1 p.2.id dto.stamps
  | .commit _ | .tick | .beginAuth _ _ | .invalidateAuth _ | .enableRows _ | .beginRows _ _
  | .invalidateRows _ | .lookupToken _ _ _ | .lookupDto _ _ | .lookupPolicy _ _
  | .abort _ => True

instance [DecidableEq Columns] (w : World Database Device Columns Maps Schedules)
    (e : Event Database Device Columns) : Decidable (w.Settled e) := by
  cases e with
  | advance i =>
    exact inferInstanceAs (Decidable (∀ l ∈ w.lookups.lookup i, ∀ p ∈ l.probes,
      ∀ dto ∈ w.auth.getUserDto w.now p.2,
        NoneAhead w.auth.generations p.1 p.2.id dto.stamps))
  | commit | tick | beginAuth | invalidateAuth | enableRows | beginRows | invalidateRows
  | lookupToken | lookupDto | lookupPolicy | abort => exact inferInstanceAs (Decidable True)

namespace World

variable {Q : Queries Database Device Columns Maps Schedules}
  {w w' : World Database Device Columns Maps Schedules}

/-! ### The resolutions -/

/-- The invariant: besides, the resolutions in the cache are kept, and the lookups of
tokens under way read under the generation they took. -/
structure Resolved (w : World Database Device Columns Maps Schedules) : Prop where
  current : w.Current
  entries : ∀ token hit, w.auth.entries.lookup token = some hit →
    Kept w.auth.generations (covers hit.resolution.userId) 0 hit.tag hit.resolution.stamps
  tokens : ∀ i token refresh phase, w.lookups.lookup i = some (.token token refresh phase) →
    phase.Ok w.auth.generations

theorem Resolved.init (db : Database) (ttl : Nat) :
    Resolved ({ db := db, auth := { ttl := ttl } } :
      World Database Device Columns Maps Schedules) where
  current := .init db ttl
  entries token hit hh := by cases hh
  tokens i token refresh phase hl := by cases hl

/-- The tokens' part of the invariant looks at the entries, the generations and the
lookups only. -/
theorem Resolved.congr (h : w.Resolved) (hcurrent : w'.Current)
    (hentries : w'.auth.entries = w.auth.entries)
    (hgens : w'.auth.generations = w.auth.generations) (hlookups : w'.lookups = w.lookups) :
    w'.Resolved := by
  refine ⟨hcurrent, fun token hit hhit => ?_, fun i token refresh phase hl => ?_⟩
  · rw [hentries] at hhit
    rw [hgens]
    exact h.entries token hit hhit
  · rw [hlookups] at hl
    rw [hgens]
    exact h.tokens i token refresh phase hl

theorem Resolved.goOn (h : w.Resolved) (i : Nat)
    {next : Option (Lookup Device Columns Maps Schedules)} (hcurrent : (w.goOn i next).Current)
    (hnext : ∀ token refresh phase, next = some (.token token refresh phase) →
      phase.Ok w.auth.generations) : (w.goOn i next).Resolved := by
  refine ⟨hcurrent, h.entries, fun j token refresh phase hl => ?_⟩
  cases next with
  | none =>
    rw [World.goOn, KeyedMap.lookup_erase_eq] at hl
    split at hl
    · cases hl
    · exact h.tokens j token refresh phase hl
  | some l =>
    rw [World.goOn, KeyedMap.lookup_insert_eq] at hl
    split at hl
    · exact hnext token refresh phase hl
    · exact h.tokens j token refresh phase hl

theorem Resolved.put (h : w.Resolved) {t : Nat} (token : String)
    {r : TokenResolution Device Columns Maps Schedules}
    (hread : AllAfter w.auth.generations (covers r.userId) t r.stamps) :
    Resolved { w with auth := w.auth.put w.now t token r } := by
  have hcurrent := h.current.put t token r
  rw [AuthCache.put] at hcurrent ⊢
  split at hcurrent
  · next htag =>
    rw [if_pos htag]
    refine ⟨hcurrent, fun k hit hhit => ?_, h.tokens⟩
    rw [KeyedMap.lookup_insert_eq] at hhit
    split at hhit
    · cases hhit
      exact .store h.current.auth htag hread
    · exact h.entries k hit (lookup_makeRoom hhit)
  · next htag =>
    rw [if_neg htag]
    exact h

variable [DecidableEq Columns]

theorem getUserDto_eq {c : AuthCache Device Columns Maps Schedules} {now : Nat}
    {entity : UserEntity Columns} {dto : UserDto Columns Maps Schedules}
    (h : c.getUserDto now entity = some dto) :
    ∃ hit, c.userDtos.lookup entity.id = some hit ∧ hit.entity = entity ∧ hit.dto = dto := by
  obtain ⟨hit, hhit, h⟩ := Option.bind_eq_some_iff.mp h
  split at h
  · cases h
  · next hne =>
    rw [not_or, not_not] at hne
    exact ⟨hit, hhit, hne.2, Option.some.inj h⟩

/-- **The DTO `get_user_dto` returns was read after the writes of the invalidations that
had begun when the lookup of the token took its generation.** -/
theorem Current.returnedDto (h : w.Current) {entity : UserEntity Columns}
    {phase : DtoPhase Maps Schedules} {dto : UserDto Columns Maps Schedules} {t : Nat}
    (hphase : phase.Ok w.auth.generations t)
    (hnone : phase = .probing → ∀ dto ∈ w.auth.getUserDto w.now entity,
      NoneAhead w.auth.generations t entity.id dto.stamps)
    (hdto : (w.advanceDto Q entity phase).2 = .inl dto) :
    AllAfter w.auth.generations (covers (some entity.id)) t dto.stamps := by
  cases phase with
  | probing =>
    rw [World.advanceDto] at hdto
    dsimp only at hdto
    split at hdto
    · next hget =>
      obtain rfl := Sum.inl.inj hdto
      obtain ⟨hit, hhit, -, rfl⟩ := getUserDto_eq hget
      have hkept := (h.userDtos _ hit hhit).2
      intro s hs i v hv hcovers hi
      by_cases hstage : 1 < v.stage
      · exact hkept.le hv hcovers hstage s hs
      · exact hnone rfl _ hget ⟨i, v⟩ (AList.mem_lookup_iff.mp hv) hi hcovers
          (Nat.le_of_not_lt hstage) s hs
    · cases hdto
  | capturing | reading | scheduling => cases hdto
  | storing generation maps schedules =>
    obtain rfl := Sum.inl.inj hdto
    exact (hphase.2.restrict _).of_le hphase.1.1

/-- `get_user_dto` leaves the resolutions alone. -/
theorem advanceDto_entries (w : World Database Device Columns Maps Schedules)
    (entity : UserEntity Columns) (phase : DtoPhase Maps Schedules) :
    (w.advanceDto Q entity phase).1.auth.entries = w.auth.entries ∧
      (w.advanceDto Q entity phase).1.lookups = w.lookups := by
  cases phase with
  | probing | capturing | reading | scheduling => exact ⟨rfl, rfl⟩
  | storing t maps schedules =>
    refine ⟨?_, rfl⟩
    show (w.auth.putUserDto w.now t entity _).entries = _
    rw [AuthCache.putUserDto]
    split <;> rfl

/-- `resolve_device_token` reads on under the generation it took, and stores. -/
theorem Resolved.advanceToken (h : w.Resolved) (token : String) (refresh : Device → Device)
    {phase : TokenPhase Device Columns Maps Schedules} (hphase : phase.Ok w.auth.generations)
    (hnone : ∀ p ∈ Lookup.probes (.token token refresh phase),
      ∀ dto ∈ w.auth.getUserDto w.now p.2,
        NoneAhead w.auth.generations p.1 p.2.id dto.stamps) :
    (w.advanceToken Q token refresh phase).1.Resolved ∧
      ∀ next ∈ (w.advanceToken Q token refresh phase).2,
        next.Ok (w.advanceToken Q token refresh phase).1.auth.generations := by
  cases phase with
  | probing =>
    refine ⟨h, fun next hnext => ?_⟩
    rw [World.advanceToken] at hnext
    dsimp only at hnext
    split at hnext
    · cases hnext
    · cases hnext
      trivial
  | capturing =>
    refine ⟨h, fun next hnext => ?_⟩
    cases hnext
    exact Nat.le_refl _
  | device t =>
    refine ⟨h, fun next hnext => ?_⟩
    obtain ⟨d, -, rfl⟩ := Option.map_eq_some_iff.mp hnext
    exact ⟨hphase, allAfter_now h.current.auth⟩
  | user t d =>
    refine ⟨h, fun next hnext => ?_⟩
    rw [World.advanceToken] at hnext
    dsimp only at hnext
    split at hnext <;> obtain rfl := Option.some.inj hnext
    · exact ⟨hphase.1, hphase.2.restrict _⟩
    · exact ⟨hphase.1, allAfter_append.mpr ⟨hphase.2, allAfter_now h.current.auth⟩, trivial⟩
  | dto t d u phase =>
    obtain ⟨ht, hread, hdto⟩ := hphase
    obtain ⟨hcurrent, hgens, -⟩ := h.current.advanceDto Q u.value hdto
    obtain ⟨hentries, hlookups⟩ := advanceDto_entries (Q := Q) w u.value phase
    have hresolved := h.congr hcurrent hentries hgens hlookups
    have hnext : ∀ next, (w.advanceDto Q u.value phase).2 = .inr next →
        next.Ok w.auth.generations t := fun next => advanceDto_ok h.current.auth hdto ht
    have hreturned : ∀ dto, (w.advanceDto Q u.value phase).2 = .inl dto →
        AllAfter w.auth.generations (covers (some u.value.id)) t dto.stamps := by
      intro dto
      refine h.current.returnedDto hdto fun hprobing => ?_
      subst hprobing
      exact hnone _ rfl
    rw [World.advanceToken]
    generalize w.advanceDto Q u.value phase = r at hresolved hgens hnext hreturned
    obtain ⟨w₁, dto | phase'⟩ := r
    · refine ⟨hresolved, fun next hn => ?_⟩
      cases hn
      show t ≤ w₁.auth.generations.current ∧ _
      rw [hgens]
      refine ⟨ht, ?_⟩
      show AllAfter _ _ t ([d.readAt, u.readAt] ++ (dto.stamps ++ []))
      rw [List.append_nil]
      exact allAfter_append.mpr ⟨hread.restrict _, hreturned dto rfl⟩
    · refine ⟨hresolved, fun next hn => ?_⟩
      cases hn
      show t ≤ w₁.auth.generations.current ∧ _
      rw [hgens]
      exact ⟨ht, hread, hnext phase' rfl⟩
  | storing t r =>
    exact ⟨h.put token hphase.2, fun next hnext => by cases hnext⟩

theorem Resolved.advance (h : w.Resolved) {i : Nat} {l : Lookup Device Columns Maps Schedules}
    (hl : w.lookups.lookup i = some l)
    (hnone : ∀ p ∈ l.probes, ∀ dto ∈ w.auth.getUserDto w.now p.2,
      NoneAhead w.auth.generations p.1 p.2.id dto.stamps) : (w.advance Q i l).Resolved := by
  have hcurrent := h.current.advance (Q := Q) i (h.current.lookups i l hl)
  cases l with
  | token token refresh phase =>
    obtain ⟨hresolved, hnext⟩ :=
      h.advanceToken (Q := Q) token refresh (h.tokens i token refresh phase hl) hnone
    refine hresolved.goOn i hcurrent fun token' refresh' phase' heq => ?_
    obtain ⟨next, hn, hlookup⟩ := Option.map_eq_some_iff.mp heq
    cases hlookup
    exact hnext phase' hn
  | dto entity phase =>
    have hok : phase.Ok w.auth.generations 0 := h.current.lookups i _ hl
    obtain ⟨hdto, hgens, -⟩ := h.current.advanceDto Q entity hok
    obtain ⟨hentries, hlookups⟩ := advanceDto_entries (Q := Q) w entity phase
    have hresolved := h.congr hdto hentries hgens hlookups
    rw [World.advance] at hcurrent ⊢
    generalize w.advanceDto Q entity phase = r at hcurrent hresolved
    obtain ⟨w₁, dto | phase'⟩ := r
    · exact hresolved.goOn i hcurrent fun _ _ _ heq => by cases heq
    · exact hresolved.goOn i hcurrent fun _ _ _ heq => by cases heq
  | policy userId phase =>
    have hok : phase.Ok w.rows.generations := h.current.lookups i _ hl
    obtain ⟨hpolicy, -⟩ := h.current.advancePolicy Q userId hok
    have hframe : (w.advancePolicy Q userId phase).1.auth = w.auth ∧
        (w.advancePolicy Q userId phase).1.lookups = w.lookups := by
      cases phase <;> exact ⟨rfl, rfl⟩
    have hresolved := h.congr hpolicy (congrArg AuthCache.entries hframe.1)
      (congrArg AuthCache.generations hframe.1) hframe.2
    refine hresolved.goOn i hcurrent fun token refresh phase' heq => ?_
    obtain ⟨next, -, hlookup⟩ := Option.map_eq_some_iff.mp heq
    cases hlookup

omit [DecidableEq Columns] in
/-- What `clear` and `invalidate_user` keep of the resolutions. -/
theorem lookup_keptEntries {c : AuthCache Device Columns Maps Schedules} {scope : Option String}
    {token : String} {hit : CachedAuth Device Columns Maps Schedules}
    (h : (c.keptEntries scope).lookup token = some hit) :
    c.entries.lookup token = some hit ∧ covers hit.resolution.userId scope = false := by
  cases scope with
  | none => cases h
  | some u =>
    rw [AuthCache.keptEntries, KeyedMap.lookup_retain, Option.filter_eq_some_iff] at h
    exact ⟨h.1, by simpa using h.2⟩

omit [DecidableEq Columns] in
theorem Resolved.invalidateAuth (h : w.Resolved) {i : Nat}
    {auth : AuthCache Device Columns Maps Schedules} (hauth : w.auth.invalidate i = some auth) :
    Resolved { w with auth := auth } := by
  have hcurrent := h.current.invalidateAuth hauth
  obtain ⟨v, hv, hauth⟩ := Option.bind_eq_some_iff.mp hauth
  have htokens : ∀ i token refresh phase,
      w.lookups.lookup i = some (.token token refresh phase) →
        phase.Ok (w.auth.generations.advance _ v) := fun i token refresh phase hl =>
    (h.tokens i token refresh phase hl).extend (Generations.extends_advance hv)
  split at hauth
  · cases hauth
    refine ⟨hcurrent, fun token hit hhit => ?_, htokens⟩
    obtain ⟨hhit, hcovers⟩ := lookup_keptEntries hhit
    exact (h.entries token hit hhit).advance hv fun _ => hcovers
  · next hstage =>
    cases hauth
    refine ⟨hcurrent, fun token hit hhit => ?_, htokens⟩
    refine (h.entries token hit hhit).advance hv fun hzero => ?_
    rw [hstage] at hzero
    cases hzero
  · cases hauth

/-- **Every step keeps the resolutions current**, as long as no lookup finds a DTO that is
still to be dropped. -/
theorem Resolved.step {e : Event Database Device Columns} (h : w.Resolved) (hok : w.Settled e)
    (hs : w.step Q e = some w') : w'.Resolved := by
  have hcurrent := h.current.step hs
  cases e with
  | commit db | tick | enableRows ttl =>
    cases hs
    exact h.congr hcurrent rfl rfl rfl
  | beginAuth scope wrote =>
    rw [World.step] at hs
    split at hs
    · cases hs
      refine ⟨hcurrent, fun token hit hhit => ?_, fun i token refresh phase hl => ?_⟩
      · exact (h.entries token hit hhit).begin scope wrote
      · exact (h.tokens i token refresh phase hl).extend (Generations.extends_begin _ _)
    · cases hs
  | invalidateAuth i =>
    obtain ⟨auth, hauth, rfl⟩ := Option.map_eq_some_iff.mp hs
    exact h.invalidateAuth hauth
  | beginRows scope wrote =>
    rw [World.step] at hs
    split at hs
    · cases hs
      exact h.congr hcurrent rfl rfl rfl
    · cases hs
  | invalidateRows i =>
    obtain ⟨rows, -, rfl⟩ := Option.map_eq_some_iff.mp hs
    exact h.congr hcurrent rfl rfl rfl
  | lookupToken i token refresh =>
    obtain rfl := start_eq hs
    refine h.goOn i hcurrent fun token' refresh' phase heq => ?_
    cases heq
    trivial
  | lookupDto i entity =>
    obtain rfl := start_eq hs
    exact h.goOn i hcurrent fun _ _ _ heq => by cases heq
  | lookupPolicy i userId =>
    obtain rfl := start_eq hs
    exact h.goOn i hcurrent fun _ _ _ heq => by cases heq
  | advance i =>
    obtain ⟨l, hl, rfl⟩ := Option.map_eq_some_iff.mp hs
    exact h.advance hl fun p hp => hok l hl p hp
  | abort i =>
    cases hs
    exact h.goOn i hcurrent fun _ _ _ heq => by cases heq

theorem resolved_of_reaches {db : Database} {ttl : Nat}
    (h : (caches Q db ttl).Reaches World.Settled w) : w.Resolved :=
  h.invariant (.init db ttl) fun _ _ _ hresolved hok hs => hresolved.step hok hs

end World

/-! ### What is served -/

/-- The writes whose invalidation of the user in the auth cache has completed. -/
def AuthCache.Revoked (c : AuthCache Device Columns Maps Schedules) (userId : Option String)
    (wrote : Nat) : Prop :=
  ∃ i v, c.generations.invalidations.lookup i = some v ∧ covers userId v.scope = true ∧
    v.stage = 2 ∧ v.wrote = wrote

/-- The writes whose invalidation of the user's policy rows has completed. -/
def RowCache.Revoked (c : RowCache) (userId : String) (wrote : Nat) : Prop :=
  ∃ i v, c.generations.invalidations.lookup i = some v ∧ covers (some userId) v.scope = true ∧
    v.stage = 1 ∧ v.wrote = wrote

theorem coversKey_iff {id : String} {scope : Option String} :
    coversKey (toAsciiLowercase id) scope = covers (some id) scope := by
  cases scope with
  | none => rfl
  | some u =>
    rw [Bool.eq_iff_iff, coversKey, beq_iff_eq, toAsciiLowercase_eq_iff]
    rfl

/-- **Nothing revoked is served**: whatever a cache returns was read after the writes
whose invalidation of it has completed. -/
theorem revocation_correct [DecidableEq Columns]
    {Q : Queries Database Device Columns Maps Schedules} {db : Database} {ttl : Nat}
    {w : World Database Device Columns Maps Schedules}
    (h : (caches Q db ttl).Reaches World.Settled w) :
    (∀ token r, w.auth.get w.now token = some r →
      ∀ wrote, w.auth.Revoked r.userId wrote → ∀ t ∈ r.stamps, wrote ≤ t) ∧
    (∀ entity dto, w.auth.getUserDto w.now entity = some dto →
      dto.user = entity ∧
        ∀ wrote, w.auth.Revoked (some entity.id) wrote → ∀ t ∈ dto.stamps, wrote ≤ t) ∧
    (∀ userId rows, w.rows.policy w.now userId = some rows →
      ∀ wrote, w.rows.Revoked userId wrote → ∀ t ∈ rows.stamps, wrote ≤ t) := by
  have hresolved := World.resolved_of_reaches h
  refine ⟨fun token r hget => ?_, fun entity dto hget => ?_, fun userId rows hget => ?_⟩
  · obtain ⟨hit, hhit, hget⟩ := Option.bind_eq_some_iff.mp hget
    split at hget
    · cases hget
    · cases hget
      rintro _ ⟨i, v, hv, hcovers, hstage, rfl⟩
      exact (hresolved.entries token hit hhit).le hv hcovers (by omega)
  · obtain ⟨hit, hhit, rfl, rfl⟩ := World.getUserDto_eq hget
    obtain ⟨huser, hkept⟩ := hresolved.current.userDtos _ hit hhit
    refine ⟨huser, ?_⟩
    rintro _ ⟨i, v, hv, hcovers, hstage, rfl⟩
    exact hkept.le hv hcovers (by omega)
  · rw [RowCache.policy] at hget
    split at hget
    · obtain ⟨hit, hhit, hget⟩ := Option.bind_eq_some_iff.mp hget
      split at hget
      · cases hget
        rintro _ ⟨i, v, hv, hcovers, hstage, rfl⟩
        rw [← coversKey_iff] at hcovers
        exact (hresolved.current.policies _ hit hhit).le hv hcovers (by omega)
      · cases hget
    · cases hget

/-! ### A revoked policy that is served -/

/-- A server with one device of one user: the database is what the user's preferences
say. -/
private def oneUser : Queries String Unit Unit String Unit where
  deviceByToken _ _ := some ()
  userOf _ _ := some { id := "u", columns := () }
  maps preferences _ := preferences
  schedules _ _ := ()
  permissions _ _ := []
  preferences _ _ := []

/-- A lookup of the token's, from its begin to the take of the generation. -/
private def captured (i : Nat) : List (Event String Unit Unit) :=
  [.lookupToken i "t" id, .advance i, .advance i]

/-- A lookup of the token fills both caches; then the library is renamed in the user's
preferences, and the caches are cleared. -/
private def renamed : List (Event String Unit Unit) :=
  captured 0 ++ List.replicate 8 (.advance 0) ++ [Event.commit "new", .beginAuth none 1]

/-- The entries are dropped, and then the DTOs, before the next lookup. -/
theorem revocation_correct_rename : ∃ w : World String Unit Unit String Unit,
    ∃ r, w.auth.get w.now "t" = some r ∧ (r.policy.map fun dto => dto.maps.value) = some "new" ∧
      w.auth.Revoked r.userId 1 ∧ ∀ t ∈ r.stamps, 1 ≤ t := by
  obtain ⟨w, hw⟩ : ∃ w, (caches oneUser "old" 30).runWhile World.Settled
      (caches oneUser "old" 30).init
      (renamed ++ [Event.invalidateAuth 1, .invalidateAuth 1] ++ captured 1 ++
        List.replicate 8 (.advance 1)) = some w :=
      Option.isSome_iff_exists.mp (by decide +kernel)
  have hr : (caches oneUser "old" 30).Reaches World.Settled w := Machine.path_of_runWhile _ hw
  have hserved := (revocation_correct hr).1
  refine ⟨w, ?_⟩
  obtain rfl := Option.some.inj hw
  exact ⟨_, rfl, rfl, ⟨1, _, rfl, rfl, rfl, rfl⟩,
    hserved "t" _ rfl 1 ⟨1, _, rfl, rfl, rfl, rfl⟩⟩

/-- A lookup that takes the generation of the clear finds the DTO that the clear has not
dropped yet, and stores its policy when the clear is through with the entries: after the
clear the policy of before the rename is served. -/
theorem stale_policy_served : ∃ w : World String Unit Unit String Unit,
    (caches oneUser "old" 30).Reachable w ∧
    ∃ r, w.auth.get w.now "t" = some r ∧ (r.policy.map fun dto => dto.maps.value) = some "old" ∧
      w.auth.Revoked r.userId 1 ∧ ∃ t ∈ r.stamps, t < 1 := by
  obtain ⟨w, hw⟩ : ∃ w, (caches oneUser "old" 30).run (caches oneUser "old" 30).init
      (renamed ++ [Event.invalidateAuth 1] ++ captured 1 ++ List.replicate 4 (.advance 1) ++
        [Event.invalidateAuth 1]) = some w :=
      Option.isSome_iff_exists.mp (by decide +kernel)
  refine ⟨w, Machine.reachable_of_run _ hw, ?_⟩
  obtain rfl := Option.some.inj hw
  exact ⟨_, rfl, rfl, ⟨1, _, rfl, rfl, rfl, rfl⟩, 0, by decide, by decide⟩

end Ferrofin.Auth
