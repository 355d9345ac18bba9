import Ferrofin.QuickConnect.Manager

/-!
# Pairing is sound

An authorization claims a request, and after its await finds it again by its code.  The code
may have been drawn for another device by then: the flag of that request is set without a
claim, or a claim of it is taken back.  As long as neither happens (`Manager.Settled`), a
request is flagged exactly while it is claimed, a secret is authorized once, and the device
gets the session of that authorization.
-/

namespace Ferrofin.QuickConnect

open Lib

variable {Result : Type} {pendingPerIp : Nat}

/-- The secret of the request that an authorization has claimed, while it is under way and
once it has succeeded. -/
def Call.claims : Call Result → Option String
  | .authenticating _ _ request | .recording _ request _ | .finishing _ request _
  | .revoking _ request _ | .authorized request _ => some request.secret
  | .asserting _ | .expiring _ | .expiringRequests _ _ | .expiringSecrets _ _ | .ready _
  | .connected _ | .status _ | .answered _ _ | .failed _ => none

/-- The code and the secret of the request that an authorization under way has claimed. -/
def Call.place : Call Result → Option (String × String)
  | .authenticating _ code request | .recording code request _ | .finishing code request _
  | .revoking code request _ => some (code, request.secret)
  | _ => none

/-- The secret that an authorization has recorded, and the session. -/
def Call.minted : Call Result → Option (String × Result)
  | .finishing _ request result | .authorized request result => some (request.secret, result)
  | _ => none

theorem Call.claims_of_place {call : Call Result} {x : String × String}
    (h : call.place = some x) : call.claims = some x.2 := by
  cases call with
  | authenticating | recording | finishing | revoking =>
    cases h
    rfl
  | asserting | expiring | expiringRequests | expiringSecrets | ready | authorized | connected
  | status | answered | failed => cases h

theorem Call.claims_of_minted {call : Call Result} {x : String × Result}
    (h : call.minted = some x) : call.claims = some x.1 := by
  cases call with
  | finishing | authorized =>
    cases h
    rfl
  | asserting | expiring | expiringRequests | expiringSecrets | ready | authenticating
  | recording | revoking | connected | status | answered | failed => cases h

/-- The code an authorization looks up to set a flag, the secret of the request it has
claimed, and the flag. -/
def Call.flags : Call Result → Option (String × String × Bool)
  | .finishing code request _ => some (code, request.secret, true)
  | .revoking code request _ => some (code, request.secret, false)
  | _ => none

/-- When an authorization sets a flag, its code is that of the request it has claimed, or of
none, or the flag is set so already. -/
def Manager.Settled (m : Manager Result) : Event Result → Prop
  | .advance i => ∀ call ∈ m.calls.lookup i, ∀ k ∈ call.flags,
      ∀ p ∈ m.currentRequests.lookup k.1, p.result.secret ≠ k.2.1 →
        p.result.authenticated = k.2.2
  | .tick _ | .tryConnect _ _ | .checkRequestStatus _ _ | .authorizeRequest _ _ _
  | .getAuthorizedRequest _ _ | .activate _ _ | .connect _ _ _ | .authenticate _ _ => True

instance (m : Manager Result) (e : Event Result) : Decidable (m.Settled e) := by
  apply e.casesOn (motive := fun e => Decidable (m.Settled e)) <;>
    intros <;> dsimp only [Manager.Settled] <;> infer_instance

namespace Manager

variable {m m' : Manager Result}

/-! ### The invariant -/

def Claimed (m : Manager Result) (secret : String) : Prop :=
  ∃ i call, m.calls.lookup i = some call ∧ call.claims = some secret

def Minted (m : Manager Result) (secret : String) (result : Result) : Prop :=
  ∃ i call, m.calls.lookup i = some call ∧ call.minted = some (secret, result)

structure Paired (m : Manager Result) : Prop where
  distinct : ∀ c c' p p', m.currentRequests.lookup c = some p →
    m.currentRequests.lookup c' = some p' → p.result.secret = p'.result.secret → c = c'
  drawn : ∀ c p, m.currentRequests.lookup c = some p → p.result.secret ∈ m.drawn
  claimsDrawn : ∀ secret, m.Claimed secret → secret ∈ m.drawn
  flagged : ∀ c p, m.currentRequests.lookup c = some p →
    (p.result.authenticated = true ↔ m.Claimed p.result.secret)
  placed : ∀ i call code secret, m.calls.lookup i = some call →
    call.place = some (code, secret) → ∀ c p, m.currentRequests.lookup c = some p →
      p.result.secret = secret → c = code
  unique : ∀ i j call call' secret, m.calls.lookup i = some call →
    m.calls.lookup j = some call' → call.claims = some secret → call'.claims = some secret →
      i = j
  minted : ∀ secret s, m.authorizedSecrets.lookup secret = some s → m.Minted secret s.result
  answered : ∀ i secret result, m.calls.lookup i = some (.answered secret result) →
    m.Minted secret result

theorem Paired.init : Paired ({} : Manager Result) where
  distinct c c' p p' h := by cases h
  drawn c p h := by cases h
  claimsDrawn secret h := by
    obtain ⟨i, call, hi, -⟩ := h
    cases hi
  flagged c p h := by cases h
  placed i call code secret h := by cases h
  unique i j call call' secret h := by cases h
  minted secret s h := by cases h
  answered i secret result h := by cases h

/-! ### What the parts of a step keep -/

theorem lookup_goOn {i j : Nat} {call call' : Call Result}
    (h : (m.goOn i call').calls.lookup j = some call) :
    (j = i ∧ call = call') ∨ (j ≠ i ∧ m.calls.lookup j = some call) := by
  rw [Manager.goOn, KeyedMap.lookup_insert_eq] at h
  split at h
  · next hj => exact .inl ⟨hj, (Option.some.inj h).symm⟩
  · next hj => exact .inr ⟨hj, h⟩

theorem lookup_goOn_ne {i j : Nat} (call : Call Result) (h : j ≠ i) :
    (m.goOn i call).calls.lookup j = m.calls.lookup j := by
  rw [Manager.goOn, KeyedMap.lookup_insert_eq, if_neg h]

theorem lookup_goOn_self (i : Nat) (call : Call Result) :
    (m.goOn i call).calls.lookup i = some call := AList.lookup_insert _

/-- A call that goes on keeps its claim, if it has one, and what it has recorded. -/
structure Continues (m : Manager Result) (i : Nat) (call' : Call Result) : Prop where
  claims : ∀ secret, call'.claims = some secret ↔
    ∃ call, m.calls.lookup i = some call ∧ call.claims = some secret
  place : ∀ x, call'.place = some x → ∃ call, m.calls.lookup i = some call ∧ call.place = some x
  minted : ∀ call x, m.calls.lookup i = some call → call.minted = some x → call'.minted = some x

theorem Continues.claimed {i : Nat} {call' : Call Result} (h : m.Continues i call')
    (secret : String) :
    (m.goOn i call').Claimed secret ↔ m.Claimed secret := by
  constructor
  · rintro ⟨j, call, hj, hclaims⟩
    rcases lookup_goOn hj with ⟨rfl, rfl⟩ | ⟨-, hj⟩
    · obtain ⟨call, hcall, hclaims⟩ := (h.claims secret).mp hclaims
      exact ⟨j, call, hcall, hclaims⟩
    · exact ⟨j, call, hj, hclaims⟩
  · rintro ⟨j, call, hj, hclaims⟩
    by_cases hji : j = i
    · subst hji
      exact ⟨j, call', lookup_goOn_self .., (h.claims secret).mpr ⟨call, hj, hclaims⟩⟩
    · exact ⟨j, call, (lookup_goOn_ne _ hji).trans hj, hclaims⟩

theorem Continues.of_minted {i : Nat} {call' : Call Result} (h : m.Continues i call')
    {secret : String} {result : Result}
    (hm : m.Minted secret result) : (m.goOn i call').Minted secret result := by
  obtain ⟨j, call, hj, hminted⟩ := hm
  by_cases hji : j = i
  · subst hji
    exact ⟨j, call', lookup_goOn_self .., h.minted call _ hj hminted⟩
  · exact ⟨j, call, (lookup_goOn_ne _ hji).trans hj, hminted⟩

/-- **A call goes on.** -/
theorem Paired.goOn (h : m.Paired) {i : Nat} {call' : Call Result} (hc : m.Continues i call')
    (hanswered : ∀ secret result, call' = .answered secret result → m.Minted secret result) :
    (m.goOn i call').Paired := by
  refine ⟨h.distinct, h.drawn, fun secret hs => h.claimsDrawn secret ((hc.claimed secret).mp hs),
    fun c p hp => (h.flagged c p hp).trans (hc.claimed _).symm,
    fun j call code secret hj hplace => ?_, ?_,
    fun secret s hs => hc.of_minted (h.minted secret s hs), fun j secret result hj => ?_⟩
  · rcases lookup_goOn hj with ⟨rfl, rfl⟩ | ⟨-, hj⟩
    · obtain ⟨call₀, hcall, hplace⟩ := hc.place _ hplace
      exact h.placed j call₀ code secret hcall hplace
    · exact h.placed j call code secret hj hplace
  · have hback : ∀ j call secret, (m.goOn i call').calls.lookup j = some call →
        call.claims = some secret → ∃ call₀, m.calls.lookup j = some call₀ ∧
          call₀.claims = some secret := by
      intro j call secret hj hclaims
      rcases lookup_goOn hj with ⟨rfl, rfl⟩ | ⟨-, hj⟩
      · exact (hc.claims secret).mp hclaims
      · exact ⟨call, hj, hclaims⟩
    intro j k call call'' secret hj hk hclaims hclaims'
    obtain ⟨a, ha, ha'⟩ := hback j call secret hj hclaims
    obtain ⟨b, hb, hb'⟩ := hback k call'' secret hk hclaims'
    exact h.unique j k a b secret ha hb ha' hb'
  · rcases lookup_goOn hj with ⟨rfl, heq⟩ | ⟨-, hj⟩
    · exact hc.of_minted (hanswered secret result heq.symm)
    · exact hc.of_minted (h.answered j secret result hj)

theorem Paired.requests (h : m.Paired) {requests : KeyedMap String PendingRequest}
    (hsub : ∀ c p, requests.lookup c = some p → m.currentRequests.lookup c = some p) :
    Paired { m with currentRequests := requests } :=
  ⟨fun c c' p p' hp hp' => h.distinct c c' p p' (hsub c p hp) (hsub c' p' hp'),
    fun c p hp => h.drawn c p (hsub c p hp), h.claimsDrawn,
    fun c p hp => h.flagged c p (hsub c p hp),
    fun i call code secret hi hplace c p hp =>
      h.placed i call code secret hi hplace c p (hsub c p hp),
    h.unique, h.minted, h.answered⟩

theorem Paired.secrets (h : m.Paired) {secrets : KeyedMap String (AuthorizedSecret Result)}
    (hsub : ∀ k s, secrets.lookup k = some s → m.Minted k s.result) :
    Paired { m with authorizedSecrets := secrets } :=
  ⟨h.distinct, h.drawn, h.claimsDrawn, h.flagged, h.placed, h.unique, hsub, h.answered⟩

/-! ### The pending requests change -/

theorem lookup_setPending (m : Manager Result) (code : String)
    (change : QuickConnectResult → QuickConnectResult) (c : String) :
    (m.setPending code change).lookup c =
      if c = code then (m.currentRequests.lookup code).map fun p =>
        { p with result := change p.result }
      else m.currentRequests.lookup c := by
  rw [Manager.setPending]
  split
  · next p hp => rw [KeyedMap.lookup_insert_eq, hp, Option.map_some]
  · next hnone =>
    split
    · next hc => rw [hc, hnone, Option.map_none]
    · rfl

/-- A request of the map after a flag was set is one of before, with its secret. -/
theorem of_setPending {code c : String} {change : QuickConnectResult → QuickConnectResult}
    (hsecret : ∀ r, (change r).secret = r.secret) {p : PendingRequest}
    (h : (m.setPending code change).lookup c = some p) :
    ∃ p₀, m.currentRequests.lookup c = some p₀ ∧ p.result.secret = p₀.result.secret ∧
      ((c = code ∧ p.result = change p₀.result) ∨ (c ≠ code ∧ p = p₀)) := by
  rw [lookup_setPending] at h
  split at h
  · next hc =>
    obtain ⟨p₀, hp₀, rfl⟩ := Option.map_eq_some_iff.mp h
    exact ⟨p₀, hc ▸ hp₀, hsecret _, .inl ⟨hc, rfl⟩⟩
  · next hc => exact ⟨p, h, rfl, .inr ⟨hc, rfl⟩⟩

theorem Paired.placed_setPending (h : m.Paired) {code : String}
    {change : QuickConnectResult → QuickConnectResult}
    (hsecret : ∀ r, (change r).secret = r.secret) {i : Nat} {call : Call Result}
    {code' secret : String} (hi : m.calls.lookup i = some call)
    (hplace : call.place = some (code', secret)) {c : String} {p : PendingRequest}
    (hp : (m.setPending code change).lookup c = some p) (hs : p.result.secret = secret) :
    c = code' := by
  obtain ⟨p₀, hp₀, hs₀, -⟩ := of_setPending hsecret hp
  exact h.placed i call code' secret hi hplace c p₀ hp₀ (hs₀.symm.trans hs)

theorem Paired.distinct_setPending (h : m.Paired) {code : String}
    {change : QuickConnectResult → QuickConnectResult}
    (hsecret : ∀ r, (change r).secret = r.secret) {c c' : String} {p p' : PendingRequest}
    (hp : (m.setPending code change).lookup c = some p)
    (hp' : (m.setPending code change).lookup c' = some p')
    (heq : p.result.secret = p'.result.secret) : c = c' := by
  obtain ⟨p₀, hp₀, hs, -⟩ := of_setPending hsecret hp
  obtain ⟨p₀', hp₀', hs', -⟩ := of_setPending hsecret hp'
  exact h.distinct c c' p₀ p₀' hp₀ hp₀' (hs.symm.trans (heq.trans hs'))

theorem Paired.drawn_setPending (h : m.Paired) {code : String}
    {change : QuickConnectResult → QuickConnectResult}
    (hsecret : ∀ r, (change r).secret = r.secret) {c : String} {p : PendingRequest}
    (hp : (m.setPending code change).lookup c = some p) : p.result.secret ∈ m.drawn := by
  obtain ⟨p₀, hp₀, hs, -⟩ := of_setPending hsecret hp
  exact hs ▸ h.drawn c p₀ hp₀

theorem Paired.setPending (h : m.Paired) {code : String}
    {change : QuickConnectResult → QuickConnectResult}
    (hsecret : ∀ r, (change r).secret = r.secret)
    (hflag : ∀ p, m.currentRequests.lookup code = some p →
      (change p.result).authenticated = p.result.authenticated) :
    Paired { m with currentRequests := m.setPending code change } := by
  refine ⟨fun _ _ _ _ hp hp' => h.distinct_setPending hsecret hp hp',
    fun _ _ hp => h.drawn_setPending hsecret hp, h.claimsDrawn, fun c p hp => ?_,
    fun _ _ _ _ hi hplace _ _ hp hs => h.placed_setPending hsecret hi hplace hp hs,
    h.unique, h.minted, h.answered⟩
  obtain ⟨p₀, hp₀, hs, hcase⟩ := of_setPending hsecret hp
  have hauth : p.result.authenticated = p₀.result.authenticated := by
    rcases hcase with ⟨rfl, hresult⟩ | ⟨-, rfl⟩
    · rw [hresult]
      exact hflag p₀ hp₀
    · rfl
  rw [hauth, hs]
  exact h.flagged c p₀ hp₀

theorem continues_of_none {i : Nat} {call' : Call Result}
    (hnone : ∀ call, m.calls.lookup i = some call → call.claims = none)
    (hclaims' : call'.claims = none) : m.Continues i call' := by
  refine ⟨fun secret => ⟨fun hs => ?_, ?_⟩, fun x hx => ?_, fun call x hcall hx => ?_⟩
  · rw [hclaims'] at hs
    cases hs
  · rintro ⟨call, hcall, hs⟩
    rw [hnone call hcall] at hs
    cases hs
  · have hs := Call.claims_of_place hx
    rw [hclaims'] at hs
    cases hs
  · have hs := Call.claims_of_minted hx
    rw [hnone call hcall] at hs
    cases hs

theorem continues_of_claims {i : Nat} {call call' : Call Result}
    (hi : m.calls.lookup i = some call) (hclaims : call'.claims = call.claims)
    (hplace : ∀ x, call'.place = some x → call.place = some x)
    (hminted : ∀ x, call.minted = some x → call'.minted = some x) : m.Continues i call' := by
  refine ⟨fun secret => ⟨fun hs => ⟨call, hi, hclaims.symm.trans hs⟩, ?_⟩,
    fun x hx => ⟨call, hi, hplace x hx⟩, fun call₀ x hcall hx => ?_⟩
  · rintro ⟨call₀, hcall, hs⟩
    cases hi.symm.trans hcall
    exact hclaims.trans hs
  · cases hi.symm.trans hcall
    exact hminted x hx

/-- What was recorded stays when a call goes on that has recorded nothing. -/
theorem Minted.goOn {secret : String} {result : Result} (hm : m.Minted secret result) {i : Nat}
    {call : Call Result} (hi : m.calls.lookup i = some call) (hminted : call.minted = none)
    (call' : Call Result) : (m.goOn i call').Minted secret result := by
  obtain ⟨j, call₀, hj, hx⟩ := hm
  refine ⟨j, call₀, (lookup_goOn_ne _ ?_).trans hj, hx⟩
  rintro rfl
  cases hi.symm.trans hj
  rw [hminted] at hx
  cases hx

theorem Paired.claimed (h : m.Paired) {i : Nat} {userId code : String} {call : Call Result}
    (hi : m.calls.lookup i = some call) (hnone : call.claims = none) {p : PendingRequest}
    (hp : m.currentRequests.lookup code = some p) (hfree : ¬ m.Claimed p.result.secret) :
    Paired { m.goOn i (.authenticating userId code { p.result with authenticated := true }) with
      currentRequests := m.setPending code fun r => { r with authenticated := true } } := by
  have hclaimed : ∀ secret, (m.goOn i (.authenticating userId code
      { p.result with authenticated := true })).Claimed secret ↔
        m.Claimed secret ∨ secret = p.result.secret := by
    intro secret
    constructor
    · rintro ⟨j, call', hj, hclaims⟩
      rcases lookup_goOn hj with ⟨rfl, rfl⟩ | ⟨-, hj⟩
      · exact .inr (Option.some.inj hclaims).symm
      · exact .inl ⟨j, call', hj, hclaims⟩
    · rintro (⟨j, call', hj, hclaims⟩ | rfl)
      · refine ⟨j, call', (lookup_goOn_ne _ ?_).trans hj, hclaims⟩
        rintro rfl
        cases hi.symm.trans hj
        rw [hnone] at hclaims
        cases hclaims
      · exact ⟨i, _, lookup_goOn_self .., rfl⟩
  have hminted : call.minted = none := Option.eq_none_iff_forall_not_mem.mpr fun x hx => by
    rw [Call.claims_of_minted hx] at hnone
    cases hnone
  have hsecret : ∀ r : QuickConnectResult, ({ r with authenticated := true } :
      QuickConnectResult).secret = r.secret := fun _ => rfl
  refine ⟨fun _ _ _ _ hp hp' => h.distinct_setPending hsecret hp hp',
    fun _ _ hp => h.drawn_setPending hsecret hp, fun secret hs => ?_, fun c p' hp' => ?_,
    fun j call' code' secret hj hplace c p' hp' hs => ?_,
    fun j k call' call'' secret hj hk hclaims hclaims' => ?_,
    fun secret s hs => (h.minted secret s hs).goOn hi hminted _, fun j secret result hj => ?_⟩
  · rcases (hclaimed secret).mp hs with hs | rfl
    · exact h.claimsDrawn secret hs
    · exact h.drawn code p hp
  · refine Iff.trans ?_ (hclaimed _).symm
    obtain ⟨p₀, hp₀, hs₀, hcase⟩ := of_setPending hsecret hp'
    rw [hs₀]
    rcases hcase with ⟨rfl, hresult⟩ | ⟨hne, rfl⟩
    · obtain rfl := Option.some.inj (hp.symm.trans hp₀)
      rw [hresult]
      exact ⟨fun _ => .inr rfl, fun _ => rfl⟩
    · refine (h.flagged c p' hp₀).trans ⟨.inl, fun hs => hs.resolve_right fun heq => ?_⟩
      exact hne (h.distinct c code p' p hp₀ hp heq)
  · rcases lookup_goOn hj with ⟨rfl, rfl⟩ | ⟨-, hj⟩
    · obtain ⟨p₀, hp₀, hs₀, -⟩ := of_setPending hsecret hp'
      obtain ⟨rfl, rfl⟩ := Prod.mk.inj (Option.some.inj hplace)
      exact h.distinct c _ p₀ p hp₀ hp (hs₀.symm.trans hs)
    · exact h.placed_setPending hsecret hj hplace hp' hs
  · have hfree' : ∀ j call', m.calls.lookup j = some call' → call'.claims ≠ some p.result.secret :=
      fun j call' hj hclaims => hfree ⟨j, call', hj, hclaims⟩
    rcases lookup_goOn hj with ⟨hji, rfl⟩ | ⟨-, hj'⟩ <;>
      rcases lookup_goOn hk with ⟨hki, rfl⟩ | ⟨-, hk'⟩
    · exact hji.trans hki.symm
    · exact absurd (hclaims'.trans hclaims.symm) (hfree' k call'' hk')
    · exact absurd (hclaims.trans hclaims'.symm) (hfree' j call' hj')
    · exact h.unique j k call' call'' secret hj' hk' hclaims hclaims'
  · rcases lookup_goOn hj with ⟨rfl, heq⟩ | ⟨-, hj⟩
    · cases heq
    · exact (h.answered j secret result hj).goOn hi hminted _

/-- **A claim is taken back.** -/
theorem Paired.revoked (h : m.Paired) {i : Nat} {code : String} {request : QuickConnectResult}
    {error : ServiceError} (hi : m.calls.lookup i = some (.revoking code request error))
    (hsettled : ∀ p, m.currentRequests.lookup code = some p →
      p.result.secret ≠ request.secret → p.result.authenticated = false) :
    Paired { m.goOn i (.failed error) with
      currentRequests := m.setPending code fun r => { r with authenticated := false } } := by
  have hback : ∀ {j : Nat} {call : Call Result} {secret : String},
      (m.goOn i (.failed error)).calls.lookup j = some call → call.claims = some secret →
        j ≠ i ∧ m.calls.lookup j = some call := by
    intro j call secret hj hclaims
    rcases lookup_goOn hj with ⟨-, rfl⟩ | hj
    · cases hclaims
    · exact hj
  have hclaimed : ∀ secret, (m.goOn i (.failed error)).Claimed secret ↔
      m.Claimed secret ∧ secret ≠ request.secret := by
    intro secret
    constructor
    · rintro ⟨j, call, hj, hclaims⟩
      obtain ⟨hji, hj⟩ := hback hj hclaims
      refine ⟨⟨j, call, hj, hclaims⟩, ?_⟩
      rintro rfl
      exact hji (h.unique j i call _ _ hj hi hclaims rfl)
    · rintro ⟨⟨j, call, hj, hclaims⟩, hne⟩
      refine ⟨j, call, (lookup_goOn_ne _ ?_).trans hj, hclaims⟩
      rintro rfl
      cases hi.symm.trans hj
      exact hne (Option.some.inj hclaims).symm
  have hsecret : ∀ r : QuickConnectResult, ({ r with authenticated := false } :
      QuickConnectResult).secret = r.secret := fun _ => rfl
  refine ⟨fun _ _ _ _ hp hp' => h.distinct_setPending hsecret hp hp',
    fun _ _ hp => h.drawn_setPending hsecret hp,
    fun secret hs => h.claimsDrawn secret ((hclaimed secret).mp hs).1, fun c p hp => ?_,
    fun j call code' secret hj hplace c p hp hs => ?_,
    fun j k call call' secret hj hk hclaims hclaims' => ?_,
    fun secret s hs => (h.minted secret s hs).goOn hi rfl _, fun j secret result hj => ?_⟩
  · refine Iff.trans ?_ (hclaimed _).symm
    obtain ⟨p₀, hp₀, hs₀, hcase⟩ := of_setPending hsecret hp
    rw [hs₀]
    rcases hcase with ⟨rfl, hresult⟩ | ⟨hne, rfl⟩
    · rw [hresult]
      refine ⟨nofun, fun ⟨hs, hne⟩ => ?_⟩
      exact absurd ((h.flagged c p₀ hp₀).mpr hs) (by rw [hsettled p₀ hp₀ hne]; decide)
    · refine (h.flagged c p hp₀).trans ⟨fun hs => ⟨hs, fun heq => ?_⟩, fun hs => hs.1⟩
      exact hne (h.placed i _ code _ hi rfl c p hp₀ heq)
  · have hj' := (hback hj (Call.claims_of_place hplace)).2
    exact h.placed_setPending hsecret hj' hplace hp hs
  · have hj' := (hback hj hclaims).2
    have hk' := (hback hk hclaims').2
    exact h.unique j k call call' secret hj' hk' hclaims hclaims'
  · rcases lookup_goOn hj with ⟨-, heq⟩ | ⟨-, hj⟩
    · cases heq
    · exact (h.answered j secret result hj).goOn hi rfl _

theorem Paired.drew (h : m.Paired) (code : String) (p : PendingRequest)
    (hfresh : p.result.secret ∉ m.drawn) (hauth : p.result.authenticated = false) :
    Paired { m with
      currentRequests := m.currentRequests.insert code p
      drawn := m.drawn ++ [p.result.secret] } := by
  have hlookup : ∀ {c : String} {q : PendingRequest},
      (m.currentRequests.insert code p).lookup c = some q →
        (c = code ∧ q = p) ∨ m.currentRequests.lookup c = some q := by
    intro c q hq
    rw [KeyedMap.lookup_insert_eq] at hq
    split at hq
    · next hc => exact .inl ⟨hc, (Option.some.inj hq).symm⟩
    · exact .inr hq
  have hfresh' : ∀ c q, m.currentRequests.lookup c = some q → q.result.secret ≠ p.result.secret :=
    fun c q hq heq => hfresh (heq ▸ h.drawn c q hq)
  refine ⟨fun c c' q q' hq hq' heq => ?_, fun c q hq => ?_,
    fun secret hs => List.mem_append_left _ (h.claimsDrawn secret hs), fun c q hq => ?_,
    fun i call code' secret hi hplace c q hq hs => ?_, h.unique, h.minted, h.answered⟩
  · rcases hlookup hq with ⟨hc, rfl⟩ | hold <;> rcases hlookup hq' with ⟨hc', rfl⟩ | hold'
    · exact hc.trans hc'.symm
    · exact absurd heq.symm (hfresh' c' q' hold')
    · exact absurd heq (hfresh' c q hold)
    · exact h.distinct c c' q q' hold hold' heq
  · rcases hlookup hq with ⟨-, rfl⟩ | hq
    · exact List.mem_append_right _ List.mem_cons_self
    · exact List.mem_append_left _ (h.drawn c q hq)
  · rcases hlookup hq with ⟨-, rfl⟩ | hq
    · rw [hauth]
      exact ⟨nofun, fun hs => absurd (h.claimsDrawn _ hs) hfresh⟩
    · exact h.flagged c q hq
  · rcases hlookup hq with ⟨-, rfl⟩ | hq
    · have hclaimed : m.Claimed secret := ⟨i, call, hi, Call.claims_of_place hplace⟩
      exact absurd (hs ▸ h.claimsDrawn secret hclaimed) hfresh
    · exact h.placed i call code' secret hi hplace c q hq hs

/-! ### The steps -/

theorem Paired.goOn_of_none (h : m.Paired) {i : Nat} {call' : Call Result}
    (hnone : ∀ call, m.calls.lookup i = some call → call.claims = none)
    (hclaims' : call'.claims = none)
    (hanswered : ∀ secret result, call' = .answered secret result → m.Minted secret result) :
    (m.goOn i call').Paired := h.goOn (continues_of_none hnone hclaims') hanswered

theorem lookup_makeRoom {requests : KeyedMap String PendingRequest} {remoteIp : Option String}
    {limit : Nat} {c : String} {p : PendingRequest}
    (h : (makeRoom requests remoteIp limit).lookup c = some p) : requests.lookup c = some p := by
  have herase : ∀ (es : List (Nat × String)) (requests : KeyedMap String PendingRequest),
      (es.foldl (fun requests e => requests.erase e.2) requests).lookup c = some p →
        requests.lookup c = some p := by
    intro es
    induction es with
    | nil => exact fun _ h => h
    | cons e es ih =>
      intro requests h
      have hlookup := ih _ h
      rw [KeyedMap.lookup_erase_eq] at hlookup
      split at hlookup
      · cases hlookup
      · exact hlookup
  rw [makeRoom] at h
  split at h
  · exact h
  · exact herase _ _ h

theorem Paired.start (h : m.Paired) {i : Nat} {call : Call Result} (hclaims : call.claims = none)
    (hanswered : ∀ secret result, call ≠ .answered secret result)
    (hs : m.start i call = some m') : m'.Paired := by
  rw [Manager.start] at hs
  split at hs
  · cases hs
  · next hfree =>
    cases hs
    refine h.goOn_of_none (fun call₀ hcall => ?_) hclaims fun secret result heq =>
      absurd heq (hanswered secret result)
    rw [hcall] at hfree
    exact absurd rfl hfree

theorem Paired.activate (h : m.Paired) {i : Nat} {available : Except ServiceError Bool}
    {call : Call Result} (hi : m.calls.lookup i = some call)
    (hs : m.activate i available call = some m') : m'.Paired := by
  cases call with
  | asserting op =>
    cases hs
    have hnone : ∀ call, m.calls.lookup i = some call → call.claims = none := by
      intro call hcall
      cases hi.symm.trans hcall
      rfl
    cases available with
    | error error => exact h.goOn_of_none hnone rfl nofun
    | ok active => cases active <;> exact h.goOn_of_none hnone rfl nofun
  | expiring | expiringRequests | expiringSecrets | ready | authenticating | recording
  | finishing | revoking | authorized | connected | status | answered | failed => cases hs

theorem Paired.connect (h : m.Paired) {i : Nat} {draws : List String} {secret : String}
    {call : Call Result} (hi : m.calls.lookup i = some call)
    (hs : m.connect pendingPerIp i draws secret call = some m') : m'.Paired := by
  rw [Manager.connect.eq_def] at hs
  split at hs
  · split at hs
    · cases hs
    · next deviceId device client version remoteIp hfresh =>
      have hgone : Paired { m with
          currentRequests := makeRoom m.currentRequests remoteIp pendingPerIp } :=
        h.requests fun c p => lookup_makeRoom
      obtain ⟨drawn, -, rfl⟩ := Option.map_eq_some_iff.mp hs
      have hnone : ∀ call, m.calls.lookup i = some call → call.claims = none := by
        intro call hcall
        cases hi.symm.trans hcall
        rfl
      cases drawn with
      | error error => exact hgone.goOn_of_none hnone rfl nofun
      | ok code =>
        have hgone' : ∀ result, Paired { m.goOn i (.connected result) with
            currentRequests := makeRoom m.currentRequests remoteIp pendingPerIp } :=
          fun result => hgone.goOn_of_none hnone rfl fun _ _ heq => by cases heq
        exact (hgone' _).drew code _ hfresh rfl
  · cases hs

theorem Paired.authenticate (h : m.Paired) {i : Nat} {session : Except ServiceError Result}
    {call : Call Result} (hi : m.calls.lookup i = some call)
    (hs : m.authenticate i session call = some m') : m'.Paired := by
  cases call with
  | authenticating userId code request =>
    cases hs
    cases session with
    | error error =>
      exact h.goOn (continues_of_claims hi rfl (fun _ => id) fun _ hx => nomatch hx) nofun
    | ok result =>
      exact h.goOn (continues_of_claims hi rfl (fun _ => id) fun _ hx => nomatch hx) nofun
  | asserting | expiring | expiringRequests | expiringSecrets | ready | recording | finishing
  | revoking | authorized | connected | status | answered | failed => cases hs

theorem Paired.claim (h : m.Paired) {i : Nat} {userId code : String}
    (hi : m.calls.lookup i = some (.ready (.authorizeRequest userId code))) :
    (m.claim i userId code).Paired := by
  have hnone : ∀ call, m.calls.lookup i = some call → call.claims = none := by
    intro call hcall
    cases hi.symm.trans hcall
    rfl
  rw [Manager.claim]
  split
  · exact h.goOn_of_none hnone rfl nofun
  · next p hp =>
    split
    · exact h.goOn_of_none hnone rfl nofun
    · next hauth =>
      have hfree : ¬ m.Claimed p.result.secret := fun hs => hauth ((h.flagged code p hp).mpr hs)
      have hclaimed := @Paired.claimed _ _ h i userId _ _ hi rfl _ hp hfree
      rw [Manager.setPending, hp] at hclaimed
      exact hclaimed

theorem Paired.record (h : m.Paired) {i : Nat} {code : String} {request : QuickConnectResult}
    {result : Result} (hi : m.calls.lookup i = some (.recording code request result))
    (authorizedAt : Nat) :
    Paired { m.goOn i (.finishing code request result) with
      authorizedSecrets := m.authorizedSecrets.insert request.secret
        { authorizedAt := authorizedAt, result := result } } := by
  have hc : m.Continues i (.finishing code request result) :=
    continues_of_claims hi rfl (fun _ => id) fun _ hx => nomatch hx
  refine (h.goOn hc nofun).secrets fun k s hs => ?_
  rw [KeyedMap.lookup_insert_eq] at hs
  split at hs
  · next hk =>
    cases hs
    exact ⟨i, _, lookup_goOn_self .., by rw [hk]; rfl⟩
  · exact hc.of_minted (h.minted k s hs)

theorem Paired.finish (h : m.Paired) {i : Nat} {code : String} {request : QuickConnectResult}
    {result : Result} (hi : m.calls.lookup i = some (.finishing code request result))
    (hsettled : ∀ p, m.currentRequests.lookup code = some p →
      p.result.secret ≠ request.secret → p.result.authenticated = true) (dateAdded : Nat) :
    Paired { m.goOn i (.authorized request result) with
      currentRequests := m.setPending code fun pending =>
        { pending with authenticated := true, dateAdded := dateAdded } } := by
  have hc : m.Continues i (.authorized request result) :=
    continues_of_claims hi rfl (fun _ hx => nomatch hx) fun _ => id
  have hsecret : ∀ r : QuickConnectResult, ({ r with
      authenticated := true, dateAdded := dateAdded } : QuickConnectResult).secret = r.secret :=
    fun _ => rfl
  refine (h.goOn hc nofun).setPending hsecret fun p hp => ?_
  by_cases hsecret : p.result.secret = request.secret
  · exact ((h.flagged code p hp).mpr ⟨i, _, hi, congrArg some hsecret.symm⟩).symm
  · exact (hsettled p hp hsecret).symm

theorem lookup_of_retain {ν : Type} {test : String → ν → Bool} {map : KeyedMap String ν}
    {k : String} {v : ν} (h : (KeyedMap.retain test map).lookup k = some v) :
    map.lookup k = some v := by
  rw [KeyedMap.lookup_retain] at h
  exact Option.eq_some_of_filter_eq_some h

theorem Paired.advance (h : m.Paired) {i : Nat} {call : Call Result}
    (hi : m.calls.lookup i = some call) (hsettled : m.Settled (.advance i))
    (hs : m.advance i call = some m') : m'.Paired := by
  have hsettled' : ∀ k ∈ call.flags, ∀ p, m.currentRequests.lookup k.1 = some p →
      p.result.secret ≠ k.2.1 → p.result.authenticated = k.2.2 :=
    fun k hk p hp => hsettled call hi k hk p hp
  have hnone : call.claims = none →
      ∀ call, m.calls.lookup i = some call → call.claims = none := by
    intro hclaims call₀ hcall
    cases hi.symm.trans hcall
    exact hclaims
  cases call with
  | expiring op =>
    cases hs
    exact h.goOn_of_none (hnone rfl) rfl nofun
  | expiringRequests op cutoff =>
    cases hs
    have hgo : (m.goOn i (.expiringSecrets op cutoff)).Paired :=
      h.goOn_of_none (hnone rfl) rfl nofun
    exact hgo.requests fun _ _ => lookup_of_retain
  | expiringSecrets op cutoff =>
    cases hs
    have hgo : (m.goOn i (.ready op)).Paired := h.goOn_of_none (hnone rfl) rfl nofun
    exact hgo.secrets fun k s hs => hgo.minted k s (lookup_of_retain hs)
  | ready op =>
    cases op with
    | tryConnect => cases hs
    | checkRequestStatus secret =>
      cases hs
      rw [Manager.checkRequestStatus]
      split <;> exact h.goOn_of_none (hnone rfl) rfl fun _ _ heq => by cases heq
    | authorizeRequest userId code =>
      cases hs
      exact h.claim hi
    | getAuthorizedRequest secret =>
      cases hs
      rw [Manager.getAuthorizedRequest]
      split
      · next s hlookup =>
        refine h.goOn_of_none (hnone rfl) rfl fun secret' result heq => ?_
        obtain ⟨rfl, rfl⟩ := Call.answered.inj heq
        exact h.minted secret s hlookup
      · exact h.goOn_of_none (hnone rfl) rfl nofun
  | recording code request result =>
    cases hs
    exact h.record hi m.now
  | finishing code request result =>
    cases hs
    exact h.finish hi (hsettled' (code, request.secret, true) rfl) (m.now + minute)
  | revoking code request error =>
    cases hs
    exact h.revoked hi (hsettled' (code, request.secret, false) rfl)
  | asserting | authenticating | authorized | connected | status | answered | failed => cases hs

theorem Paired.step (h : m.Paired) {e : Event Result} (hsettled : m.Settled e)
    (hs : m.step pendingPerIp e = some m') : m'.Paired := by
  cases e with
  | tick elapsed =>
    cases hs
    exact ⟨h.distinct, h.drawn, h.claimsDrawn, h.flagged, h.placed, h.unique, h.minted,
      h.answered⟩
  | tryConnect i info =>
    refine h.start ?_ (fun secret result heq => ?_) hs
    · cases info.operation <;> rfl
    · cases hop : info.operation <;> rw [hop] at heq <;> cases heq
  | checkRequestStatus i secret => exact h.start rfl (fun _ _ heq => by cases heq) hs
  | authorizeRequest i userId code => exact h.start rfl (fun _ _ heq => by cases heq) hs
  | getAuthorizedRequest i secret => exact h.start rfl (fun _ _ heq => by cases heq) hs
  | activate i available =>
    obtain ⟨call, hi, hs⟩ := Option.bind_eq_some_iff.mp hs
    exact h.activate hi hs
  | connect i draws secret =>
    obtain ⟨call, hi, hs⟩ := Option.bind_eq_some_iff.mp hs
    exact h.connect hi hs
  | authenticate i session =>
    obtain ⟨call, hi, hs⟩ := Option.bind_eq_some_iff.mp hs
    exact h.authenticate hi hs
  | advance i =>
    obtain ⟨call, hi, hs⟩ := Option.bind_eq_some_iff.mp hs
    exact h.advance hi hsettled hs

end Manager

/-! ### The result -/

/-- **Pairing is sound** as long as no flag is set on the request of another device.  A pending
request is flagged only while an authorization that claimed it is under way or has succeeded;
a secret is authorized by one call at most; and what a secret is answered with was recorded by
the call that claimed its request. -/
theorem pairing_sound {m : Manager Result}
    (h : (quickConnect Result pendingPerIp).Reaches Manager.Settled m) :
    (∀ code p, m.currentRequests.lookup code = some p → p.result.authenticated = true →
      ∃ i call, m.calls.lookup i = some call ∧ call.claims = some p.result.secret) ∧
    (∀ i j request request' result result',
      m.calls.lookup i = some (.authorized request result) →
      m.calls.lookup j = some (.authorized request' result') →
      request.secret = request'.secret → i = j) ∧
    (∀ i secret result, m.calls.lookup i = some (.answered secret result) →
      ∃ j call, m.calls.lookup j = some call ∧ call.claims = some secret ∧
        call.minted = some (secret, result)) := by
  have hpaired : m.Paired := h.invariant .init fun _ _ _ hpaired hok hs => hpaired.step hok hs
  refine ⟨fun code p hp hauth => (hpaired.flagged code p hp).mp hauth,
    fun i j request request' result result' hi hj heq => ?_, fun i secret result hi => ?_⟩
  · exact hpaired.unique i j _ _ request.secret hi hj rfl (congrArg some heq.symm)
  · obtain ⟨j, call, hj, hminted⟩ := hpaired.answered i secret result hi
    exact ⟨j, call, hj, Call.claims_of_minted hminted, hminted⟩

/-! ### Codes that are drawn again -/

private def device (name : String) : AuthorizationInfo :=
  { deviceId := some name
    device := some name
    client := some "app"
    version := some "1"
    remoteEndpoint := none }

private def readied (i : Nat) : List (Event Nat) :=
  [.activate i (.ok true), .advance i, .advance i, .advance i]

private def connects (i : Nat) (secret : String) : List (Event Nat) :=
  [Event.tryConnect i (device secret)] ++ readied i ++ [Event.connect i ["123456"] secret]

private def claims (i : Nat) : List (Event Nat) :=
  [Event.authorizeRequest i "user" "123456"] ++ readied i ++ [Event.advance i]

/-- One device pairs, and gets the session of its authorization. -/
theorem pairing_sound_paired : ∃ m : Manager Nat,
    (quickConnect Nat 5).Reaches Manager.Settled m ∧
    (∃ p, m.currentRequests.lookup "123456" = some p ∧ p.result.authenticated = true) ∧
    m.calls.lookup 2 = some (.answered "a" 7) ∧
    ∃ j call, m.calls.lookup j = some call ∧ call.claims = some "a" ∧
      call.minted = some ("a", 7) := by
  obtain ⟨m, hm⟩ : ∃ m, (quickConnect Nat 5).runWhile Manager.Settled {}
      (connects 0 "a" ++ claims 1 ++ [Event.authenticate 1 (.ok 7), .advance 1, .advance 1] ++
        [Event.getAuthorizedRequest 2 "a"] ++ readied 2 ++ [Event.advance 2]) = some m :=
      Option.isSome_iff_exists.mp (by decide +kernel)
  have hr : (quickConnect Nat 5).Reaches Manager.Settled m := Machine.path_of_runWhile _ hm
  have hsound := pairing_sound hr
  refine ⟨m, hr, ?_⟩
  obtain rfl := Option.some.inj hm
  exact ⟨⟨_, rfl, rfl⟩, rfl, hsound.2.2 2 "a" 7 rfl⟩

/-- An authorization takes eleven minutes.  Its request expires, the code is drawn for another
device, and that device's request is flagged though nobody claimed it. -/
theorem flagged_unclaimed : ∃ m : Manager Nat, (quickConnect Nat 5).Reachable m ∧
    ∃ p, m.currentRequests.lookup "123456" = some p ∧ p.result.authenticated = true ∧
      ∀ i call, m.calls.lookup i = some call → call.claims ≠ some p.result.secret := by
  obtain ⟨m, hm⟩ : ∃ m, (quickConnect Nat 5).run {}
      (connects 0 "a" ++ claims 1 ++ [Event.tick (11 * minute)] ++ connects 2 "b" ++
        [Event.authenticate 1 (.ok 7), .advance 1, .advance 1]) = some m :=
      Option.isSome_iff_exists.mp (by decide +kernel)
  refine ⟨m, Machine.reachable_of_run _ hm, ?_⟩
  have hcalls : (KeyedMap.values m.calls).all (fun call => call.claims != some "b") = true := by
    obtain rfl := Option.some.inj hm
    rfl
  obtain ⟨p, hp, hauth, hsecret⟩ : ∃ p, m.currentRequests.lookup "123456" = some p ∧
      p.result.authenticated = true ∧ p.result.secret = "b" := by
    obtain rfl := Option.some.inj hm
    exact ⟨_, rfl, rfl, rfl⟩
  refine ⟨p, hp, hauth, fun i call hi => ?_⟩
  rw [hsecret]
  exact bne_iff_ne.mp (List.all_eq_true.mp hcalls call (KeyedMap.mem_values_of_lookup hi))

end Ferrofin.QuickConnect
