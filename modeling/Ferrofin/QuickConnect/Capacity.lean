import Ferrofin.QuickConnect.Manager

/-!
# How many requests an IP has

Each remote IP keeps a configured number of unauthorized requests at most: `try_connect` drops the
IP's oldest ones for a new request (`makeRoom_oldest`, `pendingOf_makeRoom`).  A request is not
counted while an authorization has claimed it, and counts again when the authorization fails; if
its IP has asked for as many as it may have by then, it has one too many (`pending_exceeded`).
That is the only way past the number (`capped_of_reaches`).
-/

namespace Ferrofin.QuickConnect

open Lib

variable {Result : Type} {limit : Nat}

def defaultPendingPerIp : Nat := 10

/-- `FerrofinQuickConnect::with_pending_per_ip`, what it makes of the number. -/
def withPendingPerIp (pendingPerIp : Nat) : Nat :=
  if pendingPerIp = 0 then defaultPendingPerIp else pendingPerIp

theorem withPendingPerIp_pos (pendingPerIp : Nat) : 0 < withPendingPerIp pendingPerIp := by
  rw [withPendingPerIp]
  split
  · decide
  · omega

def PendingRequest.isOf (remoteIp : Option String) (p : PendingRequest) : Bool :=
  !p.result.authenticated && p.remoteIp == remoteIp

def PendingRequest.counts (remoteIp : Option String) (p : PendingRequest) : Nat :=
  if p.isOf remoteIp then 1 else 0

theorem PendingRequest.counts_of_authenticated {p : PendingRequest}
    (h : p.result.authenticated = true) (remoteIp : Option String) : p.counts remoteIp = 0 := by
  rw [PendingRequest.counts, PendingRequest.isOf, h, Bool.not_true, Bool.false_and,
    if_neg Bool.false_ne_true]

def pendingOf (remoteIp : Option String) (requests : KeyedMap String PendingRequest) : Nat :=
  KeyedMap.total (PendingRequest.counts remoteIp) requests

/-- No IP has more unauthorized requests than it may have. -/
def Manager.Capped (limit : Nat) (m : Manager Result) : Prop :=
  ∀ remoteIp, pendingOf remoteIp m.currentRequests ≤ limit

/-- The code of the request that an authorization has claimed and failed to authorize. -/
def Call.revokes : Call Result → Option String
  | .revoking code _ _ => some code
  | _ => none

/-- When an authorization has failed, the request its code names is gone, not claimed, or of an
IP that has room for it. -/
def Manager.Roomy (limit : Nat) (m : Manager Result) : Event Result → Prop
  | .advance i => ∀ call ∈ m.calls.lookup i, ∀ code ∈ call.revokes,
      ∀ p ∈ m.currentRequests.lookup code, p.result.authenticated = true →
        pendingOf p.remoteIp m.currentRequests < limit
  | _ => True

instance (limit : Nat) (m : Manager Result) (e : Event Result) : Decidable (m.Roomy limit e) := by
  cases e with
  | advance i =>
    exact inferInstanceAs (Decidable (∀ call ∈ m.calls.lookup i, ∀ code ∈ call.revokes,
      ∀ p ∈ m.currentRequests.lookup code, p.result.authenticated = true →
        pendingOf p.remoteIp m.currentRequests < limit))
  | tick | tryConnect | checkRequestStatus | authorizeRequest | getAuthorizedRequest | activate
  | connect | authenticate => exact inferInstanceAs (Decidable True)

/-! ### The order of requests -/

theorem older_total (a b : Nat × String) : (older a b || older b a) = true := by
  simp only [older, Bool.or_eq_true, Bool.and_eq_true, decide_eq_true_iff, beq_iff_eq]
  rcases Nat.lt_trichotomy a.1 b.1 with hlt | heq | hgt
  · exact .inl (.inl hlt)
  · exact (String.le_total a.2 b.2).imp (fun h => .inr ⟨heq, h⟩) fun h => .inr ⟨heq.symm, h⟩
  · exact .inr (.inl hgt)

theorem older_trans (a b c : Nat × String) (hab : older a b = true) (hbc : older b c = true) :
    older a c = true := by
  simp only [older, Bool.or_eq_true, Bool.and_eq_true, decide_eq_true_iff, beq_iff_eq] at *
  rcases hab with hab | ⟨hab, hab'⟩ <;> rcases hbc with hbc | ⟨hbc, hbc'⟩
  · exact .inl (Nat.lt_trans hab hbc)
  · exact .inl (hbc ▸ hab)
  · exact .inl (hab ▸ hbc)
  · exact .inr ⟨hab.trans hbc, String.le_trans hab' hbc'⟩

/-! ### Making room -/

section

variable {requests : KeyedMap String PendingRequest} {remoteIp : Option String}

/-- The unauthorized requests of the IP, by time and code. -/
def ownRequests (requests : KeyedMap String PendingRequest) (remoteIp : Option String) :
    List (Nat × String) :=
  (requests.entries.filter fun e => e.2.isOf remoteIp).map fun e => (e.2.result.dateAdded, e.1)

def droppedRequests (requests : KeyedMap String PendingRequest) (remoteIp : Option String)
    (limit : Nat) : List (Nat × String) :=
  ((ownRequests requests remoteIp).mergeSort older).take
    ((ownRequests requests remoteIp).length - limit + 1)

theorem makeRoom_eq (requests : KeyedMap String PendingRequest) (remoteIp : Option String)
    (limit : Nat) : makeRoom requests remoteIp limit =
      if (ownRequests requests remoteIp).length < limit then requests
      else (droppedRequests requests remoteIp limit).foldl
        (fun requests e => requests.erase e.2) requests := rfl

theorem mem_ownRequests {date : Nat} {code : String} :
    (date, code) ∈ ownRequests requests remoteIp ↔
      ∃ p, requests.lookup code = some p ∧ p.isOf remoteIp = true ∧ p.result.dateAdded = date := by
  rw [ownRequests, List.mem_map]
  constructor
  · rintro ⟨e, he, heq⟩
    obtain ⟨hmem, hof⟩ := List.mem_filter.mp he
    cases heq
    exact ⟨e.2, AList.mem_lookup_iff.mpr hmem, hof, rfl⟩
  · rintro ⟨p, hp, hof, rfl⟩
    exact ⟨⟨code, p⟩, List.mem_filter.mpr ⟨AList.mem_lookup_iff.mp hp, hof⟩, rfl⟩

theorem length_ownRequests (requests : KeyedMap String PendingRequest) (remoteIp : Option String) :
    (ownRequests requests remoteIp).length = pendingOf remoteIp requests := by
  have hlist : ∀ l : List (Sigma fun _ : String => PendingRequest),
      (l.filter fun e => e.2.isOf remoteIp).length =
        (l.map fun e => e.2.counts remoteIp).sum := by
    intro l
    induction l with
    | nil => rfl
    | cons e l ih =>
      rw [List.filter_cons, List.map_cons, List.sum_cons, ← ih, PendingRequest.counts]
      split
      · rw [List.length_cons, Nat.add_comm]
      · rw [Nat.zero_add]
  rw [ownRequests, List.length_map, hlist]
  rfl

theorem nodup_ownRequests (requests : KeyedMap String PendingRequest) (remoteIp : Option String) :
    ((ownRequests requests remoteIp).map Prod.snd).Nodup := by
  have hkeys : (ownRequests requests remoteIp).map Prod.snd =
      (requests.entries.filter fun e => e.2.isOf remoteIp).keys := by
    rw [ownRequests, List.map_map]
    rfl
  rw [hkeys]
  exact requests.nodupKeys.sublist List.filter_sublist

theorem lookup_foldl_erase (es : List (Nat × String)) (requests : KeyedMap String PendingRequest)
    (code : String) :
    (es.foldl (fun requests e => requests.erase e.2) requests).lookup code =
      if code ∈ es.map Prod.snd then none else requests.lookup code := by
  induction es generalizing requests with
  | nil => rfl
  | cons e es ih =>
    rw [List.foldl_cons, ih, KeyedMap.lookup_erase_eq]
    by_cases hmem : code ∈ es.map Prod.snd
    · have hmem' : code ∈ (e :: es).map Prod.snd := List.mem_cons_of_mem _ hmem
      rw [if_pos hmem, if_pos hmem']
    · rw [if_neg hmem]
      by_cases heq : code = e.2
      · have hmem' : code ∈ (e :: es).map Prod.snd := heq ▸ List.mem_cons_self ..
        rw [if_pos heq, if_pos hmem']
      · have hmem' : code ∉ (e :: es).map Prod.snd := fun h => (List.mem_cons.mp h).elim heq hmem
        rw [if_neg heq, if_neg hmem']

theorem pendingOf_foldl_erase {es : List (Nat × String)} (hnodup : (es.map Prod.snd).Nodup)
    {requests : KeyedMap String PendingRequest}
    (hof : ∀ code ∈ es.map Prod.snd, ∃ p, requests.lookup code = some p ∧
      p.isOf remoteIp = true) :
    pendingOf remoteIp (es.foldl (fun requests e => requests.erase e.2) requests) + es.length =
      pendingOf remoteIp requests := by
  induction es generalizing requests with
  | nil => rfl
  | cons e es ih =>
    obtain ⟨hnot, hnodup⟩ := List.nodup_cons.mp hnodup
    obtain ⟨p, hp, hp'⟩ := hof e.2 (List.mem_cons_self ..)
    have hone : pendingOf remoteIp requests = 1 + pendingOf remoteIp (requests.erase e.2) := by
      rw [pendingOf, KeyedMap.total_eq_add_erase _ hp, PendingRequest.counts, if_pos hp']
      rfl
    have hrest := @ih hnodup (requests.erase e.2) fun code hcode => by
      obtain ⟨q, hq, hq'⟩ := hof code (List.mem_cons_of_mem _ hcode)
      have hne : code ≠ e.2 := by
        rintro rfl
        exact hnot hcode
      exact ⟨q, by rw [KeyedMap.lookup_erase_eq, if_neg hne]; exact hq, hq'⟩
    rw [List.foldl_cons, List.length_cons]
    omega

theorem mem_ownRequests_of_dropped {e : Nat × String}
    (h : e ∈ droppedRequests requests remoteIp limit) : e ∈ ownRequests requests remoteIp :=
  List.mem_mergeSort.mp (List.mem_of_mem_take h)

theorem lookup_makeRoom_eq (requests : KeyedMap String PendingRequest) (remoteIp : Option String)
    (limit : Nat) (code : String) : (makeRoom requests remoteIp limit).lookup code =
      if limit ≤ (ownRequests requests remoteIp).length ∧
          code ∈ (droppedRequests requests remoteIp limit).map Prod.snd then none
      else requests.lookup code := by
  rw [makeRoom_eq]
  by_cases hfew : (ownRequests requests remoteIp).length < limit
  · rw [if_pos hfew, if_neg fun h => Nat.not_le.mpr hfew h.1]
  · rw [if_neg hfew, lookup_foldl_erase]
    by_cases hmem : code ∈ (droppedRequests requests remoteIp limit).map Prod.snd
    · rw [if_pos hmem, if_pos ⟨Nat.le_of_not_lt hfew, hmem⟩]
    · rw [if_neg hmem, if_neg fun h => hmem h.2]

theorem makeRoom_isOf {code : String} {p : PendingRequest} (hp : requests.lookup code = some p)
    (hgone : (makeRoom requests remoteIp limit).lookup code = none) :
    p.isOf remoteIp = true := by
  rw [lookup_makeRoom_eq] at hgone
  split at hgone
  · next h =>
    obtain ⟨⟨date, code'⟩, he, rfl⟩ := List.mem_map.mp h.2
    obtain ⟨q, hq, hof, -⟩ := mem_ownRequests.mp (mem_ownRequests_of_dropped he)
    rw [hp] at hq
    exact Option.some.inj hq ▸ hof
  · rw [hp] at hgone
    cases hgone

theorem makeRoom_oldest {code code' : String} {p p' : PendingRequest}
    (hp : requests.lookup code = some p)
    (hgone : (makeRoom requests remoteIp limit).lookup code = none)
    (hp' : (makeRoom requests remoteIp limit).lookup code' = some p')
    (hof : p'.isOf remoteIp = true) :
    older (p.result.dateAdded, code) (p'.result.dateAdded, code') = true := by
  rw [lookup_makeRoom_eq] at hgone hp'
  split at hgone
  · next h =>
    have hkept : ¬ (limit ≤ (ownRequests requests remoteIp).length ∧
        code' ∈ (droppedRequests requests remoteIp limit).map Prod.snd) := by
      intro h'
      rw [if_pos h'] at hp'
      cases hp'
    rw [if_neg hkept] at hp'
    obtain ⟨⟨date, code₀⟩, he, rfl⟩ := List.mem_map.mp h.2
    obtain ⟨q, hq, -, rfl⟩ := mem_ownRequests.mp (mem_ownRequests_of_dropped he)
    cases hp.symm.trans hq
    -- the IP's requests by time and code, cut where they are dropped
    have hsorted := List.pairwise_mergeSort older_trans older_total (ownRequests requests remoteIp)
    rw [← List.take_append_drop ((ownRequests requests remoteIp).length - limit + 1)
      ((ownRequests requests remoteIp).mergeSort older)] at hsorted
    have hown : (p'.result.dateAdded, code') ∈ (ownRequests requests remoteIp).mergeSort older :=
      List.mem_mergeSort.mpr (mem_ownRequests.mpr ⟨p', hp', hof, rfl⟩)
    rw [← List.take_append_drop ((ownRequests requests remoteIp).length - limit + 1)
      ((ownRequests requests remoteIp).mergeSort older)] at hown
    rcases List.mem_append.mp hown with hmem | hmem
    · exact absurd ⟨h.1, List.mem_map.mpr ⟨_, hmem, rfl⟩⟩ hkept
    · exact (List.pairwise_append.mp hsorted).2.2 _ he _ hmem
  · rw [hp] at hgone
    cases hgone

theorem pendingOf_makeRoom (hlimit : 0 < limit) (requests : KeyedMap String PendingRequest)
    (remoteIp : Option String) :
    pendingOf remoteIp (makeRoom requests remoteIp limit) =
      min (pendingOf remoteIp requests) (limit - 1) := by
  have hlength := length_ownRequests requests remoteIp
  rw [makeRoom_eq]
  split
  · omega
  · next hmany =>
    have hdropped : (droppedRequests requests remoteIp limit).length =
        (ownRequests requests remoteIp).length - limit + 1 := by
      rw [droppedRequests, List.length_take, List.length_mergeSort]
      omega
    have hnodup : ((droppedRequests requests remoteIp limit).map Prod.snd).Nodup := by
      have hsorted : (((ownRequests requests remoteIp).mergeSort older).map Prod.snd).Nodup :=
        (((ownRequests requests remoteIp).mergeSort_perm older).map Prod.snd).nodup_iff.mpr
          (nodup_ownRequests requests remoteIp)
      exact hsorted.sublist ((List.take_sublist ..).map _)
    have hcount := pendingOf_foldl_erase hnodup fun code hcode => by
      obtain ⟨⟨date, code'⟩, he, rfl⟩ := List.mem_map.mp hcode
      obtain ⟨p, hp, hof, -⟩ := mem_ownRequests.mp (mem_ownRequests_of_dropped he)
      exact ⟨p, hp, hof⟩
    omega

theorem pendingOf_makeRoom_le (requests : KeyedMap String PendingRequest)
    (remoteIp remoteIp' : Option String) (limit : Nat) :
    pendingOf remoteIp' (makeRoom requests remoteIp limit) ≤ pendingOf remoteIp' requests := by
  have hfold : ∀ (es : List (Nat × String)) (requests : KeyedMap String PendingRequest),
      pendingOf remoteIp' (es.foldl (fun requests e => requests.erase e.2) requests) ≤
        pendingOf remoteIp' requests := by
    intro es
    induction es with
    | nil => exact fun _ => Nat.le_refl _
    | cons e es ih => exact fun requests => Nat.le_trans (ih _) (KeyedMap.total_erase_le ..)
  rw [makeRoom_eq]
  split
  · exact Nat.le_refl _
  · exact hfold _ _

end

/-- Room was made for a request of the IP: of its unauthorized requests the oldest went, and no
more than had to. -/
structure RoomMade (remoteIp : Option String) (limit : Nat)
    (before after : KeyedMap String PendingRequest) : Prop where
  kept : ∀ code p, after.lookup code = some p → before.lookup code = some p
  own : ∀ code p, before.lookup code = some p → after.lookup code = none → p.isOf remoteIp = true
  oldest : ∀ code p code' p', before.lookup code = some p → after.lookup code = none →
    after.lookup code' = some p' → p'.isOf remoteIp = true →
      older (p.result.dateAdded, code) (p'.result.dateAdded, code') = true
  needed : pendingOf remoteIp after = min (pendingOf remoteIp before) (limit - 1)

theorem roomMade_makeRoom (hlimit : 0 < limit) (requests : KeyedMap String PendingRequest)
    (remoteIp : Option String) :
    RoomMade remoteIp limit requests (makeRoom requests remoteIp limit) where
  kept code p hp := by
    rw [lookup_makeRoom_eq] at hp
    split at hp
    · cases hp
    · exact hp
  own _ _ hp hgone := makeRoom_isOf hp hgone
  oldest _ _ _ _ hp hgone hp' hof := makeRoom_oldest hp hgone hp' hof
  needed := pendingOf_makeRoom hlimit requests remoteIp

/-! ### The steps -/

section

variable {m m' : Manager Result}

/-- A request is made under a code of its own, where room was made for it. -/
def Manager.Adds (m m' : Manager Result) (remoteIp : Option String) (limit : Nat) : Prop :=
  m'.currentRequests = makeRoom m.currentRequests remoteIp limit ∨
    ∃ code p, (makeRoom m.currentRequests remoteIp limit).lookup code = none ∧
      p.isOf remoteIp = true ∧
      m'.currentRequests = (makeRoom m.currentRequests remoteIp limit).insert code p

theorem connect_cases {i : Nat} {draws : List String} {secret : String}
    (hs : m.step limit (.connect i draws secret) = some m') :
    ∃ remoteIp, m.Adds m' remoteIp limit := by
  obtain ⟨call, -, hs⟩ := Option.bind_eq_some_iff.mp hs
  revert hs
  fun_cases Manager.connect limit m i draws secret call
  · exact nofun
  · next deviceId device client version remoteIp requests hfresh =>
    intro hs
    refine ⟨remoteIp, ?_⟩
    obtain ⟨drawn, hdrawn, rfl⟩ := Option.map_eq_some_iff.mp hs
    cases drawn with
    | error error => exact .inl rfl
    | ok code =>
      refine .inr ⟨code, _, ?_, ?_, rfl⟩
      · rw [drawFreeCode] at hdrawn
        split at hdrawn
        · cases hdrawn
        · obtain ⟨code', hfind, heq⟩ := Option.map_eq_some_iff.mp hdrawn
          cases heq
          have hnone := List.find?_some hfind
          exact Option.isNone_iff_eq_none.mp hnone
      · exact Bool.and_eq_true_iff.mpr ⟨rfl, beq_self_eq_true _⟩
  · exact nofun

theorem isOf_unique {p : PendingRequest} {remoteIp remoteIp' : Option String}
    (h : p.isOf remoteIp = true) (h' : p.isOf remoteIp' = true) : remoteIp = remoteIp' := by
  obtain ⟨-, heq⟩ := Bool.and_eq_true_iff.mp h
  obtain ⟨-, heq'⟩ := Bool.and_eq_true_iff.mp h'
  exact (beq_iff_eq.mp heq).symm.trans (beq_iff_eq.mp heq')

theorem Manager.Capped.adds (h : m.Capped limit) (hlimit : 0 < limit) {remoteIp : Option String}
    (hadds : m.Adds m' remoteIp limit) : m'.Capped limit := by
  intro remoteIp'
  have hle := pendingOf_makeRoom_le m.currentRequests remoteIp remoteIp' limit
  have hold := h remoteIp'
  rcases hadds with heq | ⟨code, p, hfree, hof, heq⟩
  · rw [heq]
    omega
  · rw [heq, pendingOf, KeyedMap.total_insert_of_lookup_none _ hfree, PendingRequest.counts]
    split
    · next hof' =>
      obtain rfl := isOf_unique hof hof'
      have hroom := pendingOf_makeRoom hlimit m.currentRequests remoteIp
      rw [pendingOf] at hroom
      omega
    · rw [pendingOf] at hle
      omega

theorem pendingOf_setPending_le {code : String} {change : QuickConnectResult → QuickConnectResult}
    (hchange : ∀ r, (change r).authenticated = true) (remoteIp : Option String) :
    pendingOf remoteIp (m.setPending code change) ≤ pendingOf remoteIp m.currentRequests := by
  rw [Manager.setPending]
  split
  · next p hp =>
    refine KeyedMap.total_insert_le_of_le hp ?_
    rw [PendingRequest.counts_of_authenticated (hchange _)]
    exact Nat.zero_le _
  · exact Nat.le_refl _

/-- When a claim is taken back, the IP has room for the request or has one too many. -/
theorem capped_revoked (h : m.Capped limit) (i : Nat) (call : Call Result) (code : String) :
    ({ m.goOn i call with
        currentRequests := m.setPending code fun pending =>
          { pending with authenticated := false } } : Manager Result).Capped limit ↔
      ∀ p, m.currentRequests.lookup code = some p → p.result.authenticated = true →
        pendingOf p.remoteIp m.currentRequests < limit := by
  rw [Manager.Capped, Manager.setPending]
  cases hp : m.currentRequests.lookup code with
  | none => exact iff_of_true h fun p hp' => by cases hp'
  | some p =>
    simp only
    generalize hreq : AList.insert code _ m.currentRequests = requests
    have hcount : ∀ remoteIp, pendingOf remoteIp requests + p.counts remoteIp =
        pendingOf remoteIp m.currentRequests + (if p.remoteIp == remoteIp then 1 else 0) :=
      fun remoteIp => hreq ▸ KeyedMap.total_insert_add _ hp
    cases hauth : p.result.authenticated with
    | false =>
      refine iff_of_true (fun remoteIp => ?_) fun p' hp' hauth' => ?_
      · have hsame := hcount remoteIp
        rw [PendingRequest.counts, PendingRequest.isOf, hauth, Bool.not_false,
          Bool.true_and] at hsame
        have := h remoteIp
        omega
      · cases hp'
        rw [hauth] at hauth'
        cases hauth'
    | true =>
      have hzero := PendingRequest.counts_of_authenticated hauth
      constructor
      · intro hcapped p' hp' _
        cases hp'
        have hone := hcount p.remoteIp
        rw [hzero, beq_self_eq_true, if_pos rfl] at hone
        have := hcapped p.remoteIp
        omega
      · intro hroomy remoteIp
        have hone := hcount remoteIp
        rw [hzero] at hone
        split at hone
        · next heq =>
          have := hroomy p rfl hauth
          rw [beq_iff_eq.mp heq] at this
          omega
        · have := h remoteIp
          omega

theorem requests_start {i : Nat} {call : Call Result} (hs : m.start i call = some m') :
    m'.currentRequests = m.currentRequests := by
  rw [Manager.start] at hs
  split at hs
  · cases hs
  · cases hs
    rfl

theorem Manager.Capped.of_eq (h : m.Capped limit)
    (heq : m'.currentRequests = m.currentRequests) : m'.Capped limit := by
  intro remoteIp
  rw [heq]
  exact h remoteIp

theorem Manager.Capped.advance (h : m.Capped limit) {i : Nat} {call : Call Result}
    (hi : m.calls.lookup i = some call) (hs : m.advance i call = some m') :
    m'.Capped limit ↔ m.Roomy limit (.advance i) := by
  -- only an authorization that has failed asks for room
  have hroomy : call.revokes = none → m.Roomy limit (.advance i) := by
    intro hnone call' hcall code hcode
    cases hi.symm.trans hcall
    rw [hnone] at hcode
    cases hcode
  cases call with
  | expiring op =>
    cases hs
    exact iff_of_true (h.of_eq rfl) (hroomy rfl)
  | expiringRequests op cutoff =>
    cases hs
    refine iff_of_true (fun remoteIp => ?_) (hroomy rfl)
    exact Nat.le_trans (KeyedMap.total_retain_le (PendingRequest.counts remoteIp) _ _) (h remoteIp)
  | expiringSecrets op cutoff =>
    cases hs
    exact iff_of_true (h.of_eq rfl) (hroomy rfl)
  | ready op =>
    cases op with
    | tryConnect => cases hs
    | checkRequestStatus secret =>
      cases hs
      refine iff_of_true (h.of_eq ?_) (hroomy rfl)
      rw [Manager.checkRequestStatus]
      split <;> rfl
    | authorizeRequest userId code =>
      cases hs
      refine iff_of_true ?_ (hroomy rfl)
      rw [Manager.claim]
      split
      · exact h.of_eq rfl
      · next p hp =>
        split
        · exact h.of_eq rfl
        · intro remoteIp
          refine Nat.le_trans (KeyedMap.total_insert_le_of_le hp ?_) (h remoteIp)
          rw [PendingRequest.counts_of_authenticated rfl]
          exact Nat.zero_le _
    | getAuthorizedRequest secret =>
      cases hs
      refine iff_of_true (h.of_eq ?_) (hroomy rfl)
      rw [Manager.getAuthorizedRequest]
      split <;> rfl
  | recording code request result =>
    cases hs
    exact iff_of_true (h.of_eq rfl) (hroomy rfl)
  | finishing code request result =>
    cases hs
    refine iff_of_true (fun remoteIp => ?_) (hroomy rfl)
    exact Nat.le_trans (pendingOf_setPending_le (fun _ => rfl) remoteIp) (h remoteIp)
  | revoking code request error =>
    cases hs
    refine (capped_revoked h i _ code).trans ⟨fun hr call hcall code' hcode => ?_,
      fun hr => hr _ hi code rfl⟩
    cases hi.symm.trans hcall
    obtain rfl := Option.some.inj hcode
    exact hr
  | asserting | authenticating | authorized | connected | status | answered | failed => cases hs

/-- **A step keeps every IP to its number exactly when it is roomy.** -/
theorem Manager.Capped.step (h : m.Capped limit) (hlimit : 0 < limit) {e : Event Result}
    (hs : m.step limit e = some m') : m'.Capped limit ↔ m.Roomy limit e := by
  cases e with
  | tick elapsed =>
    cases hs
    exact iff_of_true (h.of_eq rfl) trivial
  | tryConnect i info => exact iff_of_true (h.of_eq (requests_start hs)) trivial
  | checkRequestStatus i secret => exact iff_of_true (h.of_eq (requests_start hs)) trivial
  | authorizeRequest i userId code => exact iff_of_true (h.of_eq (requests_start hs)) trivial
  | getAuthorizedRequest i secret => exact iff_of_true (h.of_eq (requests_start hs)) trivial
  | activate i available =>
    obtain ⟨call, -, hs⟩ := Option.bind_eq_some_iff.mp hs
    cases call with
    | asserting op =>
      cases hs
      exact iff_of_true (h.of_eq rfl) trivial
    | _ => cases hs
  | connect i draws secret =>
    obtain ⟨remoteIp, hadds⟩ := connect_cases hs
    exact iff_of_true (h.adds hlimit hadds) trivial
  | authenticate i session =>
    obtain ⟨call, -, hs⟩ := Option.bind_eq_some_iff.mp hs
    cases call with
    | authenticating userId code request =>
      cases hs
      exact iff_of_true (h.of_eq rfl) trivial
    | _ => cases hs
  | advance i =>
    obtain ⟨call, hi, hs⟩ := Option.bind_eq_some_iff.mp hs
    exact h.advance hi hs

/-- **Each IP keeps to its number where a failed authorization finds room.**  In every run whose
failed authorizations find room, no IP has more unauthorized requests than it may have; a step
breaks this only where one finds none; and the room that `try_connect` makes for a request takes
only unauthorized requests of its IP, the oldest ones, and no more than it has to. -/
theorem capped_of_reaches {pendingPerIp : Nat}
    (h : (quickConnect Result (withPendingPerIp pendingPerIp)).Reaches
      (Manager.Roomy (withPendingPerIp pendingPerIp)) m) :
    m.Capped (withPendingPerIp pendingPerIp) ∧
      (∀ e m', m.step (withPendingPerIp pendingPerIp) e = some m' →
        (m'.Capped (withPendingPerIp pendingPerIp) ↔ m.Roomy (withPendingPerIp pendingPerIp) e)) ∧
      ∀ i draws secret m',
        m.step (withPendingPerIp pendingPerIp) (.connect i draws secret) = some m' →
        ∃ remoteIp requests,
          RoomMade remoteIp (withPendingPerIp pendingPerIp) m.currentRequests requests ∧
          (m'.currentRequests = requests ∨ ∃ code p, requests.lookup code = none ∧
            p.isOf remoteIp = true ∧ m'.currentRequests = requests.insert code p) := by
  have hpos := withPendingPerIp_pos pendingPerIp
  have hcapped : m.Capped (withPendingPerIp pendingPerIp) :=
    h.invariant (fun _ => Nat.zero_le _) fun _ _ _ hm hok hs => (hm.step hpos hs).mpr hok
  refine ⟨hcapped, fun e m' hs => hcapped.step hpos hs, fun i draws secret m' hs => ?_⟩
  obtain ⟨remoteIp, hadds⟩ := connect_cases hs
  exact ⟨remoteIp, _, roomMade_makeRoom hpos m.currentRequests remoteIp, hadds⟩

end

/-! ### One too many -/

def television : AuthorizationInfo :=
  { deviceId := some "television"
    device := some "television"
    client := some "app"
    version := some "1"
    remoteEndpoint := some "192.168.1.2" }

def readySteps (i : Nat) : List (Event Nat) :=
  [.activate i (.ok true), .advance i, .advance i, .advance i]

def asks (i : Nat) (code secret : String) : List (Event Nat) :=
  [Event.tryConnect i television] ++ readySteps i ++ [Event.connect i [code] secret]

/-- A user authorizes the code of the first request, and has no session yet. -/
def authorizes (i : Nat) : List (Event Nat) :=
  [Event.authorizeRequest i "user" "123456"] ++ readySteps i ++ [Event.advance i]

/-- The authorization fails, and takes its claim back. -/
def fails (i : Nat) : List (Event Nat) :=
  [.authenticate i (.error (.backend "session")), .advance i]

theorem capped_of_reaches_failed : ∃ m : Manager Nat,
    (quickConnect Nat (withPendingPerIp 1)).Reaches (Manager.Roomy (withPendingPerIp 1)) m ∧
      pendingOf (some "192.168.1.2") m.currentRequests = 1 ∧ m.Capped (withPendingPerIp 1) := by
  obtain ⟨m, hm, hcount⟩ : ∃ m,
      (quickConnect Nat (withPendingPerIp 1)).runWhile (Manager.Roomy (withPendingPerIp 1)) {}
        (asks 0 "123456" "a" ++ authorizes 1 ++ fails 1) = some m ∧
          pendingOf (some "192.168.1.2") m.currentRequests = 1 :=
      Lib.exists_of_decide (by decide +kernel)
  have h := Machine.path_of_runWhile _ hm
  exact ⟨m, h, hcount, (capped_of_reaches h).1⟩

/-- **An IP has one request too many**: one was claimed while it asked for the other, and its
authorization failed. -/
theorem pending_exceeded : ¬ ∀ m : Manager Nat,
    (quickConnect Nat (withPendingPerIp 1)).Reachable m → m.Capped (withPendingPerIp 1) := by
  intro hall
  obtain ⟨m, hm, hcount⟩ : ∃ m, (quickConnect Nat (withPendingPerIp 1)).run {}
      (asks 0 "123456" "a" ++ authorizes 1 ++ asks 2 "234567" "b" ++ fails 1) = some m ∧
        pendingOf (some "192.168.1.2") m.currentRequests = 2 :=
      Lib.exists_of_decide (by decide +kernel)
  have hcapped := hall m (Machine.reachable_of_run _ hm) (some "192.168.1.2")
  rw [hcount] at hcapped
  exact absurd hcapped (by decide)

end Ferrofin.QuickConnect
