import Ferrofin.Net.Reload
import Ferrofin.Net.ForwardedHeaders

/-!
# Forwarded headers cannot be forged

* `walkLoop_eq`: the walk by hops is a walk over the three lists from the right.
* `accepted_walkHeaders`, `clientHops_eq`: both walks accept the hops of one chain.
* `forwarded_headers_unforgeable`: the entries left of where the chain ends change nothing.
-/

namespace Ferrofin.Net

open Lib TrustedHops

variable {known : IpAddr → Bool}

/-! ## The walk from the right -/

theorem fromRight_eq (entries : List String) (hop : Nat) :
    fromRight entries hop = (entries.reverse.drop hop).head? := by
  rw [fromRight, List.head?_drop]
  split
  · next hle =>
    rw [List.getElem?_reverse (by omega)]
    congr 1
    omega
  · next hlt => rw [List.getElem?_eq_none (by rw [List.length_reverse]; omega)]

/-- The walk over the lists of entries, the rightmost first. -/
def walkFromRight (known : IpAddr → Bool) :
    Nat → List String → List String → List String → Walk → Walk
  | 0, _, _, _, w => w
  | left + 1, fors, protos, hosts, w =>
    match walkHop known fors.head? protos.head? hosts.head? w with
    | some w' => walkFromRight known left fors.tail protos.tail hosts.tail w'
    | none => w

theorem walkLoop_eq (fors protos hosts : List String) (left hop : Nat) (w : Walk) :
    walkLoop known fors protos hosts left hop w =
      walkFromRight known left (fors.reverse.drop hop) (protos.reverse.drop hop)
        (hosts.reverse.drop hop) w := by
  induction left generalizing hop w with
  | zero => rfl
  | succ left ih =>
    rw [walkLoop, walkFromRight, fromRight_eq, fromRight_eq, fromRight_eq]
    cases walkHop known (fors.reverse.drop hop).head? (protos.reverse.drop hop).head?
      (hosts.reverse.drop hop).head? w with
    | none => rfl
    | some w' =>
      have htail := ih (hop + 1) w'
      rw [← List.tail_drop, ← List.tail_drop, ← List.tail_drop] at htail
      exact htail

@[simp] theorem Walk.forward_none (w : Walk) : w.forward none none = w := rfl

theorem walkFromRight_nil (left : Nat) (w : Walk) : walkFromRight known left [] [] [] w = w := by
  induction left with
  | zero => rfl
  | succ left ih =>
    rw [walkFromRight]
    split
    · next w' hhop =>
      have hw : w' = w := by
        simp only [walkHop, List.head?_nil, Walk.forward_none] at hhop
        split at hhop
        · exact (Option.some.inj hhop).symm
        · cases hhop
      rw [hw]
      exact ih
    · rfl

theorem walkFromRight_of_le {fors protos hosts : List String} {left : Nat} (more : Nat)
    (hfor : fors.length ≤ left) (hproto : protos.length ≤ left) (hhost : hosts.length ≤ left)
    (w : Walk) :
    walkFromRight known (left + more) fors protos hosts w =
      walkFromRight known left fors protos hosts w := by
  induction left generalizing fors protos hosts w with
  | zero =>
    rw [List.eq_nil_of_length_eq_zero (Nat.le_zero.mp hfor),
      List.eq_nil_of_length_eq_zero (Nat.le_zero.mp hproto),
      List.eq_nil_of_length_eq_zero (Nat.le_zero.mp hhost), walkFromRight_nil, walkFromRight_nil]
  | succ left ih =>
    have htail : ∀ l : List String, l.length ≤ left + 1 → l.tail.length ≤ left := by
      intro l hl
      rw [List.length_tail]
      omega
    rw [show left + 1 + more = left + more + 1 by omega, walkFromRight, walkFromRight]
    split
    · exact ih (htail _ hfor) (htail _ hproto) (htail _ hhost) _
    · rfl

def forwardedNames : List String := ["x-forwarded-for", "x-forwarded-proto", "x-forwarded-host"]

/-- The number of hops of the loop: the entries of the longest header. -/
def hopCount (headers : HeaderMap) : Nat :=
  max (max (commaSeparatedValues headers "x-forwarded-for").length
    (commaSeparatedValues headers "x-forwarded-proto").length)
    (commaSeparatedValues headers "x-forwarded-host").length

theorem length_le_hopCount (headers : HeaderMap) {name : String} (h : name ∈ forwardedNames) :
    (commaSeparatedValues headers name).reverse.length ≤ hopCount headers := by
  rw [List.length_reverse]
  simp only [forwardedNames, List.mem_cons, List.not_mem_nil, or_false] at h
  simp only [hopCount]
  rcases h with rfl | rfl | rfl <;> omega

/-- The walk over the headers, for as many steps as one likes beyond their entries. -/
theorem walkHeaders_eq (peer : IpAddr) (headers : HeaderMap) {left : Nat}
    (h : hopCount headers ≤ left) :
    walkHeaders known peer headers =
      walkFromRight known left (commaSeparatedValues headers "x-forwarded-for").reverse
        (commaSeparatedValues headers "x-forwarded-proto").reverse
        (commaSeparatedValues headers "x-forwarded-host").reverse ⟨peer, .default, []⟩ := by
  obtain ⟨more, rfl⟩ : ∃ more, left = hopCount headers + more :=
    ⟨left - hopCount headers, by omega⟩
  rw [walkHeaders, walkLoop_eq]
  simp only [List.drop_zero]
  exact (walkFromRight_of_le more (length_le_hopCount headers (by decide))
    (length_le_hopCount headers (by decide)) (length_le_hopCount headers (by decide)) _).symm

/-! ## The chain both walks follow -/

theorem walkHop_of_not_known {w : Walk} (h : known w.remote = false)
    (entry proto host : Option String) : walkHop known entry proto host w = none := by
  simp only [walkHop, h, Bool.false_eq_true, if_false]

theorem walkHop_none {w : Walk} (h : known w.remote = true) (proto host : Option String) :
    walkHop known none proto host w = some (w.forward proto host) := by
  simp only [walkHop, if_pos h]

theorem walkHop_some {w : Walk} (h : known w.remote = true) (entry : String)
    (proto host : Option String) :
    walkHop known (some entry) proto host w =
      (parseForwardedEntry entry).map fun address => (w.accept address).forward proto host := by
  simp only [walkHop, if_pos h]

theorem walkFromRight_of_not_known {w : Walk} (h : known w.remote = false) (left : Nat)
    (fors protos hosts : List String) : walkFromRight known left fors protos hosts w = w := by
  cases left with
  | zero => rfl
  | succ left => simp only [walkFromRight, walkHop_of_not_known h]

theorem walkFromRight_hops {left : Nat} {fors : List String} (hleft : fors.length ≤ left)
    (protos hosts : List String) (w : Walk) :
    (walkFromRight known left fors protos hosts w).accepted =
        w.accepted ++ hops known parseForwardedEntry fors w.remote ∧
      (walkFromRight known left fors protos hosts w).remote =
        (hops known parseForwardedEntry fors w.remote).getLastD w.remote := by
  induction left generalizing fors protos hosts w with
  | zero =>
    rw [List.eq_nil_of_length_eq_zero (Nat.le_zero.mp hleft)]
    exact ⟨(List.append_nil _).symm, rfl⟩
  | succ left ih =>
    by_cases hknown : known w.remote = true
    · cases fors with
      | nil =>
        simp only [walkFromRight, List.head?_nil, walkHop_none hknown, List.tail_nil]
        exact ih (Nat.zero_le _) _ _ _
      | cons entry fors =>
        simp only [walkFromRight, List.head?_cons, walkHop_some hknown, List.tail_cons, hops,
          if_pos hknown]
        cases parseForwardedEntry entry with
        | none => exact ⟨(List.append_nil _).symm, rfl⟩
        | some address =>
          obtain ⟨haccepted, hremote⟩ := ih (Nat.le_of_succ_le_succ hleft) protos.tail hosts.tail
            ((w.accept address).forward protos.head? hosts.head?)
          refine ⟨haccepted.trans ?_, hremote.trans ?_⟩
          · exact List.append_assoc _ _ _
          · exact (List.getLastD_cons ..).symm
    · have hnot := Bool.eq_false_iff.mpr hknown
      rw [walkFromRight_of_not_known hnot, hops_of_not_trusted hnot]
      exact ⟨(List.append_nil _).symm, rfl⟩

/-- **What lies beyond the chain does not matter to the walk.** -/
theorem walkFromRight_congr {left : Nat} {fors fors' protos protos' hosts hosts' : List String}
    {w : Walk} (hfor : AgreeUpTo (reach known parseForwardedEntry fors w.remote) fors fors')
    (hproto : AgreeUpTo (reach known parseForwardedEntry fors w.remote) protos protos')
    (hhost : AgreeUpTo (reach known parseForwardedEntry fors w.remote) hosts hosts') :
    walkFromRight known left fors protos hosts w =
      walkFromRight known left fors' protos' hosts' w := by
  induction left generalizing fors fors' protos protos' hosts hosts' w with
  | zero => rfl
  | succ left ih =>
    by_cases hknown : known w.remote = true
    · cases fors with
      | nil =>
        rw [reach, if_pos hknown] at hfor hproto hhost
        rw [show [] = fors' from hfor, show protos = protos' from hproto,
          show hosts = hosts' from hhost]
      | cons entry fors =>
        simp only [reach, if_pos hknown] at hfor hproto hhost
        cases hparse : parseForwardedEntry entry with
        | none =>
          rw [hparse] at hfor
          have hhead : some entry = fors'.head? := AgreeUpTo.head? (n := some 0) hfor
          simp only [walkFromRight, ← hhead, List.head?_cons, walkHop_some hknown, hparse,
            Option.map_none]
        | some address =>
          rw [hparse] at hfor hproto hhost
          have hhead : some entry = fors'.head? := AgreeUpTo.head? hfor
          simp only [walkFromRight, ← hhead, List.head?_cons, walkHop_some hknown, hparse,
            Option.map_some, hproto.head?, hhost.head?, List.tail_cons]
          exact ih hfor.tail hproto.tail hhost.tail
    · have hnot := Bool.eq_false_iff.mpr hknown
      rw [walkFromRight_of_not_known hnot, walkFromRight_of_not_known hnot]

/-- The loop of `client_address` follows the chain it is given. -/
theorem clientHopsLoop_eq (chain : List IpAddr) {remaining : Nat} (h : remaining ≤ chain.length)
    (current : IpAddr) :
    clientHopsLoop known chain remaining current =
      hops known some (chain.take remaining).reverse current := by
  induction remaining generalizing current with
  | zero => rfl
  | succ remaining ih =>
    have hget : chain.getD remaining current = chain[remaining] := by
      rw [List.getD_eq_getElem?_getD, List.getElem?_eq_getElem (by omega), Option.getD_some]
    rw [List.take_succ_eq_append_getElem (by omega), List.reverse_append, List.reverse_singleton,
      List.singleton_append, clientHopsLoop, hops, hget, ih (by omega)]

theorem clientAddressLoop_eq (chain : List IpAddr) (remaining : Nat) (current : IpAddr) :
    NetworkManager.clientAddressLoop known chain remaining current =
      (clientHopsLoop known chain remaining current).getLastD current := by
  induction remaining generalizing current with
  | zero => rfl
  | succ remaining ih =>
    rw [NetworkManager.clientAddressLoop, clientHopsLoop]
    split
    · rw [List.getLastD_cons, ih]
    · rfl

namespace NetworkManager

variable {m : NetworkManager} {config : NetworkConfiguration} {resolver : HostResolver}

theorem isKnownProxy_of_nil (hm : m.knownProxies = .resolve config resolver)
    (hnil : config.knownProxies = []) (address : IpAddr) : m.isKnownProxy address = false := by
  rw [isKnownProxy, hm]
  exact KnownProxies.contains_resolve_of_nil hnil address

theorem forwardingEnabled_eq_false_iff (hm : m.knownProxies = .resolve config resolver) :
    m.knownProxies.forwardingEnabled = false ↔ config.knownProxies = [] := by
  rw [hm, KnownProxies.forwardingEnabled_resolve, Bool.not_eq_false', List.isEmpty_iff]

/-- **`client_address` takes the hops of the chain**, over the entries ended at the first from the
right that cannot be parsed. -/
theorem clientHops_eq (hm : m.knownProxies = .resolve config resolver) (peer : IpAddr)
    (headers : HeaderMap) :
    m.clientHops peer (forwardedFor headers) =
      hops m.isKnownProxy parseForwardedEntry
        (commaSeparatedValues headers "x-forwarded-for").reverse peer := by
  rw [clientHops]
  cases henabled : m.knownProxies.forwardingEnabled with
  | false =>
    have hnil := (forwardingEnabled_eq_false_iff hm).mp henabled
    rw [hops_of_not_trusted (isKnownProxy_of_nil hm hnil peer)]
    rfl
  | true =>
    rw [Bool.not_true, if_neg Bool.false_ne_true, clientHopsLoop_eq _ (Nat.le_refl _),
      List.take_length, forwardedFor, List.reverse_reverse, hops_mapWhile]

theorem clientAddress_eq (peer : IpAddr) (forwardedFor : List IpAddr) :
    m.clientAddress peer forwardedFor = (m.clientHops peer forwardedFor).getLastD peer := by
  rw [clientAddress, clientHops]
  split
  · rfl
  · exact clientAddressLoop_eq _ _ _

theorem walkHeaders_hops (known : IpAddr → Bool) (peer : IpAddr) (headers : HeaderMap) :
    (walkHeaders known peer headers).accepted =
        hops known parseForwardedEntry
          (commaSeparatedValues headers "x-forwarded-for").reverse peer ∧
      (walkHeaders known peer headers).remote =
        (hops known parseForwardedEntry
          (commaSeparatedValues headers "x-forwarded-for").reverse peer).getLastD peer := by
  rw [walkHeaders_eq peer headers (Nat.le_refl _)]
  exact walkFromRight_hops (length_le_hopCount headers (by decide)) _ _ _

/-- Two requests agree on the entries that settle the chain: those at or right of the hop where
the walk first meets an address that is no known proxy, or an entry that cannot be parsed. -/
def AgreeOnChain (m : NetworkManager) (peer : IpAddr) (headers headers' : HeaderMap) : Prop :=
  ∀ name ∈ forwardedNames,
    AgreeUpTo
      (reach m.isKnownProxy parseForwardedEntry
        (commaSeparatedValues headers "x-forwarded-for").reverse peer)
      (commaSeparatedValues headers name).reverse (commaSeparatedValues headers' name).reverse

/-- The headers of a request from `peer` cannot be forged past a proxy. -/
structure Unforgeable (m : NetworkManager) (peer : IpAddr) : Prop where
  agree : ∀ headers headers', m.AgreeOnChain peer headers headers' →
    m.clientAddress peer (forwardedFor headers) = m.clientAddress peer (forwardedFor headers') ∧
      walkForwardedHeaders m.isKnownProxy peer headers =
        walkForwardedHeaders m.isKnownProxy peer headers'
  ignored : m.isKnownProxy peer = false ∨ m.config.knownProxies = [] →
    ∀ headers, m.clientAddress peer (forwardedFor headers) = peer ∧
      walkForwardedHeaders m.isKnownProxy peer headers = .default
  hops : ∀ headers, (walkHeaders m.isKnownProxy peer headers).accepted =
    m.clientHops peer (forwardedFor headers)
  remote : ∀ headers, (walkHeaders m.isKnownProxy peer headers).remote =
    m.clientAddress peer (forwardedFor headers)

theorem walkHeaders_congr {peer : IpAddr} {headers headers' : HeaderMap}
    (h : m.AgreeOnChain peer headers headers') :
    walkHeaders m.isKnownProxy peer headers = walkHeaders m.isKnownProxy peer headers' := by
  rw [walkHeaders_eq peer headers (Nat.le_max_left _ (hopCount headers')),
    walkHeaders_eq peer headers' (Nat.le_max_right (hopCount headers) _)]
  exact walkFromRight_congr (h "x-forwarded-for" (by decide)) (h "x-forwarded-proto" (by decide))
    (h "x-forwarded-host" (by decide))

/-- **Forwarded headers cannot be forged past a proxy**: for every configuration, peer and pair of
requests. -/
theorem forwarded_headers_unforgeable (startup : StartupConfig) (mock : String)
    (peer : IpAddr) : (new config startup mock resolver).Unforgeable peer := by
  have hm : (new config startup mock resolver).knownProxies = .resolve config resolver := by
    rw [new, updateSettings_eq (.blank ..)]
    rfl
  have hconfig : (new config startup mock resolver).config = config :=
    config_updateSettings (.blank ..)
  have hhops : ∀ headers,
      (walkHeaders (new config startup mock resolver).isKnownProxy peer headers).accepted =
        (new config startup mock resolver).clientHops peer (forwardedFor headers) := by
    intro headers
    rw [(walkHeaders_hops _ peer headers).1, clientHops_eq hm]
  have hremote : ∀ headers,
      (walkHeaders (new config startup mock resolver).isKnownProxy peer headers).remote =
        (new config startup mock resolver).clientAddress peer (forwardedFor headers) := by
    intro headers
    rw [(walkHeaders_hops _ peer headers).2, clientAddress_eq, clientHops_eq hm]
  refine ⟨fun headers headers' hagree => ?_, fun hignored headers => ?_, hhops, hremote⟩
  · have hwalk := walkHeaders_congr hagree
    refine ⟨?_, congrArg Walk.forwarded hwalk⟩
    rw [← hremote headers, ← hremote headers', hwalk]
  · have hpeer : (new config startup mock resolver).isKnownProxy peer = false := by
      rcases hignored with hpeer | hnil
      · exact hpeer
      · rw [hconfig] at hnil
        exact isKnownProxy_of_nil hm hnil peer
    have hwalk : walkHeaders (new config startup mock resolver).isKnownProxy peer headers =
        ⟨peer, .default, []⟩ := by
      rw [walkHeaders_eq peer headers (Nat.le_refl _), walkFromRight_of_not_known hpeer]
    exact ⟨(hremote headers).symm.trans (congrArg Walk.remote hwalk),
      congrArg Walk.forwarded hwalk⟩

end NetworkManager

end Ferrofin.Net
