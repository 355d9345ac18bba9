import Ferrofin.Net.NetUtils

/-!
# Known proxies

`known_proxies.rs`: the addresses a forwarded header is trusted from.
-/

namespace Ferrofin.Net

open Util

/-- `NetworkConfiguration`, what the manager reads of it. -/
structure NetworkConfiguration where
  enableIpv4 : Bool
  enableIpv6 : Bool
  enableRemoteAccess : Bool
  localNetworkSubnets : List String
  localNetworkAddresses : List String
  knownProxies : List String
  ignoreVirtualInterfaces : Bool
  virtualInterfaceNames : List String
  publishedServerUriBySubnet : List String
  remoteIpFilter : List String
  isRemoteIpFilterBlacklist : Bool
deriving DecidableEq

def NetworkConfiguration.default : NetworkConfiguration :=
  { enableIpv4 := true, enableIpv6 := false, enableRemoteAccess := true, localNetworkSubnets := [],
    localNetworkAddresses := [], knownProxies := [], ignoreVirtualInterfaces := true,
    virtualInterfaceNames := ["veth"], publishedServerUriBySubnet := [], remoteIpFilter := [],
    isRemoteIpFilterBlacklist := false }

/-- `KnownProxies`: the parsed setting, with what it was parsed from. -/
structure KnownProxies where
  entries : List String
  enableIpv4 : Bool
  enableIpv6 : Bool
  networks : List IpNetwork
  unresolved : List String
deriving DecidableEq

namespace KnownProxies

def default : KnownProxies := ⟨[], false, false, [], []⟩

/-- What `add_ip_address` files: an IPv4-mapped address is unmapped, with its prefix, unless the
subnet is wider than the mapped range. -/
def unmapNetwork (address : IpAddr) (prefixLength : UInt8) : IpNetwork :=
  match address with
  | .v6 bits =>
    if 96 ≤ prefixLength then
      (IpAddr.toIpv4Mapped bits).elim ⟨address, prefixLength⟩ (⟨.v4 ·, prefixLength - 96⟩)
    else ⟨address, prefixLength⟩
  | .v4 _ => ⟨address, prefixLength⟩

def familyEnabled (self : KnownProxies) (address : IpAddr) : Bool :=
  if address.isV6 then self.enableIpv6 else self.enableIpv4

def addIpAddress (self : KnownProxies) (address : IpAddr) (prefixLength : UInt8) : KnownProxies :=
  let network := unmapNetwork address prefixLength
  if self.familyEnabled network.baseAddress then
    { self with networks := self.networks ++ [network] }
  else self

/-- An entry of the setting, under the enabled families. -/
def addEntry (ipv4 ipv6 : Bool) (resolver : HostResolver) (self : KnownProxies)
    (entry : String) : KnownProxies :=
  match parseIpAddr (trim entry).toList with
  | some address => self.addIpAddress address (singleHostPrefix address)
  | none =>
    match tryParseToSubnet entry false with
    | some data => self.addIpAddress data.subnet.baseAddress data.subnet.prefixLength
    | none =>
      match tryParseHostWith entry ipv4 ipv6 resolver with
      | some addresses =>
        addresses.foldl (fun self address => self.addIpAddress address (singleHostPrefix address))
          self
      | none => { self with unresolved := self.unresolved ++ [entry] }

def resolve (config : NetworkConfiguration) (resolver : HostResolver) : KnownProxies :=
  config.knownProxies.foldl (addEntry config.enableIpv4 config.enableIpv6 resolver)
    { default with
      entries := config.knownProxies, enableIpv4 := config.enableIpv4,
      enableIpv6 := config.enableIpv6 }

def isParsedFrom (self : KnownProxies) (config : NetworkConfiguration) : Bool :=
  self.entries == config.knownProxies && self.enableIpv4 == config.enableIpv4 &&
    self.enableIpv6 == config.enableIpv6

def forwardingEnabled (self : KnownProxies) : Bool := !self.entries.isEmpty

def contains (self : KnownProxies) (address : IpAddr) : Bool :=
  (self.forwardingEnabled && address.unmapV4Mapped.isLoopback) ||
    self.networks.any (subnetContainsAddress · address.unmapV4Mapped)

variable {self : KnownProxies} {config config' : NetworkConfiguration} {resolver : HostResolver}

/-! ## What proxies are parsed from -/

def Source (self : KnownProxies) : List String × Bool × Bool :=
  (self.entries, self.enableIpv4, self.enableIpv6)

theorem isParsedFrom_iff : self.isParsedFrom config = true ↔
    self.Source = (config.knownProxies, config.enableIpv4, config.enableIpv6) := by
  simp [isParsedFrom, Source, and_assoc]

@[simp] theorem source_addIpAddress (address : IpAddr) (prefixLength : UInt8) :
    (self.addIpAddress address prefixLength).Source = self.Source := by
  rw [addIpAddress]
  split <;> rfl

@[simp] theorem source_addEntry (ipv4 ipv6 : Bool) (entry : String) :
    (addEntry ipv4 ipv6 resolver self entry).Source = self.Source := by
  have hfold : ∀ (addresses : List IpAddr) (p : KnownProxies),
      (addresses.foldl (fun p address => p.addIpAddress address (singleHostPrefix address))
        p).Source
        = p.Source := by
    intro addresses
    induction addresses with
    | nil => exact fun p => rfl
    | cons address addresses ih =>
      intro p
      rw [List.foldl_cons, ih, source_addIpAddress]
  unfold addEntry
  split
  · exact source_addIpAddress _ _
  · split
    · exact source_addIpAddress _ _
    · split
      · exact hfold _ _
      · rfl

theorem source_resolve (config : NetworkConfiguration) (resolver : HostResolver) :
    (resolve config resolver).Source =
      (config.knownProxies, config.enableIpv4, config.enableIpv6) := by
  have hfold : ∀ (entries : List String) (p : KnownProxies),
      (entries.foldl (addEntry config.enableIpv4 config.enableIpv6 resolver) p).Source =
        p.Source := by
    intro entries
    induction entries with
    | nil => exact fun p => rfl
    | cons entry entries ih =>
      intro p
      rw [List.foldl_cons, ih, source_addEntry]
  rw [resolve, hfold]
  rfl

theorem resolve_congr (h : config.knownProxies = config'.knownProxies)
    (h4 : config.enableIpv4 = config'.enableIpv4) (h6 : config.enableIpv6 = config'.enableIpv6) :
    resolve config resolver = resolve config' resolver := by
  rw [resolve, resolve, h, h4, h6]

theorem resolve_of_isParsedFrom (h : (resolve config resolver).isParsedFrom config' = true) :
    resolve config resolver = resolve config' resolver := by
  rw [isParsedFrom_iff, source_resolve] at h
  obtain ⟨hentries, hfamilies⟩ := Prod.mk.inj h
  obtain ⟨h4, h6⟩ := Prod.mk.inj hfamilies
  exact resolve_congr hentries h4 h6

theorem resolve_of_nil (h : config.knownProxies = []) : resolve config resolver =
    { default with enableIpv4 := config.enableIpv4, enableIpv6 := config.enableIpv6 } := by
  rw [resolve, h]
  rfl

theorem forwardingEnabled_resolve : (resolve config resolver).forwardingEnabled =
    !config.knownProxies.isEmpty := by
  have h : (resolve config resolver).entries = config.knownProxies :=
    (Prod.mk.inj (source_resolve config resolver)).1
  rw [forwardingEnabled, h]

theorem contains_resolve_of_nil (h : config.knownProxies = []) (address : IpAddr) :
    (resolve config resolver).contains address = false := by
  rw [resolve_of_nil h]
  rfl

end KnownProxies

end Ferrofin.Net
