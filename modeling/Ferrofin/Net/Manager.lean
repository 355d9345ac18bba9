import Mathlib.Data.List.Sort
import Ferrofin.Net.KnownProxies

/-!
# The network manager

`manager.rs`: the fields a configuration is read into, the initializers that read it, and the
questions the manager answers from them.
-/

namespace Ferrofin.Net

open Util

structure StartupConfig where
  values : List (String × String)

def StartupConfig.get (startup : StartupConfig) (key : String) : Option String :=
  startup.values.lookup key

def addressOverrideKey : String := "PublishedServerUrl"

structure PublishedServerUriOverride where
  data : IpData
  overrideUri : String
  isInternalOverride : Bool
  isExternalOverride : Bool
deriving DecidableEq

/-- `InterfaceSource`. `Live` asks the operating system, whose answers by enabled families
`enumerate` stands for. -/
inductive InterfaceSource
  | mock (settings : String)
  | provided (interfaces : List IpData)
  | live (enumerate : Bool → Bool → List IpData)

inductive RemoteAccessPolicyResult
  | allow
  | rejectDueToRemoteAccessDisabled
  | rejectDueToIpBlocklist
  | rejectDueToNotAllowlistedRemoteIp
deriving DecidableEq

structure NetworkManager where
  config : NetworkConfiguration
  startupConfig : StartupConfig
  publishedServerUrls : List PublishedServerUriOverride
  remoteAddressFilter : List IpNetwork
  knownProxies : KnownProxies
  interfaces : List IpData
  lanSubnets : List IpNetwork
  excludedSubnets : List IpNetwork
  trustAllIpv6Interfaces : Bool
  interfaceSource : InterfaceSource
  resolver : HostResolver

/-! ## Interfaces -/

def mockInterface (details : List Char) : Option IpData :=
  let parts := details.splitOn ','
  match tryParseToSubnet (String.ofList (parts.headD [])) false with
  | some data =>
    match (parts[1]?).bind parseI32, parts[2]? with
    | some index, some name =>
      if data.addressFamily = .unspecified then none
      else some { data with index := index, name := String.ofList name }
    | _, _ => none
  | none => none

def InterfaceSource.interfaces (source : InterfaceSource) (ipv4 ipv6 : Bool) : List IpData :=
  match source with
  | live enumerate => enumerate ipv4 ipv6
  | provided interfaces => interfaces
  | mock settings =>
    if settings = "" then [] else (settings.toList.splitOn '|').filterMap mockInterface

def distinctByAddress : List IpData → List IpData
  | [] => []
  | iface :: rest =>
    iface :: (distinctByAddress rest).filter fun other => other.address ≠ iface.address

/-- Whether the first entry of a setting is there and is not blank. -/
def firstEntryGiven (entries : List String) : Bool :=
  match entries with
  | [] => false
  | first :: _ => trim first ≠ ""

def bindAddress (interfaces : List IpData) (entry : String) : IpAddr :=
  match tryParseToSubnet entry false with
  | some network => network.address
  | none =>
    ((interfaces.find? fun x => eqIgnoreAsciiCase x.name entry).map IpData.address).getD ipNone

def withLoopback (bindAddresses : List IpAddr) (loopback : IpAddr) (subnet : IpNetwork)
    (interfaces : List IpData) : List IpData :=
  if loopback ∈ bindAddresses ∧ interfaces.all (fun i => i.address ≠ loopback) then
    interfaces ++ [IpData.new loopback (some subnet) "lo"]
  else interfaces

def bindInterfaces (config : NetworkConfiguration) (interfaces : List IpData) : List IpData :=
  if firstEntryGiven config.localNetworkAddresses then
    let bindAddresses :=
      (config.localNetworkAddresses.map (bindAddress interfaces)).filter (· ≠ ipNone)
    withLoopback bindAddresses ipv6Loopback ipv6Rfc4291Loopback <|
      withLoopback bindAddresses ipv4Loopback ipv4Rfc5735Loopback <|
        interfaces.filter fun x => x.address ∈ bindAddresses
  else interfaces

def isVirtual (config : NetworkConfiguration) (iface : IpData) : Bool :=
  config.virtualInterfaceNames.any fun name =>
    ((asciiLowercase name).filter (· ≠ '*')).isPrefixOf (asciiLowercase iface.name)

def filterBindSettings (config : NetworkConfiguration) (interfaces : List IpData)
    (ipv4 ipv6 : Bool) : List IpData :=
  let interfaces := bindInterfaces config interfaces
  let interfaces :=
    if config.ignoreVirtualInterfaces then interfaces.filter fun x => !isVirtual config x
    else interfaces
  let interfaces :=
    if ipv4 then interfaces else interfaces.filter fun x => x.addressFamily ≠ .interNetwork
  let interfaces :=
    if ipv6 then interfaces else interfaces.filter fun x => x.addressFamily ≠ .interNetworkV6
  distinctByAddress interfaces

namespace NetworkManager

/-! ## Initializers -/

def initializeLan (self : NetworkManager) (config : NetworkConfiguration) : NetworkManager :=
  let fallback :=
    (if self.config.enableIpv6 then
      [ipv6Rfc4291Loopback, ipv6Rfc4291SiteLocal, ipv6Rfc4193UniqueLocal]
    else []) ++
    (if self.config.enableIpv4 then
      [ipv4Rfc5735Loopback, ipv4Rfc1918PrivateClassA, ipv4Rfc1918PrivateClassB,
        ipv4Rfc1918PrivateClassC]
    else [])
  let lan :=
    match tryParseToSubnets config.localNetworkSubnets false with
    | some parsed => parsed.map IpData.subnet
    | none => fallback
  let excluded :=
    match tryParseToSubnets config.localNetworkSubnets true with
    | some parsed => parsed.map IpData.subnet
    | none => []
  { self with lanSubnets := lan, excludedSubnets := excluded }

def remoteNetworks (filter : List String) : List IpNetwork :=
  (((tryParseToSubnets (filter.filter fun x => '/' ∈ x.toList) false).getD []).map IpData.subnet) ++
    ((filter.filter fun x => '/' ∉ x.toList).filterMap fun x => parseIpAddr x.toList).map .host

/-- `initialize_remote`: a setting without a first entry leaves the filter as it is. -/
def initializeRemote (self : NetworkManager) (config : NetworkConfiguration) : NetworkManager :=
  if firstEntryGiven config.remoteIpFilter then
    { self with remoteAddressFilter := remoteNetworks config.remoteIpFilter }
  else self

def initializeKnownProxies (self : NetworkManager) (config : NetworkConfiguration) :
    NetworkManager :=
  if self.knownProxies.isParsedFrom config then self
  else { self with knownProxies := .resolve config self.resolver }

def enforceBindSettings (self : NetworkManager) (config : NetworkConfiguration) :
    NetworkManager :=
  { self with
    interfaces := filterBindSettings config self.interfaces self.config.enableIpv4
      self.config.enableIpv6 }

def tryParseInterface (self : NetworkManager) (intf : String) : Option (List IpData) :=
  if intf = "" then none
  else
    let named := self.interfaces.filter fun i =>
      eqIgnoreAsciiCase i.name intf &&
        ((self.config.enableIpv4 && i.addressFamily = .interNetwork) ||
          (self.config.enableIpv6 && i.addressFamily = .interNetworkV6))
    if named = [] then none else some (named.insertionSort fun a b => a.index ≤ b.index)

def anyOverrides (replacement : String) (internal external : Bool) :
    List PublishedServerUriOverride :=
  [⟨.new ipv4Any (some ipv4AnyNetwork) "", replacement, internal, external⟩,
    ⟨.new ipv6Any (some ipv6AnyNetwork) "", replacement, internal, external⟩]

/-- The overrides of an entry whose identifier is not `all`. -/
def entryOverrides (self : NetworkManager) (identifier replacement : String) :
    List PublishedServerUriOverride :=
  if eqIgnoreAsciiCase identifier "external" then anyOverrides replacement false true
  else if eqIgnoreAsciiCase identifier "internal" then
    self.lanSubnets.map fun lan =>
      ⟨.new lan.baseAddress (some ⟨lan.baseAddress, lan.prefixLength⟩) "", replacement, true, false⟩
  else
    match tryParseToSubnet identifier false with
    | some result => [⟨result, replacement, true, true⟩]
    | none =>
      ((self.tryParseInterface identifier).getD []).map fun iface =>
        ⟨iface, replacement, true, true⟩

def splitOverride (entry : String) : Option (String × String) :=
  match entry.toList.splitOn '=' with
  | [identifier, replacement] =>
    some (String.ofList identifier, trim (String.ofList replacement))
  | _ => none

/-- The loop of `initialize_overrides`, which gives up on an entry that is not of two parts. -/
def overrideEntries (self : NetworkManager) :
    List String → List PublishedServerUriOverride → Option (List PublishedServerUriOverride)
  | [], urls => some urls
  | entry :: entries, urls =>
    match splitOverride entry with
    | some (identifier, replacement) =>
      if eqIgnoreAsciiCase identifier "all" then some (anyOverrides replacement true true)
      else self.overrideEntries entries (urls ++ self.entryOverrides identifier replacement)
    | none => none

def startupOverride (self : NetworkManager) : Option String :=
  (self.startupConfig.get addressOverrideKey).filter (· ≠ "")

/-- `initialize_overrides`: on an entry it gives up on, the overrides stay as they are. -/
def initializeOverrides (self : NetworkManager) (config : NetworkConfiguration) :
    NetworkManager :=
  match self.startupOverride with
  | some startup => { self with publishedServerUrls := anyOverrides startup true true }
  | none =>
    match self.overrideEntries config.publishedServerUriBySubnet [] with
    | some urls => { self with publishedServerUrls := urls }
    | none => self

/-- The interfaces of the source, before the bind settings. -/
def readInterfaces (self : NetworkManager) (config : NetworkConfiguration) : NetworkManager :=
  { self with
    interfaces := self.interfaceSource.interfaces config.enableIpv4 config.enableIpv6 }

/-! ## Settings -/

def updateSettings (self : NetworkManager) (config : NetworkConfiguration) : NetworkManager :=
  let self := { self with config := config }
  let self := self.initializeLan config
  let self := self.initializeRemote config
  let self := self.readInterfaces config
  let self := self.initializeKnownProxies config
  let self := self.enforceBindSettings config
  self.initializeOverrides config

def blank (config : NetworkConfiguration) (startup : StartupConfig) (source : InterfaceSource)
    (resolver : HostResolver) : NetworkManager :=
  { config := config, startupConfig := startup, publishedServerUrls := [],
    remoteAddressFilter := [], knownProxies := .default, interfaces := [], lanSubnets := [],
    excludedSubnets := [], trustAllIpv6Interfaces := false, interfaceSource := source,
    resolver := resolver }

def new (config : NetworkConfiguration) (startup : StartupConfig) (mockNetworkSettings : String)
    (resolver : HostResolver) : NetworkManager :=
  (blank config startup (.mock mockNetworkSettings) resolver).updateSettings config

def setInterfaces (self : NetworkManager) (interfaces : List IpData) : NetworkManager :=
  { self with interfaceSource := .provided interfaces }.updateSettings self.config

/-- `refresh_interfaces`: supplied interfaces stay fixed. -/
def refreshInterfaces (self : NetworkManager) : NetworkManager :=
  match self.interfaceSource with
  | .live _ => self.updateSettings self.config
  | .provided _ | .mock _ => self

def live (config : NetworkConfiguration) (enumerate : Bool → Bool → List IpData)
    (resolver : HostResolver) : NetworkManager :=
  { new config ⟨[]⟩ "" resolver with interfaceSource := .live enumerate }.refreshInterfaces

def withInterfaces (config : NetworkConfiguration) (interfaces : List IpData)
    (resolver : HostResolver) : NetworkManager :=
  (new config ⟨[]⟩ "" resolver).setInterfaces interfaces

/-! ## Answers -/

def checkIfLanAndNotExcluded (self : NetworkManager) (address : IpAddr) : Bool :=
  self.lanSubnets.any (subnetContainsAddress · address) &&
    !self.excludedSubnets.any (subnetContainsAddress · address)

def isInLocalNetwork (self : NetworkManager) (address : IpAddr) : Bool :=
  let address := address.unmapV4Mapped
  (self.trustAllIpv6Interfaces && address.isV6) || address.isLoopback ||
    self.checkIfLanAndNotExcluded address

def shouldAllowServerAccess (self : NetworkManager) (remoteIp : IpAddr) :
    RemoteAccessPolicyResult :=
  if self.isInLocalNetwork remoteIp then .allow
  else if !self.config.enableRemoteAccess then .rejectDueToRemoteAccessDisabled
  else if self.remoteAddressFilter = [] then .allow
  else
    let anyMatches := self.remoteAddressFilter.any (subnetContainsAddress · remoteIp)
    if self.config.isRemoteIpFilterBlacklist then
      if anyMatches then .rejectDueToIpBlocklist else .allow
    else if anyMatches then .allow
    else .rejectDueToNotAllowlistedRemoteIp

def isKnownProxy (self : NetworkManager) (address : IpAddr) : Bool :=
  self.knownProxies.contains address

def clientAddressLoop (isKnownProxy : IpAddr → Bool) (chain : List IpAddr) :
    Nat → IpAddr → IpAddr
  | 0, current => current
  | remaining + 1, current =>
    if isKnownProxy current then
      clientAddressLoop isKnownProxy chain remaining (chain.getD remaining current)
    else current

def clientAddress (self : NetworkManager) (peer : IpAddr) (forwardedFor : List IpAddr) : IpAddr :=
  if !self.knownProxies.forwardingEnabled then peer
  else clientAddressLoop self.isKnownProxy forwardedFor forwardedFor.length peer

end NetworkManager

end Ferrofin.Net
