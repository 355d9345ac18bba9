import Ferrofin.Net.Reload

/-!
# Remote access

Which addresses `should_allow_server_access` allows, against what the configuration says.
-/

namespace Ferrofin.Net

open Util

/-! ## The policy -/

/-- The network an entry of the filter stands for, blanks around it ignored. -/
def filterEntry (entry : String) : Option IpNetwork :=
  if '/' ∈ entry.toList then (tryParseToSubnet entry false).map IpData.subnet
  else (parseIpAddr (trim entry).toList).map .host

def EntryContains (entry : String) (address : IpAddr) : Prop :=
  ∃ network, filterEntry entry = some network ∧ network.Covers address.unmapV4Mapped

/-- The filter admits a remote address: no entry is given, or no entry of a blocklist contains
it, or one of an allowlist does. -/
def Admitted (config : NetworkConfiguration) (address : IpAddr) : Prop :=
  (∀ entry ∈ config.remoteIpFilter, trim entry = "") ∨
    if config.isRemoteIpFilterBlacklist then
      ∀ entry ∈ config.remoteIpFilter, ¬ EntryContains entry address
    else ∃ entry ∈ config.remoteIpFilter, EntryContains entry address

namespace NetworkManager

/-- The address is local: loopback, IPv6 while all of it is trusted, or in a LAN subnet and in no
excluded one. -/
def Local (m : NetworkManager) (address : IpAddr) : Prop :=
  address.unmapV4Mapped.isLoopback = true ∨
    (m.trustAllIpv6Interfaces = true ∧ address.unmapV4Mapped.isV6 = true) ∨
    (∃ lan ∈ m.lanSubnets, lan.Covers address.unmapV4Mapped) ∧
      ∀ excluded ∈ m.excludedSubnets, ¬ excluded.Covers address.unmapV4Mapped

def Permitted (m : NetworkManager) (address : IpAddr) : Prop :=
  m.Local address ∨ (m.config.enableRemoteAccess = true ∧ Admitted m.config address)

/-- The access decision is the policy's, and an allowlist with an entry given never admits a
remote address that none of its entries contains. -/
structure FailsClosed (m : NetworkManager) (address : IpAddr) : Prop where
  exact : m.shouldAllowServerAccess address = .allow ↔ m.Permitted address
  closed : m.config.isRemoteIpFilterBlacklist = false →
    (∃ entry ∈ m.config.remoteIpFilter, trim entry ≠ "") → ¬ m.Local address →
    (∀ entry ∈ m.config.remoteIpFilter, ¬ EntryContains entry address) →
    m.shouldAllowServerAccess address ≠ .allow

/-! ## What the code reads -/

/-- The network the code reads of an entry: blanks around a single address are not ignored. -/
def readEntry (entry : String) : Option IpNetwork :=
  if '/' ∈ entry.toList then (tryParseToSubnet entry false).map IpData.subnet
  else (parseIpAddr entry.toList).map .host

def ReadContains (entry : String) (address : IpAddr) : Prop :=
  ∃ network, readEntry entry = some network ∧ network.Covers address.unmapV4Mapped

theorem filterEntry_of_readEntry {entry : String} {network : IpNetwork}
    (h : readEntry entry = some network) : filterEntry entry = some network := by
  rw [readEntry] at h
  rw [filterEntry]
  split at h
  · next hslash => rwa [if_pos hslash]
  · next hslash =>
    rw [if_neg hslash]
    obtain ⟨address, hparse, -⟩ := Option.map_eq_some_iff.mp h
    have hblanks := isAddressChar_of_parseIpAddr hparse
    rwa [trim_of_not_isWhitespace fun c hc => (hblanks c hc).not_isWhitespace]

theorem ReadContains.entryContains {entry : String} {address : IpAddr}
    (h : ReadContains entry address) : EntryContains entry address := by
  obtain ⟨network, hread, hcovers⟩ := h
  exact ⟨network, filterEntry_of_readEntry hread, hcovers⟩

theorem isNegated_of_tryParseToSubnet {entry : String} {data : IpData}
    (h : tryParseToSubnet entry false = some data) : isNegated entry = false := by
  rw [isNegated]
  rw [tryParseToSubnet] at h
  cases hchars : (trim entry).toList with
  | nil => rfl
  | cons c rest =>
    by_cases hc : c = '!'
    · rw [hchars, hc] at h
      simp [stripNegation] at h
    · simp [hc]

theorem mem_parsedSubnets {values : List String} {data : IpData} :
    data ∈ parsedSubnets values false ↔
      ∃ value ∈ values, tryParseToSubnet value false = some data := by
  rw [parsedSubnets, List.mem_filterMap]
  constructor
  · rintro ⟨value, hvalue, hparse⟩
    exact ⟨value, (List.mem_filter.mp hvalue).1, hparse⟩
  · rintro ⟨value, hvalue, hparse⟩
    refine ⟨value, List.mem_filter.mpr ⟨hvalue, ?_⟩, hparse⟩
    rw [isNegated_of_tryParseToSubnet hparse]
    rfl

theorem getD_tryParseToSubnets (values : List String) (negated : Bool) :
    (tryParseToSubnets values negated).getD [] = parsedSubnets values negated := by
  rw [tryParseToSubnets]
  split
  · next hnil => rw [hnil, Option.getD_none]
  · rfl

theorem mem_remoteNetworks {filter : List String} {network : IpNetwork} :
    network ∈ remoteNetworks filter ↔ ∃ entry ∈ filter, readEntry entry = some network := by
  rw [remoteNetworks, List.mem_append, getD_tryParseToSubnets]
  constructor
  · rintro (hsubnet | hsingle)
    · obtain ⟨data, hdata, rfl⟩ := List.mem_map.mp hsubnet
      obtain ⟨entry, hentry, hparse⟩ := mem_parsedSubnets.mp hdata
      obtain ⟨hmem, hslash⟩ := List.mem_filter.mp hentry
      refine ⟨entry, hmem, ?_⟩
      rw [readEntry, if_pos (of_decide_eq_true hslash), hparse]
      rfl
    · obtain ⟨address, haddress, rfl⟩ := List.mem_map.mp hsingle
      obtain ⟨entry, hentry, hparse⟩ := List.mem_filterMap.mp haddress
      obtain ⟨hmem, hslash⟩ := List.mem_filter.mp hentry
      refine ⟨entry, hmem, ?_⟩
      rw [readEntry, if_neg (of_decide_eq_true hslash), hparse]
      rfl
  · rintro ⟨entry, hmem, hread⟩
    rw [readEntry] at hread
    split at hread
    · next hslash =>
      obtain ⟨data, hparse, rfl⟩ := Option.map_eq_some_iff.mp hread
      exact .inl (List.mem_map_of_mem (mem_parsedSubnets.mpr
        ⟨entry, List.mem_filter.mpr ⟨hmem, decide_eq_true hslash⟩, hparse⟩))
    · next hslash =>
      obtain ⟨address, hparse, rfl⟩ := Option.map_eq_some_iff.mp hread
      exact .inr (List.mem_map_of_mem (List.mem_filterMap.mpr
        ⟨entry, List.mem_filter.mpr ⟨hmem, decide_eq_true hslash⟩, hparse⟩))

/-- The filter of a configuration is dropped: its first entry is not given, or the code reads
none of its entries. -/
def Dropped (config : NetworkConfiguration) : Prop :=
  firstEntryGiven config.remoteIpFilter = false ∨
    ∀ entry ∈ config.remoteIpFilter, readEntry entry = none

variable {config : NetworkConfiguration}

theorem filterOver_eq_nil_iff : filterOver config [] = [] ↔ Dropped config := by
  rw [filterOver, Dropped]
  by_cases hgiven : firstEntryGiven config.remoteIpFilter = true
  · simp only [hgiven, if_true, Bool.true_eq_false, false_or]
    rw [List.eq_nil_iff_forall_not_mem]
    constructor
    · intro h entry hentry
      cases hread : readEntry entry with
      | none => rfl
      | some network => exact absurd (mem_remoteNetworks.mpr ⟨entry, hentry, hread⟩) (h network)
    · intro h network hmem
      obtain ⟨entry, hentry, hread⟩ := mem_remoteNetworks.mp hmem
      rw [h entry hentry] at hread
      cases hread
  · simp only [hgiven, Bool.false_eq_true, if_false, true_or]

theorem dropped_of_blank (h : ∀ entry ∈ config.remoteIpFilter, trim entry = "") :
    Dropped config := by
  refine .inl ?_
  cases hfilter : config.remoteIpFilter with
  | nil => rfl
  | cons first rest =>
    have hfirst : trim first = "" := h first (hfilter ▸ List.mem_cons_self ..)
    rw [firstEntryGiven, hfirst]
    rfl

/-! ## What the code decides -/

theorem isInLocalNetwork_iff {m : NetworkManager} {address : IpAddr} :
    m.isInLocalNetwork address = true ↔ m.Local address := by
  have hcovers : ∀ n : IpNetwork, subnetContainsAddress n address.unmapV4Mapped = true ↔
      n.Covers address.unmapV4Mapped := by
    intro n
    rw [subnetContainsAddress_iff, IpAddr.unmapV4Mapped_unmapV4Mapped]
  simp only [isInLocalNetwork, checkIfLanAndNotExcluded, Local, Bool.or_eq_true, Bool.and_eq_true,
    Bool.not_eq_true', List.any_eq_true, List.any_eq_false, hcovers]
  constructor
  · rintro ((htrust | hloop) | hlan)
    · exact .inr (.inl htrust)
    · exact .inl hloop
    · exact .inr (.inr hlan)
  · rintro (hloop | htrust | hlan)
    · exact .inl (.inr hloop)
    · exact .inl (.inl htrust)
    · exact .inr hlan

def ReadAdmitted (config : NetworkConfiguration) (address : IpAddr) : Prop :=
  Dropped config ∨
    if config.isRemoteIpFilterBlacklist then
      ∀ entry ∈ config.remoteIpFilter, ¬ ReadContains entry address
    else ∃ entry ∈ config.remoteIpFilter, ReadContains entry address

theorem shouldAllow_iff {m : NetworkManager} {address : IpAddr} :
    m.shouldAllowServerAccess address = .allow ↔
      m.Local address ∨ m.config.enableRemoteAccess = true ∧ (m.remoteAddressFilter = [] ∨
        if m.config.isRemoteIpFilterBlacklist then
          m.remoteAddressFilter.any (subnetContainsAddress · address) = false
        else m.remoteAddressFilter.any (subnetContainsAddress · address) = true) := by
  rw [shouldAllowServerAccess, ← isInLocalNetwork_iff]
  cases m.isInLocalNetwork address
  · cases m.config.enableRemoteAccess
    · simp
    · by_cases hnil : m.remoteAddressFilter = []
      · simp [hnil]
      · cases m.remoteAddressFilter.any (subnetContainsAddress · address) <;>
          cases m.config.isRemoteIpFilterBlacklist <;> simp [hnil]
  · simp

theorem any_remoteNetworks {filter : List String} {address : IpAddr} :
    (remoteNetworks filter).any (subnetContainsAddress · address) = true ↔
      ∃ entry ∈ filter, ReadContains entry address := by
  rw [List.any_eq_true]
  constructor
  · rintro ⟨network, hmem, hcontains⟩
    obtain ⟨entry, hentry, hread⟩ := mem_remoteNetworks.mp hmem
    exact ⟨entry, hentry, network, hread, subnetContainsAddress_iff.mp hcontains⟩
  · rintro ⟨entry, hentry, network, hread, hcovers⟩
    exact ⟨network, mem_remoteNetworks.mpr ⟨entry, hentry, hread⟩,
      subnetContainsAddress_iff.mpr hcovers⟩

variable (startup : StartupConfig) (mock : String) (resolver : HostResolver) (address : IpAddr)

/-- **What the code decides** for a configuration. -/
theorem shouldAllow_new_iff :
    (new config startup mock resolver).shouldAllowServerAccess address = .allow ↔
      (new config startup mock resolver).Local address ∨
        config.enableRemoteAccess = true ∧ ReadAdmitted config address := by
  have hconfig : (new config startup mock resolver).config = config :=
    config_updateSettings (.blank ..)
  have hfilter : (new config startup mock resolver).remoteAddressFilter =
      filterOver config [] := by
    rw [new, updateSettings_eq (.blank ..)]
    rfl
  rw [shouldAllow_iff, hconfig, hfilter, filterOver_eq_nil_iff, ReadAdmitted]
  by_cases hdropped : Dropped config
  · simp only [hdropped, true_or]
  · have hgiven : firstEntryGiven config.remoteIpFilter = true := by
      by_contra hblank
      exact hdropped (.inl (Bool.eq_false_iff.mpr hblank))
    simp only [filterOver, if_pos hgiven, Bool.eq_false_iff, ne_eq, any_remoteNetworks,
      not_exists, not_and]

/-! ## Where the two agree -/

/-- The filter is honoured for an address: if it is dropped, it would have admitted the address;
if not, the address is in an entry the code reads if it is in any. -/
def Honoured (config : NetworkConfiguration) (address : IpAddr) : Prop :=
  (Dropped config → Admitted config address) ∧
    (¬ Dropped config → ∀ entry ∈ config.remoteIpFilter, EntryContains entry address →
      ∃ entry' ∈ config.remoteIpFilter, ReadContains entry' address)

theorem admitted_iff_of_honoured (h : Honoured config address) :
    ReadAdmitted config address ↔ Admitted config address := by
  by_cases hdropped : Dropped config
  · exact iff_of_true (.inl hdropped) (h.1 hdropped)
  · have hsome : (∃ entry ∈ config.remoteIpFilter, ReadContains entry address) ↔
        ∃ entry ∈ config.remoteIpFilter, EntryContains entry address := by
      constructor
      · rintro ⟨entry, hentry, hread⟩
        exact ⟨entry, hentry, hread.entryContains⟩
      · rintro ⟨entry, hentry, hcontains⟩
        exact h.2 hdropped entry hentry hcontains
    have hblank : ¬ ∀ entry ∈ config.remoteIpFilter, trim entry = "" :=
      fun hblank => hdropped (dropped_of_blank hblank)
    rw [ReadAdmitted, Admitted, or_iff_right hdropped, or_iff_right hblank]
    split
    · have hnone := not_congr hsome
      simpa only [not_exists, not_and] using hnone
    · exact hsome

theorem honoured_of_admitted_iff (h : ReadAdmitted config address ↔ Admitted config address) :
    Honoured config address := by
  refine ⟨fun hdropped => h.mp (.inl hdropped), fun hdropped entry hentry hcontains => ?_⟩
  have hblank : ¬ ∀ entry ∈ config.remoteIpFilter, trim entry = "" :=
    fun hblank => hdropped (dropped_of_blank hblank)
  rw [ReadAdmitted, Admitted, or_iff_right hdropped, or_iff_right hblank] at h
  split at h
  · by_contra hnone
    refine h.mp (fun entry' hentry' hread => hnone ⟨entry', hentry', hread⟩) entry hentry hcontains
  · exact h.mpr ⟨entry, hentry, hcontains⟩

/-- **Remote access fails closed exactly where the filter is honoured**: for every configuration
and address, the decision is the policy's if and only if the address is local, remote access is
off, or the filter is honoured for the address. -/
theorem remote_access_fails_closed :
    (new config startup mock resolver).FailsClosed address ↔
      (new config startup mock resolver).Local address ∨ config.enableRemoteAccess = false ∨
        Honoured config address := by
  have hconfig : (new config startup mock resolver).config = config :=
    config_updateSettings (.blank ..)
  have hcode := @shouldAllow_new_iff config startup mock resolver address
  have hpolicy : (new config startup mock resolver).Permitted address ↔
      (new config startup mock resolver).Local address ∨
        config.enableRemoteAccess = true ∧ Admitted config address := by
    rw [Permitted, hconfig]
  constructor
  · intro h
    by_cases hlocal : (new config startup mock resolver).Local address
    · exact .inl hlocal
    · by_cases hoff : config.enableRemoteAccess = false
      · exact .inr (.inl hoff)
      · have hon : config.enableRemoteAccess = true := Bool.not_eq_false _ |>.mp hoff
        have hexact := hcode.symm.trans (h.exact.trans hpolicy)
        simp only [hlocal, hon, false_or, true_and] at hexact
        exact .inr (.inr (honoured_of_admitted_iff address hexact))
  · intro h
    have hexact : (new config startup mock resolver).shouldAllowServerAccess address = .allow ↔
        (new config startup mock resolver).Permitted address := by
      rw [hcode, hpolicy]
      rcases h with hlocal | hoff | hhonoured
      · exact iff_of_true (.inl hlocal) (.inl hlocal)
      · rw [hoff]
        simp
      · rw [admitted_iff_of_honoured address hhonoured]
    refine ⟨hexact, fun hallowlist hgiven hremote houtside hallow => ?_⟩
    rw [hconfig] at hallowlist hgiven houtside
    rcases hpolicy.mp (hexact.mp hallow) with hlocal | ⟨-, hblank | hadmitted⟩
    · exact hremote hlocal
    · obtain ⟨entry, hentry, hne⟩ := hgiven
      exact hne (hblank entry hentry)
    · rw [hallowlist] at hadmitted
      obtain ⟨entry, hentry, hcontains⟩ := hadmitted
      exact houtside entry hentry hcontains

/-- An allowlist whose only entry is a host name, which the filter cannot read. -/
def hostAllowlist : NetworkConfiguration :=
  { NetworkConfiguration.default with remoteIpFilter := ["office.example.org"] }

/-- **An allowlist that cannot be read admits everyone.** -/
theorem unreadable_allowlist_admits :
    ¬ ∀ config startup mock resolver address,
      (new config startup mock resolver).FailsClosed address := by
  intro hclaim
  refine (hclaim hostAllowlist ⟨[]⟩ "" noHosts (.v4 0xc6336401#32)).closed (by decide)
    ⟨"office.example.org", by decide, by decide⟩ ?_ ?_ (by decide)
  · rw [← isInLocalNetwork_iff]
    decide
  · have hfilter : (new hostAllowlist ⟨[]⟩ "" noHosts).config.remoteIpFilter =
        ["office.example.org"] := by decide
    rintro entry hentry ⟨network, hnetwork, -⟩
    rw [hfilter] at hentry
    obtain rfl := List.mem_singleton.mp hentry
    have hnone : filterEntry "office.example.org" = none := by decide
    rw [hnone] at hnetwork
    cases hnetwork

end NetworkManager

end Ferrofin.Net
