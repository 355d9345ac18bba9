import Ferrofin.Lib.Machine
import Ferrofin.Net.Manager

/-!
# Reloading the network settings

What a manager answers after any history of reloads, against a manager constructed from the
last configuration and interfaces.
-/

namespace Ferrofin.Net

open Util Lib

namespace NetworkManager

variable {m : NetworkManager} {config : NetworkConfiguration}

/-- The manager constructed from the last configuration and interfaces. -/
def fresh (m : NetworkManager) : NetworkManager :=
  (blank m.config m.startupConfig m.interfaceSource m.resolver).updateSettings m.config

structure AnswersAs (m m' : NetworkManager) : Prop where
  access : ∀ address, m.shouldAllowServerAccess address = m'.shouldAllowServerAccess address
  inLocal : ∀ address, m.isInLocalNetwork address = m'.isInLocalNetwork address
  client : ∀ peer chain, m.clientAddress peer chain = m'.clientAddress peer chain
  overrides : m.publishedServerUrls = m'.publishedServerUrls

/-- The manager answers as one constructed from its configuration and interfaces. -/
def AnswersAsFresh (m : NetworkManager) : Prop := m.AnswersAs m.fresh

/-- What no reload changes: proxies are the ones of the setting they were parsed from. -/
structure Sound (m : NetworkManager) : Prop where
  trust : m.trustAllIpv6Interfaces = false
  proxies : m.knownProxies = .default ∨ ∃ config, m.knownProxies = .resolve config m.resolver

theorem Sound.blank (config : NetworkConfiguration) (startup : StartupConfig)
    (source : InterfaceSource) (resolver : HostResolver) :
    (blank config startup source resolver).Sound := ⟨rfl, .inl rfl⟩

/-- Proxies that pass for those of a configuration are the ones it resolves to. -/
theorem Sound.resolve (h : m.Sound) (hparsed : m.knownProxies.isParsedFrom config = true) :
    m.knownProxies = .resolve config m.resolver := by
  rcases h.proxies with hdefault | ⟨config', hresolved⟩
  · rw [hdefault] at hparsed ⊢
    rw [KnownProxies.isParsedFrom_iff] at hparsed
    obtain ⟨hentries, hfamilies⟩ := Prod.mk.inj hparsed
    obtain ⟨h4, h6⟩ := Prod.mk.inj hfamilies
    rw [KnownProxies.resolve_of_nil hentries.symm, ← h4, ← h6]
  · rw [hresolved] at hparsed ⊢
    exact KnownProxies.resolve_of_isParsedFrom hparsed

/-! ## Reading the overrides -/

/-- Every entry up to one for `all` is one `=` between two parts. -/
def overridesParse : List String → Bool
  | [] => true
  | entry :: entries =>
    match splitOverride entry with
    | some (identifier, _) => eqIgnoreAsciiCase identifier "all" || overridesParse entries
    | none => false

theorem isSome_overrideEntries (self : NetworkManager) (entries : List String) :
    ∀ urls, (self.overrideEntries entries urls).isSome = overridesParse entries := by
  induction entries with
  | nil => exact fun urls => rfl
  | cons entry entries ih =>
    intro urls
    cases hsplit : splitOverride entry with
    | none => simp only [overrideEntries, overridesParse, hsplit, Option.isSome_none]
    | some parts =>
      simp only [overrideEntries, overridesParse, hsplit]
      by_cases hall : eqIgnoreAsciiCase parts.1 "all" = true
      · rw [if_pos hall, hall, Bool.true_or, Option.isSome_some]
      · rw [if_neg hall, ih, Bool.eq_false_iff.mpr hall, Bool.false_or]

/-- The overrides of a configuration are read: the startup override takes their place, or every
entry parses. -/
def readsOverrides (m : NetworkManager) (config : NetworkConfiguration) : Bool :=
  m.startupOverride.isSome || overridesParse config.publishedServerUriBySubnet

/-- The overrides read under the given ones, which stay when they are not read. -/
def overridesOver (self : NetworkManager) (config : NetworkConfiguration)
    (old : List PublishedServerUriOverride) : List PublishedServerUriOverride :=
  match self.startupOverride with
  | some startup => anyOverrides startup true true
  | none => (self.overrideEntries config.publishedServerUriBySubnet []).getD old

theorem initializeOverrides_eq (self : NetworkManager) (config : NetworkConfiguration) :
    self.initializeOverrides config =
      { self with publishedServerUrls := self.overridesOver config self.publishedServerUrls } := by
  simp only [initializeOverrides, overridesOver]
  cases self.startupOverride with
  | some startup => rfl
  | none => cases self.overrideEntries config.publishedServerUriBySubnet [] <;> rfl

theorem overridesOver_of_reads {self : NetworkManager}
    (h : self.readsOverrides config = true) (old old' : List PublishedServerUriOverride) :
    self.overridesOver config old = self.overridesOver config old' := by
  rw [overridesOver, overridesOver]
  split
  · rfl
  · next hnone =>
    rw [readsOverrides, hnone, Option.isSome_none, Bool.false_or,
      ← isSome_overrideEntries self _ []] at h
    obtain ⟨urls, hurls⟩ := Option.isSome_iff_exists.mp h
    rw [hurls]
    rfl

theorem overridesOver_of_not_reads {self : NetworkManager}
    (h : self.readsOverrides config = false) (old : List PublishedServerUriOverride) :
    self.overridesOver config old = old := by
  obtain ⟨hstartup, hparse⟩ := Bool.or_eq_false_iff.mp h
  rw [overridesOver, Option.isSome_eq_false_iff.mp hstartup |> Option.isNone_iff_eq_none.mp]
  rw [← isSome_overrideEntries self _ []] at hparse
  rw [Option.isNone_iff_eq_none.mp (Option.isSome_eq_false_iff.mp hparse)]
  rfl

theorem overridesOver_congr {self other : NetworkManager} (hconfig : self.config = other.config)
    (hstartup : self.startupConfig = other.startupConfig)
    (hlan : self.lanSubnets = other.lanSubnets) (hinterfaces : self.interfaces = other.interfaces)
    (config : NetworkConfiguration) :
    self.overridesOver config = other.overridesOver config := by
  have hentry : self.entryOverrides = other.entryOverrides := by
    funext identifier replacement
    simp only [entryOverrides, tryParseInterface, hconfig, hlan, hinterfaces]
  have hentries : ∀ entries urls,
      self.overrideEntries entries urls = other.overrideEntries entries urls := by
    intro entries
    induction entries with
    | nil => exact fun urls => rfl
    | cons entry entries ih =>
      intro urls
      rw [overrideEntries, overrideEntries, hentry]
      simp only [ih]
  funext old
  simp only [overridesOver, startupOverride, hstartup, hentries]

/-! ## What a reload reads -/

/-- The LAN and the interfaces of a configuration, which need nothing of the fields before. -/
def readNetworks (m : NetworkManager) (config : NetworkConfiguration) : NetworkManager :=
  ((({ m with config := config }.initializeLan config).readInterfaces config).enforceBindSettings
    config)

def filterOver (config : NetworkConfiguration) (old : List IpNetwork) : List IpNetwork :=
  if firstEntryGiven config.remoteIpFilter then remoteNetworks config.remoteIpFilter else old

def reloaded (m : NetworkManager) (config : NetworkConfiguration) (filter : List IpNetwork)
    (overrides : List PublishedServerUriOverride) : NetworkManager :=
  { m.readNetworks config with
    knownProxies := .resolve config m.resolver
    remoteAddressFilter := filterOver config filter
    publishedServerUrls := (m.readNetworks config).overridesOver config overrides }

/-- A reload reads every field anew, except for a filter and overrides it does not get to. -/
theorem updateSettings_eq (h : m.Sound) :
    m.updateSettings config = m.reloaded config m.remoteAddressFilter m.publishedServerUrls := by
  have hproxies : ∀ m' : NetworkManager, m'.knownProxies = m.knownProxies →
      m'.resolver = m.resolver →
      m'.initializeKnownProxies config =
        { m' with knownProxies := .resolve config m.resolver } := by
    intro m' hknown hresolver
    rw [initializeKnownProxies, hresolver]
    split
    · next hparsed =>
      rw [hknown] at hparsed
      rw [← h.resolve hparsed, ← hknown, ← hresolver]
    · rfl
  have hremote : ∀ m' : NetworkManager, m'.initializeRemote config =
      { m' with remoteAddressFilter := filterOver config m'.remoteAddressFilter } := by
    intro m'
    rw [initializeRemote, filterOver]
    split <;> rfl
  show ((((({ m with config := config }.initializeLan config).initializeRemote
    config).readInterfaces config).initializeKnownProxies config).enforceBindSettings
      config).initializeOverrides config = _
  rw [initializeOverrides_eq, hremote, hproxies]
  · congr 1
    refine congrFun (overridesOver_congr ?_ ?_ ?_ ?_ config) _ <;> rfl
  · rfl
  · rfl

theorem fresh_updateSettings (h : m.Sound) :
    (m.updateSettings config).fresh = m.reloaded config [] [] := by
  rw [updateSettings_eq h, fresh, updateSettings_eq (.blank _ _ _ _)]
  simp only [reloaded]
  congr 1
  · refine congrFun (overridesOver_congr ?_ ?_ ?_ ?_ config) _ <;> rfl
  · exact h.trust.symm

theorem Sound.updateSettings (h : m.Sound) : (m.updateSettings config).Sound := by
  rw [updateSettings_eq h]
  exact ⟨h.trust, .inr ⟨config, rfl⟩⟩

/-! ## When the old fields are of no consequence -/

/-- The filter in force answers every remote address as no filter would: remote access is off,
or a blocklist matches none of them, or an allowlist all. -/
def FilterIdle (m : NetworkManager) (config : NetworkConfiguration) : Prop :=
  config.enableRemoteAccess = false ∨ m.remoteAddressFilter = [] ∨
    ∀ address, (m.readNetworks config).isInLocalNetwork address = false →
      m.remoteAddressFilter.any (subnetContainsAddress · address) =
        !config.isRemoteIpFilterBlacklist

/-- The reload of a configuration reads its filter and its overrides, or the ones in force are
of no consequence. -/
def ReloadsAll (m : NetworkManager) (config : NetworkConfiguration) : Prop :=
  (firstEntryGiven config.remoteIpFilter = true ∨ m.FilterIdle config) ∧
    (m.readsOverrides config = true ∨ m.publishedServerUrls = [])

theorem shouldAllow_reloaded (old : List IpNetwork) (overrides : List PublishedServerUriOverride)
    (address : IpAddr) :
    (m.reloaded config old overrides).shouldAllowServerAccess address =
      { m.readNetworks config with
        remoteAddressFilter := filterOver config old }.shouldAllowServerAccess address := rfl

/-- A filter answers an address as none if that address may connect under it. -/
theorem shouldAllow_eq_none_iff (m : NetworkManager) (filter : List IpNetwork) (address : IpAddr) :
    { m with remoteAddressFilter := filter }.shouldAllowServerAccess address =
        { m with remoteAddressFilter := [] }.shouldAllowServerAccess address ↔
      m.isInLocalNetwork address = true ∨ m.config.enableRemoteAccess = false ∨ filter = [] ∨
        filter.any (subnetContainsAddress · address) = !m.config.isRemoteIpFilterBlacklist := by
  have hlocal : ∀ f : List IpNetwork, { m with remoteAddressFilter := f }.isInLocalNetwork address =
      m.isInLocalNetwork address := fun f => rfl
  simp only [shouldAllowServerAccess, hlocal]
  cases m.isInLocalNetwork address
  · cases m.config.enableRemoteAccess
    · simp
    · by_cases hnil : filter = []
      · simp [hnil]
      · cases filter.any (subnetContainsAddress · address) <;>
          cases m.config.isRemoteIpFilterBlacklist <;> simp [hnil]
  · simp

/-- A filter answers every address as none exactly if it is read anew or is of no consequence. -/
theorem access_iff (overrides overrides' : List PublishedServerUriOverride) :
    (∀ address,
      (m.reloaded config m.remoteAddressFilter overrides).shouldAllowServerAccess address =
        (m.reloaded config [] overrides').shouldAllowServerAccess address) ↔
      firstEntryGiven config.remoteIpFilter = true ∨ m.FilterIdle config := by
  simp only [shouldAllow_reloaded]
  by_cases hgiven : firstEntryGiven config.remoteIpFilter = true
  · simp only [filterOver, hgiven, if_true, true_or, implies_true]
  · have hkept : ∀ old, filterOver config old = old := fun old => if_neg hgiven
    simp only [hkept, hgiven, Bool.false_eq_true, false_or]
    rw [forall_congr' (shouldAllow_eq_none_iff (m.readNetworks config) m.remoteAddressFilter)]
    constructor
    · intro h
      by_cases henabled : config.enableRemoteAccess = false
      · exact .inl henabled
      · by_cases hnil : m.remoteAddressFilter = []
        · exact .inr (.inl hnil)
        · refine .inr (.inr fun address hremote => ?_)
          rcases h address with hlocal | hoff | hempty | hany
          · rw [hremote] at hlocal
            cases hlocal
          · exact absurd hoff henabled
          · exact absurd hempty hnil
          · exact hany
    · rintro (hoff | hnil | hany) address
      · exact .inr (.inl hoff)
      · exact .inr (.inr (.inl hnil))
      · by_cases hlocal : (m.readNetworks config).isInLocalNetwork address = true
        · exact .inl hlocal
        · exact .inr (.inr (.inr (hany address (Bool.eq_false_iff.mpr hlocal))))

theorem overrides_iff :
    (m.readNetworks config).overridesOver config m.publishedServerUrls =
        (m.readNetworks config).overridesOver config [] ↔
      m.readsOverrides config = true ∨ m.publishedServerUrls = [] := by
  have hreads : (m.readNetworks config).readsOverrides config = m.readsOverrides config := rfl
  by_cases h : m.readsOverrides config = true
  · simp only [h, true_or, iff_true]
    exact overridesOver_of_reads (hreads.trans h) _ _
  · have hnot := hreads.trans (Bool.eq_false_iff.mpr h)
    rw [overridesOver_of_not_reads hnot, overridesOver_of_not_reads hnot]
    simp only [h, Bool.false_eq_true, false_or]

/-- **When a reload makes the answers those of a fresh manager.** -/
theorem answersAsFresh_updateSettings_iff (h : m.Sound) :
    (m.updateSettings config).AnswersAsFresh ↔ m.ReloadsAll config := by
  rw [AnswersAsFresh, fresh_updateSettings h, updateSettings_eq h]
  constructor
  · intro hanswers
    exact ⟨(access_iff _ _).mp hanswers.access, overrides_iff.mp hanswers.overrides⟩
  · intro hreloads
    exact ⟨(access_iff _ _).mpr hreloads.1, fun _ => rfl, fun _ _ => rfl,
      overrides_iff.mpr hreloads.2⟩

theorem config_updateSettings (h : m.Sound) : (m.updateSettings config).config = config := by
  rw [updateSettings_eq h]
  rfl

/-! ## Histories -/

def updateSettingsWithKnownProxies (self : NetworkManager) (config : NetworkConfiguration)
    (proxies : KnownProxies) : NetworkManager :=
  if proxies.isParsedFrom config then
    { self with knownProxies := proxies }.updateSettings config
  else self.updateSettings config

inductive Constructed : NetworkManager → Prop
  | new (config : NetworkConfiguration) (startup : StartupConfig) (mock : String)
      (resolver : HostResolver) : Constructed (new config startup mock resolver)
  | live (config : NetworkConfiguration) (enumerate : Bool → Bool → List IpData)
      (resolver : HostResolver) : Constructed (live config enumerate resolver)
  | withInterfaces (config : NetworkConfiguration) (interfaces : List IpData)
      (resolver : HostResolver) : Constructed (withInterfaces config interfaces resolver)

/-- A call that reloads settings. Proxies handed over are resolved outside the manager's lock, of
any configuration. -/
inductive Reload
  | updateSettings (config : NetworkConfiguration)
  | updateSettingsWithKnownProxies (config resolved : NetworkConfiguration)
  | setInterfaces (interfaces : List IpData)
  | refreshInterfaces

def Reload.apply (m : NetworkManager) : Reload → NetworkManager
  | updateSettings config => m.updateSettings config
  | updateSettingsWithKnownProxies config resolved =>
    m.updateSettingsWithKnownProxies config (.resolve resolved m.resolver)
  | setInterfaces interfaces => m.setInterfaces interfaces
  | refreshInterfaces => m.refreshInterfaces

def reloading (start : NetworkManager) : Machine NetworkManager Reload :=
  ⟨start, fun m call => some (call.apply m)⟩

/-- What the call reads, it reads anew, or it is of no consequence. -/
def Reads (m : NetworkManager) : Reload → Prop
  | .updateSettings config => m.ReloadsAll config
  | .updateSettingsWithKnownProxies config _ => m.ReloadsAll config
  | .setInterfaces _ => m.ReloadsAll m.config
  | .refreshInterfaces =>
    match m.interfaceSource with
    | .live _ => m.ReloadsAll m.config
    | .provided _ | .mock _ => True

variable {start : NetworkManager}

/-- A first reload leaves nothing that a second one of the same configuration would not read. -/
theorem reloadsAll_updateSettings (startup : StartupConfig) (source : InterfaceSource)
    (resolver : HostResolver) :
    ((blank config startup source resolver).updateSettings config).ReloadsAll config := by
  rw [updateSettings_eq (.blank _ _ _ _)]
  constructor
  · by_cases hgiven : firstEntryGiven config.remoteIpFilter = true
    · exact .inl hgiven
    · exact .inr (.inr (.inl (if_neg hgiven)))
  · by_cases hreads : (blank config startup source resolver).readsOverrides config = true
    · exact .inl hreads
    · have hnot : ((blank config startup source resolver).readNetworks config).readsOverrides
          config = false := Bool.eq_false_iff.mpr hreads
      exact .inr (overridesOver_of_not_reads hnot [])

theorem Sound.withSource (h : m.Sound) (source : InterfaceSource) :
    Sound { m with interfaceSource := source } := ⟨h.trust, h.proxies⟩

theorem ReloadsAll.withSource (h : m.ReloadsAll config) (source : InterfaceSource) :
    ReloadsAll { m with interfaceSource := source } config := by
  have hlocal : ∀ address,
      (readNetworks { m with interfaceSource := source } config).isInLocalNetwork address =
        (m.readNetworks config).isInLocalNetwork address := by
    intro address
    simp only [isInLocalNetwork, checkIfLanAndNotExcluded, readNetworks, enforceBindSettings,
      readInterfaces, initializeLan]
  refine ⟨h.1.imp_right ?_, h.2⟩
  rintro (hoff | hnil | hany)
  · exact .inl hoff
  · exact .inr (.inl hnil)
  · exact .inr (.inr fun address hremote => hany address ((hlocal address).symm.trans hremote))

theorem Constructed.sound (h : Constructed m) : m.Sound ∧ m.AnswersAsFresh := by
  have hagain : ∀ config resolver source,
      let m := { NetworkManager.new config ⟨[]⟩ "" resolver with interfaceSource := source }
      (m.updateSettings m.config).Sound ∧ (m.updateSettings m.config).AnswersAsFresh := by
    intro config resolver source m
    have hblank := Sound.blank config ⟨[]⟩ (.mock "") resolver
    have hm : m.Sound := hblank.updateSettings.withSource source
    have hconfig : m.config = config := config_updateSettings hblank
    refine ⟨hm.updateSettings, (answersAsFresh_updateSettings_iff hm).mpr ?_⟩
    rw [hconfig]
    exact (reloadsAll_updateSettings ⟨[]⟩ (.mock "") resolver).withSource source
  cases h with
  | new config startup mock resolver =>
    have hblank := Sound.blank config startup (.mock mock) resolver
    exact ⟨hblank.updateSettings, (answersAsFresh_updateSettings_iff hblank).mpr
      ⟨.inr (.inr (.inl rfl)), .inr rfl⟩⟩
  | live config enumerate resolver => exact hagain config resolver (.live enumerate)
  | withInterfaces config interfaces resolver =>
    exact hagain config resolver (.provided interfaces)

/-- Proxies that are handed over are the ones the reload would have resolved. -/
theorem updateSettingsWithKnownProxies_eq (h : m.Sound) (resolved : NetworkConfiguration) :
    m.updateSettingsWithKnownProxies config (.resolve resolved m.resolver) =
      m.updateSettings config := by
  rw [updateSettingsWithKnownProxies]
  split
  · have hset : Sound { m with knownProxies := .resolve resolved m.resolver } :=
      ⟨h.trust, .inr ⟨resolved, rfl⟩⟩
    rw [updateSettings_eq hset, updateSettings_eq h]
    simp only [reloaded]
    congr 1
    refine congrFun (overridesOver_congr ?_ ?_ ?_ ?_ config) _ <;> rfl
  · rfl

/-- **The step of a history**: a call keeps what is sound, and makes the answers those of a
fresh manager, whatever they were before, exactly if it reads all it has to. -/
theorem Sound.apply (h : m.Sound) (call : Reload) (hfresh : m.AnswersAsFresh) :
    (call.apply m).Sound ∧ ((call.apply m).AnswersAsFresh ↔ m.Reads call) := by
  cases call with
  | updateSettings config => exact ⟨h.updateSettings, answersAsFresh_updateSettings_iff h⟩
  | updateSettingsWithKnownProxies config resolved =>
    rw [Reload.apply, updateSettingsWithKnownProxies_eq h]
    exact ⟨h.updateSettings, answersAsFresh_updateSettings_iff h⟩
  | setInterfaces interfaces =>
    have hset := h.withSource (.provided interfaces)
    refine ⟨hset.updateSettings, (answersAsFresh_updateSettings_iff hset).trans ?_⟩
    exact ⟨fun hreads => hreads.withSource m.interfaceSource,
      fun hreads => hreads.withSource (.provided interfaces)⟩
  | refreshInterfaces =>
    cases hsource : m.interfaceSource with
    | live enumerate =>
      simp only [Reload.apply, refreshInterfaces, Reads, hsource]
      exact ⟨h.updateSettings, answersAsFresh_updateSettings_iff h⟩
    | provided interfaces =>
      simp only [Reload.apply, refreshInterfaces, Reads, hsource]
      exact ⟨h, iff_of_true hfresh trivial⟩
    | mock settings =>
      simp only [Reload.apply, refreshInterfaces, Reads, hsource]
      exact ⟨h, iff_of_true hfresh trivial⟩

theorem sound_of_reachable (h : Constructed start) (hr : (reloading start).Reaches Reads m) :
    m.Sound ∧ m.AnswersAsFresh := by
  refine hr.invariant (I := fun m => m.Sound ∧ m.AnswersAsFresh) h.sound ?_
  rintro m call _ ⟨hsound, hfresh⟩ hreads hs
  cases hs
  obtain ⟨hsound', hiff⟩ := hsound.apply call hfresh
  exact ⟨hsound', hiff.mpr hreads⟩

/-- **Reloading is history-free where it reads what it reloads**: after every history whose calls
read the filter and the overrides anew, or find none of consequence, the manager answers as one
constructed from the last configuration and interfaces; the first call that does not so leaves a
manager that answers otherwise. -/
theorem reload_history_free (h : Constructed start)
    (hr : (reloading start).Reaches Reads m) :
    m.AnswersAsFresh ∧ ∀ call : Reload, ¬ m.Reads call → ¬ (call.apply m).AnswersAsFresh := by
  obtain ⟨hsound, hfresh⟩ := sound_of_reachable h hr
  exact ⟨hfresh, fun call hnot hanswers => hnot ((hsound.apply call hfresh).2.mp hanswers)⟩

def noHosts : HostResolver := ⟨fun _ => false, fun _ => none⟩

def allowlist : NetworkConfiguration :=
  { NetworkConfiguration.default with remoteIpFilter := ["203.0.113.0/24"] }

/-- An allowlist is set, then the interfaces: an address outside it stays refused. -/
theorem reload_history_free_allowlist :
    ∃ m, (reloading (new .default ⟨[]⟩ "" noHosts)).Reaches Reads m ∧ m.AnswersAsFresh ∧
      m.shouldAllowServerAccess (.v4 0xc6336401#32) = .rejectDueToNotAllowlistedRemoteIp := by
  have hfirst : (new .default ⟨[]⟩ "" noHosts).Reads (.updateSettings allowlist) :=
    ⟨.inl (by decide), .inl (by decide)⟩
  have hsecond : ((new .default ⟨[]⟩ "" noHosts).updateSettings allowlist).Reads
      (.setInterfaces []) :=
    ⟨.inl (by decide), .inl (by decide)⟩
  have hrun : (reloading (new .default ⟨[]⟩ "" noHosts)).Reaches Reads
      (((new .default ⟨[]⟩ "" noHosts).updateSettings allowlist).setInterfaces []) :=
    .next (.next .start hfirst rfl) hsecond rfl
  exact ⟨_, hrun, (reload_history_free (.new _ _ _ _) hrun).1, by decide⟩

/-- **A cleared filter stays in force**: the allowlist is removed and the addresses outside it
are still refused. -/
theorem cleared_filter_stays :
    ¬ ∀ start m, Constructed start → (reloading start).Reachable m → m.AnswersAsFresh := by
  intro hclaim
  have hrun : (reloading (new .default ⟨[]⟩ "" noHosts)).Reachable
      (((new .default ⟨[]⟩ "" noHosts).updateSettings allowlist).updateSettings .default) :=
    Machine.reachable_of_run [.updateSettings allowlist, .updateSettings .default] rfl
  have haccess := (hclaim _ _ (.new _ _ _ _) hrun).access (.v4 0xc6336401#32)
  revert haccess
  decide

end NetworkManager

end Ferrofin.Net
