import Mathlib.Data.Nat.Bitwise
import Mathlib.Data.BitVec

/-!
# Addresses and networks

`ferrofin-model`'s `net` and the bit arithmetic of `net_utils`.
-/

namespace Ferrofin.Net

/-- `std::net::IpAddr`, its octets read as one number. -/
inductive IpAddr
  | v4 (bits : BitVec 32)
  | v6 (bits : BitVec 128)
deriving DecidableEq

namespace IpAddr

/-- `Ipv6Addr::to_ipv4_mapped`: the IPv4 address of `::ffff:a.b.c.d`. -/
def toIpv4Mapped (bits : BitVec 128) : Option (BitVec 32) :=
  if bits >>> 32 = 0xffff#128 then some (bits.setWidth 32) else none

/-- `unmap_v4_mapped`, which `normalize_ip` repeats. -/
def unmapV4Mapped : IpAddr → IpAddr
  | v4 bits => v4 bits
  | v6 bits => (toIpv4Mapped bits).elim (v6 bits) v4

/-- `IpAddr::is_loopback`: `127.0.0.0/8`, or `::1` itself. -/
def isLoopback : IpAddr → Bool
  | v4 bits => bits >>> 24 == 127#32
  | v6 bits => bits == 1#128

/-- Whether the address is IPv6 (`AddressFamily::of`). -/
def isV6 : IpAddr → Bool
  | v4 _ => false
  | v6 _ => true

theorem unmapV4Mapped_unmapV4Mapped (a : IpAddr) :
    a.unmapV4Mapped.unmapV4Mapped = a.unmapV4Mapped := by
  cases a with
  | v4 bits => rfl
  | v6 bits =>
    rw [unmapV4Mapped]
    cases h : toIpv4Mapped bits with
    | none =>
      show (toIpv4Mapped bits).elim (v6 bits) v4 = v6 bits
      rw [h]
      rfl
    | some four => rfl

end IpAddr

inductive AddressFamily
  | unspecified
  | interNetwork
  | interNetworkV6
deriving DecidableEq

def AddressFamily.of : IpAddr → AddressFamily
  | .v4 _ => interNetwork
  | .v6 _ => interNetworkV6

/-- `IpNetwork`: a base address and a prefix length (a `u8`). -/
structure IpNetwork where
  baseAddress : IpAddr
  prefixLength : UInt8
deriving DecidableEq

/-- The `IPAddress.None` sentinel, `255.255.255.255`. -/
def ipNone : IpAddr := .v4 0xffffffff#32

/-- `MINIMUM_IPV4_PREFIX_SIZE`, `MINIMUM_IPV6_PREFIX_SIZE`: the prefix of a single host. -/
def singleHostPrefix : IpAddr → UInt8
  | .v4 _ => 32
  | .v6 _ => 128

def IpNetwork.host (a : IpAddr) : IpNetwork := ⟨a, singleHostPrefix a⟩

/-- `IpData`: an address, its subnet and the interface it is on. -/
structure IpData where
  address : IpAddr
  subnet : IpNetwork
  index : Int
  supportsMulticast : Bool
  name : String
deriving DecidableEq

def IpData.new (address : IpAddr) (subnet : Option IpNetwork) (name : String) : IpData :=
  ⟨address, subnet.getD (.host address), 0, false, name⟩

def IpData.addressFamily (d : IpData) : AddressFamily :=
  if d.address = ipNone then
    if d.subnet.baseAddress = ipNone then .unspecified else .of d.subnet.baseAddress
  else .of d.address

/-! ## The ranges of `net_constants` -/

def ipv4Loopback : IpAddr := .v4 0x7f000001#32
def ipv6Loopback : IpAddr := .v6 1#128
def ipv4Any : IpAddr := .v4 0#32
def ipv6Any : IpAddr := .v6 0#128

/-- `0.0.0.0/0` and `::/0`. -/
def ipv4AnyNetwork : IpNetwork := ⟨ipv4Any, 0⟩
def ipv6AnyNetwork : IpNetwork := ⟨ipv6Any, 0⟩

/-- `127.0.0.0/8`, `10.0.0.0/8`, `172.16.0.0/12` and `192.168.0.0/16`. -/
def ipv4Rfc5735Loopback : IpNetwork := ⟨.v4 0x7f000000#32, 8⟩
def ipv4Rfc1918PrivateClassA : IpNetwork := ⟨.v4 0x0a000000#32, 8⟩
def ipv4Rfc1918PrivateClassB : IpNetwork := ⟨.v4 0xac100000#32, 12⟩
def ipv4Rfc1918PrivateClassC : IpNetwork := ⟨.v4 0xc0a80000#32, 16⟩

/-- `::1/128`, `fe80::/10` and `fc00::/7`. -/
def ipv6Rfc4291Loopback : IpNetwork := ⟨ipv6Loopback, 128⟩
def ipv6Rfc4291SiteLocal : IpNetwork := ⟨.v6 0xfe800000000000000000000000000000#128, 10⟩
def ipv6Rfc4193UniqueLocal : IpNetwork := ⟨.v6 0xfc000000000000000000000000000000#128, 7⟩

/-! ## Containment -/

/-- The bits above the last `n`: `!((1u128 << n) - 1)`. -/
def highMask (n : Nat) : BitVec 128 := ~~~((1#128 <<< n) - 1#128)

def clearHostBits (bits : BitVec 128) (width prefixLength : Nat) : BitVec 128 :=
  let hostBits := width - prefixLength
  if hostBits = 0 then bits
  else if 128 ≤ hostBits then 0#128
  else bits &&& highMask hostBits

def containsBits (base addr : BitVec 128) (width prefixLength : Nat) : Bool :=
  if prefixLength = 0 then true
  else if width ≤ prefixLength then base == addr
  else base &&& highMask (width - prefixLength) == addr &&& highMask (width - prefixLength)

def networkContains (network : IpNetwork) (address : IpAddr) : Bool :=
  match network.baseAddress, address with
  | .v4 base, .v4 addr =>
    containsBits (base.setWidth 128) (addr.setWidth 128) 32 network.prefixLength.toNat
  | .v6 base, .v6 addr => containsBits base addr 128 network.prefixLength.toNat
  | .v4 _, .v6 _ => false
  | .v6 _, .v4 _ => false

def subnetContainsAddress (network : IpNetwork) (address : IpAddr) : Bool :=
  networkContains network address.unmapV4Mapped

/-- The address lies in the network: same family, and the first `prefixLength` bits agree. -/
def IpNetwork.Covers (network : IpNetwork) (address : IpAddr) : Prop :=
  match network.baseAddress, address with
  | .v4 base, .v4 addr => ∀ i < network.prefixLength.toNat, base.getMsbD i = addr.getMsbD i
  | .v6 base, .v6 addr => ∀ i < network.prefixLength.toNat, base.getMsbD i = addr.getMsbD i
  | .v4 _, .v6 _ => False
  | .v6 _, .v4 _ => False

theorem getLsbD_highMask {n : Nat} (hn : n < 128) (i : Nat) :
    (highMask n).getLsbD i = (decide (i < 128) && decide (n ≤ i)) := by
  have hone : (1#128 <<< n).toNat = 2 ^ n := by
    rw [BitVec.toNat_shiftLeft, BitVec.toNat_ofNat, Nat.one_mod_eq_one.mpr (by decide),
      Nat.one_shiftLeft, Nat.mod_eq_of_lt (Nat.pow_lt_pow_right (by decide) hn)]
  have hlow : ((1#128 <<< n) - 1#128).toNat = 2 ^ n - 1 := by
    rw [BitVec.toNat_sub_of_le, hone]
    · rfl
    · rw [BitVec.le_def, hone]
      exact Nat.one_le_two_pow
  rw [highMask, BitVec.getLsbD_not, ← BitVec.testBit_toNat, hlow, Nat.testBit_two_pow_sub_one,
    ← decide_not]
  congr 1
  simp

theorem and_highMask_eq_iff {x y : BitVec 128} {n : Nat} (hn : n < 128) :
    x &&& highMask n = y &&& highMask n ↔ ∀ i, n ≤ i → x.getLsbD i = y.getLsbD i := by
  constructor
  · intro h i hi
    by_cases hlt : i < 128
    · have hbit : (x &&& highMask n).getLsbD i = (y &&& highMask n).getLsbD i := by rw [h]
      rw [BitVec.getLsbD_and, BitVec.getLsbD_and, getLsbD_highMask hn] at hbit
      simpa only [hlt, hi, decide_true, Bool.and_true] using hbit
    · rw [BitVec.getLsbD_of_ge x i (by omega), BitVec.getLsbD_of_ge y i (by omega)]
  · intro h
    refine BitVec.eq_of_getLsbD_eq fun i _ => ?_
    rw [BitVec.getLsbD_and, BitVec.getLsbD_and, getLsbD_highMask hn]
    by_cases hi : n ≤ i
    · rw [h i hi]
    · simp [hi]

theorem containsBits_iff {w : Nat} (hw : w ≤ 128) (base addr : BitVec w) (p : Nat) :
    containsBits (base.setWidth 128) (addr.setWidth 128) w p = true ↔
      ∀ i < p, base.getMsbD i = addr.getMsbD i := by
  rw [containsBits]
  split
  · next hp => simp [hp]
  · next hp =>
    split
    · next hle =>
      rw [beq_iff_eq]
      constructor
      · intro h i _
        have hwide : (base.setWidth 128).setWidth w = (addr.setWidth 128).setWidth w := by rw [h]
        rw [BitVec.setWidth_setWidth_of_le _ hw, BitVec.setWidth_setWidth_of_le _ hw,
          BitVec.setWidth_eq, BitVec.setWidth_eq] at hwide
        rw [hwide]
      · intro h
        rw [BitVec.eq_of_getMsbD_eq fun i hi => h i (by omega)]
    · next hlt =>
      rw [beq_iff_eq, and_highMask_eq_iff (by omega)]
      constructor
      · intro h i hi
        have hbit := h (w - 1 - i) (by omega)
        rw [BitVec.getLsbD_setWidth, BitVec.getLsbD_setWidth] at hbit
        rw [BitVec.getMsbD_eq_getLsbD, BitVec.getMsbD_eq_getLsbD]
        simpa [show w - 1 - i < 128 by omega] using congrArg (decide (i < w) && ·) hbit
      · intro h i hi
        rw [BitVec.getLsbD_setWidth, BitVec.getLsbD_setWidth, BitVec.getLsbD_eq_getMsbD base,
          BitVec.getLsbD_eq_getMsbD addr]
        by_cases hiw : i < w
        · rw [h (w - 1 - i) (by omega)]
        · simp [hiw]

theorem subnetContainsAddress_iff {network : IpNetwork} {address : IpAddr} :
    subnetContainsAddress network address = true ↔ network.Covers address.unmapV4Mapped := by
  obtain ⟨base, p⟩ := network
  rw [subnetContainsAddress]
  cases base with
  | v4 base =>
    cases address.unmapV4Mapped with
    | v4 addr => exact containsBits_iff (by decide) base addr _
    | v6 addr => simp [networkContains, IpNetwork.Covers]
  | v6 base =>
    cases address.unmapV4Mapped with
    | v4 addr => simp [networkContains, IpNetwork.Covers]
    | v6 addr =>
      have h := containsBits_iff (by decide) base addr p.toNat
      rwa [BitVec.setWidth_eq, BitVec.setWidth_eq] at h

end Ferrofin.Net
