import Ferrofin.Net.AddressText

/-!
# Subnets as text

`net_utils`: what an entry of the network settings stands for. An entry that starts with `!` is
negated, and each pass over a list of entries reads one polarity only.
-/

namespace Ferrofin.Net

open Util

def parseDigits (bound : Nat) (s : List Char) : Option Nat :=
  if s ≠ [] ∧ s.all fun c => (toDigit 10 c).isSome then
    some (digitsValue 10 s) |>.filter (· ≤ bound)
  else none

/-- `parse::<u8>()`. -/
def parseU8 : List Char → Option UInt8
  | '+' :: s => (parseDigits 255 s).map UInt8.ofNat
  | s => (parseDigits 255 s).map UInt8.ofNat

/-- `parse::<i32>()`. -/
def parseI32 : List Char → Option Int
  | '+' :: s => (parseDigits 2147483647 s).map Int.ofNat
  | '-' :: s => (parseDigits 2147483648 s).map fun n => -(n : Int)
  | s => (parseDigits 2147483647 s).map Int.ofNat

/-- `parse_v6_with_optional_scope`: an IPv6 address up to its `%zone`. -/
def parseV6WithOptionalScope (value : List Char) : Option IpAddr :=
  (parseIpAddr (value.takeWhile (· ≠ '%'))).filter IpAddr.isV6

/-- `parse_ip`: also a bracketed address with a port, and one with a zone. -/
def parseIp (value : List Char) : Option IpAddr :=
  match value with
  | '[' :: rest =>
    if ']' ∈ rest then
      match (rest.dropWhile (· ≠ ']')).tail with
      | [] => parseV6WithOptionalScope (rest.takeWhile (· ≠ ']'))
      | ':' :: port =>
        if port ≠ [] ∧ port.all fun c => (toDigit 10 c).isSome then
          parseV6WithOptionalScope (rest.takeWhile (· ≠ ']'))
        else none
      | _ => none
    else none
  | _ =>
    (parseIpAddr value).or <|
      if '%' ∈ value ∧ ':' ∈ value then parseV6WithOptionalScope value else none

def IpAddr.width : IpAddr → Nat
  | v4 _ => 32
  | v6 _ => 128

def IpAddr.clearHostBits (prefixLength : Nat) : IpAddr → IpAddr
  | v4 bits => v4 ((Net.clearHostBits (bits.setWidth 128) 32 prefixLength).setWidth 32)
  | v6 bits => v6 (Net.clearHostBits bits 128 prefixLength)

def parseIpNetwork (value : List Char) : Option IpNetwork :=
  if '/' ∈ value then do
    let base ← parseIp (value.takeWhile (· ≠ '/'))
    let prefixLength ← parseU8 (value.dropWhile (· ≠ '/')).tail
    if base.width < prefixLength.toNat then none
    else some ⟨base.clearHostBits prefixLength.toNat, prefixLength⟩
  else none

/-- The network of a single address: the unspecified one stands for its whole family. -/
def singleAddressNetwork (address : IpAddr) : IpNetwork :=
  if address = ipv4Any then ipv4AnyNetwork
  else if address = ipv6Any then ipv6AnyNetwork
  else .host address

/-- `value.strip_prefix('!')`, and whether there was one. -/
def stripNegation : List Char → Bool × List Char
  | '!' :: rest => (true, rest)
  | value => (false, value)

def tryParseToSubnet (value : String) (negated : Bool) : Option IpData :=
  let (isAddressNegated, value) := stripNegation (trim value).toList
  if isAddressNegated ≠ negated then none
  else if '/' ∈ value then do
    let address ← parseIp (value.takeWhile (· ≠ '/'))
    let subnet ← parseIpNetwork value
    some (.new address (some subnet) "")
  else do
    let address ← parseIp value
    some (.new address (some (singleAddressNetwork address)) "")

/-- Whether the trimmed entry starts with `!`. -/
def isNegated (value : String) : Bool := (trim value).toList.head? == some '!'

def parsedSubnets (values : List String) (negated : Bool) : List IpData :=
  (values.filter fun value => isNegated value == negated).filterMap (tryParseToSubnet · negated)

def tryParseToSubnets (values : List String) (negated : Bool) : Option (List IpData) :=
  if parsedSubnets values negated = [] then none else some (parsedSubnets values negated)

/-! ## Host names -/

/-- How host names are looked up: the names the expression `FQDN_REGEX` of the engine outside
this repository matches, and `HostResolver`, which only those are given to. -/
structure HostResolver where
  isMatch : String → Bool
  resolve : String → Option (List IpAddr)

def HostResolver.lookup (resolver : HostResolver) (name : String) : Option (List IpAddr) :=
  if resolver.isMatch name then resolver.resolve name else none

/-- The family filter of `try_parse_host_with`, which a setting with neither family or both
passes. -/
def familyRefused (address : IpAddr) (ipv4 ipv6 : Bool) : Bool :=
  (!address.isV6 && (!ipv4 && ipv6)) || (address.isV6 && (ipv4 && !ipv6))

/-- `try_parse_host_with`. A bracketed host is parsed again without its brackets and, as the
range excludes its end, without its last character; `fuel` bounds that. -/
def tryParseHost (resolver : HostResolver) : Nat → Bool → Bool → List Char → Option (List IpAddr)
  | 0, _, _, _ => none
  | fuel + 1, ipv4, ipv6, host =>
    match trimChars host with
    | [] => none
    | '[' :: rest =>
      if ']' ∈ rest then
        let inner := rest.takeWhile (· ≠ ']')
        if inner = [] then none else tryParseHost resolver fuel true false inner.dropLast
      else none
    | host =>
      let hosts := host.splitOn ':'
      if hosts.length ≤ 2 then
        let first := hosts.headD []
        (resolver.lookup (String.ofList first)).or <|
          (parseIp (first.takeWhile (· ≠ '/'))).bind fun address =>
            if familyRefused address ipv4 ipv6 then none else some [address]
      else if hosts.length ≤ 9 then (parseIp (host.takeWhile (· ≠ '/'))).map ([·])
      else none

def tryParseHostWith (host : String) (ipv4 ipv6 : Bool) (resolver : HostResolver) :
    Option (List IpAddr) :=
  tryParseHost resolver (host.toList.length + 1) ipv4 ipv6 host.toList

end Ferrofin.Net
