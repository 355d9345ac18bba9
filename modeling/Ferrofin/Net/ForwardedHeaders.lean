import Ferrofin.Lib.TrustedHops
import Ferrofin.Net.Manager

/-!
# Forwarded headers

`forwarded_headers.rs`, and of `state.rs` what reads `X-Forwarded-For`: the walk over the three
headers' entries for the scheme and host, and the chain `client_address` is given.
-/

namespace Ferrofin.Net

open Util Lib

/-! ## Entries -/

/-- A `HeaderMap`: the values of the headers in order, by lower-case name. -/
abbrev HeaderMap := List (String × List UInt8)

/-- `HeaderValue::to_str`: the text of visible ASCII characters and tabs. -/
def headerText (value : List UInt8) : Option (List Char) :=
  if value.all fun b => (32 ≤ b && b < 127) || b == 9 then
    some (value.map fun b => Char.ofNat b.toNat)
  else none

def quote : Char := Char.ofNat 34

def unquote (value : List Char) : List Char :=
  if value.head? = some quote ∧ value.tail.getLast? = some quote then value.tail.dropLast
  else value

def commaSeparatedValues (headers : HeaderMap) (name : String) : List String :=
  let values := (headers.filter fun header => header.1 == name).filterMap fun header =>
    headerText header.2
  let entries := values.flatMap fun value => value.splitOn ','
  ((entries.map fun entry => unquote (trimChars entry)).filter (· ≠ [])).map String.ofList

def fromRight (entries : List String) (hop : Nat) : Option String :=
  if hop + 1 ≤ entries.length then entries[entries.length - (hop + 1)]? else none

/-- `parse_forwarded_entry`: an address, with a port, or in brackets. -/
def parseForwardedEntry (entry : String) : Option IpAddr :=
  let unbracketed := ((entry.toList.dropWhile (· == '[')).reverse.dropWhile (· == ']')).reverse
  (((parseIpAddr entry.toList).or (parseSocketAddrIp entry.toList)).or
    (parseIpAddr unbracketed)).map IpAddr.unmapV4Mapped

/-- `forwarded_for`: the addresses of the `X-Forwarded-For` entries right of the rightmost one
that does not parse. -/
def forwardedFor (headers : HeaderMap) : List IpAddr :=
  (TrustedHops.mapWhile parseForwardedEntry
    (commaSeparatedValues headers "x-forwarded-for").reverse).reverse

/-! ## Schemes and hosts -/

def isAsciiDigit (c : Char) : Bool := (toDigit 10 c).isSome

def isAsciiAlphanumeric (c : Char) : Bool := (toDigit 36 c).isSome

def isValidScheme (scheme : String) : Bool :=
  scheme ≠ "" && scheme.toList.all fun c => isAsciiAlphanumeric c || c ∈ ['+', '-', '.']

/-- `valid_port`, of what follows a host. -/
def validPort : List Char → Bool
  | ':' :: port => port ≠ [] && port.all isAsciiDigit
  | _ => false

/-- Whether the character may stand in the brackets of an IPv6 host. -/
def isIpv6HostChar (c : Char) : Bool := (toDigit 16 c).isSome || c == ':' || c == '.'

/-- Whether the character may stand in a host name; the one of code 39 is the apostrophe. -/
def isHostChar (c : Char) : Bool :=
  isAsciiAlphanumeric c || c ∈ ['!', '$', '&', Char.ofNat 39, '(', ')', '-', '.', '_', '~']

def isValidHost (host : String) : Bool :=
  match host.toList with
  | '[' :: v6 =>
    match v6.dropWhile isIpv6HostChar with
    | ']' :: rest => 3 ≤ (v6.takeWhile isIpv6HostChar).length && (rest == [] || validPort rest)
    | _ => false
  | ':' :: _ => false
  | name =>
    match name.dropWhile isHostChar with
    | [] => true
    | rest => validPort rest

/-! ## The walk -/

structure ForwardedRequest where
  scheme : Option String
  host : Option String
deriving DecidableEq

def ForwardedRequest.default : ForwardedRequest := ⟨none, none⟩

/-- Where the walk stands: the remote address it trusts so far, and what is forwarded; `accepted`
keeps the addresses that were remote after the peer, a history the code does not keep. -/
structure Walk where
  remote : IpAddr
  forwarded : ForwardedRequest
  accepted : List IpAddr
deriving DecidableEq

namespace Walk

/-- The `For` entry of a hop becomes the remote address. -/
def accept (w : Walk) (address : IpAddr) : Walk :=
  { w with remote := address, accepted := w.accepted ++ [address] }

/-- A valid scheme or host of a hop replaces the one taken so far. -/
def forward (w : Walk) (proto host : Option String) : Walk :=
  { w with
    forwarded :=
      ⟨(proto.filter isValidScheme).or w.forwarded.scheme,
        (host.filter isValidHost).or w.forwarded.host⟩ }

end Walk

variable (isKnownProxy : IpAddr → Bool)

/-- A hop of the walk; `none` ends it. -/
def walkHop (forEntry proto host : Option String) (w : Walk) : Option Walk :=
  if isKnownProxy w.remote then
    match forEntry with
    | some entry =>
      (parseForwardedEntry entry).map fun address => (w.accept address).forward proto host
    | none => some (w.forward proto host)
  else none

def walkLoop (forEntries protoEntries hostEntries : List String) : Nat → Nat → Walk → Walk
  | 0, _, w => w
  | left + 1, hop, w =>
    match walkHop isKnownProxy (fromRight forEntries hop) (fromRight protoEntries hop)
        (fromRight hostEntries hop) w with
    | some w' => walkLoop forEntries protoEntries hostEntries left (hop + 1) w'
    | none => w

def walkHeaders (peer : IpAddr) (headers : HeaderMap) : Walk :=
  let forEntries := commaSeparatedValues headers "x-forwarded-for"
  let protoEntries := commaSeparatedValues headers "x-forwarded-proto"
  let hostEntries := commaSeparatedValues headers "x-forwarded-host"
  let hops := max (max forEntries.length protoEntries.length) hostEntries.length
  walkLoop isKnownProxy forEntries protoEntries hostEntries hops 0 ⟨peer, .default, []⟩

def walkForwardedHeaders (peer : IpAddr) (headers : HeaderMap) : ForwardedRequest :=
  (walkHeaders isKnownProxy peer headers).forwarded

def clientHopsLoop (chain : List IpAddr) : Nat → IpAddr → List IpAddr
  | 0, _ => []
  | remaining + 1, current =>
    if isKnownProxy current then
      chain.getD remaining current ::
        clientHopsLoop chain remaining (chain.getD remaining current)
    else []

/-- The hops `client_address` takes. -/
def NetworkManager.clientHops (self : NetworkManager) (peer : IpAddr)
    (forwardedFor : List IpAddr) : List IpAddr :=
  if !self.knownProxies.forwardingEnabled then []
  else clientHopsLoop self.isKnownProxy forwardedFor forwardedFor.length peer

end Ferrofin.Net
