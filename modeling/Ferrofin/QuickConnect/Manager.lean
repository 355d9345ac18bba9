import Mathlib.Data.String.Basic
import Ferrofin.Lib.Machine
import Ferrofin.Lib.KeyedMap

/-!
# Quick Connect

A device asks for a code and a secret (`try_connect`), a signed-in user authorizes the code
(`authorize_request`), and the device exchanges its secret for the session
(`get_authorized_request`; `quick_connect_manager.rs`).  `quickConnect` is the machine of
all interleavings of such calls, cut at every await and wherever a call lets go of a lock,
over a clock that goes on between any two steps.

The configuration, `authenticate_direct` and the draws of codes and secrets are told from
outside; a secret is never drawn twice.  `Manager.drawn` is history: the secrets drawn.
-/

namespace Ferrofin.QuickConnect

open Lib

variable {Result : Type}

inductive ServiceError where
  | invalidInput (message : String)
  | unauthorized (message : String)
  | notFound (message : String)
  | backend (message : String)

def minute : Nat := 60000

def requestTimeoutMinutes : Nat := 10

def codeLength : Nat := 6

def codeSpace : Nat := 10 ^ codeLength - 10 ^ (codeLength - 1)

/-- `AuthorizationInfo`, what `try_connect` reads of it. -/
structure AuthorizationInfo where
  deviceId : Option String
  device : Option String
  client : Option String
  version : Option String
  remoteEndpoint : Option String

structure QuickConnectResult where
  authenticated : Bool
  secret : String
  code : String
  deviceId : String
  deviceName : String
  appName : String
  appVersion : String
  dateAdded : Nat

structure PendingRequest where
  result : QuickConnectResult
  remoteIp : Option String

structure AuthorizedSecret (Result : Type) where
  authorizedAt : Nat
  result : Result

/-- What a call was made for; `try_connect` has checked its fields. -/
inductive Operation where
  | tryConnect (deviceId device client version : String) (remoteIp : Option String)
  | checkRequestStatus (secret : String)
  | authorizeRequest (userId : String) (code : String)
  | getAuthorizedRequest (secret : String)

/-- Where a call stands: before it knows that Quick Connect is active, before it sweeps what
is stale, with the pending requests and with the secrets still to sweep, and before its own
step.  An authorization has then claimed a request: it awaits its session, with which it
records the secret (`recording`) and flags the request (`finishing`), or without which it
takes its claim back (`revoking`).  The others have returned. -/
inductive Call (Result : Type) where
  | asserting (op : Operation)
  | expiring (op : Operation)
  | expiringRequests (op : Operation) (cutoff : Nat)
  | expiringSecrets (op : Operation) (cutoff : Nat)
  | ready (op : Operation)
  | authenticating (userId : String) (code : String) (request : QuickConnectResult)
  | recording (code : String) (request : QuickConnectResult) (result : Result)
  | finishing (code : String) (request : QuickConnectResult) (result : Result)
  | revoking (code : String) (request : QuickConnectResult) (error : ServiceError)
  | authorized (request : QuickConnectResult) (result : Result)
  | connected (request : QuickConnectResult)
  | status (request : QuickConnectResult)
  | answered (secret : String) (result : Result)
  | failed (error : ServiceError)

structure Manager (Result : Type) where
  now : Nat := 0
  currentRequests : KeyedMap String PendingRequest := ∅
  authorizedSecrets : KeyedMap String (AuthorizedSecret Result) := ∅
  calls : KeyedMap Nat (Call Result) := ∅
  drawn : List String := []

/-- What happens.  Calls have numbers; `activate` is told what the configuration says,
`connect` the codes and the secret drawn, and `authenticate` what the session manager
answers. -/
inductive Event (Result : Type) where
  | tick (elapsed : Nat)
  | tryConnect (i : Nat) (info : AuthorizationInfo)
  | checkRequestStatus (i : Nat) (secret : String)
  | authorizeRequest (i : Nat) (userId : String) (code : String)
  | getAuthorizedRequest (i : Nat) (secret : String)
  | activate (i : Nat) (available : Except ServiceError Bool)
  | connect (i : Nat) (draws : List String) (secret : String)
  | authenticate (i : Nat) (session : Except ServiceError Result)
  | advance (i : Nat)

def required (field : Option String) (message : String) : Except ServiceError String :=
  match field.filter (· ≠ "") with
  | some value => .ok value
  | none => .error (.invalidInput message)

/-- The fields `try_connect` asks for. -/
def AuthorizationInfo.operation (info : AuthorizationInfo) : Except ServiceError Operation := do
  let deviceId ← required info.deviceId "device id is required"
  let device ← required info.device "device name is required"
  let client ← required info.client "client name is required"
  let version ← required info.version "client version is required"
  return .tryConnect deviceId device client version info.remoteEndpoint

/-- `draw_free_code`; `none` while no free code was drawn. -/
def drawFreeCode (requests : KeyedMap String PendingRequest) (draws : List String) :
    Option (Except ServiceError String) :=
  if codeSpace ≤ requests.keys.length then
    some (.error (.backend "every quick connect code is in use"))
  else (draws.find? fun code => (requests.lookup code).isNone).map .ok

/-- The order of an IP's requests: by time, then by code. -/
def older (a b : Nat × String) : Bool := a.1 < b.1 || (a.1 == b.1 && a.2 ≤ b.2)

def makeRoom (requests : KeyedMap String PendingRequest) (remoteIp : Option String)
    (limit : Nat) : KeyedMap String PendingRequest :=
  let own := (requests.entries.filter fun e =>
    !e.2.result.authenticated && e.2.remoteIp == remoteIp).map fun e =>
      (e.2.result.dateAdded, e.1)
  if own.length < limit then requests
  else ((own.mergeSort older).take (own.length - limit + 1)).foldl
    (fun requests e => requests.erase e.2) requests

namespace Manager

variable (pendingPerIp : Nat) (m : Manager Result)

def goOn (i : Nat) (call : Call Result) : Manager Result :=
  { m with calls := m.calls.insert i call }

def start (i : Nat) (call : Call Result) : Option (Manager Result) :=
  if (m.calls.lookup i).isSome then none else some (m.goOn i call)

/-- `assert_active`. -/
def activate (i : Nat) (available : Except ServiceError Bool) :
    Call Result → Option (Manager Result)
  | .asserting op => some (m.goOn i (match available with
    | .ok true => .expiring op
    | .ok false => .failed (.unauthorized "quick connect is not active on this server")
    | .error error => .failed error))
  | _ => none

/-- `try_connect`, its own step. -/
def connect (i : Nat) (draws : List String) (secret : String) :
    Call Result → Option (Manager Result)
  | .ready (.tryConnect deviceId device client version remoteIp) =>
    let requests := makeRoom m.currentRequests remoteIp pendingPerIp
    if secret ∈ m.drawn then none
    else (drawFreeCode requests draws).map fun
      | .error error => { m.goOn i (.failed error) with currentRequests := requests }
      | .ok code =>
        let result : QuickConnectResult :=
          { authenticated := false
            secret := secret
            code := code
            deviceId := deviceId
            deviceName := device
            appName := client
            appVersion := version
            dateAdded := m.now }
        { m.goOn i (.connected result) with
          currentRequests := requests.insert code { result := result, remoteIp := remoteIp }
          drawn := m.drawn ++ [secret] }
  | _ => none

/-- `authenticate_direct` returns. -/
def authenticate (i : Nat) (session : Except ServiceError Result) :
    Call Result → Option (Manager Result)
  | .authenticating _ code request => some (m.goOn i (match session with
    | .ok result => .recording code request result
    | .error error => .revoking code request error))
  | _ => none

def checkRequestStatus (i : Nat) (secret : String) : Manager Result :=
  match m.currentRequests.values.find? fun p => p.result.secret == secret with
  | some p => m.goOn i (.status p.result)
  | none => m.goOn i (.failed (.notFound "unable to find request with provided secret"))

def claim (i : Nat) (userId code : String) : Manager Result :=
  match m.currentRequests.lookup code with
  | none => m.goOn i (.failed (.notFound "unable to find request"))
  | some pending =>
    if pending.result.authenticated then
      m.goOn i (.failed (.invalidInput "request is already authorized"))
    else
      let request := { pending.result with authenticated := true }
      { m.goOn i (.authenticating userId code request) with
        currentRequests := m.currentRequests.insert code { pending with result := request } }

def setPending (code : String) (change : QuickConnectResult → QuickConnectResult) :
    KeyedMap String PendingRequest :=
  match m.currentRequests.lookup code with
  | some pending =>
    m.currentRequests.insert code { pending with result := change pending.result }
  | none => m.currentRequests

def getAuthorizedRequest (i : Nat) (secret : String) : Manager Result :=
  match m.authorizedSecrets.lookup secret with
  | some s => m.goOn i (.answered secret s.result)
  | none => m.goOn i (.failed (.notFound "unable to find request"))

/-- The next step of a call that awaits nothing. -/
def advance (i : Nat) : Call Result → Option (Manager Result)
  | .expiring op => some
    (m.goOn i (.expiringRequests op (m.now - requestTimeoutMinutes * minute)))
  | .expiringRequests op cutoff => some { m.goOn i (.expiringSecrets op cutoff) with
      currentRequests := KeyedMap.retain (fun _ p => decide (cutoff ≤ p.result.dateAdded))
        m.currentRequests }
  | .expiringSecrets op cutoff => some { m.goOn i (.ready op) with
      authorizedSecrets := KeyedMap.retain (fun _ s => decide (cutoff ≤ s.authorizedAt))
        m.authorizedSecrets }
  | .ready (.checkRequestStatus secret) => some (m.checkRequestStatus i secret)
  | .ready (.authorizeRequest userId code) => some (m.claim i userId code)
  | .ready (.getAuthorizedRequest secret) => some (m.getAuthorizedRequest i secret)
  | .recording code request result => some { m.goOn i (.finishing code request result) with
      authorizedSecrets := m.authorizedSecrets.insert request.secret
        { authorizedAt := m.now, result := result } }
  | .finishing code request result => some { m.goOn i (.authorized request result) with
      currentRequests := m.setPending code fun pending =>
        { pending with authenticated := true, dateAdded := m.now + minute } }
  | .revoking code _ error => some { m.goOn i (.failed error) with
      currentRequests := m.setPending code fun pending =>
        { pending with authenticated := false } }
  | .asserting _ | .ready (.tryConnect _ _ _ _ _) | .authenticating _ _ _ | .authorized _ _
  | .connected _ | .status _ | .answered _ _ | .failed _ => none

def step : Event Result → Option (Manager Result)
  | .tick elapsed => some { m with now := m.now + elapsed }
  | .tryConnect i info => m.start i (match info.operation with
    | .ok op => .asserting op
    | .error error => .failed error)
  | .checkRequestStatus i secret => m.start i (.asserting (.checkRequestStatus secret))
  | .authorizeRequest i userId code => m.start i (.asserting (.authorizeRequest userId code))
  | .getAuthorizedRequest i secret => m.start i (.asserting (.getAuthorizedRequest secret))
  | .activate i available => (m.calls.lookup i).bind (m.activate i available)
  | .connect i draws secret => (m.calls.lookup i).bind (m.connect pendingPerIp i draws secret)
  | .authenticate i session => (m.calls.lookup i).bind (m.authenticate i session)
  | .advance i => (m.calls.lookup i).bind (m.advance i)

end Manager

def quickConnect (Result : Type) (pendingPerIp : Nat) :
    Machine (Manager Result) (Event Result) where
  init := {}
  step m := m.step pendingPerIp

end Ferrofin.QuickConnect
