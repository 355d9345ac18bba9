import Ferrofin.Lib.KeyedMap
import Ferrofin.Lib.Machine
import Mathlib.Data.Option.Basic
import Mathlib.Algebra.Group.Int.Defs

/-!
# Callers of a rate limiter

`RequestRate` (`rate_limit.rs`) and what its methods make of a response's headers.
Instants and durations are in nanoseconds; the clock is an argument.  A header value
that is no text is left out of the headers, and the calendar is a parameter.  Warnings
and metrics are left out.

`limiter` is the machine of all interleavings of `RateLimiter::execute`s that share one
state.  An attempt takes the lock on the state, waits until the next deadline, sends its
request, and lets the lock go when the response has come, or failed; a caller may go
away anywhere.  What a provider answers and how long it takes are the outside world's.

`deadlines`, `dispatched` and `report` are history: the deadlines there were so far,
which caller sent a request, and the last reported quota with the number of requests
sent since and before its reset.
-/

namespace Ferrofin.Provider

/-- `Duration::from_secs(1)`. -/
def second : Nat := 1000000000

def getAttempts : Nat := 4

def backoffCap : Nat := 60 * second

def openAfterFailures : Nat := 6

def recoverySuccesses : Nat := 5

def recoveryQuiet : Nat := 60 * second

/-- `u32::MAX`. -/
def u32Max : Nat := 4294967295

/-- The longest delay: `u32::MAX` seconds. -/
def maxDelay : Nat := u32Max * second

structure Quota where
  remaining : Nat
  reset : Nat
deriving DecidableEq

structure RequestRate where
  next : Option Nat := none
  openUntil : Option Nat := none
  skipped : Nat := 0
  failures : Nat := 0
  successes : Nat := 0
  lastFailure : Option Nat := none
  quota : Option Quota := none

/-! ### The headers of a response -/

abbrev Headers := String → Option String

/-- Parsing a date, and the date of a Unix time; in nanoseconds since the epoch. -/
structure Calendar where
  parseRfc2822 : String → Option Int
  fromTimestamp : Int → Option Int

def parseDigits (digits : List Char) : Option Nat :=
  if digits ≠ [] ∧ digits.all Char.isDigit then
    some (digits.foldl (fun n c => 10 * n + (c.toNat - '0'.toNat)) 0)
  else none

/-- `str::parse::<u64>`. -/
def parseU64 (s : String) : Option Nat :=
  let digits := match s.toList with
    | '+' :: digits => digits
    | digits => digits
  (parseDigits digits).filter fun n => n < 2 ^ 64

/-- `str::parse::<i64>`. -/
def parseI64 (s : String) : Option Int :=
  match s.toList with
  | '-' :: digits => ((parseDigits digits).filter fun n => n ≤ 2 ^ 63).map fun n => -(n : Int)
  | '+' :: digits => ((parseDigits digits).filter fun n => n < 2 ^ 63).map fun n => (n : Int)
  | digits => ((parseDigits digits).filter fun n => n < 2 ^ 63).map fun n => (n : Int)

def headerNumber (headers : Headers) (name : String) : Option Nat := (headers name).bind parseU64

def serverNow (cal : Calendar) (headers : Headers) (fallback : Int) : Int :=
  ((headers "date").bind cal.parseRfc2822).getD fallback

def toStd (delta : Int) : Option Nat := if 0 ≤ delta then some delta.toNat else none

/-- The quota a response reports: what remains, and the time to its reset
(`observe_quota`). -/
def reportedQuota (cal : Calendar) (headers : Headers) (wall : Int) : Option (Nat × Nat) :=
  let remaining := (headerNumber headers "x-ratelimit-remaining").or
    (headerNumber headers "ratelimit-remaining")
  let relative := ((headerNumber headers "x-ratelimit-reset-in").or
    (headerNumber headers "ratelimit-reset")).map fun s => s * second
  let absolute := ((headerNumber headers "x-ratelimit-reset").filter fun v => v < 2 ^ 63).bind
    fun v => (cal.fromTimestamp v).bind fun reset => toStd (reset - serverNow cal headers wall)
  remaining.bind fun remaining => (relative.or absolute).map fun window => (remaining, window)

def serverDelay (cal : Calendar) (headers : Headers) (wall : Int) : Nat :=
  let now := serverNow cal headers wall
  let retry := ((headers "retry-after").bind fun v =>
    ((parseU64 v).map fun s => s * second).or
      ((cal.parseRfc2822 v).map fun date => (toStd (date - now)).getD 0)).getD 0
  let reset := if headerNumber headers "x-ratelimit-remaining" = some 0 then
      (((headers "x-ratelimit-reset").bind parseI64).bind cal.fromTimestamp).elim 0
        fun date => (toStd (date - now)).getD 0
    else 0
  max retry reset

/-! ### The rate -/

namespace RequestRate

variable (rate : RequestRate) (now : Nat)

def adaptiveInterval : Nat :=
  if rate.failures = 0 then 0
  else min (2 <<< (min rate.failures 6 - 1) * second) backoffCap

def quotaDelay : Nat :=
  rate.quota.elim 0 fun quota => (quota.reset - now) / min (max quota.remaining 1) u32Max

def postpone (delay : Nat) : RequestRate :=
  let deadline := now + min delay maxDelay
  { rate with next := some (rate.next.elim deadline fun next => max next deadline) }

def consumeQuota : RequestRate :=
  { rate with quota := rate.quota.bind fun quota =>
      if quota.reset ≤ now then none
      else some { quota with remaining := quota.remaining - 1 } }

def observeQuota (cal : Calendar) (headers : Headers) (wall : Int) : RequestRate :=
  match reportedQuota cal headers wall with
  | some (remaining, window) => { rate with
      quota := some { remaining := remaining, reset := now + min window maxDelay + second } }
  | none => rate

def countFailure : RequestRate :=
  { rate with
    failures := min (rate.failures + 1) u32Max
    successes := 0
    lastFailure := some now }

/-- `failed`; the jitter is a random byte of milliseconds. -/
def failed (serverDelay : Nat) (jitter : UInt8) : RequestRate :=
  let rate := rate.countFailure now
  let rate := rate.postpone now
    (max rate.adaptiveInterval serverDelay + jitter.toNat * 1000000)
  if openAfterFailures ≤ rate.failures then { rate with openUntil := rate.next } else rate

def succeeded : RequestRate :=
  let rate := { rate with successes := min (rate.successes + 1) u32Max }
  if 0 < rate.failures ∧ recoverySuccesses ≤ rate.successes ∧
      rate.lastFailure.any fun last => recoveryQuiet ≤ now - last then
    { rate with failures := rate.failures - 1, successes := 0 }
  else rate

/-- `wait_ready`, up to its sleep: whether the circuit is closed and the wait is not too
long. -/
def waitReady (maxWait : Nat) : RequestRate × Bool :=
  let rate := rate.postpone now (rate.quotaDelay now)
  if (rate.openUntil.any fun t => now < t) ∨ (rate.next.any fun next => maxWait < next - now) then
    ({ rate with skipped := min (rate.skipped + 1) (2 ^ 64 - 1) }, false)
  else (rate, true)

/-- The rest of `wait_ready`, and the reservation before a request goes out. -/
def reserve (interval : Nat) : RequestRate :=
  let rate := { rate with openUntil := none, skipped := 0 }.consumeQuota now
  { rate with next := some (now + max interval rate.adaptiveInterval) }

end RequestRate

/-- A response, as far as the limiter looks at it. -/
structure Response where
  status : Nat
  headers : Headers

namespace Response

variable (r : Response)

def isSuccess : Bool := 200 ≤ r.status && r.status < 300

def isRetryable : Bool := [408, 429, 500, 502, 503, 504].contains r.status

end Response

def RequestRate.observeResponse (rate : RequestRate) (now : Nat) (cal : Calendar) (r : Response)
    (wall : Int) (jitter : UInt8) (interval : Nat) : RequestRate :=
  let rate := rate.observeQuota now cal r.headers wall
  let delay := max (serverDelay cal r.headers wall) (rate.quotaDelay now)
  if r.isRetryable then rate.failed now delay jitter
  else
    let rate := if r.isSuccess then rate.succeeded now else rate
    rate.postpone now (max (max interval delay) rate.adaptiveInterval)

open Lib

/-- What a call of `execute` ends with. -/
inductive Result where
  | response (status : Nat)
  | http
  | cooldown
  | notReplayable
  | cancelled
deriving DecidableEq

/-- Where a call stands: before it has the lock for an attempt, with the lock, and at its
end. -/
inductive CallerPhase where
  | locking (attempt : Nat)
  | holding (attempt : Nat)
  | finished (result : Result)
deriving DecidableEq

/-- A call of `execute`. -/
structure Caller where
  isGet : Bool
  interval : Nat
  phase : CallerPhase

def Caller.attempts (c : Caller) : Nat := if c.isGet then getAttempts else 1

/-- Who has the lock: nobody, a caller that waits for the deadline, or one that waits for
its response. -/
inductive Gate where
  | free
  | sleeping (i : Nat)
  | flying (i : Nat)
deriving DecidableEq

/-- A reported quota, with its reset, and the requests sent before that. -/
structure Report where
  remaining : Nat
  reset : Nat
  spent : Nat := 0
deriving DecidableEq

inductive Failure where
  | connect
  | timeout
  | other
deriving DecidableEq

/-- The clock, the shared state, the callers, and the history. -/
structure World where
  now : Nat := 0
  rate : RequestRate := {}
  gate : Gate := .free
  callers : KeyedMap Nat Caller := ∅
  deadlines : List Nat := []
  dispatched : List Nat := []
  report : Option Report := none

/-- What happens; callers have numbers of their own. -/
inductive Event where
  | elapse (d : Nat)
  | call (i : Nat) (isGet : Bool) (interval : Nat)
  | lock (i : Nat)
  | dispatch (i : Nat) (clones : Bool)
  | respond (i : Nat) (r : Response) (wall : Int) (jitter : UInt8)
  | fail (i : Nat) (failure : Failure) (jitter : UInt8)
  | cancel (i : Nat)

def Report.dispatch (now : Nat) (r : Report) : Report :=
  if now < r.reset then { r with spent := r.spent + 1 } else r

namespace World

variable (cal : Calendar) (maxWait : Nat) (w : World)

def goOn (i : Nat) (c : Caller) (phase : CallerPhase) : World :=
  { w with callers := w.callers.insert i { c with phase := phase } }

def call (i : Nat) (isGet : Bool) (interval : Nat) : Option World :=
  if (w.callers.lookup i).isSome then none
  else
    let c : Caller := { isGet := isGet, interval := min interval maxDelay, phase := .locking 1 }
    some (w.goOn i c c.phase)

/-- A caller takes the lock, and finds that it is to wait, or that it may not. -/
def lock (i : Nat) : Option World :=
  (w.callers.lookup i).bind fun c =>
    match w.gate, c.phase with
    | .free, .locking attempt =>
      match w.rate.waitReady w.now maxWait with
      | (rate, true) =>
        some { w.goOn i c (.holding attempt) with rate := rate, gate := .sleeping i }
      | (rate, false) => some { w.goOn i c (.finished .cooldown) with rate := rate }
    | _, _ => none

/-- The deadline is past: the request is sent, unless it cannot be cloned for a retry. -/
def dispatch (i : Nat) (clones : Bool) : Option World :=
  (w.callers.lookup i).bind fun c =>
    match w.gate, c.phase with
    | .sleeping j, .holding attempt =>
      if j = i ∧ w.rate.next.all fun next => next ≤ w.now then
        let reserved := { w with
          rate := w.rate.reserve w.now c.interval
          deadlines := (w.now + c.interval) :: w.deadlines }
        if clones ∨ c.attempts = 1 then
          some { reserved.goOn i c (.holding attempt) with
            gate := .flying i
            dispatched := i :: w.dispatched
            report := w.report.map (Report.dispatch w.now) }
        else some { reserved.goOn i c (.finished .notReplayable) with gate := .free }
      else none
    | _, _ => none

def responseDeadlines (r : Response) (wall : Int) (interval : Nat) : List Nat :=
  (w.now + min (serverDelay cal r.headers wall) maxDelay) ::
    (if r.isRetryable then [] else [w.now + interval])

def respond (i : Nat) (r : Response) (wall : Int) (jitter : UInt8) : Option World :=
  (w.callers.lookup i).bind fun c =>
    match w.gate, c.phase with
    | .flying j, .holding attempt =>
      if j = i then
        let phase := if r.isSuccess ∨ attempt = c.attempts ∨ ¬ r.isRetryable then
            .finished (.response r.status)
          else .locking (attempt + 1)
        some { w.goOn i c phase with
          gate := .free
          rate := w.rate.observeResponse w.now cal r wall jitter c.interval
          deadlines := w.responseDeadlines cal r wall c.interval ++ w.deadlines
          report := ((reportedQuota cal r.headers wall).map fun q =>
            { remaining := q.1, reset := w.now + min q.2 maxDelay }).or w.report }
      else none
    | _, _ => none

def fail (i : Nat) (failure : Failure) (jitter : UInt8) : Option World :=
  (w.callers.lookup i).bind fun c =>
    match w.gate, c.phase with
    | .flying j, .holding attempt =>
      if j = i then
        let rate := w.rate.failed w.now 0 jitter
        match failure with
        | .other => some { w.goOn i c (.finished .http) with gate := .free }
        | .connect => some { w.goOn i c (.finished .http) with
            gate := .free
            rate := { rate with openUntil := rate.next } }
        | .timeout =>
          let phase := if attempt = c.attempts then .finished .http else .locking (attempt + 1)
          some { w.goOn i c phase with gate := .free, rate := rate }
      else none
    | _, _ => none

def cancel (i : Nat) : Option World :=
  (w.callers.lookup i).bind fun c =>
    match c.phase with
    | .locking _ | .holding _ => some { w.goOn i c (.finished .cancelled) with
        gate := if w.gate = .sleeping i ∨ w.gate = .flying i then .free else w.gate }
    | .finished _ => none

def step : Event → Option World
  | .elapse d => some { w with now := w.now + d }
  | .call i isGet interval => w.call i isGet interval
  | .lock i => w.lock maxWait i
  | .dispatch i clones => w.dispatch i clones
  | .respond i r wall jitter => w.respond cal i r wall jitter
  | .fail i failure jitter => w.fail i failure jitter
  | .cancel i => w.cancel i

def sends (i : Nat) : Nat := w.dispatched.count i

end World

def limiter (cal : Calendar) (maxWait : Nat) : Machine World Event where
  init := {}
  step w := w.step cal maxWait

end Ferrofin.Provider
