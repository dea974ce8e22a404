import Mathlib.Algebra.Order.Ring.Unbundled.Rat

/-!
# Resilience of network calls

The retries and the circuit breaker that the network drivers share: the breaker's methods, and the
attempts of one call.  Times are in milliseconds.
-/

namespace Lnpl.Drivers

/-! ### Attempts -/

/-- `_is_retryable_status`. -/
def isRetryableStatus (status : Nat) : Bool :=
  if status = 408 || status = 429 then true
  else 500 ≤ status && status < 600 && status ≠ 501

/-- What a peer answers; the keys of the headers are lower-cased. -/
structure Reply (β : Type) where
  status : Nat
  body : β
  headers : List (String × String)

/-- What one raw attempt ends in: an answer, a `DriverError`, or another exception. -/
inductive Attempt (β ε : Type) where
  | reply (r : Reply β)
  | driverError (message : String)
  | raised (e : ε)

/-- A capability's `retry`. -/
structure Retry where
  count : Nat
  backoffMs : ℚ
  jitter : Bool

/-- A capability's `breaker`. -/
structure BreakerConfig where
  threshold : Nat
  windowMs : ℚ

/-- What the author declared of a target. -/
structure Capability where
  retry : Option Retry := none
  breaker : Option BreakerConfig := none

/-- How a call ends: with a result, with the status of a last attempt that may be retried, with the
`DriverError` of the last attempt, or with another exception. -/
inductive Ending (β ε : Type) where
  | result (r : Reply β)
  | gaveUp (r : Reply β)
  | failed (message : String)
  | escaped (e : ε)

section

variable {β ε σ : Type}

/-- `_retry_after_seconds`; `parseInt` is `int` on texts. -/
def retryAfterSeconds (parseInt : String → Option Int) (headers : List (String × String)) :
    Option Int :=
  (headers.lookup "retry-after").bind parseInt

/-- The wait after an attempt that failed; `uniform` draws for the jitter. -/
def delayMs (parseInt : String → Option Int) (uniform : Nat → ℚ → ℚ) (retry : Retry)
    (attempt : Nat) (r : Option (Reply β)) : ℚ :=
  let backoff := retry.backoffMs * 2 ^ (attempt - 1)
  let delay :=
    match r with
    | some r =>
      if r.status = 429 || r.status = 503 then
        match retryAfterSeconds parseInt r.headers with
        | some seconds => max backoff (seconds * 1000)
        | none => backoff
      else backoff
    | none => backoff
  if retry.jitter then uniform attempt delay else delay

/-- The loop of `_call_with_resilience`, the attempts left after this one given: the ending, the
waits between the attempts, and the state that the attempts leave. -/
def attemptLoop (parseInt : String → Option Int) (uniform : Nat → ℚ → ℚ) (retry : Option Retry)
    (attemptFn : σ → Attempt β ε × σ) : Nat → Nat → σ → Ending β ε × List ℚ × σ
  | left, attempt, s =>
    let wait (r : Option (Reply β)) : List ℚ :=
      match retry with
      | some retry => [delayMs parseInt uniform retry attempt r]
      | none => []
    match attemptFn s with
    | (.raised e, s) => (.escaped e, [], s)
    | (.reply r, s) =>
      if !isRetryableStatus r.status then (.result r, [], s)
      else
        match left with
        | 0 => (.gaveUp r, [], s)
        | left + 1 =>
          let (ending, waits, s) := attemptLoop parseInt uniform retry attemptFn left (attempt + 1) s
          (ending, wait (some r) ++ waits, s)
    | (.driverError message, s) =>
      match left with
      | 0 => (.failed message, [], s)
      | left + 1 =>
        let (ending, waits, s) := attemptLoop parseInt uniform retry attemptFn left (attempt + 1) s
        (ending, wait none ++ waits, s)

/-- An attempt that may be made again. -/
def Attempt.retried : Attempt β ε → Bool
  | .reply r => isRetryableStatus r.status
  | .driverError _ => true
  | .raised _ => false

/-- The states that the attempts of a call start from. -/
def attemptStarts (attemptFn : σ → Attempt β ε × σ) : Nat → σ → List σ
  | 0, s => [s]
  | left + 1, s =>
    s :: if (attemptFn s).1.retried then attemptStarts attemptFn left (attemptFn s).2 else []

end

/-- How often a call may be attempted again. -/
def Capability.retries (cap : Option Capability) : Nat :=
  match cap.bind Capability.retry with
  | some retry => retry.count
  | none => 0

/-- The outcome that the breaker is told: a result is a success, an ending without one a failure,
and an exception that is no `DriverError` is told to nobody. -/
def Ending.recorded {β ε : Type} : Ending β ε → Option Bool
  | .result _ => some true
  | .gaveUp _ | .failed _ => some false
  | .escaped _ => none

/-! ### The breaker -/

/-- `_Breaker`. -/
structure Breaker where
  threshold : Nat
  windowMs : ℚ
  consecutiveFailures : Nat := 0
  openedAt : Option ℚ := none
  halfOpen : Bool := false
  deriving DecidableEq

def Breaker.new (config : BreakerConfig) : Breaker where
  threshold := config.threshold
  windowMs := config.windowMs

def Breaker.allow (b : Breaker) (nowMs : ℚ) : Bool × Breaker :=
  match b.openedAt with
  | none => (true, b)
  | some openedAt =>
    if nowMs - openedAt ≥ b.windowMs then (true, { b with halfOpen := true }) else (false, b)

def Breaker.recordSuccess (b : Breaker) : Breaker :=
  { b with
    consecutiveFailures := 0
    openedAt := none
    halfOpen := false }

def Breaker.recordFailure (b : Breaker) (nowMs : ℚ) : Breaker :=
  if b.halfOpen then
    { b with
      openedAt := some nowMs
      halfOpen := false }
  else
    let b := { b with consecutiveFailures := b.consecutiveFailures + 1 }
    if b.consecutiveFailures ≥ b.threshold then { b with openedAt := some nowMs } else b

/-- What the end of `_call_with_resilience` tells the breaker. -/
def Breaker.record (b : Breaker) (outcome : Option Bool) (nowMs : ℚ) : Breaker :=
  match outcome with
  | some true => b.recordSuccess
  | some false => b.recordFailure nowMs
  | none => b

end Lnpl.Drivers
