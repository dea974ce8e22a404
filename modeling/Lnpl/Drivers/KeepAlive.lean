import Lnpl.Drivers.Resilience
import Lnpl.Lib.Runs

/-!
# Kept-alive connections of a thread

The calls that one thread makes through `HttpNetworkDriver`: an attempt takes the connection that
the thread keeps to the origin, or opens one, and a kept connection that fails is opened anew for
the same request.  What the peers do with the requests, one after the other, is given.
-/

namespace Lnpl.Drivers

variable {β ε : Type}

/-- The key of a kept connection. -/
structure Origin where
  scheme : String
  hostname : String
  port : Option Nat
  deriving DecidableEq

/-- What `_send_and_read` ends in: an answer, an `OSError` or `HTTPException`, or another
exception. -/
inductive Outcome (β ε : Type) where
  | answered (r : Reply β)
  | failed (message : String)
  | raised (e : ε)

/-- One request on a connection, and whether a peer received it completely. -/
structure Exchange (β ε : Type) where
  received : Bool
  outcome : Outcome β ε

/-- What a thread keeps: the origins in `_connection_cache`, and of the requests that it sent the
origin and the exchange, the last one first. -/
structure Client (β ε : Type) where
  connections : List Origin := []
  log : List (Origin × Exchange β ε) := []

/-- `_send_and_read`: the next exchange is the one that the peers make of the requests before. -/
def Client.sendAndRead (wire : Nat → Exchange β ε) (origin : Origin) (s : Client β ε) :
    Outcome β ε × Client β ε :=
  let x := wire s.log.length
  (x.outcome, { s with log := (origin, x) :: s.log })

/-- `cache[key] = conn`. -/
def Client.keep (s : Client β ε) (origin : Origin) : Client β ε :=
  { s with connections := s.connections.insert origin }

/-- `cache.pop(key, None)`. -/
def Client.drop (s : Client β ε) (origin : Origin) : Client β ε :=
  { s with connections := s.connections.filter (· ≠ origin) }

/-- `_one_http_attempt`. -/
def oneHttpAttempt (wire : Nat → Exchange β ε) (origin : Origin) (s : Client β ε) :
    Attempt β ε × Client β ε :=
  let reused : Bool := origin ∈ s.connections
  match s.sendAndRead wire origin with
  | (.answered r, s) => (.reply r, s.keep origin)
  | (.raised e, s) => (.raised e, s)
  | (.failed message, s) =>
    let s := s.drop origin
    if !reused then (.driverError message, s)
    else
      match s.sendAndRead wire origin with
      | (.answered r, s) => (.reply r, s.keep origin)
      | (.raised e, s) => (.raised e, s)
      | (.failed message, s) => (.driverError message, s)

/-- A call: its target's origin and capability, and the `DriverError` that it ends in before any
attempt, if the target does not resolve or its breaker rejects. -/
structure NetworkCall where
  origin : Origin
  cap : Option Capability := none
  refusal : Option String := none

section

variable (parseInt : String → Option Int) (uniform : Nat → ℚ → ℚ) (wire : Nat → Exchange β ε)

/-- `HttpNetworkDriver.call`: the ending, the waits, and what the thread keeps. -/
def NetworkCall.call (c : NetworkCall) (s : Client β ε) : Ending β ε × List ℚ × Client β ε :=
  match c.refusal with
  | some message => (.failed message, [], s)
  | none =>
    attemptLoop parseInt uniform (c.cap.bind Capability.retry) (oneHttpAttempt wire c.origin)
      (Capability.retries c.cap) 1 s

/-- What the thread keeps after a call. -/
def Client.step (s : Client β ε) (c : NetworkCall) : Client β ε :=
  (c.call parseInt uniform wire s).2.2

/-- What the thread keeps in front of the attempts of a call. -/
def NetworkCall.starts (c : NetworkCall) (s : Client β ε) : List (Client β ε) :=
  match c.refusal with
  | some _ => []
  | none => attemptStarts (oneHttpAttempt wire c.origin) (Capability.retries c.cap) s

/-- How many of the requests were received completely. -/
def received (log : List (Origin × Exchange β ε)) : Nat :=
  log.countP (·.2.received)

/-- What a call owes: of each attempt, and of each of the `retry count n` plus one, at most one
request is received completely. -/
def Client.SentOnce (s : Client β ε) (c : NetworkCall) : Prop :=
  (∀ s' ∈ c.starts wire s,
      received (oneHttpAttempt wire c.origin s').2.log ≤ received s'.log + 1) ∧
    received (s.step parseInt uniform wire c).log ≤
      received s.log + (Capability.retries c.cap + 1)

/-- The last request to the origin that did not raise was answered. -/
def alive (origin : Origin) : List (Origin × Exchange β ε) → Bool
  | [] => false
  | (o, x) :: log =>
    if o = origin then
      match x.outcome with
      | .answered _ => true
      | .failed _ => false
      | .raised _ => alive origin log
    else alive origin log

/-- The next request to the origin follows one that was answered, and is lost after a peer received
it completely, and so is received the one after it. -/
def LostAfterReceipt (origin : Origin) (log : List (Origin × Exchange β ε)) : Prop :=
  alive origin log = true ∧ (wire log.length).received = true ∧
    (∃ message, (wire log.length).outcome = .failed message) ∧
    (wire (log.length + 1)).received = true

/-- No attempt of the call loses a request that way. -/
def Client.NothingLost (s : Client β ε) (c : NetworkCall) : Prop :=
  ∀ s' ∈ c.starts wire s, ¬LostAfterReceipt wire c.origin s'.log

end

end Lnpl.Drivers
