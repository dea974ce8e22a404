import Mathlib.Data.Rat.Floor

/-!
# The token bucket of the WSGI application

`TokenBucket` and how `make_wsgi_app` builds it from a validated rate limit, over exact rationals.
-/

namespace Lnpl.Serve

/-! ### The bucket -/

structure TokenBucket where
  rate : ℚ
  capacity : ℚ
  tokens : ℚ
  last : ℚ
  deriving DecidableEq

/-- `TokenBucket.__init__`, at the time that the clock tells. -/
def TokenBucket.new (rate capacity now : ℚ) : TokenBucket where
  rate := rate
  capacity := capacity
  tokens := capacity
  last := now

/-- The first half of `acquire`: the time is taken, and what has elapsed refills the bucket. -/
def TokenBucket.refill (b : TokenBucket) (now : ℚ) : TokenBucket :=
  let elapsed := now - b.last
  if elapsed > 0 then
    { b with
      last := now
      tokens := min b.capacity (b.tokens + elapsed * b.rate) }
  else { b with last := now }

/-- `acquire`: a token is spent, or the answer is the seconds of `Retry-After`. -/
def TokenBucket.acquire (b : TokenBucket) (now : ℚ) : Option ℤ × TokenBucket :=
  let b := b.refill now
  if b.tokens ≥ 1 then (none, { b with tokens := b.tokens - 1 })
  else
    let deficit := 1 - b.tokens
    (some (max 1 ⌈deficit / b.rate⌉), b)

/-! ### The rate limit -/

/-- `_validate_rate_limit`, or the message of its `WsgiConfigError`; a rational is finite. -/
def validateRateLimit (value : ℚ) (option : String) : Except String Unit :=
  if value ≤ 0 then .error (option ++ " must be a positive number") else .ok ()

/-- A rate limit that `make_wsgi_app` accepts. -/
structure RateLimit where
  value : ℚ
  accepted : validateRateLimit value "LNPL_RATE_LIMIT" = .ok ()

/-- The `_rate_limiter` of an application with a rate limit. -/
def RateLimit.limiter (limit : RateLimit) (now : ℚ) : TokenBucket :=
  .new limit.value limit.value now

/-! ### Calls -/

/-- The times of the calls of `acquire`, after the construction: the clock never goes back. -/
structure Calls where
  start : ℚ
  times : List ℚ
  ordered : (start :: times).Pairwise (· ≤ ·)

/-- One call: its time, the answer, and the bucket that it leaves. -/
structure Acquired where
  time : ℚ
  answer : Option ℤ
  bucket : TokenBucket

def Acquired.admitted (a : Acquired) : Bool := a.answer.isNone

/-- One call after the other. -/
def TokenBucket.run : TokenBucket → List ℚ → List Acquired
  | _, [] => []
  | b, now :: times =>
    ⟨now, (b.acquire now).1, (b.acquire now).2⟩ :: (b.acquire now).2.run times

def RateLimit.run (limit : RateLimit) (calls : Calls) : List Acquired :=
  (limit.limiter calls.start).run calls.times

/-- The calls that are admitted from the time `s` to the time `t`. -/
def admissions (s t : ℚ) (run : List Acquired) : ℕ :=
  run.countP fun a => a.admitted && s ≤ a.time && a.time ≤ t

/-- What a bucket of that capacity and rate owes its callers. -/
structure BucketLaw (capacity rate : ℚ) (run : List Acquired) : Prop where
  window : ∀ s t, s ≤ t → (admissions s t run : ℚ) ≤ capacity + rate * (t - s)
  balance : ∀ a ∈ run, 0 ≤ a.bucket.tokens ∧ a.bucket.tokens ≤ capacity
  retry : ∀ a ∈ run, ∀ r, a.answer = some r → (a.bucket.acquire (a.time + r)).1 = none

end Lnpl.Serve
