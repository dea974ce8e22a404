import Lnpl.Drivers.HmacTokenProvider

/-!
# `RotatingHmacTokenProvider`

The calls of a rotating provider, in any number of threads, as steps of one machine.  What the
clocks and the secret provider answer to a step is given with it.  Beside the provider run the pairs
that successful reads returned.
-/

namespace Lnpl.Drivers.Rotation

open Lib.JsonText (Codecs Fields)
open Tokens (Hmac HmacTokenProvider Raised TokenError refusedKeys)

/-! ### Reads -/

/-- The current and the previous key. -/
abbrev KeyPair := List UInt8 × Option (List UInt8)

/-- `self._keys`. -/
def pairOf (p : HmacTokenProvider) : KeyPair := (p.current, p.previous)

/-- What the secret provider returns: bytes, or something else. -/
inductive Value where
  | bytes (raw : List UInt8)
  | other

/-- The `DriverError` that a refresh raises. -/
inductive RefreshError where
  | notReturned
  | notBytes
  | token (error : TokenError)

def RefreshError.text (tokenText : TokenError → String) : RefreshError → String
  | .notReturned => "the secret provider failed to return the secret"
  | .notBytes => "the secret provider returned a value that is not bytes"
  | .token error => tokenText error

/-- `_read_pair`, behind a `get` that returned; `none` is a `get_previous` that raised. -/
def readPair (current : Value) (previous : Option (Option Value)) : Except RefreshError KeyPair :=
  match previous with
  | none => .error .notReturned
  | some previous =>
    match current, previous with
    | .bytes current, none => .ok (current, none)
    | .bytes current, some (.bytes previous) => .ok (current, some previous)
    | _, _ => .error .notBytes

/-- A read is successful if it returned a pair that `_set_keys` takes. -/
def successful : Except RefreshError KeyPair → Option KeyPair
  | .ok pair => if (refusedKeys pair.1 pair.2).isNone then some pair else none
  | .error _ => none

/-- `_set_keys` of the pair of a read. -/
def install (p : HmacTokenProvider) : Except RefreshError KeyPair →
    Except RefreshError HmacTokenProvider
  | .error e => .error e
  | .ok (current, previous) =>
    match p.setKeys (.bytes current) (previous.map .bytes) with
    | .ok p => .ok p
    | .error e => .error (.token e)

/-! ### Calls -/

/-- A call of the provider. -/
inductive Call where
  | verify (token : List Char) (audience : String)
  | issue (jti subject audience : String) (ttlMs : Option Int) (role : Option String)
  | refreshKeys
  | refreshForProbe (floorS : Rat)

/-- The call re-reads stale keys only, and goes on when another thread reads. -/
def Call.lazy : Call → Bool
  | .verify _ _ | .issue _ _ _ _ _ => true
  | .refreshKeys | .refreshForProbe _ => false

/-- What a call ends in. -/
inductive Outcome where
  | verified (result : Except Raised Fields)
  | issued (result : Except Raised (List Char))
  | refreshed (result : Except RefreshError Unit)
  | probed (lastReadOk : Bool)

/-- Where a call is.  From `holding` to `recorded` it holds the lock; a call that has fetched the
keys keeps in mind which pair was read last then. -/
inductive Phase where
  | idle
  | stale
  | holding
  | due
  | reading
  | got (current : Value)
  | read (result : Except RefreshError KeyPair)
  | installed (result : Except RefreshError Unit)
  | recorded (result : Except RefreshError Unit)
  | ready
  | fetched (provider : HmacTokenProvider) (last : KeyPair)
  | ended (outcome : Outcome) (last : KeyPair)

/-- The call is between the acquisition and the release of the lock. -/
def Phase.refreshing : Phase → Bool
  | .holding | .due | .reading | .got _ | .read _ | .installed _ | .recorded _ => true
  | .idle | .stale | .ready | .fetched _ _ | .ended _ _ => false

/-- The fields of the provider, where its calls are, the pairs that successful reads returned, the
last one first, and the last of these whose read is over. -/
structure Machine (ρ : Type) where
  provider : HmacTokenProvider
  readAt : Rat
  lastReadOk : Bool := true
  lock : Option ρ := none
  phase : ρ → Phase := fun _ => .idle
  reads : List KeyPair
  lastRead : KeyPair

/-- The next step of a call, and what its environment answers: the monotonic clock, the wall clock,
`get`, and `get_previous`; `none` is an exception. -/
structure Move (ρ : Type) where
  call : ρ
  now : Rat
  wall : Int
  get : Option Value
  getPrevious : Option (Option Value)

variable {ρ : Type} [DecidableEq ρ]

def Machine.to (s : Machine ρ) (c : ρ) (phase : Phase) : Machine ρ :=
  { s with phase := Function.update s.phase c phase }

/-- A provider that was created at a time. -/
def Machine.start (p : HmacTokenProvider) (now : Rat) : Machine ρ where
  provider := p
  readAt := now
  reads := [pairOf p]
  lastRead := pairOf p

section

variable (codecs : Codecs) (depth : Nat) (hmac : Hmac) (refreshS : Rat) (calls : ρ → Call)

/-- What a call does with the keys that it fetched. -/
def useKeys (p : HmacTokenProvider) (wall : Int) : Call → Outcome
  | .verify token audience => .verified (p.verify codecs depth hmac wall token audience)
  | .issue jti subject audience ttlMs role =>
    .issued (p.issue hmac wall jti subject audience ttlMs role)
  | .refreshKeys => .refreshed (.ok ())
  | .refreshForProbe _ => .probed true

/-- One step. -/
def Machine.step (s : Machine ρ) (m : Move ρ) : Machine ρ :=
  let c := m.call
  match s.phase c with
  | .idle =>
    if (calls c).lazy then
      -- `_refresh_if_stale`
      if m.now - s.readAt < refreshS then s.to c .ready else s.to c .stale
    else
      match s.lock with
      | none => { s.to c .holding with lock := some c }
      | some _ => s
  | .stale =>
    match s.lock with
    | none => { s.to c .holding with lock := some c }
    | some _ => s.to c .ready
  | .holding =>
    match calls c with
    | .refreshForProbe floorS =>
      if m.now - s.readAt ≥ floorS then s.to c .due else s.to c (.recorded (.ok ()))
    | _ => s.to c .due
  -- `_read_and_install`
  | .due => { s.to c .reading with readAt := m.now }
  | .reading =>
    match m.get with
    | none => s.to c (.read (.error .notReturned))
    | some current => s.to c (.got current)
  | .got current =>
    let result := readPair current m.getPrevious
    { s.to c (.read result) with reads := (successful result).toList ++ s.reads }
  | .read result =>
    match install s.provider result with
    | .ok p => { s.to c (.installed (.ok ())) with provider := p, lastRead := pairOf p }
    | .error e => s.to c (.installed (.error e))
  | .installed result => { s.to c (.recorded result) with lastReadOk := result.isOk }
  | .recorded result =>
    match calls c with
    | .refreshKeys => { s.to c (.ended (.refreshed result) s.lastRead) with lock := none }
    | .refreshForProbe _ => { s.to c (.ended (.probed s.lastReadOk) s.lastRead) with lock := none }
    | _ => { s.to c .ready with lock := none }
  -- `verify` and `issue` of the base class
  | .ready => s.to c (.fetched s.provider s.lastRead)
  | .fetched p last => s.to c (.ended (useKeys codecs depth hmac p m.wall (calls c)) last)
  | .ended _ _ => s

/-! ### What the provider owes -/

/-- A call that has ended, with what was read last when it fetched its keys: a verification or an
issue ends as it does under that pair, which one successful read returned. -/
def UsesOnePair (issuer : String) (s : Machine ρ) (c : ρ) : Prop :=
  ∀ outcome last, s.phase c = .ended outcome last → (calls c).lazy = true →
    last ∈ s.reads ∧ ∃ p wall, pairOf p = last ∧ p.issuer = issuer ∧
      outcome = useKeys codecs depth hmac p wall (calls c)

/-- A provider of the issuer that has no other key returns the claims of the token. -/
def AcceptedWith (key : List UInt8) (issuer : String) (wall : Int) (token : List Char)
    (audience : String) (claims : Fields) : Prop :=
  ∃ p : HmacTokenProvider, pairOf p = (key, none) ∧ p.issuer = issuer ∧
    p.verify codecs depth hmac wall token audience = .ok claims

/-- A verification accepts what is signed under a key of the pair read last. -/
def AcceptsLast (issuer : String) (s : Machine ρ) (c : ρ) : Prop :=
  ∀ token audience outcome last, calls c = .verify token audience →
    s.phase c = .ended outcome last → ∃ wall, ∀ key claims, key = last.1 ∨ last.2 = some key →
      AcceptedWith codecs depth hmac key issuer wall token audience claims →
      outcome = .verified (.ok claims)

/-- The pair read last is in force, and it is the one that the last successful read returned, once
that read has been installed. -/
def Machine.InForce (s : Machine ρ) : Prop :=
  pairOf s.provider = s.lastRead ∧
    ((∃ older, s.reads = s.lastRead :: older) ∨
      ∃ c pair older, s.phase c = .read (.ok pair) ∧ s.reads = pair :: s.lastRead :: older)

/-- At most one call refreshes. -/
def Machine.SingleFlight (s : Machine ρ) : Prop :=
  ∀ c c', (s.phase c).refreshing = true → (s.phase c').refreshing = true → c = c'

/-- What holds of the provider at any time. -/
structure Law (issuer : String) (s : Machine ρ) : Prop where
  usesOnePair : ∀ c, UsesOnePair codecs depth hmac calls issuer s c
  acceptsLast : ∀ c, AcceptsLast codecs depth hmac calls issuer s c
  inForce : s.InForce
  singleFlight : s.SingleFlight

/-- A step changes the keys only to a pair that a successful read returned. -/
def KeepsKeys (s : Machine ρ) (m : Move ρ) : Prop :=
  (s.step codecs depth hmac refreshS calls m).provider = s.provider ∨
    ∃ pair, s.phase m.call = .read (.ok pair) ∧ successful (.ok pair) = some pair ∧
      pairOf (s.step codecs depth hmac refreshS calls m).provider = pair

end

end Lnpl.Drivers.Rotation
