import Lnpl.Lib.Generators
import Lnpl.Lib.Runs

/-!
# Requests in flight

How `_dispatch` counts the requests that a shutdown has to wait for.  Every request runs on a thread
of its own, and the host takes the body of its response to the end, or closes it, on that thread;
one step is what a thread does up to the end of a critical section of `_inflight_cv`, or one call of
the host on a streaming body.

What the rate limiter, the route and a turn of `_sse_frames` end with is part of the action, since
nothing here depends on it.
-/

namespace Lnpl.Serve.Inflight

open Lnpl.Lib

/-! ### Bodies -/

/-- The `finally` blocks of the generators of the server. -/
inductive Final where
  /-- `_inflight_decr`, of `_inflight_generator` -/
  | decr
  /-- `_emit_request_log`, of `_log_sse_then` -/
  | log
  deriving DecidableEq, Repr

/-- What a route returns. -/
inductive Body where
  | list
  | stream (g : Gen Final)
  deriving DecidableEq, Repr

/-- `_FinalizeOnClose`. -/
structure FinalizeOnClose where
  body : Gen Final
  finished : Bool
  deriving DecidableEq, Repr

/-- `_log_sse_then`. -/
def logSseThen (g : Gen Final) : Gen Final := .forwarding .log .unstarted g

/-- `_inflight_generator`. -/
def inflightGenerator (g : Gen Final) : Gen Final := .forwarding .decr .unstarted g

/-- `__next__`; a turn that raises anything but `StopIteration` does not finalize. -/
def FinalizeOnClose.next (turn : Turn Unit Unit) (x : FinalizeOnClose) :
    FinalizeOnClose × Turn Unit Unit × List Final :=
  match x.body.next turn with
  | (g, .returned, ran) => ({ body := g, finished := true }, .returned, ran)
  | (g, ended, ran) => ({ x with body := g }, ended, ran)

/-- `close`. -/
def FinalizeOnClose.close (x : FinalizeOnClose) : FinalizeOnClose × List Final :=
  ({ body := x.body.close.1, finished := true }, x.body.close.2)

/-! ### Requests -/

/-- Where a request stands. -/
inductive Phase where
  /-- not there yet -/
  | absent
  /-- `_dispatch` is entered -/
  | arrived
  /-- `_admit` returned `False` -/
  | refused
  /-- in `_check_rate_limit` -/
  | limiting
  /-- in the `try` of `_dispatch` -/
  | routing
  /-- before an `_inflight_decr` of `_dispatch`, what comes next is a `return` or a `raise` -/
  | leaving
  /-- before `_inflight_wrap` -/
  | wrapping (body : Body)
  /-- the host holds the streaming body -/
  | streaming (x : FinalizeOnClose)
  /-- `_dispatch` is over and there is no streaming body -/
  | over
  deriving DecidableEq, Repr

/-- A request.  `increments` and `decrements` are bookkeeping of the model: what was done to
`_inflight` on behalf of the request. -/
structure Request where
  phase : Phase := .absent
  /-- the path is an ops path -/
  ops : Bool := false
  increments : Nat := 0
  decrements : Nat := 0
  deriving DecidableEq, Repr

/-- The request was let past the gate. -/
def Phase.admitted : Phase → Bool
  | .absent | .arrived | .refused => false
  | _ => true

/-- The response was given as a whole, or its body is exhausted or closed. -/
def Phase.finished : Phase → Bool
  | .over => true
  | .streaming x => x.finished || x.body.status = .finished
  | _ => false

/-- `WsgiApp` as far as `_inflight_cv` guards it, and the requests, by number. -/
structure Server where
  inflight : Int := 0
  shuttingDown : Bool := false
  request : Nat → Request := fun _ => {}

/-! ### Steps -/

/-- What `_check_rate_limit` ends with. -/
inductive Limit where
  | admitted
  | limited
  | raised
  deriving DecidableEq, Repr

/-- What the route ends with. -/
inductive Route where
  | list
  | stream
  | raised
  deriving DecidableEq, Repr

inductive Action where
  | arrive (r : Nat) (ops : Bool)
  /-- `_inflight_incr` of an ops path, `_admit` of any other -/
  | enter (r : Nat)
  | limit (r : Nat) (limit : Limit)
  | route (r : Nat) (route : Route)
  /-- an `_inflight_decr` of `_dispatch` -/
  | leave (r : Nat)
  | wrap (r : Nat)
  /-- the host's `next` on the body -/
  | next (r : Nat) (turn : Turn Unit Unit)
  /-- the host's `close` on the body -/
  | close (r : Nat)
  | beginShutdown
  deriving DecidableEq, Repr

/-- The server with another record of the request. -/
def Server.set (s : Server) (r : Nat) (x : Request) : Server :=
  { s with request := Function.update s.request r x }

/-- The server with the request at another place. -/
def Server.goto (s : Server) (r : Nat) (phase : Phase) : Server :=
  s.set r { s.request r with phase := phase }

/-- `_inflight_incr`, and where the request goes on. -/
def Server.inflightIncr (s : Server) (r : Nat) (phase : Phase) : Server :=
  let x := s.request r
  { s.set r { x with phase := phase, increments := x.increments + 1 } with
    inflight := s.inflight + 1 }

/-- `_inflight_decr`, and where the request goes on. -/
def Server.inflightDecr (s : Server) (r : Nat) (phase : Phase) : Server :=
  let x := s.request r
  { s.set r { x with phase := phase, decrements := x.decrements + 1 } with
    inflight := s.inflight - 1 }

/-- `_admit`. -/
def Server.admit (s : Server) (r : Nat) : Server :=
  if s.shuttingDown then s.goto r .refused else s.inflightIncr r .limiting

/-- The blocks that a call on the body has run, and where the request goes on. -/
def Server.settle (s : Server) (r : Nat) (phase : Phase) : List Final → Server
  | [] => s.goto r phase
  | .decr :: ran => (s.inflightDecr r phase).settle r phase ran
  | .log :: ran => s.settle r phase ran

/-- The body a route makes of `_sse_frames`, by `log_format`. -/
def subscription (jsonLog : Bool) : Gen Final :=
  if jsonLog then logSseThen (.source .unstarted) else .source .unstarted

/-- `_inflight_wrap`; a generator goes into `_FinalizeOnClose`. -/
def Server.inflightWrap (s : Server) (r : Nat) : Body → Server
  | .list => s.inflightDecr r .over
  | .stream g => s.goto r (.streaming { body := inflightGenerator g, finished := false })

/-- One step, where the request is there. -/
def step (jsonLog : Bool) (s : Server) : Action → Option Server
  | .arrive r ops =>
    match (s.request r).phase with
    | .absent => some (s.set r { phase := .arrived, ops := ops })
    | _ => none
  | .enter r =>
    match (s.request r).phase with
    | .arrived =>
      if (s.request r).ops then some (s.inflightIncr r .routing) else some <| s.admit r
    | _ => none
  | .limit r limit =>
    match (s.request r).phase, limit with
    | .limiting, .admitted => some (s.goto r .routing)
    | .limiting, _ => some (s.goto r .leaving)
    | _, _ => none
  | .route r route =>
    match (s.request r).phase, route with
    | .routing, .list => some (s.goto r (.wrapping .list))
    | .routing, .stream => some (s.goto r (.wrapping (.stream (subscription jsonLog))))
    | .routing, .raised => some (s.goto r .leaving)
    | _, _ => none
  | .leave r =>
    match (s.request r).phase with
    | .leaving => some (s.inflightDecr r .over)
    | _ => none
  | .wrap r =>
    match (s.request r).phase with
    | .wrapping body => some (s.inflightWrap r body)
    | _ => none
  | .next r turn =>
    match (s.request r).phase with
    | .streaming x => some (s.settle r (.streaming (x.next turn).1) (x.next turn).2.2)
    | _ => none
  | .close r =>
    match (s.request r).phase with
    | .streaming x => some (s.settle r (.streaming x.close.1) x.close.2)
    | _ => none
  | .beginShutdown => some { s with shuttingDown := true }

/-- One turn of the loop of `wait_for_drain`; `none` waits for a `notify_all` or the deadline. -/
def Server.drainTurn (s : Server) (expired : Bool) : Option Bool :=
  if 0 < s.inflight then if expired then some false else none else some true

/-- `wait_for_drain`, by the states its turns see; `none` if it goes on waiting. -/
def waitForDrain : List (Server × Bool) → Option Bool
  | [] => none
  | (s, expired) :: turns =>
    match s.drainTurn expired with
    | some drained => some drained
    | none => waitForDrain turns

/-! ### The law -/

/-- What holds in one state. -/
structure Accounted (s : Server) : Prop where
  /-- an admitted request was counted once, any other was not -/
  counted : ∀ r, (s.request r).increments = (s.request r).phase.admitted.toNat
  /-- and it was uncounted once, at the latest when its body is exhausted or closed -/
  uncounted : ∀ r, (s.request r).decrements ≤ (s.request r).increments ∧
    ((s.request r).phase.finished → (s.request r).decrements = 1)
  nonneg : 0 ≤ s.inflight
  /-- a drain that succeeds in this state does so with no admitted request unfinished -/
  drained : ∀ turns expired, waitForDrain turns = none →
    waitForDrain (turns ++ [(s, expired)]) = some true →
    ∀ r, (s.request r).phase.admitted → (s.request r).phase.finished

/-- Every state that is reached is accounted for, and from a state in which the shutdown has begun
no further request is admitted but ops requests. -/
def InflightLaw (jsonLog : Bool) (C : Server → Action → Prop) : Prop :=
  ∀ s, Reaches (step jsonLog) C {} s → Accounted s ∧
    ∀ t, s.shuttingDown → Reaches (step jsonLog) anyAction s t →
      ∀ r, (t.request r).phase.admitted → (s.request r).phase.admitted ∨ (t.request r).ops

/-- The host does not close a body of which it has not asked for the first chunk. -/
def Begun (s : Server) : Action → Prop
  | .close r => ∀ x, (s.request r).phase = .streaming x → x.body.status ≠ .unstarted
  | _ => True

end Lnpl.Serve.Inflight
