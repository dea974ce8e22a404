import Lnpl.Drivers.Idempotency

/-!
# Deliveries and their claims

What one consumer is sent: workflow POSTs with an `Idempotency-Key`, CloudEvents deliveries of any
client, and the deliveries of relays that drain the outboxes of any number of stores.  Each claims a
key in the one table of `SqliteRepositoryDriver`, under its workflow; the statements of all of them
interleave as `Idempotency.step` says.

A stored body carries, as bookkeeping of the model, the request whose run it reports.
-/

namespace Lnpl.Serve

open Lnpl.Drivers.Idempotency

/-! ### Requests -/

/-- The attributes of a CloudEvents envelope. -/
structure Envelope where
  id : String
  source : String
  type : String
deriving DecidableEq, Repr

/-- A route of the kind `event-consume`: its slug, and the workflow that it runs. -/
structure EventRoute where
  slug : String
  workflow : String
deriving DecidableEq, Repr

/-- A request that claims a key. -/
inductive Request where
  /-- a POST to the workflow, with an `Idempotency-Key` -/
  | workflow (id : String) (idempotencyKey : String)
  /-- a POST to the event route -/
  | event (route : EventRoute) (envelope : Envelope)
deriving DecidableEq, Repr

/-- The workflow and the key that are given to `idempotency_begin`. -/
def Request.claimKey : Request → String × String
  | .workflow id key => (id, key)
  | .event route envelope => (route.workflow, envelope.id)

/-- The requests differ in their CloudEvents source, in their event route, or in being a workflow
POST or an event delivery. -/
def Request.differ : Request → Request → Prop
  | .workflow .., .workflow .. => False
  | .event route envelope, .event route' envelope' =>
    route ≠ route' ∨ envelope.source ≠ envelope'.source
  | _, _ => True

/-! ### The relay -/

/-- A row of the outbox of a store. -/
structure Emission (σ : Type) where
  store : σ
  seq : Nat
deriving DecidableEq, Repr

/-- The envelope that `_relay_drain_once` posts. -/
def relayEnvelope (source : String) (seq : Nat) (name : String) : Envelope where
  id := "outbox-" ++ toString seq
  source := source
  type := name

/-- Who sends a request. -/
inductive Sender (σ : Type) where
  | client (request : Request)
  | relay (emission : Emission σ) (name : String) (route : EventRoute)

variable {σ ρ β : Type}

/-- What is sent, where each store has its source. -/
def Sender.request (source : σ → String) : Sender σ → Request
  | .client request => request
  | .relay emission name route =>
    .event route (relayEnvelope (source emission.store) emission.seq name)

/-- The emission that is delivered. -/
def Sender.emission : Sender σ → Option (Emission σ)
  | .client _ => none
  | .relay emission _ _ => some emission

/-- The deliveries are distinct: the requests differ, or they are not of one emission. -/
def Sender.Apart (source : σ → String) (a b : Sender σ) : Prop :=
  (a.request source).differ (b.request source) ∨ a.emission ≠ b.emission

/-- The key that the request of a sender claims. -/
def Sender.claimKey (source : σ → String) (a : Sender σ) : String × String :=
  (a.request source).claimKey

/-! ### Answers -/

/-- The table of the consumer and the requests it is sent. -/
abbrev Consumer (ρ β : Type) := State (String × String) (ρ × β) ρ

/-- The body that a request finishes with reports its own run. -/
def Signed : Action (ρ × β) ρ → Prop
  | .finish r _ body => body.1 = r
  | _ => True

/-- With this step, the request `r` is answered with what the run of `r'` has stored, or refused
because `r'` has the claim. -/
def AnsweredFrom (key : ρ → String × String) (s : Consumer ρ β) (a : Action (ρ × β) ρ)
    (s' : Consumer ρ β) (r r' : ρ) : Prop :=
  (a = .select r ∨ a = .insert r) ∧
    (s'.phase r = .refused .inProgress ∧ s.owner (key r) = some r' ∨
      ∃ h b, s'.phase r = .refused (.done h (some (r', b))))

/-- A request in this phase has had its workflow run. -/
def RanIn : Phase (ρ × β) → Prop
  | .started _ | .finished _ | .released => True
  | _ => False

/-- The workflow has been run for the request. -/
def Ran (s : Consumer ρ β) (r : ρ) : Prop := RanIn (s.phase r)

/-- The response to the request may have the status 200, on which `_relay_drain_once` acknowledges its
emission: its own run has finished, or a stored outcome says so. -/
def Answered200 (s : Consumer ρ β) (r : ρ) : Prop :=
  (∃ now, s.phase r = .finished now) ∨ ∃ body, s.phase r = .refused (.done (some 200) body)

/-- In every run of the requests of these senders, no request is answered with the outcome of a
distinct delivery or refused because of its claim, and an emission whose delivery is answered with
200 has been run. -/
def KeptApart (β : Type) [DecidableEq ρ] (ttlMs clock : Int) (source : σ → String)
    (sender : ρ → Sender σ) : Prop :=
  ∀ (s s' : Consumer ρ β) (a : Action (ρ × β) ρ),
    Lib.Reaches (step ttlMs fun r => (sender r).claimKey source) (fun _ => Signed)
      (State.init (fun _ => none) clock) s →
    Signed a → step ttlMs (fun r => (sender r).claimKey source) s a = some s' →
    (∀ r r', AnsweredFrom (fun r => (sender r).claimKey source) s a s' r r' →
      ¬(sender r).Apart source (sender r')) ∧
    ∀ r e, (sender r).emission = some e → Answered200 s' r →
      ∃ r', (sender r').emission = some e ∧ Ran s' r'

end Lnpl.Serve
