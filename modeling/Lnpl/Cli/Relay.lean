import Lnpl.Drivers.Outbox
import Lnpl.Lib.Batches
import Lnpl.Serve.Routing
import Mathlib.Data.List.DropRight

/-!
# The relay

`lnpl relay` posts the undelivered emissions of an outbox to a target, batch by batch, and marks
those delivered that the target took or refused for good.  What becomes of the request for each row
is given.
-/

namespace Lnpl.Cli

open Drivers.Emissions (Outbox Row ackOutbox)
open Serve.Routing (Letters Text slug)

variable {ρ P ε : Type}

/-! ### One request -/

/-- What becomes of a request: a response, an `HTTPError` among them, a `URLError`, or another
exception while the response is awaited or read. -/
inductive Posting (ε : Type) where
  | response (status : Nat)
  | urlError
  | interrupted (e : ε)

/-- `_relay_post`, without the body. -/
def relayPost : Posting ε → Except ε (Option Nat)
  | .response status => .ok (some status)
  | .urlError => .ok none
  | .interrupted e => .error e

/-- The structured-mode envelope of an emission. -/
structure Envelope (P : Type) where
  specversion : String := "1.0"
  id : String
  source : String
  type : String
  data : P

structure Post (P : Type) where
  url : Text
  envelope : Envelope P

/-- What a pass depends on besides the outbox: the names of the declared events, the module, and
`--target`. -/
structure Relay where
  letters : Letters
  eventNames : List (String × String)
  source : String
  target : String

/-- The request for a row, if the document declares its event. -/
def Relay.post (r : Relay) (row : Row ρ P) : Option (Post P) :=
  (r.eventNames.lookup row.emission.event).map fun name =>
    { url := r.target.toList.rdropWhile (· = '/') ++ "/-/events/".toList ++ slug r.letters name
      envelope :=
        { id := "outbox-" ++ toString row.seq
          source := r.source
          type := name
          data := row.emission.payload } }

/-! ### Batches -/

/-- A row that a batch came to, with its request. -/
structure Attempted (P : Type) where
  seq : Nat
  post : Option (Post P)

def Relay.attempt (r : Relay) (row : Row ρ P) : Attempted P := ⟨row.seq, r.post row⟩

/-- The outbox, and what the batches of a pass came to. -/
structure Pass (ρ P : Type) where
  outbox : Outbox ρ P
  log : List (Attempted P) := []

/-- What ends a pass early: an exception of a request, or the `DriverError` of `ack_outbox`. -/
inductive Failure (ε : Type) where
  | raised (e : ε)
  | driverError

/-- `_SELECT_UNDELIVERED`. -/
def undelivered (O : Outbox ρ P) : List (Row ρ P) :=
  O.rows.filter fun row => row.deliveredAt.isNone

section

variable (r : Relay) (posting : Nat → Posting ε) (clock : Nat → Int)

/-- The loop of `_relay_drain_once`: the rows to acknowledge, and what was come to. -/
def relayRows : List (Row ρ P) → List Nat → List (Attempted P) →
    Except ε (List Nat) × List (Attempted P)
  | [], acked, log => (.ok acked, log)
  | row :: rows, acked, log =>
    let log := log ++ [r.attempt row]
    match r.post row with
    | none => relayRows rows acked log
    | some _ =>
      match relayPost (posting row.seq) with
      | .error e => (.error e, log)
      | .ok status =>
        if status = some 200 then relayRows rows (acked ++ [row.seq]) log
        else if status = some 422 then relayRows rows (acked ++ [row.seq]) log
        else relayRows rows acked log

/-- `_BoundedOutbox.drain_outbox`. -/
def drainOutbox (limit : Option { n : Nat // 0 < n }) (O : Outbox ρ P) : List (Row ρ P) :=
  match limit with
  | none => undelivered O
  | some n => (undelivered O).take n

/-- `_relay_drain_once`, the rows drained. -/
def relayDrainOnce (rows : List (Row ρ P)) (s : Pass ρ P) : Except (Failure ε) Nat × Pass ρ P :=
  match relayRows r posting rows [] s.log with
  | (.error e, log) => (.error (.raised e), { s with log := log })
  | (.ok acked, log) =>
    if acked = [] then (.ok 0, { s with log := log })
    else
      match ackOutbox s.outbox acked (clock log.length) with
      | some O => (.ok acked.length, { outbox := O, log := log })
      | none => (.error .driverError, { s with log := log })

/-- `_relay_batch`: what escapes takes the outbox back to where the batch began. -/
def relayBatch (rows : List (Row ρ P)) (s : Pass ρ P) : Except (Failure ε) Nat × Pass ρ P :=
  match relayDrainOnce r posting clock rows s with
  | (.ok acked, s') => (.ok acked, s')
  | (.error f, s') => (.error f, { s' with outbox := s.outbox })

/-- The stop rule of `_relay_pass`. -/
def stops (limit : Option { n : Nat // 0 < n }) (drained acked : Nat) : Bool :=
  match limit with
  | none => true
  | some n => drained < n || acked = 0

/-- `_relay_pass`, with at most `fuel` batches; the total of what was acknowledged before is
given. -/
def relayPass (limit : Option { n : Nat // 0 < n }) :
    Nat → Nat → Pass ρ P → Option (Except (Failure ε) Nat × Pass ρ P)
  | 0, _, _ => none
  | fuel + 1, total, s =>
    let rows := drainOutbox limit s.outbox
    match relayBatch r posting clock rows s with
    | (.error f, s) => some (.error f, s)
    | (.ok acked, s) =>
      if stops limit rows.length acked then some (.ok (total + acked), s)
      else relayPass limit fuel (total + acked) s

/-! ### What a pass owes -/

/-- The row's request is answered 200. -/
def taken (row : Row ρ P) : Bool :=
  match r.post row, posting row.seq with
  | some _, .response status => status = 200
  | _, _ => false

/-- The row's request is answered 200 or 422. -/
def confirms (row : Row ρ P) : Bool :=
  match r.post row, posting row.seq with
  | some _, .response status => status = 200 || status = 422
  | _, _ => false

/-- The row's request is interrupted. -/
def interrupts (row : Row ρ P) : Bool :=
  match r.post row, posting row.seq with
  | some _, .interrupted _ => true
  | _, _ => false

end

/-- A row with the number was delivered. -/
def delivered (O : Outbox ρ P) (seq : Nat) : Prop :=
  ∃ row ∈ O.rows, row.seq = seq ∧ row.deliveredAt ≠ none

/-- The batches came to the row. -/
def Pass.cameTo (s : Pass ρ P) (row : Row ρ P) : Prop := ∃ a ∈ s.log, a.seq = row.seq

/-- How often the row was posted. -/
def Pass.posts (s : Pass ρ P) (row : Row ρ P) : Nat :=
  s.log.countP fun a => a.seq = row.seq && a.post.isSome

section

variable (r : Relay) (posting : Nat → Posting ε) (clock : Nat → Int)
  (limit : Option { n : Nat // 0 < n })

/-- What a pass that returns owes: it acknowledges the rows that it came to and that were answered
200 or 422, and no other; each of those was posted once; and it came to every row behind fewer
failing rows than the limit. -/
structure Complete (O : Outbox ρ P) (s : Pass ρ P) : Prop where
  exact : ∀ seq, delivered s.outbox seq ↔ delivered O seq ∨
    ∃ row ∈ undelivered O, row.seq = seq ∧ s.cameTo row ∧ confirms r posting row = true
  once : ∀ row ∈ undelivered O, s.cameTo row → confirms r posting row = true → s.posts row = 1
  reached : ∀ before row after, undelivered O = before ++ row :: after →
    (∀ n, limit = some n → before.countP (!confirms r posting ·) < n.1) → s.cameTo row

/-- A pass ends; what it owes if it returns; and no row that was posted and answered 200 is left
undelivered. -/
def PassLaw (O : Outbox ρ P) : Prop :=
  ∃ fuel result s, (∀ more, relayPass r posting clock limit (fuel + more) 0 { outbox := O } =
      some (result, s)) ∧
    (∀ total, result = .ok total → Complete r posting limit O s) ∧
    ∀ row ∈ undelivered O, 0 < s.posts row → taken r posting row = true →
      delivered s.outbox row.seq

/-! ### The batches of a pass -/

/-- The rows of a batch. -/
def batchOf (queue : List (Row ρ P)) : List (Row ρ P) :=
  match limit with
  | none => queue
  | some n => queue.take n

/-- A batch is followed by another if it is full, without an interruption, and some row of it is
confirmed. -/
def NextFront (queue queue' : List (Row ρ P)) : Prop :=
  ∃ n, limit = some n ∧ (queue.take n.1).length = n.1 ∧
    (∀ row ∈ queue.take n.1, interrupts r posting row = false) ∧
    (∃ row ∈ queue.take n.1, confirms r posting row = true) ∧
    queue' = Lib.afterBatch (confirms r posting) n.1 queue

/-- What is undelivered in front of the batches of a pass. -/
def Fronts : List (Row ρ P) → List (Row ρ P) → Prop :=
  Relation.ReflTransGen (NextFront r posting limit)

/-- The first row that is interrupted in the batch, if any, does not come after one that is answered
200. -/
def Untroubled (queue : List (Row ρ P)) : Prop :=
  ∀ before row after, batchOf limit queue = before ++ row :: after →
    interrupts r posting row = true → (∀ x ∈ before, interrupts r posting x = false) →
    ∀ x ∈ before, taken r posting x = false

/-- No batch of the pass is troubled. -/
def Undisturbed (O : Outbox ρ P) : Prop :=
  ∀ queue, Fronts r posting limit (undelivered O) queue → Untroubled r posting limit queue

end

end Lnpl.Cli
