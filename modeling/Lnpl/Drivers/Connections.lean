import Mathlib.Logic.Function.Basic
import Lnpl.Drivers.Sqlite

/-!
# Concurrent runs on `SqliteRepositoryDriver` connections

Any number of runs, each on its own connection to one store.  Every statement is one atomic
action.  `BEGIN` is deferred to a run's first write; from then on the connection reads its own
view, which `commit` publishes.  sqlite serialises the write transactions: a statement that would
write while another connection is writing, or from a snapshot that is no longer current, is
answered "database is locked".

A stored payload is `_encode` of a row, so decoding it and encoding it again, as `_touch` does,
gives it back.
-/

namespace Lnpl.Drivers.Connections

open Lnpl.Lib Lnpl.Drivers.Sqlite

/-- Who inserted a row: no run (it was there at the start), or the `n`-th INSERT of a run. -/
abbrev Birth (ρ : Type) := Option (ρ × Nat)

/-- The literal SQL transaction of a connection. -/
inductive Txn (ε κ P ρ : Type) [Ord κ] where
  /-- no `BEGIN` was issued -/
  | autocommit
  /-- `BEGIN` was issued, no statement has run in it -/
  | begun
  /-- a read pinned `snapshot`, the store after `stamp` commits -/
  | reading (stamp : Nat) (snapshot : Rows ε κ P (Birth ρ))
  | writing (view : Rows ε κ P (Birth ρ))

/-- What a call was answered. -/
inductive Answer where
  | ok (affected : Nat)
  /-- `ConflictError`: the key of a create exists -/
  | conflict
  /-- `WriteConflictError`: the row changed since the read -/
  | writeConflict
  /-- `OperationalError`: the database is locked -/
  | locked
deriving DecidableEq, Repr

inductive Phase where
  | idle
  | running
  | finished
deriving DecidableEq, Repr

/-- A run and its connection.  `bound` is `_bound_rows`: the row object the last read of a key
handed out, with its `observed_version`; `payload` and `born` say what that read (or a write of
this run since) saw.  `touch` is an `update` call between its SELECT and its UPDATE. -/
structure Connection (ε κ P ρ : Type) [Ord κ] where
  phase : Phase := .idle
  txn : Txn ε κ P ρ := .autocommit
  bound : ε → κ → Option (Row P (Birth ρ)) := fun _ _ => none
  touch : Option (ε × κ × Option (Row P (Birth ρ))) := none
  inserted : Nat := 0
  answer : Answer := .ok 0

/-- The store and its connections. -/
structure State (ε κ P ρ : Type) [Ord κ] where
  committed : Rows ε κ P (Birth ρ)
  /-- how many commits have published a view -/
  commits : Nat
  /-- the connection that holds the write lock -/
  writer : Option ρ
  conn : ρ → Connection ε κ P ρ

variable {ε κ P ρ : Type} [DecidableEq ε] [DecidableEq κ] [DecidableEq ρ] [Ord κ]
  [Std.TransOrd κ]

inductive Action (ε κ P ρ : Type) where
  | begin (c : ρ)
  | read (c : ρ) (e : ε) (k : κ)
  | query (c : ρ) (e : ε)
  /-- the SELECT of `execute(e, "update", k)` -/
  | touchSelect (c : ρ) (e : ε) (k : κ)
  /-- the UPDATE of the `update` call in flight -/
  | touchUpdate (c : ρ)
  | delete (c : ρ) (e : ε) (k : κ)
  | create (c : ρ) (e : ε) (k : κ)
  /-- `persist` of the row object the last read of the key handed out -/
  | persist (c : ρ) (e : ε) (k : κ) (payload : P)
  /-- `persist` of a row object without `observed_version` -/
  | persistCreated (c : ρ) (e : ε) (k : κ) (payload : P)
  | commit (c : ρ)
  | rollback (c : ρ)

/-- The rows a read statement of `c` sees. -/
def State.visible (s : State ε κ P ρ) (c : ρ) : Rows ε κ P (Birth ρ) :=
  match (s.conn c).txn with
  | .autocommit | .begun => s.committed
  | .reading _ snapshot => snapshot
  | .writing view => view

/-- The transaction of `c` after a read statement: one that was begun pins its snapshot. -/
def State.afterRead (s : State ε κ P ρ) (c : ρ) : Txn ε κ P ρ :=
  match (s.conn c).txn with
  | .begun => .reading s.commits s.committed
  | txn => txn

/-- The rows a write statement of `c` works on, `none` if it is answered "database is locked". -/
def State.writable (s : State ε κ P ρ) (c : ρ) : Option (Rows ε κ P (Birth ρ)) :=
  match (s.conn c).txn with
  | .writing view => some view
  | .autocommit | .begun => if s.writer = none then some s.committed else none
  | .reading stamp snapshot =>
    if s.writer = none ∧ stamp = s.commits then some snapshot else none

/-- The transaction of `c` after a refused write: `_ensure_sql_transaction` issued `BEGIN`. -/
def Txn.ensured : Txn ε κ P ρ → Txn ε κ P ρ
  | .autocommit => .begun
  | txn => txn

/-- The state with another connection record for `c`. -/
def State.setConn (s : State ε κ P ρ) (c : ρ) (x : Connection ε κ P ρ) : State ε κ P ρ :=
  { s with conn := Function.update s.conn c x }

/-- One write statement of `c`: refused, or executed on the rows it works on by `f`, which gives
the new rows and what the call does to the connection record. -/
def State.write (s : State ε κ P ρ) (c : ρ)
    (f : Rows ε κ P (Birth ρ) →
      Rows ε κ P (Birth ρ) × (Connection ε κ P ρ → Connection ε κ P ρ)) : State ε κ P ρ :=
  let x := { s.conn c with touch := none }
  match s.writable c with
  | none => s.setConn c { x with txn := x.txn.ensured, answer := .locked }
  | some R =>
    { s.setConn c ((f R).2 { x with txn := .writing (f R).1 }) with writer := some c }

/-- A row object after its `observed_version` was advanced over a write of `payload`. -/
def advance (payload : P) (b : Row P (Birth ρ)) : Row P (Birth ρ) :=
  { b with payload := payload, version := b.version + 1 }

/-- The connection record after the row object bound to a key was advanced. -/
def Connection.advanceBound (x : Connection ε κ P ρ) (e : ε) (k : κ) (payload : P) :
    Connection ε κ P ρ :=
  { x with bound := fun e' k' =>
      if e' = e ∧ k' = k then (x.bound e k).map (advance payload) else x.bound e' k' }

/-- The connection record after `execute(e, "read", k)` returned `found`. -/
def Connection.bindRow (x : Connection ε κ P ρ) (e : ε) (k : κ)
    (found : Option (Row P (Birth ρ))) : Connection ε κ P ρ :=
  match found with
  | none => x
  | some row =>
    { x with bound := fun e' k' => if e' = e ∧ k' = k then some row else x.bound e' k' }

/-- The UPDATE of `_touch`: it writes back the payload its SELECT found, `{"id": k}` if it found
none, and advances the bound row if it affected one. -/
def touchWrite (encodeId : κ → P) (e : ε) (k : κ) (current : Option (Row P (Birth ρ)))
    (R : Rows ε κ P (Birth ρ)) :
    Rows ε κ P (Birth ρ) × (Connection ε κ P ρ → Connection ε κ P ρ) :=
  let payload := (current.map Row.payload).getD (encodeId k)
  match updateRow R e k payload with
  | (R', n) => (R', fun x =>
      { (if 0 < n then x.advanceBound e k payload else x) with answer := .ok n })

/-- `_DELETE_ROW` inside a run. -/
def deleteWrite (e : ε) (k : κ) (R : Rows ε κ P (Birth ρ)) :
    Rows ε κ P (Birth ρ) × (Connection ε κ P ρ → Connection ε κ P ρ) :=
  match deleteRow R e k with
  | (R', n) => (R', fun x => { x with answer := .ok n })

/-- `_create` inside a run. -/
def createWrite (encodeId : κ → P) (c : ρ) (e : ε) (k : κ) (inserted : Nat)
    (R : Rows ε κ P (Birth ρ)) :
    Rows ε κ P (Birth ρ) × (Connection ε κ P ρ → Connection ε κ P ρ) :=
  match insertRow R e k (encodeId k) (some (c, inserted)) with
  | some R' => (R', fun x => { x with inserted := inserted + 1, answer := .ok 1 })
  | none => (R, fun x => { x with answer := .conflict })

/-- `persist` of a row object with `observed_version` inside a run. -/
def persistWrite (e : ε) (k : κ) (payload : P) (version : Nat) (R : Rows ε κ P (Birth ρ)) :
    Rows ε κ P (Birth ρ) × (Connection ε κ P ρ → Connection ε κ P ρ) :=
  match updateRowVersioned R e k payload version with
  | (R', 0) => (R', fun x => { x with answer := .writeConflict })
  | (R', n + 1) => (R', fun x => { x.advanceBound e k payload with answer := .ok (n + 1) })

/-- `persist` of a row object without `observed_version` inside a run. -/
def persistCreatedWrite (e : ε) (k : κ) (payload : P) (R : Rows ε κ P (Birth ρ)) :
    Rows ε κ P (Birth ρ) × (Connection ε κ P ρ → Connection ε κ P ρ) :=
  match updateRow R e k payload with
  | (R', n) => (R', fun x => { x with answer := .ok n })

/-- The connection record of a run that is over. -/
def Connection.close (x : Connection ε κ P ρ) : Connection ε κ P ρ :=
  { phase := .finished, inserted := x.inserted }

/-- The step function of all connections; `encodeId k` is the stored text of `{"id": k}`.
A run does nothing else between the two statements of an `update`. -/
def step (encodeId : κ → P) (s : State ε κ P ρ) : Action ε κ P ρ → Option (State ε κ P ρ)
  | .begin c =>
    if (s.conn c).phase = .idle then some (s.setConn c { s.conn c with phase := .running })
    else none
  | .read c e k =>
    if (s.conn c).phase = .running ∧ (s.conn c).touch = none then
      let x := { s.conn c with txn := s.afterRead c, answer := .ok 0 }
      some (s.setConn c (x.bindRow e k (selectRow (s.visible c) e k)))
    else none
  | .query c _ =>
    if (s.conn c).phase = .running ∧ (s.conn c).touch = none then
      some (s.setConn c { s.conn c with txn := s.afterRead c, answer := .ok 0 })
    else none
  | .touchSelect c e k =>
    if (s.conn c).phase = .running ∧ (s.conn c).touch = none then
      let touch := some (e, k, selectRow (s.visible c) e k)
      some (s.setConn c { s.conn c with txn := s.afterRead c, touch := touch })
    else none
  | .touchUpdate c =>
    match (s.conn c).phase, (s.conn c).touch with
    | .running, some (e, k, current) => some (s.write c (touchWrite encodeId e k current))
    | _, _ => none
  | .delete c e k =>
    if (s.conn c).phase = .running ∧ (s.conn c).touch = none then
      some (s.write c (deleteWrite e k))
    else none
  | .create c e k =>
    if (s.conn c).phase = .running ∧ (s.conn c).touch = none then
      some (s.write c (createWrite encodeId c e k (s.conn c).inserted))
    else none
  | .persist c e k payload =>
    match (s.conn c).bound e k with
    | some b =>
      if (s.conn c).phase = .running ∧ (s.conn c).touch = none then
        some (s.write c (persistWrite e k payload b.version))
      else none
    | none => none
  | .persistCreated c e k payload =>
    if (s.conn c).phase = .running ∧ (s.conn c).touch = none then
      some (s.write c (persistCreatedWrite e k payload))
    else none
  | .commit c =>
    if (s.conn c).phase = .running ∧ (s.conn c).touch = none then
      match (s.conn c).txn with
      | .writing view =>
        some { s.setConn c (s.conn c).close with
          committed := view, commits := s.commits + 1, writer := none }
      | _ => some (s.setConn c (s.conn c).close)
    else none
  | .rollback c =>
    if (s.conn c).phase = .running ∧ (s.conn c).touch = none then
      match (s.conn c).txn with
      | .writing _ => some { s.setConn c (s.conn c).close with writer := none }
      | _ => some (s.setConn c (s.conn c).close)
    else none

/-- The connection that executes the statement. -/
def Action.conn : Action ε κ P ρ → ρ
  | .begin c | .read c .. | .query c _ | .touchSelect c .. | .touchUpdate c | .delete c .. |
    .create c .. | .persist c .. | .persistCreated c .. | .commit c | .rollback c => c

/-- The statement ends its run. -/
def Action.ends : Action ε κ P ρ → Bool
  | .commit _ | .rollback _ => true
  | _ => false

/-- No run has begun; `T` is what the store holds, payloads and versions. -/
def State.init (T : Tables ε κ (P × Nat)) : State ε κ P ρ where
  committed := T.map fun _ _ r => { payload := r.1, version := r.2, born := none }
  commits := 0
  writer := none
  conn := fun _ => {}

end Lnpl.Drivers.Connections
