import Lnpl.Drivers.Idempotency
import Lnpl.Interp.Runtime

/-!
# One connection of `SqliteRepositoryDriver`

The run of an event delivery and the claim of its idempotency key share one connection, under two
commit disciplines: the statements of the run belong to a SQL transaction that `commit()` or
`rollback()` closes, and each statement of the claim is committed by itself.  The driver knows of
the SQL transaction what its two flags say; the engine fails any call that `answers` says it fails.

What the statements of the row methods do to the rows is given by `RowMethods`.
-/

namespace Lnpl.Serve

open Lnpl.Interp Lnpl.Drivers.Idempotency

variable {δ β α : Type}

/-! ### The engine -/

/-- What one call of the engine comes to. -/
inductive EngineAnswer where
  | done
  /-- a `sqlite3.Error` that leaves the SQL transaction as it is -/
  | fails
  /-- a `sqlite3.Error` after which the engine has rolled back -/
  | failsRolledBack
deriving DecidableEq, Repr

/-- What a store holds: its rows and its outbox, and the claims by workflow and key. -/
structure Database (δ β : Type) where
  data : δ
  claims : Table (String × String) β

/-- A connection, with the flags of its driver.  `view` is what the open SQL transaction sees. -/
structure Connection (δ β : Type) where
  committed : Database δ β
  view : Option (Database δ β) := none
  inTransaction : Bool := false
  sqlTransactionOpen : Bool := false
  /-- what the engine answers the calls to come; `done` after the last -/
  answers : List EngineAnswer := []

/-- A program on a connection. -/
abbrev D (δ β : Type) := EStateM Exc (Connection δ β)

namespace Connection

/-- What a statement sees. -/
def visible (c : Connection δ β) : Database δ β := c.view.getD c.committed

/-- `sqlite3.Error`. -/
def sqliteError : Exc := .other "sqlite3.Error"

/-- `sqlite3.IntegrityError`, a `sqlite3.Error`. -/
def integrityError : Exc := .other "sqlite3.IntegrityError"

/-- `except sqlite3.Error as exc: raise DriverError(..) from exc`. -/
def orDriverError (message : String) (m : D δ β α) : D δ β α :=
  tryCatch m fun e =>
    if e = sqliteError ∨ e = integrityError then throw (.driver .driverError message) else throw e

/-- The engine's answer to the next call. -/
def nextAnswer : D δ β EngineAnswer := fun c =>
  .ok (c.answers.headD .done) { c with answers := c.answers.tail }

/-- A SELECT. -/
def select (f : Database δ β → α) : D δ β α := do
  match ← nextAnswer with
  | .done => return f (← get).visible
  | .fails => throw sqliteError
  | .failsRolledBack =>
    modify fun c => { c with view := none }
    throw sqliteError

/-- An INSERT, UPDATE or DELETE; Python opens a SQL transaction before it where none is open. -/
def statement (f : Database δ β → Except Exc (α × Database δ β)) : D δ β α := do
  match ← nextAnswer with
  | .done =>
    let seen := (← get).visible
    modify fun c => { c with view := some seen }
    let (a, db) ← Lib.EStateM.ofExcept (f seen)
    modify fun c => { c with view := some db }
    return a
  | .fails =>
    modify fun c => { c with view := some c.visible }
    throw sqliteError
  | .failsRolledBack =>
    modify fun c => { c with view := none }
    throw sqliteError

/-- `_conn.execute("BEGIN")`. -/
def engineBegin : D δ β Unit := do
  if (← get).view.isSome then throw sqliteError
  match ← nextAnswer with
  | .done => modify fun c => { c with view := some c.committed }
  | _ => throw sqliteError

/-- `_conn.commit()`: nothing without an open SQL transaction. -/
def engineCommit : D δ β Unit := do
  match (← get).view with
  | none => pure ()
  | some db =>
    match ← nextAnswer with
    | .done => modify fun c => { c with committed := db, view := none }
    | .fails => throw sqliteError
    | .failsRolledBack =>
      modify fun c => { c with view := none }
      throw sqliteError

/-- `_conn.rollback()`. -/
def engineRollback : D δ β Unit := do
  match (← get).view with
  | none => pure ()
  | some _ =>
    match ← nextAnswer with
    | .done => modify fun c => { c with view := none }
    | .fails => throw sqliteError
    | .failsRolledBack =>
      modify fun c => { c with view := none }
      throw sqliteError

/-! ### The driver -/

/-- `begin`. -/
def begin : D δ β Unit := do
  if (← get).inTransaction then
    throw (.driver .driverError ("begin() called while a transaction is already open — nested " ++
      "transactions are not supported; commit() or rollback() the open one first"))
  modify fun c => { c with inTransaction := true }

/-- The `finally` of `commit` and `rollback`. -/
def clearFlags (c : Connection δ β) : Connection δ β :=
  { c with inTransaction := false, sqlTransactionOpen := false }

/-- `commit` or `rollback`: the call of the engine where the driver knows of a SQL transaction, and
both flags cleared, also when the call has failed. -/
def closeTransaction (message : String) (call : D δ β Unit) : D δ β Unit := do
  if (← get).sqlTransactionOpen then
    tryCatch (orDriverError message call) fun e => do
      modify clearFlags
      throw e
  modify clearFlags

/-- `commit`. -/
def commit : D δ β Unit := closeTransaction "cannot commit transaction" engineCommit

/-- `rollback`. -/
def rollback : D δ β Unit := closeTransaction "cannot roll back transaction" engineRollback

/-- `_ensure_sql_transaction`. -/
def ensureSqlTransaction : D δ β Unit := do
  let c ← get
  if c.inTransaction && !c.sqlTransactionOpen then
    orDriverError "cannot begin transaction" engineBegin
    modify fun c => { c with sqlTransactionOpen := true }

/-- `_end_write`. -/
def endWrite : D δ β Unit := do
  if !(← get).inTransaction then engineCommit

/-! ### The idempotency claim -/

/-- The INSERT of a claim. -/
def claim (key : String × String) (nowMs : Int) : D δ β (Answer β) :=
  tryCatch
    (do
      statement fun db =>
        match insertInProgress db.claims key nowMs with
        | none => .error integrityError
        | some claims => .ok ((), { db with claims := claims })
      engineCommit
      return .started)
    fun e =>
      -- lost a race with a concurrent claim between the SELECT and this INSERT
      if e = integrityError then return .inProgress
      else if e = sqliteError then throw (.driver .driverError "cannot claim idempotency key")
      else throw e

/-- `idempotency_begin`. -/
def idempotencyBegin (key : String × String) (nowMs ttlMs : Int) : D δ β (Answer β) := do
  let row ← orDriverError "cannot read idempotency key"
    (select fun db => selectIdempotency db.claims key)
  match row with
  | none => claim key nowMs
  | some c =>
    if c.fresh ttlMs nowMs then return c.answer
    orDriverError "cannot clear expired idempotency key" do
      statement fun db => .ok ((), { db with claims := deleteIdempotency db.claims key })
      engineCommit
    claim key nowMs

/-- `idempotency_finish`. -/
def idempotencyFinish (key : String × String) (httpStatus : Nat) (body : β) : D δ β Unit :=
  orDriverError "cannot record idempotency result" do
    statement fun db => .ok ((), { db with claims := updateDone db.claims key httpStatus body })
    engineCommit

/-- `idempotency_release`. -/
def idempotencyRelease (key : String × String) : D δ β Unit :=
  orDriverError "cannot release idempotency key" do
    statement fun db => .ok ((), { db with claims := deleteIdempotency db.claims key })
    engineCommit

end Connection

/-! ### The row methods -/

/-- What the statements of the row methods do: a write gives the answer of its method and the rows
it leaves, or the `DriverError` of a conflict. -/
structure RowMethods (δ : Type) where
  read : String → String → δ → Found
  write : String → Operation → String → δ → Except Exc (Found × δ)
  query : String → δ → List Dict
  queryPredicate : String → Option (List (String × String × Json)) → Option Order → Option Nat →
    δ → List Dict
  persist : String → String → Stored → δ → Except Exc (Stored × δ)
  recordEmission : Emission → δ → δ

namespace RowMethods

open Connection

variable (methods : RowMethods δ)

/-- A statement on the rows. -/
def onData (f : δ → Except Exc (α × δ)) (db : Database δ β) : Except Exc (α × Database δ β) :=
  (f db.data).map fun (a, data) => (a, { db with data := data })

/-- A SELECT of a row method. -/
def reading (message : String) (f : δ → α) : D δ β α :=
  orDriverError message (select fun db => f db.data)

/-- A write of a row method: `_ensure_sql_transaction`, the statement, and `_end_write`. -/
def writing (message : String) (f : δ → Except Exc (α × δ)) : D δ β α :=
  orDriverError message do
    ensureSqlTransaction
    let a ← statement (onData f)
    endWrite
    return a

/-- `execute`.  An `update` first reads the row that it writes back. -/
def execute (entity : String) (op : Operation) (key : String) : D δ β Found := do
  match op with
  | .read => reading ("cannot read " ++ entity) (methods.read entity key)
  | .create => writing ("cannot create " ++ entity) (methods.write entity .create key)
  | .update =>
    let _ ← reading ("cannot read " ++ entity) (methods.read entity key)
    writing ("cannot update " ++ entity) (methods.write entity .update key)
  | .delete => writing ("cannot delete " ++ entity) (methods.write entity .delete key)

/-- `persist`: outside a transaction, a write conflict is rolled back. -/
def persistRow (entity key : String) (row : Stored) : D δ β Stored :=
  tryCatch (writing ("cannot persist " ++ entity) (methods.persist entity key row)) fun e => do
    if e matches .driver .writeConflictError _ then
      if !(← get).inTransaction then engineRollback
    throw e

/-- The driver on one connection. -/
def repo : Repo (Connection δ β) where
  begin := begin
  commit := commit
  rollback := rollback
  execute := methods.execute
  query entity := reading ("cannot query " ++ entity) (methods.query entity)
  queryPredicate := some fun entity predicate order limit =>
    reading ("cannot query " ++ entity) (methods.queryPredicate entity predicate order limit)
  persist := methods.persistRow
  recordEmission emission := writing ("cannot record emission " ++ emission.emissionId) fun data =>
    .ok ((), methods.recordEmission emission data)

end RowMethods

end Lnpl.Serve
