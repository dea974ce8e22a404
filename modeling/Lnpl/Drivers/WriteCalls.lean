import Lnpl.Drivers.Idempotency
import Lnpl.Drivers.Outbox
import Lnpl.Lib.ImplicitTransactions

/-!
# The write methods of `SqliteRepositoryDriver`, statement by statement

Each method with the statements and commits it executes on its connection, in their order, and what
it does when one of them fails (`drivers.py`).  What sqlite answers each operation of a call is
given with the call (`Sqlite`), so that other connections and every fault are covered; `sqlite3`
opens a transaction before the first statement that changes data.  Payloads are the texts that
`_encode` made; what a method changes of the row objects in memory is left out.
-/

namespace Lnpl.Drivers.WriteCalls

open Lnpl.Lib.Implicit
open Lnpl.Drivers.Emissions (Emission)
open Lnpl.Drivers.Idempotency (Claim)

/-! ### Statements -/

/-- The statements that change data, with their parameters. -/
inductive Statement (P : Type) where
  /-- `_INSERT_IF_ABSENT` -/
  | insertIfAbsent (entity key : String) (payload : P)
  /-- `_INSERT_ROW` -/
  | insertRow (entity key : String) (payload : P)
  /-- `_UPDATE_ROW` -/
  | updateRow (payload : P) (entity key : String)
  /-- `_UPDATE_ROW_VERSIONED` -/
  | updateRowVersioned (payload : P) (entity key : String) (version : Nat)
  /-- `_DELETE_ROW` -/
  | deleteRow (entity key : String)
  /-- `_INSERT_OUTBOX` -/
  | insertOutbox (emission : Emission P) (createdAt : Int)
  /-- `_MARK_DELIVERED` -/
  | markDelivered (deliveredAt : Int) (seq : Nat)
  /-- `_INSERT_IDEMPOTENCY_IN_PROGRESS` -/
  | insertInProgress (key workflowId : String) (createdAt : Int)
  /-- `_UPDATE_IDEMPOTENCY_DONE` -/
  | updateDone (httpStatus : Nat) (body : P) (workflowId key : String)
  /-- `_DELETE_IDEMPOTENCY` -/
  | deleteIdempotency (workflowId key : String)
  deriving DecidableEq, Repr

/-- What sqlite answers the operations of a call. -/
structure Sqlite (P : Type) where
  /-- the row count of a statement -/
  change : Statement P → Answers Nat
  /-- `_SELECT_ROW` -/
  selectRow : String → String → Answers (Option (P × Nat))
  /-- `_SELECT_OUTBOX_SEQ`: whether there is a row -/
  selectOutboxSeq : Nat → Answers Bool
  /-- `_SELECT_IDEMPOTENCY` -/
  selectIdempotency : String → String → Answers (Option (Claim P))
  begin : Answers Unit
  commit : Answers Unit
  rollback : Answers Unit

/-! ### The driver -/

/-- `_in_transaction` and `_sql_transaction_open`. -/
structure Flags where
  inTransaction : Bool := false
  sqlTransactionOpen : Bool := false
  deriving DecidableEq, Repr

/-- A `DriverError`. -/
inductive DriverError where
  /-- `cannot <what>: <text of the error>` -/
  | cannot (what : String) (error : SqlError)
  /-- `cannot <what> <key>: <text of the error>`, the key as `%r` writes it -/
  | cannotKey (what key : String) (error : SqlError)
  /-- `ConflictError` -/
  | conflict (entity : String)
  /-- `WriteConflictError` -/
  | writeConflict (entity key : String)
  | unknownSeqs (seqs : List Nat)
  | alreadyOpen

/-- The text of the error; `repr` is what `%r` writes for a str. -/
def DriverError.text (repr : String → String) : DriverError → String
  | .cannot what error => s!"cannot {what}: {error.text}"
  | .cannotKey what key error => s!"cannot {what} {repr key}: {error.text}"
  | .conflict entity => s!"repository create conflicts: {entity} already exists"
  | .writeConflict entity key => s!"write conflict: row changed since read ({entity} {key})"
  | .unknownSeqs seqs =>
    "outbox ack: unknown seq(s): " ++ ", ".intercalate (seqs.map fun seq => toString seq)
  | .alreadyOpen =>
    "begin() called while a transaction is already open — nested transactions are not " ++
      "supported; commit() or rollback() the open one first"

variable {P α : Type}

/-- A method. -/
abbrev Method (P α : Type) := Prog Flags (Statement P) DriverError α

/-- `except sqlite3.Error`. -/
def handle (handler : SqlError → Method P α) : Raised DriverError → Method P α
  | .sql error => handler error
  | .driver error => throw (.driver error)

/-- `try: … except sqlite3.Error`. -/
def catching (m : Method P α) (handler : SqlError → Method P α) : Method P α :=
  tryCatch m (handle handler)

/-- The `DriverError` that an error of sqlite is raised as. -/
def raising (error : DriverError) : Method P α := throw (.driver error)

/-- `finally: self._in_transaction = self._sql_transaction_open = False`. -/
def closing (m : Method P α) : Method P α := fun s =>
  match m s with
  | .ok a t => .ok a { t with flags := {} }
  | .error raised t => .error raised { t with flags := {} }

variable (sqlite : Sqlite P)

/-- `_ensure_sql_transaction`. -/
def ensureSqlTransaction : Method P Unit := do
  let s ← get
  if s.flags.inTransaction = true ∧ s.flags.sqlTransactionOpen = false then
    catching (operation sqlite.begin) fun error => raising (.cannot "begin transaction" error)
    modify fun s => { s with flags := { s.flags with sqlTransactionOpen := true } }

/-- `_end_write`. -/
def endWrite : Method P Unit := do
  let s ← get
  if s.flags.inTransaction = false then commit sqlite.commit

/-- `seed`. -/
def seed (rows : List (String × String × P)) : Method P Unit :=
  catching (do
    ensureSqlTransaction sqlite
    changeAll sqlite.change (rows.map fun row => .insertIfAbsent row.1 row.2.1 row.2.2)
    endWrite sqlite)
    fun error => raising (.cannot "seed the repository" error)

/-- `begin`. -/
def beginTransaction : Method P Unit := do
  let s ← get
  if s.flags.inTransaction = true then raising .alreadyOpen
  else modify fun s => { s with flags := { s.flags with inTransaction := true } }

/-- `commit`. -/
def commitTransaction : Method P Unit :=
  closing (catching (do
    let s ← get
    if s.flags.sqlTransactionOpen = true then commit sqlite.commit)
    fun error => raising (.cannot "commit transaction" error))

/-- `rollback`. -/
def rollbackTransaction : Method P Unit :=
  closing (catching (do
    let s ← get
    if s.flags.sqlTransactionOpen = true then rollback sqlite.rollback)
    fun error => raising (.cannot "roll back transaction" error))

/-- `_read`. -/
def read (entity key : String) : Method P (Option (P × Nat)) :=
  catching (operation (sqlite.selectRow entity key))
    fun error => raising (.cannot s!"read {entity}" error)

/-- `_create`; `encoded` is the text of `{"id": key}`. -/
def create (entity key : String) (encoded : P) : Method P Unit :=
  catching (do
    ensureSqlTransaction sqlite
    changeAll sqlite.change [.insertRow entity key encoded]
    endWrite sqlite)
    fun error =>
      if error.integrity = true then raising (.conflict entity)
      else raising (.cannot s!"create {entity}" error)

/-- `_touch` for an `update`; `encoded` is the text of `{"id": key}`, and the text of a row is
encoded as it was. -/
def update (entity key : String) (encoded : P) : Method P Unit :=
  catching (do
    let current ← read sqlite entity key
    ensureSqlTransaction sqlite
    changeAll sqlite.change [.updateRow ((current.map Prod.fst).getD encoded) entity key]
    endWrite sqlite)
    fun error => raising (.cannot s!"update {entity}" error)

/-- `_touch` for a `delete`. -/
def delete (entity key : String) : Method P Unit :=
  catching (do
    ensureSqlTransaction sqlite
    changeAll sqlite.change [.deleteRow entity key]
    endWrite sqlite)
    fun error => raising (.cannot s!"delete {entity}" error)

/-- `persist`; `version` is the row's `observed_version`, if it has one. -/
def persist (entity key : String) (payload : P) (version : Option Nat) : Method P Unit :=
  catching (do
    ensureSqlTransaction sqlite
    match version with
    | none =>
      changeAll sqlite.change [.updateRow payload entity key]
      endWrite sqlite
    | some version =>
      let statement := .updateRowVersioned payload entity key version
      let count ← change (sqlite.change statement) statement
      if count = 0 then
        let s ← get
        if s.flags.inTransaction = false then rollback sqlite.rollback
        raising (.writeConflict entity key)
      else endWrite sqlite)
    fun error => raising (.cannot s!"persist {entity}" error)

/-- `record_emission`. -/
def recordEmission (emission : Emission P) (now : Int) : Method P Unit :=
  catching (do
    ensureSqlTransaction sqlite
    changeAll sqlite.change [.insertOutbox emission now]
    endWrite sqlite)
    fun error => raising (.cannot s!"record emission {emission.emissionId}" error)

/-- The sequence numbers that have no row. -/
def missingSeqs : List Nat → Method P (List Nat)
  | [] => return []
  | seq :: seqs => do
    let found ← operation (sqlite.selectOutboxSeq seq)
    let missing ← missingSeqs seqs
    return if found then missing else seq :: missing

/-- `ack_outbox`. -/
def ackOutbox (seqs : List Nat) (now : Int) : Method P Unit :=
  catching (do
    let missing ← missingSeqs sqlite seqs
    if missing ≠ [] then raising (.unknownSeqs missing)
    else
      changeAll sqlite.change (seqs.map fun seq => .markDelivered now seq)
      commit sqlite.commit)
    fun error => raising (.cannot "ack outbox" error)

/-- A statement that is committed at once, in a transaction or not. -/
def changeAtOnce (statement : Statement P) : Method P Unit := do
  let _ ← change (sqlite.change statement) statement
  commit sqlite.commit

/-- The claim of a key at the end of `idempotency_begin`. -/
def claimKey (workflowId key : String) (now : Int) : Method P (Idempotency.Answer P) :=
  catching (do
    changeAtOnce sqlite (.insertInProgress key workflowId now)
    return .started)
    fun error =>
      if error.integrity = true then return .inProgress
      else raising (.cannotKey "claim idempotency key" key error)

/-- `idempotency_begin`. -/
def idempotencyBegin (workflowId key : String) (now ttl : Int) : Method P (Idempotency.Answer P) :=
  do
    let row ← catching (operation (sqlite.selectIdempotency workflowId key))
      fun error => raising (.cannotKey "read idempotency key" key error)
    match row with
    | none => claimKey sqlite workflowId key now
    | some claim =>
      if now - claim.createdAt < ttl then
        match claim.status with
        | .inProgress => return .inProgress
        | .done => return .done claim.httpStatus claim.body
      else
        catching (changeAtOnce sqlite (.deleteIdempotency workflowId key))
          fun error => raising (.cannotKey "clear expired idempotency key" key error)
        claimKey sqlite workflowId key now

/-- `idempotency_finish`. -/
def idempotencyFinish (workflowId key : String) (httpStatus : Nat) (body : P) : Method P Unit :=
  catching (changeAtOnce sqlite (.updateDone httpStatus body workflowId key))
    fun error => raising (.cannotKey "record idempotency result for" key error)

/-- `idempotency_release`. -/
def idempotencyRelease (workflowId key : String) : Method P Unit :=
  catching (changeAtOnce sqlite (.deleteIdempotency workflowId key))
    fun error => raising (.cannotKey "release idempotency key" key error)

/-! ### Sessions -/

/-- A call of a method. -/
inductive Call (P : Type) where
  | seed (rows : List (String × String × P))
  | begin
  | commit
  | rollback
  | read (entity key : String)
  | create (entity key : String) (encoded : P)
  | update (entity key : String) (encoded : P)
  | delete (entity key : String)
  | persist (entity key : String) (payload : P) (version : Option Nat)
  | recordEmission (emission : Emission P) (now : Int)
  | ackOutbox (seqs : List Nat) (now : Int)
  | idempotencyBegin (workflowId key : String) (now ttl : Int)
  | idempotencyFinish (workflowId key : String) (httpStatus : Nat) (body : P)
  | idempotencyRelease (workflowId key : String)

/-- The method that is called. -/
def Call.run : Call P → Method P Unit
  | .seed rows => WriteCalls.seed sqlite rows
  | .begin => beginTransaction
  | .commit => commitTransaction sqlite
  | .rollback => rollbackTransaction sqlite
  | .read entity key => do let _ ← WriteCalls.read sqlite entity key
  | .create entity key encoded => WriteCalls.create sqlite entity key encoded
  | .update entity key encoded => WriteCalls.update sqlite entity key encoded
  | .delete entity key => WriteCalls.delete sqlite entity key
  | .persist entity key payload version => WriteCalls.persist sqlite entity key payload version
  | .recordEmission emission now => WriteCalls.recordEmission sqlite emission now
  | .ackOutbox seqs now => WriteCalls.ackOutbox sqlite seqs now
  | .idempotencyBegin workflowId key now ttl => do
    let _ ← WriteCalls.idempotencyBegin sqlite workflowId key now ttl
  | .idempotencyFinish workflowId key httpStatus body =>
    WriteCalls.idempotencyFinish sqlite workflowId key httpStatus body
  | .idempotencyRelease workflowId key => WriteCalls.idempotencyRelease sqlite workflowId key

/-- A call, and what sqlite answers it. -/
structure Attempt (P : Type) where
  sqlite : Sqlite P
  call : Call P

/-- A connection of the driver. -/
abbrev Connection (P : Type) := Session Flags (Statement P)

/-- The run of a call. -/
def Attempt.run (a : Attempt P) (s : Connection P) :
    EStateM.Result (Raised DriverError) (Connection P) Unit :=
  a.call.run a.sqlite { s with ops := 0 }

/-- The connection after a call. -/
def Attempt.after (a : Attempt P) (s : Connection P) : Connection P :=
  match a.run s with
  | .ok _ t => { t with calls := t.calls + 1 }
  | .error _ t => { t with calls := t.calls + 1 }

/-- The call raises a `DriverError`. -/
def Attempt.Raises (a : Attempt P) (s : Connection P) : Prop :=
  ∃ error t, a.run s = .error (.driver error) t

/-- The connection after calls, one after the other. -/
def session (attempts : List (Attempt P)) : Connection P :=
  attempts.foldl (fun s a => a.after s) { flags := {} }

end Lnpl.Drivers.WriteCalls
