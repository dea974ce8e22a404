import Lnpl.Interp.RepoPolicy

/-!
# Migration

`run_migration`: one field backfilled on the rows of an entity that lack it, in one transaction.  A
call of the repository may raise `DriverError`; one that does leaves the store as it is.  There is
no other writer.
-/

namespace Lnpl.Interp.Migrate

/-- What is settled before a row is read: the entity, the field, the value that it takes and the
`schema_generation` that is stamped beside it. -/
structure Backfill where
  entityName : String
  entity : String
  field : String
  value : Json
  stamp : Json

/-- Rows by their keys. -/
abbrev Rows := List (String × Dict)

/-- The rows of the entity, in the order of a scan. -/
structure Table where
  rows : Rows
  nodup : (rows.map Prod.fst).Nodup

/-- The calls on the repository; those of the loop are of the `n`-th candidate. -/
inductive StoreCall where
  | query
  | begin
  | read (n : Nat)
  /-- the second read, under the row's own id -/
  | readAgain (n : Nat)
  | persist (n : Nat)
  | rollback
  | commit
  deriving DecidableEq, Repr

/-- The rows that are committed, and those of the transaction that is open. -/
structure Store where
  committed : Rows
  view : Option Rows

structure Report where
  scanned : Nat
  updated : Nat
  skipped : Nat
  deriving DecidableEq, Repr

inductive MigrateFault where
  /-- `MigrateError` -/
  | migrate (message : String)
  /-- `DriverError` -/
  | driver (message : String)
  deriving DecidableEq, Repr

variable (lang : Lang) (raises : StoreCall → Option String) (b : Backfill)

/-- A call: the message of the `DriverError` that it raises. -/
def called (call : StoreCall) : Except String Unit :=
  match raises call with
  | some message => .error message
  | none => .ok ()

/-- The row with the value and the stamp. -/
def stamped (row : Dict) : Dict := (row.insert b.field b.value).insert schemaGenKey b.stamp

/-- `repository.persist(entity_id, key, current)` of a row that is there. -/
def setRow (rows : Rows) (key : String) (current : Dict) : Rows :=
  rows.map fun entry => if entry.1 = key then (entry.1, current) else entry

/-! ### The loop -/

/-- Where the loop is: the rows that its transaction sees, and the counters. -/
structure Batch where
  view : Rows
  updated : Nat
  skipped : Nat

/-- Why the loop ends before its last candidate is through. -/
inductive Reason where
  | raised (message : String)
  | unresolved (id : Json)

/-- The end of the loop, and the rows that its transaction sees by then. -/
structure Aborted where
  view : Rows
  reason : Reason

/-- The re-read of a candidate: the key that answers, with its row. -/
def findRow (n : Nat) (view : Rows) (row : Dict) : Except String (Option (String × Dict)) := do
  let key := rowKey lang b.entity row
  called raises (.read n)
  match view.lookup key with
  | some current => return some (key, current)
  | none =>
    match row["id"]? with
    | some (.str id) =>
      if id ≠ key then
        called raises (.readAgain n)
        return (view.lookup id).map fun current => (id, current)
      else return none
    | _ => return none

/-- One turn of the loop. -/
def migrateRow (n : Nat) (row : Dict) (batch : Batch) : Except Aborted Batch :=
  match findRow lang raises b n batch.view row with
  | .error message => .error ⟨batch.view, .raised message⟩
  | .ok none => .error ⟨batch.view, .unresolved (Dict.get row "id")⟩
  | .ok (some (key, current)) =>
    if current.contains b.field then .ok { batch with skipped := batch.skipped + 1 }
    else
      match called raises (.persist n) with
      | .error message => .error ⟨batch.view, .raised message⟩
      | .ok () =>
        .ok { batch with
          view := setRow batch.view key (stamped b current)
          updated := batch.updated + 1 }

/-- `for row in candidates`, from the `n`-th on. -/
def migrateRows : Nat → List Dict → Batch → Except Aborted Batch
  | _, [], batch => .ok batch
  | n, row :: rows, batch => do
    let batch ← migrateRow lang raises b n row batch
    migrateRows (n + 1) rows batch

/-! ### The run -/

/-- `%r` of a JSON value. -/
def reprJson : Json → String
  | .str s => lang.repr s
  | value => lang.str value

def Reason.message : Reason → String
  | .raised message => message
  | .unresolved id =>
    "row " ++ reprJson lang id ++ " of " ++ lang.repr b.entityName ++ " could not be confirmed " ++
      "migrated (no stored row under its scanned key or its own id) -- aborting the batch; " ++
      "rerun after investigating"

/-- `repository.rollback()`, and the error that the batch is given up with. -/
def giveUp (rows view : Rows) (message : String) : Store × Except MigrateFault Report :=
  match raises .rollback with
  | some failure => (⟨rows, some view⟩, .error (.driver failure))
  | none => (⟨rows, none⟩, .error (.migrate message))

/-- `[row for row in rows if field_name not in row]`. -/
def candidates (rows : Rows) : List Dict :=
  (rows.map Prod.snd).filter fun row => !row.contains b.field

/-- The transaction, its rows those of the table. -/
def migrateBatch (table : Table) : Store × Except MigrateFault Report :=
  let found := candidates b table.rows
  let scanned := table.rows.length
  match migrateRows lang raises b 0 found ⟨table.rows, 0, scanned - found.length⟩ with
  | .error aborted => giveUp raises table.rows aborted.view (aborted.reason.message lang b)
  | .ok batch =>
    if batch.updated = 0 then
      giveUp raises table.rows batch.view (lang.repr b.entityName ++ " had " ++
        toString found.length ++ " candidate row(s) missing " ++ lang.repr b.field ++
        " but the run updated none of them -- refusing to report success with zero effect")
    else
      match raises .commit with
      | some failure => (⟨table.rows, some batch.view⟩, .error (.driver failure))
      | none => (⟨batch.view, none⟩, .ok ⟨scanned, batch.updated, batch.skipped⟩)

/-- `run_migration`; `prepared` is what `_resolve_entity`, `_resolve_field` and `_coerce` settle, or
the message of the `MigrateError` that they raise. -/
def runMigration (prepared : Except String Backfill) (dryRun : Bool) (table : Table) :
    Store × Except MigrateFault Report :=
  match prepared with
  | .error message => (⟨table.rows, none⟩, .error (.migrate message))
  | .ok b =>
    match raises .query with
    | some failure => (⟨table.rows, none⟩, .error (.migrate failure))
    | none =>
      let found := candidates b table.rows
      let scanned := table.rows.length
      if dryRun || found.isEmpty then
        (⟨table.rows, none⟩, .ok ⟨scanned, found.length, scanned - found.length⟩)
      else
        match raises .begin with
        | some failure => (⟨table.rows, none⟩, .error (.driver failure))
        | none => migrateBatch lang raises b table

end Lnpl.Interp.Migrate
