import Lnpl.Drivers.Repository
import Lnpl.Drivers.Sqlite

/-!
# `SqliteRepositoryDriver`

The file-backed driver on its one connection, nothing else writing.  A read hands out a detached
row with the version it observed.  The payload of a row is kept decoded: JSON text of a flat row
decodes to that row.
-/

namespace Lnpl.Drivers.Repository

open Lnpl.Drivers.Sqlite

/-- A row object of the caller: a `_VersionedRow`, or a built one without `observed_version`. -/
structure VersionedRow where
  entity : String
  key : String
  row : Dict
  observedVersion : Option Nat

/-- The driver, with the row objects the caller holds.  `view` is the literal SQL transaction;
`boundRows` is `_bound_rows`, by position in `held`. -/
structure SqliteDriver where
  committed : Rows String String Dict Unit
  view : Option (Rows String String Dict Unit)
  inTransaction : Bool
  held : List VersionedRow
  boundRows : String → String → Option Nat

/-- What `json_extract` gives. -/
inductive SqlValue where
  | null
  | integer (n : Int)
  | text (s : String)
deriving DecidableEq, Repr

/-- `json_extract(payload, '$.field')` by the value of the field. -/
def Value.sql : Value → SqlValue
  | .null => .null
  | .int n => .integer n
  | .bool b => .integer b.toInt
  | .text s => .text s

namespace SqlValue

/-- sqlite orders NULL before INTEGER before TEXT. -/
def storageClass : SqlValue → Nat
  | .null => 0
  | .integer _ => 1
  | .text _ => 2

def number : SqlValue → Int
  | .integer n => n
  | _ => 0

def string : SqlValue → String
  | .text s => s
  | _ => ""

end SqlValue

namespace SqliteDriver

/-- A store holding `T`, payloads and versions. -/
def init (T : Lnpl.Lib.Tables String String (Dict × Nat)) : SqliteDriver where
  committed := T.map fun _ _ r => { payload := r.1, version := r.2, born := () }
  view := none
  inTransaction := false
  held := []
  boundRows := fun _ _ => none

/-- The rows a statement works on. -/
def visible (S : SqliteDriver) : Rows String String Dict Unit := S.view.getD S.committed

/-- The stored rows, as a statement sees them. -/
def tables (S : SqliteDriver) : Tables := S.visible.map fun _ _ row => row.payload

/-- `_ensure_sql_transaction`, the write, and `_end_write`. -/
def write (S : SqliteDriver) (R : Rows String String Dict Unit) : SqliteDriver :=
  if S.inTransaction then { S with view := some R } else { S with committed := R }

/-- `ORDER BY (json_extract(payload, ?) IS NULL), json_extract(payload, ?), row_key`. -/
def sortedCmp (field : String) : String × Dict → String × Dict → Ordering :=
  compareLex (compareOn fun p => (decide ((p.2.value field).sql = .null)).toNat)
    (compareLex (compareOn fun p => (p.2.value field).sql.storageClass)
      (compareLex (compareOn fun p => (p.2.value field).sql.number)
        (compareLex (compareOn fun p => (p.2.value field).sql.string)
          (compareOn Prod.fst))))

/-- `query_sorted` on the rows of one table in key order. -/
def querySorted (items : List (String × Dict)) (field : String) : Answer :=
  .rows ((items.mergeSort fun p q => (sortedCmp field p q).isLE).map Prod.snd)

/-- A row object with its `observed_version` advanced, if it has one. -/
def advance (b : VersionedRow) : VersionedRow :=
  { b with observedVersion := b.observedVersion.map (· + 1) }

/-- One call. -/
def call (S : SqliteDriver) : Call → SqliteDriver × Answer
  | .begin =>
    if S.inTransaction then (S, .failed .unspecified)
    else ({ S with inTransaction := true }, .done)
  | .read e k =>
    match selectRow S.visible e k with
    | none => (S, .row none)
    | some row =>
      let b : VersionedRow :=
        { entity := e, key := k, row := row.payload, observedVersion := some row.version }
      ({ S with
          held := S.held ++ [b]
          boundRows := fun e' k' =>
            if e' = e ∧ k' = k then some S.held.length else S.boundRows e' k' },
        .row (some row.payload))
  | .create e k row =>
    match insertRow S.visible e k (idRow k) () with
    | none => (S.write S.visible, .failed .conflict)
    | some R =>
      let b : VersionedRow := { entity := e, key := k, row := row, observedVersion := none }
      ({ S.write R with held := S.held ++ [b] }, .affected 1)
  | .update e k =>
    let payload := ((selectRow S.visible e k).map Row.payload).getD (idRow k)
    match updateRow S.visible e k payload with
    | (R, 0) => (S.write R, .affected 0)
    | (R, n + 1) =>
      match S.boundRows e k with
      | none => (S.write R, .affected (n + 1))
      | some j => ({ S.write R with held := S.held.modify j advance }, .affected (n + 1))
  | .delete e k =>
    match deleteRow S.visible e k with
    | (R, n) => (S.write R, .affected n)
  | .persist i fields =>
    match S.held[i]? with
    | none => (S, .notHeld)
    | some b =>
      let b := { b with row := b.row.assign fields }
      match b.observedVersion with
      | none =>
        ({ S.write (updateRow S.visible b.entity b.key b.row).1 with held := S.held.set i b }, .done)
      | some version =>
        match updateRowVersioned S.visible b.entity b.key b.row version with
        | (R, 0) => ({ S.write R with held := S.held.set i b }, .failed .writeConflict)
        | (R, _ + 1) => ({ S.write R with held := S.held.set i (advance b) }, .done)
  | .query e => (S, .rows ((S.tables.itemsOf e).map Prod.snd))
  | .querySorted e field => (S, querySorted (S.tables.itemsOf e) field)
  | .commit =>
    ({ S with committed := S.visible, view := none, inTransaction := false }, .done)
  | .rollback => ({ S with view := none, inTransaction := false }, .done)

end SqliteDriver

end Lnpl.Drivers.Repository

/-!
## `SqliteRepositoryDriver.query`

`list where`, `order by` and `limit` pushed down to SQL.
-/

namespace Lnpl.Drivers.Repository

/-- A comparator of the condition language. -/
inductive Comparator where
  | eq
  | ne
  | lt
  | le
  | gt
  | ge
deriving DecidableEq, Repr

namespace Comparator

/-- The text of the comparator. -/
def symbol : Comparator → String
  | eq => "=="
  | ne => "!="
  | lt => "<"
  | le => "<="
  | gt => ">"
  | ge => ">="

/-- Whether two values that compare so are accepted. -/
def accepts : Comparator → Ordering → Bool
  | eq, o => o = .eq
  | ne, o => o ≠ .eq
  | lt, o => o = .lt
  | le, o => o ≠ .gt
  | gt, o => o = .gt
  | ge, o => o ≠ .lt

/-- One of `<`, `<=`, `>` and `>=`. -/
def ordering : Comparator → Bool
  | eq | ne => false
  | lt | le | gt | ge => true

end Comparator

/-- One term of a conjunction, its right side resolved. -/
structure QueryTerm where
  field : String
  op : Comparator
  value : Value
deriving DecidableEq, Repr

/-- Two values that are not NULL: by storage class, then by value. -/
def SqlValue.cmp : SqlValue → SqlValue → Ordering :=
  compareLex (compareOn storageClass) (compareLex (compareOn number) (compareOn string))

/-- `a op b`, which is NULL when a side is. -/
def Comparator.sql (op : Comparator) (a b : SqlValue) : Option Bool :=
  if a = .null ∨ b = .null then none else some (op.accepts (a.cmp b))

/-- `json_extract(payload, ?) op ?` is true. -/
def QueryTerm.holds (t : QueryTerm) (row : Dict) : Bool :=
  t.op.sql (row.value t.field).sql t.value.sql = some true

namespace SqliteDriver

/-- The values of a column, `DESC` or not. -/
def valueCmp (field : String) (desc : Bool) (p q : String × Dict) : Ordering :=
  let a := (p.2.value field).sql
  let b := (q.2.value field).sql
  if desc then b.cmp a else a.cmp b

/-- `ORDER BY (json_extract(payload, ?) IS NULL), json_extract(payload, ?) [DESC], row_key`, or
`ORDER BY row_key`. -/
def orderCmp : Option (String × Bool) → String × Dict → String × Dict → Ordering
  | none => compareOn Prod.fst
  | some (field, desc) =>
    compareLex (compareOn fun p => (decide ((p.2.value field).sql = .null)).toNat)
      (compareLex (valueCmp field desc) (compareOn Prod.fst))

/-- `query` on the rows of one table. -/
def query (items : List (String × Dict)) (predicate : Option (List QueryTerm))
    (order : Option (String × Bool)) (limit : Option Nat) : List Dict :=
  let found := items.filter fun p => (predicate.getD []).all fun t => t.holds p.2
  let found := found.mergeSort fun p q => (orderCmp order p q).isLE
  let found := match limit with
    | none => found
    | some limit => found.take limit
  found.map Prod.snd

end SqliteDriver

end Lnpl.Drivers.Repository
