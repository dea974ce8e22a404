import Mathlib.Logic.Function.Basic
import Lnpl.Lib.Tables

/-!
# The repository contract

The calls a run makes on a `RepositoryDriver`, and their answers.  A row is a dict of flat values.
The caller keeps the row objects it was given: `persist i fields` assigns `fields` in the `i`-th
of them and persists it under the entity and key it was read or created under.
-/

namespace Lnpl.Drivers.Repository

open Lnpl.Lib

/-- A field value: null, a 64-bit integer, a boolean or text. -/
inductive Value where
  | null
  | int (n : Int)
  | bool (b : Bool)
  | text (s : String)
deriving DecidableEq, Repr

/-- A row. -/
abbrev Dict := Std.ExtTreeMap String Value

/-- `{"id": key}`. -/
def idRow (key : String) : Dict := (∅ : Dict).insert "id" (.text key)

/-- `row[field] = value` for each of the fields. -/
def Dict.assign (row : Dict) (fields : List (String × Value)) : Dict :=
  fields.foldl (fun d p => d.insert p.1 p.2) row

/-- `row.get(field)`, with null for a missing field. -/
def Dict.value (row : Dict) (field : String) : Value := row[field]?.getD .null

/-- One call.  `create` is `execute(e, "create", k)`; when it succeeds the caller builds `row`. -/
inductive Call where
  | begin
  | read (entity key : String)
  | create (entity key : String) (row : Dict)
  | update (entity key : String)
  | delete (entity key : String)
  | persist (i : Nat) (fields : List (String × Value))
  | query (entity : String)
  | querySorted (entity field : String)
  | commit
  | rollback

/-- How a call fails: the `failure_kind` of its error, or a Python error. -/
inductive Failure where
  /-- an error without `failure_kind` -/
  | unspecified
  | conflict
  | writeConflict
  | typeError
deriving DecidableEq, Repr

inductive Answer where
  | done
  | row (found : Option Dict)
  | affected (n : Nat)
  | rows (found : List Dict)
  | failed (failure : Failure)
  /-- the caller holds no such row object, and made no call -/
  | notHeld

/-- The tables as lookups of rows. -/
abbrev Tables := Lnpl.Lib.Tables String String Dict

end Lnpl.Drivers.Repository

/-!
## `FakeRepository`

The in-memory driver.  Its tables hold the dicts themselves, so a read hands out the stored object
and an assignment through it is at once an assignment in the table.  `heap` gives the contents of
the objects; `gen` counts the objects made, so that a new one is none of the old ones.
-/

namespace Lnpl.Drivers.Repository

/-- A dict object, made for the row under a key. -/
structure Obj where
  gen : Nat
  entity : String
  key : String
deriving DecidableEq, Repr

/-- `FakeRepository`, with the row objects the caller holds. -/
structure Fake where
  rows : Lnpl.Lib.Tables String String Obj
  heap : Obj → Dict
  snapshot : Option Tables
  gen : Nat
  held : List Obj

namespace Fake

/-- The stored rows. -/
def tables (F : Fake) : Tables := F.rows.map fun _ _ o => F.heap o

/-- The objects of a copy of `T`. -/
def copyOf (gen : Nat) (T : Tables) : Lnpl.Lib.Tables String String Obj :=
  T.map fun e k _ => { gen := gen, entity := e, key := k }

/-- The contents after `T` was copied. -/
def heapOf (gen : Nat) (T : Tables) (heap : Obj → Dict) (o : Obj) : Dict :=
  if o.gen = gen then (T.get o.entity o.key).getD ∅ else heap o

/-- `FakeRepository(rows)`. -/
def init (T : Tables) : Fake where
  rows := copyOf 0 T
  heap := heapOf 0 T fun _ => ∅
  snapshot := none
  gen := 1
  held := []

/-- Python's `a < b` on field values, `none` for the `TypeError`. -/
def lt? : Value → Value → Option Bool
  | .int a, .int b => some (a < b)
  | .int a, .bool b => some (a < b.toInt)
  | .bool a, .int b => some (a.toInt < b)
  | .bool a, .bool b => some (a.toInt < b.toInt)
  | .text a, .text b => some (a < b)
  | _, _ => none

/-- `(a, k) <= (b, k')` as `sorted` decides it, where the comparison is defined. -/
def keyLe (field : String) (p q : String × Dict) : Bool :=
  match lt? (p.2.value field) (q.2.value field), lt? (q.2.value field) (p.2.value field) with
  | some true, _ => true
  | _, some true => false
  | _, _ => p.1 ≤ q.1

/-- `sorted(present, key=...)` raises a `TypeError`. -/
def incomparable (field : String) (present : List (String × Dict)) : Bool :=
  present.any fun p => present.any fun q => (lt? (p.2.value field) (q.2.value field)).isNone

/-- `query_sorted` on the rows of one table in key order. -/
def querySorted (items : List (String × Dict)) (field : String) : Answer :=
  let present := items.filter fun p => p.2.value field ≠ .null
  let missing := items.filter fun p => p.2.value field = .null
  if incomparable field present then .failed .typeError
  else .rows ((present.mergeSort (keyLe field) ++ missing).map Prod.snd)

/-- One call. -/
def call (F : Fake) : Call → Fake × Answer
  | .begin =>
    match F.snapshot with
    | some _ => (F, .failed .unspecified)
    | none => ({ F with snapshot := some F.tables }, .done)
  | .read e k =>
    match F.rows.get e k with
    | some o => ({ F with held := F.held ++ [o] }, .row (some (F.heap o)))
    | none => (F, .row none)
  | .create e k row =>
    match F.rows.get e k with
    | some _ => (F, .failed .conflict)
    | none =>
      let stored : Obj := { gen := F.gen, entity := e, key := k }
      let built : Obj := { gen := F.gen + 1, entity := e, key := k }
      let heap := Function.update (Function.update F.heap stored (idRow k)) built row
      ({ F with rows := F.rows.set e k stored, heap := heap, gen := F.gen + 2,
                held := F.held ++ [built] }, .affected 1)
  | .update e k => (F, .affected (if (F.rows.get e k).isSome then 1 else 0))
  | .delete e k =>
    match F.rows.get e k with
    | some _ => ({ F with rows := F.rows.erase e k }, .affected 1)
    | none => (F, .affected 0)
  | .persist i fields =>
    match F.held[i]? with
    | none => (F, .notHeld)
    | some o =>
      ({ F with heap := Function.update F.heap o ((F.heap o).assign fields)
                rows := F.rows.set o.entity o.key o }, .done)
  | .query e => (F, .rows ((F.tables.itemsOf e).map Prod.snd))
  | .querySorted e field => (F, querySorted (F.tables.itemsOf e) field)
  | .commit => ({ F with snapshot := none }, .done)
  | .rollback =>
    match F.snapshot with
    | none => (F, .done)
    | some T =>
      ({ F with rows := copyOf F.gen T, heap := heapOf F.gen T F.heap, gen := F.gen + 1,
                snapshot := none }, .done)

end Fake

end Lnpl.Drivers.Repository
