import Lnpl.Lib.Tables
import Lnpl.Interp.RepoPolicy

/-!
# The in-memory drivers

`FakeRepository`, `FakeCache` and `FakeNetworkDriver`, which an `Interpreter` that is given no other
drivers runs on.  A row that is handed out is a copy of the stored one here: the interpreter writes
every assignment back under the key of its row.
-/

namespace Lnpl.Interp

open Lnpl.Lib (Tables)

/-! ### `FakeRepository` -/

/-- The tables of a `FakeRepository`, and the copy that `begin` has taken. -/
structure FakeRows where
  rows : Tables String String Dict
  snapshot : Option (Tables String String Dict) := none

/-- `{"affected": count}`. -/
def affectedRows (count : Nat) : Found := .dict { data := (∅ : Dict).insert "affected" (.int count) }

namespace FakeRows

/-- `begin`. -/
def begin (F : FakeRows) : Except Exc FakeRows :=
  if F.snapshot.isSome then
    .error (.run { message := "begin() called while a transaction is already open" })
  else .ok { F with snapshot := some F.rows }

/-- `rollback`. -/
def rollback (F : FakeRows) : FakeRows :=
  match F.snapshot with
  | none => F
  | some rows => { rows := rows }

/-- `execute`. -/
def execute (F : FakeRows) (entity : String) (op : Operation) (key : String) :
    Except Exc (Found × FakeRows) :=
  let row := F.rows.get entity key
  match op with
  | .read =>
    match row with
    | none => .ok (.none, F)
    | some data => .ok (.dict { data := data }, F)
  | .create =>
    if row.isSome then
      .error (.run {
        message := "repository create conflicts: " ++ entity ++ " already exists"
        failureKind := some "conflict" })
    else
      let skeleton := (∅ : Dict).insert "id" (.str key)
      .ok (affectedRows 1, { F with rows := F.rows.set entity key skeleton })
  | .update => .ok (affectedRows (if row.isSome then 1 else 0), F)
  | .delete =>
    .ok (affectedRows (if row.isSome then 1 else 0), { F with rows := F.rows.erase entity key })

/-- The rows of one table, in the order of their keys. -/
def query (F : FakeRows) (entity : String) : List Dict := (F.rows.itemsOf entity).map Prod.snd

/-- `persist`. -/
def persist (F : FakeRows) (entity key : String) (row : Stored) : FakeRows :=
  { F with rows := F.rows.set entity key row.data }

end FakeRows

/-- `FakeRepository`. -/
def Repo.fake (lang : Lang) : Repo FakeRows where
  isFake := true
  begin := fun F =>
    match F.begin with
    | .ok F => .ok () F
    | .error e => .error e F
  commit := modify fun F => { F with snapshot := none }
  rollback := modify FakeRows.rollback
  execute entity op key := fun F =>
    match F.execute entity op key with
    | .ok (found, F) => .ok found F
    | .error e => .error e F
  query entity := fun F => .ok (F.query entity) F
  queryPredicate := some fun entity predicate order limit F =>
    match applyPredicate lang (F.query entity) predicate order limit with
    | .ok rows => .ok rows F
    | .error e => .error e F
  persist entity key row := do
    modify fun F => F.persist entity key row
    return row
  recordEmission _ := pure ()

/-! ### `FakeCache` -/

/-- The entries of a `FakeCache`, each with the time it expires at, and its counters. -/
structure FakeStore where
  store : Std.ExtTreeMap String (Stored × Nat) := ∅
  hits : Nat := 0
  misses : Nat := 0

namespace FakeStore

/-- `get`. -/
def get (S : FakeStore) (now : Nat) (key : String) : Option Stored × FakeStore :=
  match S.store[key]? with
  | some (row, expires) =>
    if expires ≤ now then (none, { S with misses := S.misses + 1 })
    else (some row, { S with hits := S.hits + 1 })
  | none => (none, { S with misses := S.misses + 1 })

end FakeStore

/-- `FakeCache`. -/
def Cache.fake : Cache FakeStore where
  get now key := fun S => .ok (S.get now key).1 (S.get now key).2
  set now key row ttl := fun S =>
    match ttl with
    | none => .error (.run { message := "CacheAccess set without a TTL budget (RFC-0003 requires " ++
        "every cache key to carry a TTL)" }) S
    | some ms => .ok () { S with store := S.store.insert key (row, now + ms) }
  invalidate key := modify fun S => { S with store := S.store.erase key }

/-! ### `FakeNetworkDriver` -/

/-- `FakeNetworkDriver`, with its answer to a call of each target. -/
def Network.fake (answer : String → Int × Dict) : Network Unit where
  call request _ :=
    let (status, body) := answer request.target
    pure (status, .obj body.toList)

end Lnpl.Interp
