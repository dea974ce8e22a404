import Lnpl.Drivers.SqliteRepositoryDriver
import Lnpl.Interp.Effects

/-!
# The three paths of a query

`FakeRepository.query`, and what it takes for the query that is applied in Python to be the one
that is pushed down to SQL.
-/

namespace Lnpl.Drivers.Repository

open Lnpl.Interp (Exc Json Lang Order applyPredicate)

/-- The value as JSON. -/
def Value.json : Value → Json
  | .null => .null
  | .int n => .int n
  | .bool b => .bool b
  | .text s => .str s

/-- The row as the interpreter sees it. -/
def Dict.json (row : Dict) : Interp.Dict := row.map fun _ v => v.json

/-- The rows of one table in key order, as the interpreter sees them. -/
def jsonRows (items : List (String × Dict)) : List Interp.Dict := items.map fun p => p.2.json

/-- The term as `apply_predicate` takes it. -/
def QueryTerm.resolved (t : QueryTerm) : String × String × Json :=
  (t.field, t.op.symbol, t.value.json)

/-- `FakeRepository.query` on the rows of one table in key order. -/
def Fake.query (lang : Lang) (items : List (String × Dict)) (predicate : Option (List QueryTerm))
    (order : Option Order) (limit : Option Nat) : Except Exc (List Interp.Dict) :=
  if predicate.isNone && order.isNone && limit.isNone then .ok (jsonRows items)
  else applyPredicate lang (jsonRows items) (predicate.map (List.map QueryTerm.resolved)) order limit

/-- Every term with `<`, `<=`, `>` or `>=` that a row reaches compares values of one storage
class. -/
def TermsCompare (row : Dict) : List QueryTerm → Prop
  | [] => True
  | t :: predicate =>
    (t.op.ordering → row.value t.field ≠ .null → t.value ≠ .null →
      (row.value t.field).sql.storageClass = t.value.sql.storageClass) ∧
    (t.holds row → TermsCompare row predicate)

/-- The rows that match have values of one storage class in the field, or none. -/
def OrderCompares (items : List (String × Dict)) (predicate : List QueryTerm) (field : String) :
    Prop :=
  ∀ p ∈ items, ∀ q ∈ items, predicate.all (·.holds p.2) → predicate.all (·.holds q.2) →
    p.2.value field ≠ .null → q.2.value field ≠ .null →
      (p.2.value field).sql.storageClass = (q.2.value field).sql.storageClass

/-- What the query compares is of one storage class: numbers and booleans, or texts. -/
structure Compares (items : List (String × Dict)) (predicate : Option (List QueryTerm))
    (order : Option Order) : Prop where
  terms : ∀ p ∈ items, TermsCompare p.2 (predicate.getD [])
  order : ∀ o ∈ order, OrderCompares items (predicate.getD []) o.field

end Lnpl.Drivers.Repository

namespace Lnpl.Interp

open Lnpl.Drivers.Repository

/-- Python's `a < b`. -/
def pythonLt (a b : Value) : Except Exc Bool :=
  match Fake.lt? a b with
  | some less => .ok less
  | none => .error (.other "TypeError")

/-- Python's `a == b`. -/
def pythonEq : Value → Value → Bool
  | .null, .null => true
  | .int a, .int b => a = b
  | .int a, .bool b => a = b.toInt
  | .bool a, .int b => a.toInt = b
  | .bool a, .bool b => a = b
  | .text a, .text b => a = b
  | _, _ => false

/-- The comparisons are Python's. -/
structure Lang.ComparesAsPython (lang : Lang) : Prop where
  lt : ∀ a b : Value, lang.lt a.json b.json = pythonLt a b
  le : ∀ a b : Value, lang.le a.json b.json = (pythonLt b a).map not
  eq : ∀ a b : Value, lang.eq a.json b.json = pythonEq a b

/-- The order clause as the drivers take it. -/
def Order.pair (order : Order) : String × Bool := (order.field, order.desc)

/-- The query of a table, in memory and applied to the rows of a driver that does not push it
down, gives the rows that SQL gives.  None of them raises. -/
def QueriesAgree {ρ χ ν : Type} (rt : Runtime ρ χ ν) (s : Exec ρ χ ν) (entity : String)
    (items : List (String × Drivers.Repository.Dict)) (predicate : Option (List QueryTerm))
    (order : Option Order) (limit : Option Nat) : Prop :=
  let rows := (SqliteDriver.query items predicate (order.map Order.pair) limit).map
    Drivers.Repository.Dict.json
  Fake.query rt.lang items predicate order limit = .ok rows ∧
    ∃ s', queryRows rt entity (predicate.map (List.map QueryTerm.resolved)) order limit s =
      .ok rows s'

end Lnpl.Interp
