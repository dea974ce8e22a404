import Lnpl.Interp.Runtime

/-!
# Row keys and predicates

The key a row lives under, and the filter, sort and limit that the interpreter applies itself for
a driver that does not declare `supports_predicate`.
-/

namespace Lnpl.Interp

/-! ### Row keys -/

/-- `row_key(entity_id, {"id": value})`. -/
def rowKeyOf (lang : Lang) (entity : String) (value : Json) : String :=
  entity ++ "#" ++ lang.str value

/-- `str(payload.get("id", "-"))`. -/
def idText (lang : Lang) (payload : Dict) : String :=
  match payload["id"]? with
  | none => "-"
  | some v => lang.str v

/-- `row_key(entity_id, payload)`. -/
def rowKey (lang : Lang) (entity : String) (payload : Dict) : String :=
  entity ++ "#" ++ idText lang payload

/-- `_resolve_lookup_key`. -/
def resolveLookupKey (lang : Lang) (entity : String) (lookup : Option Ref) (scope : Scope) :
    Except Exc String :=
  match lookup with
  | none => .ok (rowKey lang entity scope.payload)
  | some ref =>
    let value := resolveReference ref scope
    if value.isNull then
      .error (.run { message := "repository " ++ entity ++ ": lookup key " ++ lang.repr ref.text ++
        " resolved to no value" })
    else .ok (rowKeyOf lang entity value)

/-! ### Predicates -/

/-- `_PREDICATE_OPS[op](a, b)`. -/
def predicateOp (lang : Lang) (op : String) (a b : Json) : Except Exc Bool :=
  match op with
  | "==" => .ok (lang.eq a b)
  | "!=" => .ok (!lang.eq a b)
  | "<" => lang.lt a b
  | "<=" => lang.le a b
  | ">" => lang.lt b a
  | ">=" => lang.le b a
  | _ => .error (.other "KeyError")

/-- `_row_matches`. -/
def rowMatches (lang : Lang) (row : Dict) : List (String × String × Json) → Except Exc Bool
  | [] => .ok true
  | (field, op, value) :: predicate => do
    let actual := Dict.get row field
    if actual.isNull || value.isNull then return false
    if !(← predicateOp lang op actual value) then return false
    rowMatches lang row predicate

/-- The rows that match, in order. -/
def filterRows (lang : Lang) (predicate : List (String × String × Json)) :
    List Dict → Except Exc (List Dict)
  | [] => .ok []
  | row :: rows => do
    let holds ← rowMatches lang row predicate
    let rest ← filterRows lang predicate rows
    return if holds then row :: rest else rest

/-- A row inserted behind the rows it is not less than. -/
def insertRow (lt : Json → Json → Except Exc Bool) (field : String) (row : Dict) :
    List Dict → Except Exc (List Dict)
  | [] => .ok [row]
  | other :: rows => do
    if ← lt (Dict.get row field) (Dict.get other field) then return row :: other :: rows
    return other :: (← insertRow lt field row rows)

/-- `sorted(rows, key=.., reverse=desc)`, which is stable either way. -/
def sortRows (lang : Lang) (order : Order) (rows : List Dict) : Except Exc (List Dict) :=
  let lt := if order.desc then fun a b => lang.lt b a else lang.lt
  rows.foldlM (fun sorted row => insertRow lt order.field row sorted) []

/-- The rows in the order of the clause: a row without the field comes last, ascending and
descending alike. -/
def orderRows (lang : Lang) (order : Order) (rows : List Dict) : Except Exc (List Dict) := do
  let present := rows.filter fun row => !(Dict.get row order.field).isNull
  let missing := rows.filter fun row => (Dict.get row order.field).isNull
  return (← sortRows lang order present) ++ missing

/-- `apply_predicate`. -/
def applyPredicate (lang : Lang) (rows : List Dict)
    (predicate : Option (List (String × String × Json))) (order : Option Order)
    (limit : Option Nat) : Except Exc (List Dict) := do
  let rows ← match predicate with
    | none => .ok rows
    | some predicate => filterRows lang predicate rows
  let rows ← match order with
    | none => .ok rows
    | some order => orderRows lang order rows
  return match limit with
    | none => rows
    | some limit => rows.take limit

end Lnpl.Interp
