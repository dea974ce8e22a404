import Lnpl.Interp.Conditions
import Lnpl.Lib.Rounding

/-!
# Aggregates

`eval_aggregate` over the rows of a RowSet (`interp.py`), `avg_round` of `money.py`, and
`_decode_money`, the inverse of `encode_money`.  Quotients of `decimal` are rational numbers,
rounded as its default context rounds them.
-/

namespace Lnpl.Interp

open Front (Python AggFunc Aggregate)
open Lib (Rounding.halfEven Rounding.roundTo)

/-- What leaves an aggregate: a `RunError`, or an exception of another class. -/
inductive AggFault where
  | run (message : String)
  | other (cls message : String)
  deriving DecidableEq, Repr

/-! ### Averages -/

/-- The precision of the default context of `decimal`. -/
def decimalPrecision : Nat := 28

/-- `Etiny` of the default context. -/
def decimalTiny : Int := -1000026

/-- `Decimal(total) / Decimal(count)`. -/
def divideDecimals (total count : Int) : Rat :=
  Rounding.roundTo decimalPrecision decimalTiny (total / count)

/-- `quantize(Decimal(1), rounding=ROUND_HALF_EVEN)`; `none` is an `InvalidOperation`. -/
def quantizeOne (q : Rat) : Option Int :=
  if (Rounding.halfEven q).natAbs < 10 ^ decimalPrecision then some (Rounding.halfEven q) else none

/-- `avg_round`. -/
def avgRound (total count : Int) : Except AggFault Int :=
  if count ≤ 0 then
    .error (.other "ValueError" ("avg_round: count must be positive, got " ++ toString count))
  else
    match quantizeOne (divideDecimals total count) with
    | some n => .ok n
    | none => .error (.other "InvalidOperation" "")

/-! ### Money -/

/-- `str(abs(minor))`, with a point in front of the last digits, as many as the exponent says. -/
def decodedDigits (places minor : Nat) : List Char :=
  let digits := Nat.toDigits 10 minor
  if places = 0 then digits
  else
    let digits := List.replicate (places + 1 - digits.length) '0' ++ digits
    digits.take (digits.length - places) ++ '.' :: digits.drop (digits.length - places)

/-- `_decode_money`. -/
def decodeMoney (ops : JsonOps) (minor : Int) (currency : String) : Except MoneyFault Json := do
  let places ← exponent ops (.str currency)
  let amount := (if minor < 0 then ['-'] else []) ++ decodedDigits places minor.natAbs
  return .obj [("amount", .str (String.ofList amount)), ("currency", .str currency)]

/-- What an assignment stores of a value: an amount is decoded. -/
def storedValue (ops : JsonOps) : Quantity → Except MoneyFault Json
  | .number n => .ok (.int n)
  | .money minor currency => decodeMoney ops minor currency

variable (py : Python) (ops : JsonOps)

/-- A `MoneyError` is raised as a `RunError`. -/
def inAggregate {α : Type} (expression : String) : Except MoneyFault α → Except AggFault α
  | .ok a => .ok a
  | .error (.money code message) =>
    .error (.run ("aggregate " ++ py.repr expression ++ ": " ++ code.name ++ " — " ++ message))
  | .error (.value message) => .error (.other "ValueError" message)

/-- `_checked`, in an aggregate. -/
def checkedSum (n : Int) (field expression : String) : Except AggFault Int :=
  match checked py n field expression with
  | .ok n => .ok n
  | .error fault => .error (.run fault.message)

/-- The pair of an amount of money; `verb` is what it is needed for. -/
def moneyPair (verb field expression : String) (value : Json) : Except AggFault Pair :=
  let refused : Except AggFault Pair :=
    .error (.run ("aggregate " ++ py.repr expression ++ ": cannot " ++ verb ++ " non-Money " ++
      field ++ "=" ++ ops.repr value))
  match value with
  | .obj fields =>
    match fields.lookup "amount", fields.lookup "currency" with
    | some amount, some currency => inAggregate py expression (encodeMoney py ops amount currency)
    | _, _ => refused
  | _ => refused

/-- The number of an integer or a boolean; `task` is what it is needed for. -/
def wholeNumber (task field expression : String) : Json → Except AggFault Int
  | .bool b => .ok (if b then 1 else 0)
  | .int n => .ok n
  | value => .error (.run ("aggregate " ++ py.repr expression ++ ": cannot " ++ task ++
      " non-numeric " ++ field ++ "=" ++ ops.repr value))

/-! ### Sums and averages -/

/-- The pairs added to the first. -/
def addAll (expression : String) (first : Pair) (pairs : List Pair) : Except AggFault Pair :=
  pairs.foldlM (fun total pair => inAggregate py expression (addMoney total pair)) first

/-- The values added up, the range checked after each. -/
def addNumbers (func : AggFunc) (field expression : String) (values : List Json) :
    Except AggFault Int :=
  values.foldlM (fun total value => do
    let n ← wholeNumber py ops func.word field expression value
    checkedSum py (total + n) field expression) 0

/-- `_eval_sum_avg`. -/
def evalSumAvg (func : AggFunc) (values : List Json) (field expression : String)
    (aggFieldType : Option String) : Except AggFault Json :=
  match values with
  | [] =>
    if func = .avg then
      .error (.run ("aggregate " ++ py.repr expression ++ ": avg-of-empty-rowset — averaging " ++
        py.repr field ++ " needs at least one row"))
    else if func = .sum ∧ aggFieldType = some "Money" then
      .ok (.obj [("amount", .str "0"), ("currency", .null)])
    else .ok (.int 0)
  | .obj fields :: rest => do
    let first ← moneyPair py ops func.word field expression (.obj fields)
    let pairs ← rest.mapM (moneyPair py ops func.word field expression)
    let (minor, currency) ← addAll py expression first pairs
    let minor ← checkedSum py minor field expression
    let minor ←
      (if func = .avg then avgRound minor (rest.length + 1) else .ok minor : Except AggFault Int)
    inAggregate py expression (decodeMoney ops minor currency)
  | values => do
    let total ← addNumbers py ops func field expression values
    if func = .sum then return .int total
    else return .int (← avgRound total values.length)

/-! ### Least and greatest -/

/-- The comparison puts a value in front of the best. -/
def isBetter (func : AggFunc) (order : Int) : Bool := if func = .min then order < 0 else 0 < order

/-- `(key > best_key) - (key < best_key)`. -/
def compareNumber (a b : Int) : Int := (if b < a then 1 else 0) - (if a < b then 1 else 0)

/-- The first value whose key is the best. -/
def minmaxBy {κ : Type} (func : AggFunc) (key : Json → Except AggFault κ)
    (compare : κ → κ → Except AggFault Int) (first : Json) (rest : List Json) :
    Except AggFault Json := do
  let firstKey ← key first
  let best ← rest.foldlM (fun (best : Json × κ) value => do
    let valueKey ← key value
    let order ← compare valueKey best.2
    return if isBetter func order then (value, valueKey) else best) (first, firstKey)
  return best.1

/-- `_minmax_integer`. -/
def minmaxInteger (func : AggFunc) (first : Json) (rest : List Json) (field expression : String) :
    Except AggFault Json :=
  minmaxBy func (wholeNumber py ops "compare" field expression)
    (fun a b => .ok (compareNumber a b)) first rest

/-- `key_of` in `_minmax_datetime`. -/
def instantKey (field expression : String) : Json → Except AggFault Int
  | .str s =>
    match encodeInstant py s field with
    | .ok ms => .ok ms
    | .error message =>
      .error (.run (message ++ " (in aggregate " ++ py.repr expression ++ ")"))
  | value => .error (.run ("aggregate " ++ py.repr expression ++ ": cannot compare non-DateTime " ++
      field ++ "=" ++ ops.repr value))

/-- `_minmax_datetime`. -/
def minmaxDatetime (func : AggFunc) (first : Json) (rest : List Json) (field expression : String) :
    Except AggFault Json :=
  minmaxBy func (instantKey py ops field expression) (fun a b => .ok (compareNumber a b)) first rest

/-- `_minmax_money`. -/
def minmaxMoney (func : AggFunc) (first : Json) (rest : List Json) (field expression : String) :
    Except AggFault Json :=
  minmaxBy func (moneyPair py ops "compare" field expression)
    (fun a b => inAggregate py expression (compareMoney a b)) first rest

/-- `_eval_minmax`. -/
def evalMinmax (func : AggFunc) (values : List Json) (field expression : String) :
    Except AggFault Json :=
  match values with
  | [] =>
    .error (.run ("aggregate " ++ py.repr expression ++ ": min-max-of-empty-rowset — `" ++
      func.word ++ " " ++ field ++ "` needs at least one row"))
  | .obj fields :: rest => minmaxMoney py ops func (.obj fields) rest field expression
  | .str s :: rest => minmaxDatetime py ops func (.str s) rest field expression
  | first :: rest => minmaxInteger py ops func first rest field expression

/-! ### Rows -/

/-- `agg.ref.namespace or agg.ref.name`. -/
def refBinding (r : Front.Ref) : String :=
  match Front.partitionName r.name with
  | some (binding, _) => if binding = "" then r.name else binding
  | none => r.name

/-- `agg.ref.field`. -/
def refField (r : Front.Ref) : String :=
  match Front.partitionName r.name with
  | some (_, field) => field
  | none => r.name

/-- The value of a row; an optional field may be missing or null. -/
def fieldValue (binding field expression : String) (optional : Bool) (row : Dict) :
    Except AggFault (Option Json) :=
  match row[field]? with
  | some value => if optional && value.isNull then .ok none else .ok (some value)
  | none =>
    if optional then .ok none
    else
      .error (.run ("aggregate " ++ py.repr expression ++ ": a row in the " ++ py.repr binding ++
        " RowSet has no " ++ py.repr field ++ " field"))

/-- The values that an aggregate is taken of. -/
def fieldValues (binding field expression : String) (optional : Bool) :
    List Dict → Except AggFault (List Json)
  | [] => .ok []
  | row :: rows => do
    let value ← fieldValue py binding field expression optional row
    let values ← fieldValues binding field expression optional rows
    return value.toList ++ values

/-- The rows of a RowSet; one that is not bound has none. -/
def rowsOf (rowsets : RowSets) (binding : String) : List Dict := rowsets[binding]?.getD []

/-- `eval_aggregate`. -/
def evalAggregate (agg : Aggregate) (expression : String) (rowsets : RowSets)
    (aggFieldType : Option String) (fieldOptional : Bool) : Except AggFault Json :=
  let rows := rowsOf rowsets (refBinding agg.ref)
  if agg.func = .count then .ok (.int rows.length)
  else do
    let values ←
      fieldValues py (refBinding agg.ref) (refField agg.ref) expression fieldOptional rows
    if agg.func = .sum ∨ agg.func = .avg then
      evalSumAvg py ops agg.func values (refField agg.ref) expression aggFieldType
    else evalMinmax py ops agg.func values (refField agg.ref) expression

end Lnpl.Interp
