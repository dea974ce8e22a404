import Lnpl.Front.Condition
import Lnpl.Interp.Instants
import Lnpl.Lib.Placeholders

/-!
# Evaluating conditions and values

`_condition_holds` and `eval_value` in the scope of a run.  A value is a 64-bit number, an instant
being one of milliseconds, or an amount of money; a text equality compares the values as they are.
What a skip record collects of the terms is not kept.
-/

namespace Lnpl.Interp

open Front (Python)

/-! ### Faults -/

/-- Why an evaluation stops. -/
inductive Cause where
  /-- past the 64-bit range -/
  | range
  | zeroDivisor
  /-- a timestamp that `encode_instant` refuses -/
  | instant
  /-- a `MoneyError` -/
  | money (code : MoneyCode)
  /-- an amount of more digits than `int` converts -/
  | digits
  /-- no number, instant or amount -/
  | nonNumeric
  /-- an amount with a number, or two amounts multiplied or divided -/
  | mixed
  /-- a text equality with what is no reference -/
  | notText
  /-- a text that does not parse -/
  | unparsed
  deriving DecidableEq, Repr

/-- What leaves an evaluation: a `RunError`, or an exception of a parser or of `int`. -/
structure EvalFault where
  cause : Cause
  message : String
  deriving DecidableEq, Repr

/-- A `MoneyError` is raised as a `RunError`. -/
def ofMoney (py : Python) (condition : String) : MoneyFault → EvalFault
  | .money code message =>
    ⟨.money code, message ++ " (" ++ code.name ++ ") in " ++ py.repr condition⟩
  | .value message => ⟨.digits, message⟩

/-! ### Operands -/

/-- What an operand evaluates to. -/
inductive Quantity where
  | number (n : Int)
  | money (minor : Int) (currency : String)
  deriving DecidableEq, Repr

/-- `_checked`. -/
def checked (py : Python) (n : Int) (name condition : String) : Except EvalFault Int :=
  if n < int64Min ∨ int64Max < n then
    .error ⟨.range, "value out of the 64-bit range: " ++ name ++ " = " ++ toString n ++ " (in " ++
      py.repr condition ++ ")"⟩
  else .ok n

/-- `int(text)`; `none` is a `ValueError`. -/
def intText (py : Python) (text : String) : Option Int :=
  let (negative, body) := splitSign (stripSpace text.toList)
  let groups := body.splitOn '_'
  if groups.any List.isEmpty || Front.intMaxStrDigits < (body.filter (· ≠ '_')).length then none
  else (py.decimals groups.flatten 0).map fun n => if negative then -(n : Int) else n

/-- A reference of the scope. -/
def refOf (name : String) : Ref :=
  match Front.partitionName name with
  | some (binding, field) => .qualified binding field
  | none => .bare name

variable (py : Python) (ops : JsonOps)

/-- `eval_value` of a reference that resolves to `raw`, which is not `None`. -/
def evalRaw (name condition : String) (raw : Json) : Except EvalFault Quantity :=
  let nonNumeric : Except EvalFault Quantity :=
    .error ⟨.nonNumeric, "Cannot compare non-numeric " ++ name ++ "=" ++ ops.repr raw ++
      " in condition " ++ py.repr condition⟩
  match raw with
  | .bool b => .ok (.number (if b then 1 else 0))
  | .int n => .number <$> checked py n name condition
  | .str s =>
    if isInstantText py s || looksLikeInstant py s then
      match encodeInstant py s name with
      | .ok ms => .number <$> checked py ms name condition
      | .error e => .error ⟨.instant, e ++ " (in condition " ++ py.repr condition ++ ")"⟩
    else
      match intText py s with
      | some n => .number <$> checked py n name condition
      | none => nonNumeric
  | .obj fields =>
    match fields.lookup "amount", fields.lookup "currency" with
    | some amount, some currency =>
      match encodeMoney py ops amount currency with
      | .ok (minor, code) => .ok (.money minor code)
      | .error e =>
        let fault := ofMoney py condition e
        match e with
        | .money code message =>
          .error { fault with
            message := message ++ " (" ++ code.name ++ ") in condition " ++ py.repr condition }
        | .value _ => .error fault
    | _, _ => nonNumeric
  | _ => nonNumeric

/-- `eval_value` of an operand; `none` is a reference that resolves to nothing. -/
def evalOperand (condition : String) (scope : Scope) : Front.Operand →
    Except EvalFault (Option Quantity)
  | .lit l => .ok (some (.number l.value))
  | .ref r =>
    match resolveReference (refOf r.name) scope with
    | .null => .ok none
    | raw => some <$> evalRaw py ops r.name condition raw

/-! ### Arithmetic -/

/-- What `money.py` raises, in a condition. -/
def inCondition {α : Type} (condition : String) : Except MoneyFault α → Except EvalFault α
  | .ok a => .ok a
  | .error e => .error (ofMoney py condition e)

/-- The text of an arithmetic value, and of the condition it is in. -/
def shownIn (a : Front.Arith) (condition : String) : String :=
  (Front.Value.arith a).toText ++ " (in " ++ py.repr condition ++ ")"

/-- `_eval_money_arith`. -/
def evalMoneyArith (a : Front.Arith) (left right : Quantity) (condition : String) :
    Except EvalFault Quantity := do
  let (minor, currency) ←
    match left, right with
    | .money m c, .money m' c' =>
      match a.op with
      | .add => inCondition py condition (addMoney (m, c) (m', c'))
      | .sub => inCondition py condition (subMoney (m, c) (m', c'))
      | op => .error ⟨.mixed, "cannot " ++ (if op = .mul then "multiply" else "divide") ++
          " two Money values: " ++ shownIn py a condition⟩
    | .money m c, .number n | .number n, .money m c =>
      if a.op = .mul then inCondition py condition (mulMoney (m, c) n)
      else .error ⟨.mixed, "cannot combine a Money value and a plain number with " ++
        py.repr a.op.word ++ ": " ++ shownIn py a condition⟩
    -- not called with two numbers
    | .number _, .number _ => .error ⟨.mixed, ""⟩
  let minor ← checked py minor (Front.Value.arith a).toText condition
  return .money minor currency

/-- The arithmetic of `eval_value` on two numbers; a division truncates. -/
def evalArith (a : Front.Arith) (left right : Int) (condition : String) : Except EvalFault Int :=
  let inRange (n : Int) : Except EvalFault Int :=
    checked py n (Front.Value.arith a).toText condition
  match a.op with
  | .add => inRange (left + right)
  | .sub => inRange (left - right)
  | .mul => inRange (left * right)
  | .div =>
    if right = 0 then .error ⟨.zeroDivisor, "division by zero: " ++ shownIn py a condition⟩
    else inRange (left.tdiv right)

/-- `eval_value`. -/
def evalValue (condition : String) (scope : Scope) : Front.Value →
    Except EvalFault (Option Quantity)
  | .operand o => evalOperand py ops condition scope o
  | .arith a => do
    let left ← evalOperand py ops condition scope a.left
    let right ← evalOperand py ops condition scope a.right
    match left, right with
    | some (.number l), some (.number r) =>
      return some (.number (← evalArith py a l r condition))
    | some l, some r => return some (← evalMoneyArith py a l r condition)
    | _, _ => return none

/-! ### Terms -/

/-- A comparator of two numbers. -/
def compareNumbers (op : Front.Comparator) (left right : Int) : Bool :=
  match op with
  | .lt => left < right
  | .le => left ≤ right
  | .gt => left > right
  | .ge => left ≥ right
  | .eq => left = right
  | .ne => left ≠ right

/-- `_is_text_term` of a guard: an equality with an operand that lowering has recorded. -/
def isTextTerm (names : List String) (t : Front.Comparison) : Bool :=
  (t.op = .eq || t.op = .ne) && [t.left, t.right].any fun
    | .operand (.ref r) => names.contains r.name
    | _ => false

/-- One side of a text equality. -/
def textOf (condition : String) (scope : Scope) : Front.Value → Except EvalFault Json
  | .operand (.ref r) =>
    match refOf r.name with
    -- a bare name is its own text
    | .bare name => .ok (.str name)
    | ref => .ok (resolveReference ref scope)
  | v => .error ⟨.notText, py.repr condition ++ " compares a Text-family field with " ++ v.toText ++
      ", which is not text (RFC-0054)"⟩

/-- `_text_comparison_holds`. -/
def textComparisonHolds (condition : String) (scope : Scope) (t : Front.Comparison) :
    Except EvalFault Bool := do
  let left ← textOf py condition scope t.left
  let right ← textOf py condition scope t.right
  return !left.isNull && !right.isNull && (ops.eq left right == decide (t.op = .eq))

/-- `_comparison_holds`. -/
def comparisonHolds (names : List String) (condition : String) (scope : Scope)
    (t : Front.Comparison) : Except EvalFault Bool := do
  if isTextTerm names t then textComparisonHolds py ops condition scope t
  else
    let left ← evalValue py ops condition scope t.left
    let right ← evalValue py ops condition scope t.right
    match left, right with
    | some (.number l), some (.number r) => return compareNumbers t.op l r
    | some (.money m c), some (.money m' c') =>
      match t.op with
      | .eq => return decide ((m, c) = (m', c'))
      | .ne => return decide ((m, c) ≠ (m', c'))
      | op => return compareNumbers op (← inCondition py condition (compareMoney (m, c) (m', c'))) 0
    | some _, some _ =>
      .error ⟨.mixed, "cannot compare a Money value with a plain number: " ++ t.left.toText ++
        " (in " ++ py.repr condition ++ ")"⟩
    | _, _ => return false

/-- `_is_numeric_shaped`. -/
def isNumericShaped : Json → Bool
  | .bool _ | .int _ => true
  | .str s =>
    if isInstantText py s || looksLikeInstant py s then
      match encodeInstant py s "value" with
      | .ok _ => true
      | .error _ => false
    else (intText py s).isSome
  | _ => false

/-- `_numeric_predicate_holds`. -/
def numericPredicateHolds (scope : Scope) (p : Front.NumericPredicate) : Bool :=
  let numeric := isNumericShaped py (resolveReference (refOf p.field) scope)
  match p.kind with
  | .isNumeric => numeric
  | .isNotNumeric => !numeric

/-- One term. -/
def termHolds (names : List String) (condition : String) (scope : Scope) :
    Front.Term → Except EvalFault Bool
  | .comparison t => comparisonHolds py ops names condition scope t
  | .numericPredicate p => .ok (numericPredicateHolds py scope p)

/-- `_condition_holds` of a parsed condition; all terms of an `and` are evaluated. -/
def parsedHolds (names : List String) (condition : String) (scope : Scope) :
    Front.Condition → Except EvalFault Bool
  | .presence p =>
    let absent := (resolveReference (refOf p.field) scope).isNull
    match p.kind with
    | .exists => .ok !absent
    | .missing => .ok absent
  | .term t => termHolds py ops names condition scope t
  | .and a => do
    let results ← a.terms.mapM (termHolds py ops names condition scope)
    return results.all id

/-- `_condition_holds` of a guard, with the operand names that it records. -/
def conditionHolds (names : List String) (condition : String) (scope : Scope) :
    Except EvalFault Bool :=
  match Front.parseCondition py (some condition) with
  | .ok none => .ok true
  | .ok (some cond) => parsedHolds py ops names condition scope cond
  | .error (.condition message) => .error ⟨.unparsed, "Invalid condition: " ++ message⟩
  | .error (.value message) | .error (.overflow message) => .error ⟨.unparsed, message⟩

end Lnpl.Interp

/-!
## Formats

`eval_format`: the texts of the arguments in the placeholders of a template, one after the other.
-/

namespace Lnpl.Interp

open Lib (Placeholders.replaceAll)

variable (ops : JsonOps)

/-- `str(raw)` of an argument, if its reference resolves. -/
def argumentText (scope : Scope) (r : Front.Ref) : Option String :=
  match resolveReference (refOf r.name) scope with
  | .null => none
  | raw => some (ops.str raw)

/-- The template after the replacements; a placeholder is an opening and a closing brace. -/
def substituted (template : String) (parts : List String) : String :=
  String.ofList
    (Placeholders.replaceAll '\x7b' '\x7d' template.toList (parts.map String.toList))

/-- `eval_format`. -/
def evalFormat (scope : Scope) (fmt : Front.FormatCall) : Option String := do
  let parts ← fmt.args.mapM (argumentText ops scope)
  return substituted fmt.template parts

end Lnpl.Interp
