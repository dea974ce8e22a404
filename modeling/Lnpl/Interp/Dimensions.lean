import Lnpl.Front.Dimensions
import Lnpl.Interp.Conditions

/-!
# What the dimensions promise

The values of a run have the types that their fields declare.  What a clause that lowering accepted
evaluates then has the dimensions that lowering gave it, under an algebra that is partial, and stops
only where the values themselves are out of range, or malformed.
-/

namespace Lnpl.Interp

open Front (Python Dimension FieldDecl EntityDecl ArithOp)

/-! ### Declared values -/

/-- `text` matches `^[0-9a-f]{8}-[0-9a-f]{4}-[0-9a-f]{4}-[0-9a-f]{4}-[0-9a-f]{12}$`, in any case. -/
def isUuid (text : String) : Bool :=
  let chars := text.toList
  let body := if chars.getLast? = some '\n' then chars.dropLast else chars
  let groups := body.splitOn '-'
  groups.map List.length = [8, 4, 4, 4, 12] && groups.all fun group => group.all fun ch =>
    ('0' ≤ ch && ch ≤ '9') || ('a' ≤ ch.toLower && ch.toLower ≤ 'f')

/-- `text` matches `^[^@\s]+@[^@\s]+\.[^@\s]+$`. -/
def isEmail (text : String) : Bool :=
  let chars := text.toList
  let body := if chars.getLast? = some '\n' then chars.dropLast else chars
  match body.splitOn '@' with
  | [user, host] =>
    !user.isEmpty && !body.any Front.isSpace && host.tail.dropLast.contains '.'
  | _ => false

/-- `text` matches `DATETIME_RE`. -/
def isDateTime (py : Python) (text : String) : Bool :=
  (stampOf py text.toList).isSome && text.toList[10]? = some 'T'

/-- The value has the shape that the registry gives to an amount of money. -/
def isMoneyShaped : Json → Bool
  | .obj fields =>
    match fields.lookup "amount", fields.lookup "currency" with
    | some (.str _), some (.str code) => code.length = 3
    | _, _ => false
  | _ => false

/-- `check_semantic_type` of a base; no rule is given for the values of Money, which have their
shape.  No other value than a text is written as a timestamp is. -/
def conforms (py : Python) (ops : JsonOps) (base : String) (value : Json) : Bool :=
  let isText (p : String → Bool) : Bool :=
    match value with
    | .str s => p s
    | _ => false
  if value.isNull then false
  else if base = "Integer" then value matches .int _
  else if base = "Boolean" then value matches .bool _
  else if base = "Text" then isText fun _ => true
  else if base = "DateTime" then isText (isDateTime py)
  else if base = "Money" then isMoneyShaped value
  else if base = "UUID" then isUuid (ops.str value)
  else if base = "Email" then isEmail (ops.str value)
  else if base = "Password" then ops.str value ≠ ""
  else true

/-- The rules of a run: its Python, and the facets of its refinements. -/
structure Rules where
  py : Python
  ops : JsonOps
  facets : String → Json → Bool
  closest : String → List String → Option String
  lower : String → String

variable (rules : Rules) (scope : Front.Scope)

/-- The value satisfies the declared type of the field. -/
def Admits (f : FieldDecl) (value : Json) : Prop :=
  conforms rules.py rules.ops (scope.base f.type) value = true ∧ rules.facets f.type value = true

/-- The declarations of a field of some entities. -/
def declaredIn (entities : List EntityDecl) (field : String) : List FieldDecl :=
  entities.flatMap fun e => e.fields.filter fun f => f.name = field

/-- What a qualified reference can be declared by: an input field by every entity, and a field of a
row by every entity that the workflow reads under that name. -/
def declarations (binding field : String) : List FieldDecl :=
  if binding = Front.payloadNamespace then declaredIn scope.registry field
  else if binding = Front.callerNamespace ∨ scope.networkBindings.contains binding then []
  else
    match scope.createBindings.lookup binding with
    | some entity => declaredIn [entity] field
    | none =>
      declaredIn (scope.registry.filter fun e =>
        e.binding = binding && scope.readEntities.contains e.id) field

/-- Every value that is present satisfies a type that it is declared with. -/
def Typed (env : Scope) : Prop :=
  ∀ binding field, declarations scope binding field ≠ [] →
    (resolveReference (.qualified binding field) env).isNull = false →
      ∃ f ∈ declarations scope binding field,
        Admits rules scope f (resolveReference (.qualified binding field) env)

/-! ### The algebra -/

/-- What an operator makes of two dimensions; every other mix is undefined. -/
def algebra : ArithOp → Dimension → Dimension → Option Dimension
  | .add, .money, .money | .sub, .money, .money => some .money
  | .mul, .money, .scalar | .mul, .scalar, .money => some .money
  | .sub, .instant, .instant => some .scalar
  | .add, .instant, .scalar | .add, .scalar, .instant | .sub, .instant, .scalar => some .instant
  | _, .scalar, .scalar => some .scalar
  | _, _, _ => none

/-- The dimension of a value. -/
def rawDimension : Json → Option Dimension
  | .bool _ | .int _ => some .scalar
  | .str s =>
    if isInstantText rules.py s || looksLikeInstant rules.py s then some .instant
    else if (intText rules.py s).isSome then some .scalar
    else none
  | .obj fields =>
    if (fields.lookup "amount").isSome && (fields.lookup "currency").isSome then some .money
    else none
  | _ => none

/-- The dimension of what an operand evaluates to. -/
def operandDimension (env : Scope) : Front.Operand → Option Dimension
  | .lit _ => some .scalar
  | .ref r => rawDimension rules (resolveReference (refOf r.name) env)

/-- The dimension of what a value evaluates to. -/
def termDimension (env : Scope) : Front.Value → Option Dimension
  | .operand o => operandDimension rules env o
  | .arith a => do
    let left ← operandDimension rules env a.left
    let right ← operandDimension rules env a.right
    algebra a.op left right

/-- All references of a value resolve to something. -/
def Present (env : Scope) (v : Front.Value) : Prop :=
  ∀ name ∈ v.references, (resolveReference (refOf name) env).isNull = false

/-! ### Clauses -/

/-- A guard text, with what it is read as, or an assignment. -/
inductive Clause where
  | guard (text : String) (cond : Front.Condition)
  | assignment (lineno : Nat) (target : String) (rhs : Front.Value)

/-- The text that the messages of lowering show. -/
def Clause.shown : Clause → String
  | guard text _ => text
  | assignment _ target rhs => "set " ++ target ++ " to " ++ rhs.toText

def Clause.subject : Clause → Front.Subject
  | guard _ _ => .guard
  | assignment _ _ _ => .assignment

/-- The text is read as the condition. -/
def Clause.Parsed : Clause → Prop
  | guard text cond => Front.parseCondition rules.py (some text) = .ok (some cond)
  | assignment _ _ _ => True

/-- What lowering checks; a guard records the operand names of its text equalities. -/
def Clause.check : Clause → Except Front.LowerError (List String)
  | guard text cond => scope.checkCondition rules.py rules.closest text cond
  | assignment lineno target rhs => do
    scope.checkAssignment rules.py rules.lower lineno target rhs
    return []

/-- What a run evaluates, with the names that were recorded. -/
def Clause.evaluate (names : List String) (env : Scope) : Clause → Except EvalFault Unit
  | guard text _ => (conditionHolds rules.py rules.ops names text env).map fun _ => ()
  | assignment _ _ rhs => (evalValue rules.py rules.ops rhs.toText env rhs).map fun _ => ()

/-- The dimension that lowering gives to a value; equalities admit texts. -/
def Clause.dimension (clause : Clause) (equality : Bool) (v : Front.Value) :
    Except Front.LowerError (Option Dimension) :=
  scope.valueDimension rules.py clause.shown clause.subject equality v

/-- The declared type of a reference. -/
def Clause.declaredBase (clause : Clause) (name : String) : Option String :=
  match scope.resolveField rules.py name clause.shown clause.subject false with
  | .ok (some f) => some (scope.base f.type)
  | _ => none

/-- A reference that is declared as a text. -/
def Clause.isText (clause : Clause) (v : Front.Value) : Bool :=
  match v.ref?.bind (clause.declaredBase rules scope) with
  | some base => Front.textBases.contains base && !Front.textEqualityExcludedBases.contains base
  | none => false

/-- A text equality, which is no arithmetic. -/
def Clause.comparesText (clause : Clause) (t : Front.Comparison) : Bool :=
  t.op.isEquality && [t.left, t.right].any (clause.isText rules scope)

/-- The values that a clause computes with. -/
def Clause.sides (clause : Clause) : List (Bool × Front.Value) :=
  match clause with
  | guard _ cond =>
    (cond.comparisons.filter fun t => !clause.comparesText rules scope t).flatMap fun t =>
      [(t.op.isEquality, t.left), (t.op.isEquality, t.right)]
  | assignment _ _ rhs => [(false, rhs)]

/-- A value and its operands. -/
def subterms (side : Bool × Front.Value) : List (Bool × Front.Value) :=
  match side.2 with
  | .operand _ => [side]
  | .arith a => [side, (false, .operand a.left), (false, .operand a.right)]

def Clause.subterms (clause : Clause) : List (Bool × Front.Value) :=
  (clause.sides rules scope).flatMap Interp.subterms

/-- All references are declared. -/
def Clause.Resolved (clause : Clause) : Prop :=
  ∀ equality r, (equality, .operand (.ref r)) ∈ clause.subterms rules scope →
    (clause.declaredBase rules scope r.name).isSome

/-! ### The law -/

/-- The values themselves are the cause: a number past 64 bits, a divisor that is zero, currencies
that differ, or a malformed instant or amount. -/
def Cause.ofValues : Cause → Bool
  | .range | .zeroDivisor | .instant | .money _ | .digits => true
  | .nonNumeric | .mixed | .notText | .unparsed => false

def Quantity.isMoney : Quantity → Bool
  | .number _ => false
  | .money _ _ => true

/-- The clause is sound for dimensions. -/
structure DimensionSound (clause : Clause) (names : List String) : Prop where
  /-- lowering computes with the algebra -/
  algebra : ∀ equality a, (equality, .arith a) ∈ clause.sides rules scope → ∀ left right d,
    clause.dimension rules scope false (.operand a.left) = .ok (some left) →
    clause.dimension rules scope false (.operand a.right) = .ok (some right) →
    clause.dimension rules scope equality (.arith a) = .ok (some d) →
      Interp.algebra a.op left right = some d
  /-- every subterm evaluates to what lowering says -/
  subterms : ∀ env, Typed rules scope env → ∀ equality v,
    (equality, v) ∈ clause.subterms rules scope → Present env v →
      ∃ d, clause.dimension rules scope equality v = .ok (some d) ∧
        termDimension rules env v = some d ∧
        ∀ condition q, evalValue rules.py rules.ops condition env v = .ok (some q) →
          q.isMoney = decide (d = .money)
  /-- nothing is mixed -/
  faults : ∀ env, Typed rules scope env → ∀ fault,
    clause.evaluate rules names env = .error fault → fault.cause.ofValues = true

/-! ### The condition -/

/-- The dimension of the values of a base. -/
def baseDimension (base : String) : Option Dimension :=
  if base = "Integer" then some .scalar
  else if base = "DateTime" then some .instant
  else if base = "Money" then some .money
  else none

/-- An operand that is declared as an instant. -/
def Clause.IsInstant (clause : Clause) : Front.Operand → Prop
  | .lit _ => False
  | .ref r => clause.declaredBase rules scope r.name = some "DateTime"

/-- A duration is added to an instant, or subtracted from it, and nothing else is done with the two;
and all declarations of a reference admit only values of the dimension of its declared type. -/
structure Dimensional (clause : Clause) : Prop where
  instants : ∀ equality a, (equality, .arith a) ∈ clause.sides rules scope →
    (clause.IsInstant rules scope a.left ∧ ¬ clause.IsInstant rules scope a.right →
      a.op = .add ∨ a.op = .sub) ∧
    (¬ clause.IsInstant rules scope a.left ∧ clause.IsInstant rules scope a.right → a.op = .add)
  declarations : ∀ equality r, (equality, .operand (.ref r)) ∈ clause.subterms rules scope →
    ∀ base, clause.declaredBase rules scope r.name = some base →
      ∀ binding field, Front.partitionName r.name = some (binding, field) →
        ∀ f ∈ declarations scope binding field, ∀ value, Admits rules scope f value →
          rawDimension rules value = baseDimension base

end Lnpl.Interp
