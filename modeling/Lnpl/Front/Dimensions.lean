import Lnpl.Front.Condition
import Lnpl.Lib.PyValues

/-!
# Dimensions

What lowering checks of the operands of a guard condition, or of an assignment: that a reference
resolves to a declared field, and that quantities of different kinds are not mixed
(`_value_dimension`, `_check_dimensions`).
-/

namespace Lnpl.Front

/-- `LowerError`. -/
structure LowerError where
  message : String
  deriving DecidableEq, Repr

/-- `raise LowerError(message)`. -/
def refuse {α : Type} (message : String) : Except LowerError α := .error ⟨message⟩

/-! ### Declarations -/

/-- The bases of the category `"text"` in `BASE_CATEGORY`. -/
def textBases : List String :=
  ["UUID", "Email", "Password", "DateTime", "Phone", "Currency", "Html", "Markdown", "Text"]

/-- `TEXT_EQUALITY_EXCLUDED_BASES`. -/
def textEqualityExcludedBases : List String := ["DateTime", "Password"]

/-- A declared field. -/
structure FieldDecl where
  name : String
  type : String
  optional : Bool := false
  deriving DecidableEq, Repr

/-- A declared entity; `binding` is its `binding_name`, and `qualified` its `_qualified_name`. -/
structure EntityDecl where
  id : String
  name : String
  qualified : String
  binding : String
  fields : List FieldDecl
  deriving Repr

/-- `{f["name"]: f for f in fields}.get(name)`. -/
def fieldNamed (fields : List FieldDecl) (name : String) : Option FieldDecl :=
  fields.reverse.find? fun f => f.name = name

/-- `_Scope`: what the document says about the names that a workflow may use. -/
structure Scope where
  workflowName : String
  /-- the values of the registry -/
  registry : List EntityDecl
  /-- the ids of the entities that the workflow reads -/
  readEntities : List String
  /-- the names bound by `call ... as` -/
  networkBindings : List String := []
  /-- the names bound by `create ... as` -/
  createBindings : List (String × EntityDecl) := []
  /-- the refinements with their bases -/
  baseOf : List (String × String) := []
  /-- the refinements with their members -/
  enumOf : List (String × List String) := []

/-- All declared fields; `declared_fields` is the dict of them by their names. -/
def Scope.declaredFields (scope : Scope) : List FieldDecl :=
  scope.registry.flatMap EntityDecl.fields

/-- `by_binding.get(binding)`. -/
def Scope.entityBound (scope : Scope) (binding : String) : Option EntityDecl :=
  scope.registry.reverse.find? fun e => e.binding = binding

/-- `base_of.get(declared, declared)`. -/
def Scope.base (scope : Scope) (declared : String) : String :=
  (scope.baseOf.lookup declared).getD declared

protected def payloadNamespace : String := "input"

protected def callerNamespace : String := "caller"

def callerFields : List String := ["subject", "role"]

/-- `READ_VERBS`. -/
def readVerbs : List String := ["authenticate", "load", "find", "read"]

/-- What a reference is judged for. -/
inductive Subject where
  | guard
  | assignment
  deriving DecidableEq, Repr

def Subject.word : Subject → String
  | guard => "guard condition"
  | assignment => "assignment"

/-! ### References -/

variable (py : Python)

/-- `", ".join(sorted(self.declared_fields)) or "none"`. -/
def Scope.fieldNames (scope : Scope) : String :=
  let names := Lib.Py.sortTexts (scope.declaredFields.map FieldDecl.name).dedup
  if names.isEmpty then "none" else ", ".intercalate names

/-- The refusal of a reference to an entity that the workflow never reads. -/
def Scope.neverRead (scope : Scope) (subject : Subject) (isTarget : Bool) (text field : String)
    (entity : EntityDecl) : String :=
  let head := "workflow " ++ scope.workflowName ++ ": " ++ subject.word ++ " " ++ py.repr text
  if isTarget then
    head ++ " assigns to " ++ entity.id ++ ", but this workflow never reads it — no binding can " ++
      "ever exist, so there is nothing to assign to (read it first with one of " ++
      " / ".intercalate (readVerbs.map fun verb => s!"`{verb}`") ++
      ", or create it with `as` if " ++
      "this step creates it; `set` writes only to a row this workflow read or created)"
  else if subject ≠ .guard then
    head ++ " reads " ++ entity.id ++ ", but this workflow never reads it — no binding can ever " ++
      "exist, so the reference resolves to nothing (to read the run's input instead, write " ++
      "`input." ++ field ++ "`)"
  else
    head ++ " reads " ++ entity.id ++ ", but this workflow never reads it — no binding can ever " ++
      "exist, so the guard would be false forever (to check the run's input instead, write " ++
      "`input." ++ field ++ "`)"

/-- `resolve_field`; `none` is a name that the document does not describe. -/
def Scope.resolveField (scope : Scope) (name text : String) (subject : Subject)
    (isTarget : Bool) : Except LowerError (Option FieldDecl) :=
  let undeclared (field entity : String) : Except LowerError (Option FieldDecl) :=
    refuse ("workflow " ++ scope.workflowName ++ ": " ++ subject.word ++ " " ++ py.repr text ++
      " names field " ++ py.repr field ++ ", which entity " ++ entity ++ " does not declare")
  match partitionName name with
  | none => .ok none
  | some (binding, field) =>
    if binding = Front.payloadNamespace then
      match fieldNamed scope.declaredFields field with
      | some f => .ok (some f)
      | none =>
        refuse ("workflow " ++ scope.workflowName ++ ": " ++ py.repr text ++
          " names input field " ++ py.repr field ++
          ", which no entity declares (declared fields: " ++ scope.fieldNames ++
          ")")
    else if binding = Front.callerNamespace then
      if callerFields.contains field then .ok none
      else
        refuse ("workflow " ++ scope.workflowName ++ ": " ++ py.repr text ++
          " names caller field " ++ py.repr field ++ ", which does not exist (the caller scope " ++
          "has only: " ++ ", ".intercalate callerFields ++ ")")
    else if scope.networkBindings.contains binding then .ok none
    else
      match scope.createBindings.lookup binding with
      | some entity =>
        match fieldNamed entity.fields field with
        | some f => .ok (some f)
        | none => undeclared field entity.name
      | none =>
        match scope.entityBound binding with
        | none =>
          refuse ("workflow " ++ scope.workflowName ++ ": " ++ subject.word ++ " " ++
            py.repr text ++ " names " ++ py.repr binding ++ ", which is not a declared entity")
        | some entity =>
          match fieldNamed entity.fields field with
          | none => undeclared field entity.name
          | some f =>
            if scope.readEntities.contains entity.id then .ok (some f)
            else refuse (scope.neverRead py subject isTarget text field entity)

/-- The dimension of an operand. -/
inductive Dimension where
  | instant
  | scalar
  | money
  /-- `"presence-any"` -/
  | presenceAny
  | text
  deriving DecidableEq, Repr

def Dimension.word : Dimension → String
  | instant => "instant"
  | scalar => "scalar"
  | money => "money"
  | presenceAny => "presence-any"
  | text => "text"

/-- `_dimension_of`, of a reference that is no target of an aggregate. -/
def Scope.dimensionOf (scope : Scope) (f : FieldDecl) (name text : String)
    (presence equality : Bool) : Except LowerError Dimension :=
  let base := scope.base f.type
  if presence && f.optional then .ok .presenceAny
  else if equality && textBases.contains base && base = "Password" then
    refuse ("workflow " ++ scope.workflowName ++ ": " ++ py.repr text ++ " compares " ++ name ++
      ", a Password field (declared type " ++ f.type ++ ") — its value is masked everywhere it " ++
      "is reported (RFC-0001), so a guard may not compare it")
  else if equality && textBases.contains base && !textEqualityExcludedBases.contains base then
    .ok .text
  else if base = "Integer" then .ok .scalar
  else if base = "DateTime" then .ok .instant
  else if base = "Money" then .ok .money
  else
    refuse ("workflow " ++ scope.workflowName ++ ": " ++ py.repr text ++ " uses " ++ name ++
      ", whose declared type " ++ f.type ++ " is neither Integer nor DateTime — RFC-0016 " ++
      "computes over whole numbers and instants only (RFC-0051 additionally admits " ++
      "same-currency Money arithmetic and comparison; Decimal and the remaining composite " ++
      "types still have no " ++
      "evaluator in either mode — RFC-0044 section Open Questions 3)")

/-- `check_reference`. -/
def Scope.checkReference (scope : Scope) (name text : String) (subject : Subject)
    (isTarget presence equality : Bool) : Except LowerError (Option Dimension) := do
  match ← scope.resolveField py name text subject isTarget with
  | none => return none
  | some f => return some (← scope.dimensionOf py f name text presence equality)

/-! ### Values -/

/-- `_describe` of an operand. -/
def Operand.describe : Operand → String
  | .ref r => r.name
  | .lit l => if l.isDuration then "a duration literal" else "a number literal"

/-- `_describe`. -/
def Value.describe : Value → String
  | .operand o => o.describe
  | .arith a => (Value.arith a).toText

/-- The dimension of an operand. -/
def Scope.operandDimension (scope : Scope) (text : String) (subject : Subject) (equality : Bool) :
    Operand → Except LowerError (Option Dimension)
  | .lit _ => .ok (some .scalar)
  | .ref r => scope.checkReference py r.name text subject false false equality

/-- The dimension of an arithmetic value, of the dimensions of its operands. -/
def Scope.arithDimension (scope : Scope) (text : String) (a : Arith) (left right : Dimension) :
    Except LowerError Dimension :=
  let head := "workflow " ++ scope.workflowName ++ ": " ++ py.repr text
  let shown := a.left.describe ++ " " ++ a.op.word ++ " " ++ a.right.describe
  if left = .money ∨ right = .money then
    if left = .money ∧ right = .money then
      if a.op = .add ∨ a.op = .sub then .ok .money
      else
        refuse (head ++ " " ++ (if a.op = .mul then "multiplies" else "divides") ++
          " two Money values, which RFC-0051 does not evaluate (" ++ shown ++ ")")
    else
      let other := if left = .money then right else left
      if a.op = .mul ∧ other = .scalar then .ok .money
      else
        refuse (head ++ " combines a Money value with " ++
          (if other = .instant then "an" else "a") ++ " " ++ other.word ++ " value via " ++
          py.repr a.op.word ++ ", which RFC-0051 does not evaluate — Money supports +/-/copy " ++
          "against Money, and * only against a plain Integer (" ++ shown ++ ")")
  else if left = .instant ∧ right = .instant then
    if a.op = .sub then .ok .scalar
    else
      refuse (head ++ " adds two instants (" ++ shown ++ "), which names no point in time — " ++
        "subtract them to get the elapsed duration, or add a duration to one of them (RFC-0016)")
  -- whatever the operator
  else if left = .instant ∨ right = .instant then .ok .instant
  else .ok .scalar

/-- `_value_dimension`; `none` is what the document cannot decide. -/
def Scope.valueDimension (scope : Scope) (text : String) (subject : Subject) (equality : Bool) :
    Value → Except LowerError (Option Dimension)
  | .operand o => scope.operandDimension py text subject equality o
  | .arith a => do
    let left ← scope.operandDimension py text subject false a.left
    let right ← scope.operandDimension py text subject false a.right
    match left, right with
    | some left, some right => return some (← scope.arithDimension py text a left right)
    | _, _ => return none

/-! ### Conditions -/

/-- `TEXT_EQUALITY_OPS`. -/
def Comparator.isEquality (op : Comparator) : Bool := op = .eq || op = .ne

/-- `_comparisons`. -/
def Condition.comparisons : Condition → List Comparison
  | .term (.comparison t) => [t]
  | .and a => a.terms.filterMap fun
    | .comparison t => some t
    | .numericPredicate _ => none
  | _ => []

/-- `_numeric_predicates`. -/
def Condition.numericPredicates : Condition → List NumericPredicate
  | .term (.numericPredicate p) => [p]
  | .and a => a.terms.filterMap fun
    | .comparison _ => none
    | .numericPredicate p => some p
  | _ => []

/-- The name of a reference. -/
def Value.ref? : Value → Option String
  | .operand (.ref r) => some r.name
  | _ => none

/-- The names of the references among the two sides. -/
def Comparison.refs (t : Comparison) : List String := [t.left, t.right].filterMap Value.ref?

/-- `_text_equality_operand_names`. -/
def Condition.textEqualityOperandNames (cond : Condition) : List String :=
  (cond.comparisons.filter fun t => t.op.isEquality).flatMap Comparison.refs

/-- `_text_operand_type`: the declared type, and the members of an enum. -/
def Scope.textOperandType (scope : Scope) (text : String) (subject : Subject) (operand : Value) :
    Except LowerError (Option (String × Option (List String))) :=
  match operand.ref? with
  | none => .ok none
  | some name =>
    if (partitionName name).isNone then .ok none
    else do
      match ← scope.resolveField py name text subject false with
      | none => return none
      | some f => return some (f.type, scope.enumOf.lookup f.type)

/-- `_check_enum_literal`; `closest` is `difflib.get_close_matches(..., n=1, cutoff=0.6)`. -/
def Scope.checkEnumLiteral (closest : String → List String → Option String) (scope : Scope)
    (text : String) (operand : Value) (other : Option (String × Option (List String))) :
    Except LowerError Unit :=
  match operand.ref?, other with
  | some literal, some (type, some members) =>
    if (partitionName literal).isSome then .ok ()
    else if members.contains literal then .ok ()
    else
      let suggestion :=
        match closest literal members with
        | some close => " — did you mean " ++ py.repr close ++ "?"
        | none => ""
      refuse ("workflow " ++ scope.workflowName ++ ": " ++ py.repr text ++ " compares with " ++
        py.repr literal ++ ", which is not a member of the enum " ++ type ++ " (members: " ++
        ", ".intercalate members ++ ")" ++ suggestion ++ " (RFC-0054)")
  | _, _ => .ok ()

/-- One side of `_check_text_equality_term`. -/
def Scope.checkTextSide (scope : Scope) (text : String) (t : Comparison) (operand : Value)
    (dim : Option Dimension) : Except LowerError Unit :=
  let head := "workflow " ++ scope.workflowName ++ ": " ++ py.repr text
  match operand with
  | .arith a =>
    refuse (head ++ " compares a Text-family field with an arithmetic expression (" ++
      (Value.arith a).describe ++ ") — RFC-0016 gives Text no arithmetic at all (RFC-0054)")
  | .operand _ =>
    if dim = none ∨ dim = some .text then .ok ()
    else
      refuse (head ++ " compares " ++ t.left.describe ++ " with " ++ t.right.describe ++
        " — RFC-0016 compares like with like (a Text-family field equals only another " ++
        "Text-family value, RFC-0054)")

/-- `_check_text_equality_term`. -/
def Scope.checkTextEqualityTerm (closest : String → List String → Option String) (scope : Scope)
    (text : String) (subject : Subject) (t : Comparison) (left right : Option Dimension) :
    Except LowerError (List String) := do
  scope.checkTextSide py text t t.left left
  scope.checkTextSide py text t t.right right
  let leftType ← scope.textOperandType py text subject t.left
  let rightType ← scope.textOperandType py text subject t.right
  match leftType, rightType with
  | some (left, _), some (right, _) =>
    if scope.base left ≠ scope.base right then
      refuse ("workflow " ++ scope.workflowName ++ ": " ++ py.repr text ++ " compares " ++
        t.left.describe ++ " (declared " ++ left ++ ") with " ++ t.right.describe ++
        " (declared " ++ right ++ ") — equality needs the same declared type on both sides " ++
        "(RFC-0038 D2, extended to guard conditions by RFC-0054)")
  | _, _ => pure ()
  scope.checkEnumLiteral py closest text t.left rightType
  scope.checkEnumLiteral py closest text t.right leftType
  return t.refs

/-- One term of `_check_dimensions`: the operand names of a text equality. -/
def Scope.checkTerm (closest : String → List String → Option String) (scope : Scope)
    (text : String) (subject : Subject) (t : Comparison) : Except LowerError (List String) := do
  let left ← scope.valueDimension py text subject t.op.isEquality t.left
  let right ← scope.valueDimension py text subject t.op.isEquality t.right
  if left = some .text ∨ right = some .text then
    scope.checkTextEqualityTerm py closest text subject t left right
  else
    match left, right with
    | some l, some r =>
      if l ≠ r then
        refuse ("workflow " ++ scope.workflowName ++ ": " ++ py.repr text ++ " compares " ++
          t.left.describe ++ " (" ++ l.word ++ ") with " ++ t.right.describe ++ " (" ++ r.word ++
          ") — RFC-0016 compares like with like. An instant and a number are not the same " ++
          "quantity; subtract two instants to get a duration, then compare that to a duration " ++
          "such as `30d`" ++
          (if l = .money ∨ r = .money then ". Money compares only to Money (RFC-0051)" else ""))
      else return []
    | _, _ => return []

/-- `_check_dimensions`. -/
def Scope.checkDimensions (closest : String → List String → Option String) (scope : Scope)
    (text : String) (subject : Subject) (cond : Condition) : Except LowerError (List String) := do
  return (← cond.comparisons.mapM (scope.checkTerm py closest text subject)).flatten

/-- `_check_input_presence_consistency`. -/
def Scope.checkInputPresence (scope : Scope) (text : String) (cond : Condition) :
    Except LowerError Unit :=
  match cond with
  | .presence p =>
    match partitionName p.field with
    | some (binding, field) =>
      let declaring := scope.registry.filter fun e => e.fields.any fun f => f.name = field
      if binding ≠ Front.payloadNamespace ∨ declaring.length < 2 then .ok ()
      else if declaring.all fun e => e.fields.any fun f => f.name = field && f.optional then .ok ()
      else
        refuse ("workflow " ++ scope.workflowName ++ ": " ++ py.repr text ++ " is ambiguous — " ++
          "declared by " ++
          ", ".intercalate (Lib.Py.sortTexts (declaring.map EntityDecl.qualified)) ++
          ", and not every one of them marks " ++ py.repr field ++ " `optional` (RFC-0053: " ++
          "`input.<field> exists`/`missing` needs every declaring entity to agree)")
    | none => .ok ()
  | _ => .ok ()

/-- `_check_literal_zero_divisor`. -/
def checkLiteralZeroDivisor (place : String) : Value → Except LowerError Unit
  | .arith ⟨_, .div, .lit ⟨0, _⟩⟩ =>
    refuse (place ++ ": divides by the literal 0 — division by zero is not a runtime input " ++
      "here: the right operand is the literal 0")
  | _ => .ok ()

/-- The loop of `_check_one_condition` over the comparisons. -/
def Scope.checkLiterals (scope : Scope) (text : String) (t : Comparison) :
    Except LowerError Unit := do
  let head := "workflow " ++ scope.workflowName ++ ": guard condition " ++ py.repr text
  match t.left, t.right with
  | .operand (.lit _), .operand (.lit _) =>
    refuse (head ++ " compares two literals, so it decides nothing — name a field on at least " ++
      "one side")
  | _, _ => pure ()
  checkLiteralZeroDivisor head t.left
  checkLiteralZeroDivisor head t.right

/-- The loop of `_check_one_condition` over the numeric-shape predicates. -/
def Scope.checkNumericPredicate (scope : Scope) (text : String) (p : NumericPredicate) :
    Except LowerError Unit := do
  if (← scope.checkReference py p.field text .guard false false false) = some .money then
    refuse ("workflow " ++ scope.workflowName ++ ": guard condition " ++ py.repr text ++
      " applies is-numeric/is-not-numeric to " ++ py.repr p.field ++ ", whose declared type is " ++
      "Money — the numeric-shape predicate does not apply to Money (RFC-0050, RFC-0051 section " ++
      "Compatibility); compare it to another Money reference instead")

/-- The loop of `_check_one_condition` over the presence checks. -/
def Scope.checkPresence (scope : Scope) (text : String) (cond : Condition) :
    Except LowerError Unit :=
  match cond with
  | .presence p => do
    if (← scope.checkReference py p.field text .guard false true false) = some .money then
      refuse ("workflow " ++ scope.workflowName ++ ": guard condition " ++ py.repr text ++
        " checks " ++ py.repr p.field ++ " for existence, but its declared type is Money — " ++
        "Money has no exists/missing check either (RFC-0051 section Compatibility)")
  | _ => .ok ()

/-- `_check_one_condition`, of a parsed condition: the operand names of its text equalities. -/
def Scope.checkCondition (closest : String → List String → Option String) (scope : Scope)
    (text : String) (cond : Condition) : Except LowerError (List String) := do
  scope.checkInputPresence py text cond
  let textNames := cond.textEqualityOperandNames
  let presence := match cond with
    | .presence _ => true
    | _ => false
  (Condition.references (some cond)).forM fun name => do
    let _ ← scope.checkReference py name text .guard false presence (textNames.contains name)
  cond.comparisons.forM (scope.checkLiterals py text)
  let names ← scope.checkDimensions py closest text .guard cond
  cond.numericPredicates.forM (scope.checkNumericPredicate py text)
  scope.checkPresence py text cond
  return names

/-! ### Assignments -/

/-- `_MARKER_HINTS`. -/
def markerHints : List (String × String) :=
  [("now", "clock"), ("time", "clock"), ("timestamp", "clock"), ("uuid", "generated"),
   ("guid", "generated"), ("generated", "generated")]

/-- `_check_bare_operands` of one operand; `lower` is `str.lower`. -/
def Scope.checkBareOperand (lower : String → String) (scope : Scope) (lineno : Nat)
    (text : String) : Operand → Except LowerError Unit
  | .lit _ => .ok ()
  | .ref r =>
    if (partitionName r.name).isSome ∨ (fieldNamed scope.declaredFields r.name).isSome then .ok ()
    else
      let hint :=
        match markerHints.lookup (lower r.name) with
        | some marker => " — did you mean a field declared `derived " ++ marker ++ "`? The run " ++
            "fills it at `create` (RFC-0055)"
        | none => ""
      refuse ("line " ++ toString lineno ++ ": assignment " ++ py.repr text ++ " reads " ++
        py.repr r.name ++ ", which no declared entity has as a field — a bare name is an input " ++
        "field (RFC-0012 §G12.1)" ++ hint)

/-- `_set_text_refusal`. -/
def Scope.setTextRefusal (scope : Scope) (text target declared : String) : String :=
  "workflow " ++ scope.workflowName ++ ": " ++ py.repr text ++ " assigns a value to " ++ target ++
    ", a Text field (declared type " ++ declared ++ ") — `set` has no evaluator for Text " ++
    "(RFC-0016 computes over whole numbers and instants only); write a Text field with `format " ++
    target ++ " from \"...\"` (issue #94)"

/-- What `_check_scoped_conditions` checks of an Assignment of a value. -/
def Scope.checkAssignment (lower : String → String) (scope : Scope) (lineno : Nat)
    (target : String) (rhs : Value) : Except LowerError Unit := do
  let text := "set " ++ target ++ " to " ++ rhs.toText
  match ← scope.resolveField py target text .assignment true with
  | some f =>
    if scope.base f.type = "Text" then refuse (scope.setTextRefusal py text target f.type)
  | none => pure ()
  let targetDim ← scope.checkReference py target text .assignment true false false
  rhs.references.forM fun name => do
    let _ ← scope.checkReference py name text .assignment false false false
  let rhsDim ← scope.valueDimension py text .assignment false rhs
  match targetDim, rhsDim with
  | some t, some r =>
    if t ≠ r then
      refuse ("workflow " ++ scope.workflowName ++ ": " ++ py.repr text ++ " assigns " ++
        rhs.describe ++ " (" ++ r.word ++ ") to " ++ target ++ " (" ++ t.word ++
        ") — RFC-0051 requires the same dimension on both sides")
  | _, _ => pure ()
  rhs.operands.forM (scope.checkBareOperand py lower lineno text)

end Lnpl.Front
