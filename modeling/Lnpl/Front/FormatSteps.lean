import Lnpl.Front.Dimensions

/-!
# Assignment nodes

What lowering makes of a `set` step and of a `format` step (`_derive_assignment`, `_derive_format`),
and what it checks of a format call (`_check_format`).
-/

namespace Lnpl.Front

/-- What leaves the derivation of a node. -/
inductive DeriveFault where
  | lower (e : LowerError)
  /-- an exception of a parser that is no `ConditionError` -/
  | parser (fault : Fault)
  /-- `LoaderError` -/
  | loader (message : String)
  deriving DecidableEq, Repr

/-- An Assignment node. -/
structure AssignmentNode where
  id : String
  target : String
  expression : String
  entity : String
  line : Nat
  deriving DecidableEq, Repr

/-- A step line of a workflow. -/
structure StepLine where
  tokens : List String
  lineno : Nat

/-- `" ".join(line.tokens)`. -/
def StepLine.text (line : StepLine) : String := unwords line.tokens

/-- What the verb of a step calls its target. -/
structure TargetWords where
  noun : String
  /-- `formats into the run's input`, … -/
  phrase : String
  /-- `format into a row`, … -/
  advice : String

def setWords : TargetWords := ⟨"assignment", "assigns to", "assign to"⟩

def formatWords : TargetWords := ⟨"format", "formats into", "format into"⟩

variable (py : Python)

/-- The entity that a target names, which has to be one of the registry and declare the field. -/
def targetEntity (words : TargetWords) (registry : List EntityDecl) (line : StepLine)
    (target : String) : Except DeriveFault EntityDecl :=
  let place := "line " ++ toString line.lineno ++ ": "
  let error (message : String) : Except DeriveFault EntityDecl := .error (.lower ⟨place ++ message⟩)
  let named := words.noun ++ " target " ++ py.repr target
  let (binding, field) := (partitionName target).getD (target, "")
  if field = "" then
    error (named ++ " must name a bound row's field (`<binding>.<field>`) — a bare name is an " ++
      "input field, and the input is not state this workflow owns")
  else if binding = Front.payloadNamespace then
    error (py.repr line.text ++ " " ++ words.phrase ++ " the run's input, which is not state — " ++
      words.advice ++ " a row this workflow read (`<binding>." ++ field ++ "`)")
  else if binding = Front.callerNamespace then
    error (py.repr line.text ++ " " ++ words.phrase ++ " the caller scope, which is not state " ++
      "this workflow owns — it is the verified identity of who called it, read-only " ++
      "(`<binding>." ++ field ++ "`)")
  else
    match registry.find? fun e => e.binding = binding with
    | none => error (named ++ " names " ++ py.repr binding ++ ", which is not a declared entity")
    | some entity =>
      if (entity.fields.map FieldDecl.name).contains field then .ok entity
      else
        error (named ++ " names field " ++ py.repr field ++ ", which entity " ++ entity.name ++
          " does not declare")

/-- The message of a `ConditionError`, behind the number of its line. -/
def raiseFault {α : Type} (line : StepLine) : Except Fault α → Except DeriveFault α
  | .ok a => .ok a
  | .error (.condition message) =>
    .error (.lower ⟨"line " ++ toString line.lineno ++ ": " ++ message⟩)
  | .error fault => .error (.parser fault)

/-- `EFFECT_SLUG["Assignment"]`. -/
def assignmentSlug : String := "assign"

/-- The node of a step. -/
def assignmentNode (stepId : String) (line : StepLine) (target : String) (value : AssignRHS)
    (entity : EntityDecl) : AssignmentNode where
  id := stepId ++ "." ++ assignmentSlug
  target := target
  expression := valueToString value
  entity := entity.id
  line := line.lineno

/-- `_derive_format`. -/
def deriveFormat (registry : List EntityDecl) (stepId : String) (line : StepLine) :
    Except DeriveFault AssignmentNode := do
  let (target, value) ← raiseFault line (parseFormat py (some line.text))
  let entity ← targetEntity py formatWords registry line target
  return assignmentNode stepId line target (.format value) entity

/-- The Text field that a `set` step names whose value does not parse: its target and its type. -/
def textTarget (baseOf : List (String × String)) (registry : List EntityDecl) (line : StepLine) :
    Option (String × String) :=
  match line.tokens with
  | _ :: target :: "to" :: _ =>
    let (binding, field) := (partitionName target).getD (target, "")
    (registry.find? fun e => e.binding = binding).bind fun e =>
      (e.fields.find? fun f => f.name = field && (baseOf.lookup f.type).getD f.type = "Text").map
        fun f => (target, f.type)
  | _ => none

/-- The parse of a `set` step; a Text field has a hint in place of the error. -/
def parseSet (baseOf : List (String × String)) (registry : List EntityDecl) (line : StepLine) :
    Except DeriveFault (String × AssignRHS) :=
  match parseAssignment py (some line.text) with
  | .error (.condition message) =>
    match textTarget baseOf registry line with
    | some (target, declared) =>
      .error (.lower ⟨"line " ++ toString line.lineno ++ ": " ++ py.repr line.text ++
        " assigns a value to " ++ target ++ ", a Text field (declared type " ++ declared ++
        ") — `set` has no evaluator for Text (RFC-0016 computes over whole numbers and instants " ++
        "only); write a Text field with `format " ++ target ++ " from \"...\"` (issue #94)"⟩)
    | none => .error (.lower ⟨"line " ++ toString line.lineno ++ ": " ++ message⟩)
  | result => raiseFault line result

/-- `_check_literal_zero_divisor` of the right side of a step. -/
def checkDivisor (line : StepLine) : AssignRHS → Except DeriveFault Unit
  | .value v =>
    match checkLiteralZeroDivisor
      ("line " ++ toString line.lineno ++ ": assignment " ++ py.repr line.text) v with
    | .error e => .error (.lower e)
    | .ok () => .ok ()
  | _ => .ok ()

/-- `_check_internal_visibility`; `hidden` gives the message for an entity that is not visible. -/
def checkVisible (hidden : EntityDecl → Option String) (entity : EntityDecl) :
    Except DeriveFault Unit :=
  match hidden entity with
  | some message => .error (.loader message)
  | none => .ok ()

/-- `_derive_assignment`. -/
def deriveAssignment (baseOf : List (String × String)) (registry : List EntityDecl)
    (hidden : EntityDecl → Option String) (stepId : String) (line : StepLine) :
    Except DeriveFault AssignmentNode := do
  let (target, value) ← parseSet py baseOf registry line
  checkDivisor py line value
  let entity ← targetEntity py setWords registry line target
  checkVisible hidden entity
  return assignmentNode stepId line target value entity

/-- `_check_format`. -/
def Scope.checkFormat (scope : Scope) (target text : String) (rhs : FormatCall) :
    Except LowerError Unit := do
  match ← scope.resolveField py target text .assignment true with
  | none =>
    refuse ("workflow " ++ scope.workflowName ++ ": format target " ++ py.repr text ++
      " must name a bound row's field (`<binding>.<field>`), not a bare or input reference")
  | some f =>
    if scope.base f.type ≠ "Text" then
      refuse ("workflow " ++ scope.workflowName ++ ": format target " ++ py.repr text ++
        " has declared type " ++ f.type ++ ", whose base is " ++ scope.base f.type ++
        " — format writes only to a Text-family field (RFC-0016 gives Text no numeric/instant " ++
        "dimension, so no other verb could ever write one; format is the one verb that " ++
        "assembles strings)")
  rhs.args.forM fun r => do
    match ← scope.resolveField py r.name text .assignment false with
    | none => pure ()
    | some f =>
      if scope.base f.type = "Password" then
        refuse ("workflow " ++ scope.workflowName ++ ": format argument " ++ py.repr r.name ++
          " has declared type " ++ f.type ++ ", whose base is Password — format must not " ++
          "assemble a Password field into a string (issue #43's masking chokepoint: a masked " ++
          "field's value must never leave through an unmasked one)")

/-- The text that a format call of an Assignment node is checked with. -/
def formatStepText (target : String) (rhs : FormatCall) : String :=
  "format " ++ target ++ " from " ++ py.repr rhs.template ++
    if rhs.args.isEmpty then "" else " with " ++ unwords (rhs.args.map Ref.name)

end Lnpl.Front

/-!
## Path templates

The `path` line of a `capability http` (`_parse_http_path`), and the number of the arguments that a
`call` gives to it.
-/

namespace Lnpl.Front

/-- A `path` template; `_parse_http_path` returns no other text. -/
structure PathTemplate where
  text : String
  absolute : text.toList.head? = some '/'
  hasPlaceholder : countPlaceholders text.toList ≠ 0

variable (py : Python)

/-- `_parse_http_path`. -/
def parseHttpPath (line : StepLine) : Except LowerError PathTemplate :=
  let place := "line " ++ toString line.lineno ++ ": "
  match line.tokens with
  | [_, token] =>
    let chars := token.toList
    if chars.length < 2 ∨ chars.head? ≠ some '"' ∨ chars.getLast? ≠ some '"' then
      refuse (place ++ "`path` template must be one double-quoted word")
    else
      let template := String.ofList chars.tail.dropLast
      if '"' ∈ template.toList then
        refuse (place ++ "`path` template contains an embedded quote")
      else if habsolute : template.toList.head? = some '/' then
        if hplaceholder : countPlaceholders template.toList ≠ 0 then
          .ok ⟨template, habsolute, hplaceholder⟩
        else
          refuse (place ++ "`path` template " ++ py.repr template ++ " has no `\x7b\x7d` " ++
            "placeholder — `path` exists only to be substituted by a `with <ref>...` call site; " ++
            "a fixed path with no placeholder belongs in the endpoint URL itself, not in a " ++
            "`path` declaration")
      else
        refuse (place ++ "`path` template must start with `/`, got " ++ py.repr template)
  | _ => refuse (place ++ "`path` takes one double-quoted template, no spaces")

/-- The check of a `call` to a target: as many words behind `with` as its template has
placeholders. -/
def checkPathArguments (lineno : ℕ) (target : String) (template : Option PathTemplate)
    (args : Option (List String)) : Except LowerError Unit :=
  let place := "line " ++ toString lineno ++ ": "
  let placeholders := (template.map fun t => countPlaceholders t.text.toList).getD 0
  let given := (args.map List.length).getD 0
  if placeholders = given then .ok ()
  else
    match template with
    | none =>
      refuse (place ++ "`with` needs a `path` declared on capability http " ++ target ++
        " to substitute into")
    | some template =>
      refuse (place ++ "capability http " ++ target ++ "'s `path` " ++ py.repr template.text ++
        " has " ++ toString placeholders ++ " `\x7b\x7d` placeholder(s) but `with` gives " ++
        toString given ++ " argument(s)")

end Lnpl.Front
