import Lnpl.Front.Parser
import Lnpl.Interp.Dimensions
import Lnpl.Interp.RepoPolicy

/-!
# Given lines

The closed vocabulary of the `given` lines of a `spec` block (`GIVEN_FORMS`): how a line is
classified, which names it may use, and how its value is read.
-/

namespace Lnpl.Spec

open Front (Python)
open Interp (Json JsonOps Lang FillSource Entity Document)

/-- What leaves the spec runner: a `SpecError`, a `ValueError` of `int`, or a `KeyError`. -/
inductive Fault where
  | spec (message : String)
  | value (text : String)
  | key (name : String)
  deriving DecidableEq, Repr

/-- What the spec runner is run with. -/
structure Runner where
  py : Python
  lang : Lang
  /-- Python's `repr` of a JSON value -/
  repr : Json → String
  /-- `sample_for_type`, with the refinements of the document; `None` where there is no sample -/
  sample : String → Json
  isUpper : Char → Bool
  /-- `str.lower` -/
  lower : String → String

/-- The operations on JSON values of the run. -/
def Runner.ops (runner : Runner) : JsonOps where
  repr := runner.repr
  str := runner.lang.str
  eq := runner.lang.eq

variable (runner : Runner)

/-! ### Schemas -/

/-- What a stage knows of an entity: its declared name, its binding name, and its fields. -/
structure SchemaEntry where
  name : String
  binding : String
  fields : List String
  deriving DecidableEq, Repr

/-- `_schema_from_nodes`. -/
def schemaFromNodes (entities : List Entity) : List SchemaEntry :=
  entities.map fun e =>
    { name := if e.name = "" then "?" else e.name
      binding := Document.bindingName e.name
      fields := e.fields.map Interp.Field.name }

/-- `_declared`. -/
def declared (names : List String) : String :=
  let names := Lib.Py.sortTexts names
  if names.isEmpty then "none" else ", ".intercalate names

/-! ### Forms -/

/-- A classified line, by its form. -/
inductive Given where
  | valid
  | emptyRepository
  | inputField (name value : String)
  | noInputField (name : String)
  | field (name value : String)
  | noField (name : String)
  | stored (entity field value : String)
  | storedIndexed (entity index field value : String)
  | networkStub (target status : String)
  | networkStubBody (target status key value : String)
  | run (marker : FillSource) (value : String)
  deriving DecidableEq, Repr

/-- The forms of `GIVEN_FORMS`, as they are written. -/
def givenForms : List String :=
  ["valid <아무 명사>", "empty repository", "input.<field> <value>", "no input.<field>",
   "<field> <value>", "no <field>", "stored <entity> <field> <value>",
   "stored <entity>[<i>] <field> <value>", "call <target> returns <status>",
   "call <target> returns <status> body.<key> <value>", "run.generated <uuid>",
   "run.clock <instant>"]

/-- `_known_forms`. -/
def knownForms : String := ", ".intercalate (givenForms.map fun form => s!"`{form}`")

/-- The text behind a prefix. -/
def after? (start text : String) : Option String :=
  if start.toList.isPrefixOf text.toList then
    some (String.ofList (text.toList.drop start.toList.length))
  else none

/-- `\d` -/
def isDecimal (py : Python) (ch : Char) : Bool := py.isDigit ch && (py.decimal ch).isSome

/-- `[A-Za-z]` -/
def isLetter (ch : Char) : Bool := ('A' ≤ ch && ch ≤ 'Z') || ('a' ≤ ch && ch ≤ 'z')

/-- `_INDEXED_ENTITY_RE`: the entity and its index. -/
def indexedEntity (py : Python) (token : String) : Option (String × String) :=
  let chars := token.toList
  let name := chars.takeWhile (· ≠ '[')
  let index := (chars.drop (name.length + 1)).dropLast
  if name.head?.any isLetter && name.all (fun ch => isLetter ch || ('0' ≤ ch && ch ≤ '9')) &&
      !index.isEmpty && index.all (isDecimal py) && chars = name ++ ['['] ++ index ++ [']'] then
    some (String.ofList name, String.ofList index)
  else none

/-- The marker of `FILL_SOURCES`. -/
def fillSource? : String → Option FillSource
  | "generated" => some .generated
  | "clock" => some .clock
  | _ => none

/-- `_check_run_given`; `marker` is behind `run.`. -/
def checkRunGiven (phrase marker : String) (tokens : List String) : Except String Given :=
  match tokens, fillSource? marker with
  | [_, value], some .generated =>
    if Interp.isUuid value then .ok (.run .generated value)
    else .error ("given " ++ runner.py.repr phrase ++ ": field 'run.generated' is not a valid UUID")
  | [_, value], some .clock =>
    match Interp.encodeInstant runner.py value "run.clock" with
    | .ok _ => .ok (.run .clock value)
    | .error e => .error ("given " ++ runner.py.repr phrase ++ ": " ++ e)
  | _, _ =>
    .error ("unsupported given: " ++ runner.py.repr phrase ++
      " (use `run.generated <uuid>` or `run.clock <instant>`, RFC-0055)")

/-- The `stored` lines of `_check_given`. -/
def checkStored (schema : List SchemaEntry) (phrase : String) :
    List String → Except String Given
  | [_, token, field, value] =>
    let indexed := indexedEntity runner.py token
    let entity := (indexed.map Prod.fst).getD token
    match schema.find? fun entry => entry.name = entity || entry.binding = entity with
    | none =>
      .error ("given " ++ runner.py.repr phrase ++ " names " ++ runner.py.repr entity ++
        ", which is not a declared entity (declared: " ++ declared (schema.map SchemaEntry.name) ++
        ")")
    | some target =>
      if !target.fields.contains field then
        .error ("given " ++ runner.py.repr phrase ++ " names field " ++ runner.py.repr field ++
          ", which entity " ++ target.name ++ " does not declare")
      else
        match indexed with
        | some (_, index) => .ok (.storedIndexed entity index field value)
        | none => .ok (.stored entity field value)
  | _ =>
    .error ("unsupported given: " ++ runner.py.repr phrase ++
      " (use `stored <entity> <field> <value>` or `stored <entity>[<i>] <field> <value>`)")

/-- The `call` lines of `_check_given`. -/
def checkCall (phrase : String) (tokens : List String) : Except String Given :=
  let needsInteger (status : String) : Except String Given :=
    .error ("given " ++ runner.py.repr phrase ++ " needs an integer status, got " ++
      runner.py.repr status)
  let unsupported : Except String Given :=
    .error ("unsupported given: " ++ runner.py.repr phrase ++ " (use `call <target> returns " ++
      "<status>` or `call <target> returns <status> body.<key> <value>`)")
  match tokens with
  | [_, target, "returns", status] =>
    if runner.py.isdigit status then .ok (.networkStub target status) else needsInteger status
  | [_, target, "returns", status, body, value] =>
    match after? "body." body with
    | none => unsupported
    | some key =>
      if !runner.py.isdigit status then needsInteger status
      else if key = "" then
        .error ("given " ++ runner.py.repr phrase ++ " names no body key after 'body.'")
      else .ok (.networkStubBody target status key value)
  | _ => unsupported

/-- The refusal of a name that is no input field. -/
def notInputField (phrase name : String) (fields : List String) : Except String Given :=
  .error ("given " ++ runner.py.repr phrase ++ " names input field " ++ runner.py.repr name ++
    ", which no declared entity has. The input payload is the union of every declared entity's " ++
    "fields (RFC-0015 §G15.2). Declared: " ++ declared fields)

/-- The two-word lines of `_check_given` that set a field, or drop it. -/
def checkField (fields : List String) (phrase first second : String) : Except String Given :=
  let dropping : Bool := first = "no"
  let bare : Except String Given :=
    let name := if dropping then second else first
    if !fields.contains name then
      .error ("given " ++ runner.py.repr phrase ++ " names field " ++ runner.py.repr name ++
        ", which no declared entity has (declared: " ++ declared fields ++
        "). For a stored row use `stored <entity> <field> <value>`.")
    else if dropping then .ok (.noField name)
    else .ok (.field name second)
  match after? "input." first, after? "input." second with
  | some name, _ =>
    if fields.contains name then .ok (.inputField name second)
    else notInputField runner phrase name fields
  | none, some name =>
    if !dropping then bare
    else if fields.contains name then .ok (.noInputField name)
    else notInputField runner phrase name fields
  | none, none => bare

/-- `_check_given`; `place` leads the message of a refusal. -/
def checkGiven (schema : List SchemaEntry) (place phrase : String) : Except Fault Given :=
  let fields := (schema.flatMap SchemaEntry.fields).dedup
  let tokens := Front.tokens phrase
  let classified : Except String Given :=
    match tokens with
    | [] => .error "empty `given` line"
    | first :: rest =>
      if phrase = "empty repository" then .ok .emptyRepository
      else if first = "valid" then .ok .valid
      else if first = "stored" then checkStored runner schema phrase tokens
      else if first = "call" then checkCall runner phrase tokens
      else
        match after? "run." first, rest with
        | some marker, _ => checkRunGiven runner phrase marker tokens
        | none, [second] => checkField runner fields phrase first second
        | none, _ =>
          .error ("unsupported given: " ++ runner.py.repr phrase ++ " — known forms: " ++
            knownForms)
  classified.mapError fun message => .spec (place ++ message)

/-! ### Values -/

/-- `text.lstrip("-").isdigit()`. -/
def readsAsInt (py : Python) (text : String) : Bool :=
  py.isdigit (String.ofList (text.toList.dropWhile (· = '-')))

/-- `int(text)`. -/
def toInt (text : String) : Except Fault Json :=
  match Interp.intText runner.py text with
  | some n => .ok (.int n)
  | none => .error (.value text)

/-- `_MONEY_LITERAL_RE`: the digits before the point, those behind it, and the currency. -/
def moneyLiteral (py : Python) (token : String) :
    Option (List Char × Option (List Char) × List Char) :=
  let chars := if token.toList.getLast? = some '\n' then token.toList.dropLast else token.toList
  let whole := chars.takeWhile (isDecimal py)
  let rest := chars.drop whole.length
  let isCurrency (code : List Char) : Bool :=
    code.length = 3 && code.all fun ch => 'A' ≤ ch && ch ≤ 'Z'
  if whole.isEmpty then none
  else
    match rest with
    | '.' :: rest =>
      let fraction := rest.takeWhile (isDecimal py)
      let code := rest.drop fraction.length
      if !fraction.isEmpty && isCurrency code then some (whole, some fraction, code) else none
    | code => if isCurrency code then some (whole, none, code) else none

/-- `parse_money_literal`; the error is the text of a `MoneyError`. -/
def parseMoneyLiteral (token : String) : Except String (Option Json) :=
  match moneyLiteral runner.py token with
  | none => .ok none
  | some (whole, fraction, code) =>
    let currency := String.ofList code
    match Interp.exponent runner.ops (.str currency) with
    | .error (.money _ message) | .error (.value message) => .error message
    | .ok places =>
      let digits := (fraction.map List.length).getD 0
      if digits ≠ places then
        .error (token ++ " has " ++ toString digits ++ " decimal place(s), currency " ++ currency ++
          " requires exactly " ++ toString places)
      else
        let amount :=
          match fraction with
          | none => String.ofList whole
          | some fraction => String.ofList (whole ++ ['.'] ++ fraction)
        .ok (some (.obj [("amount", .str amount), ("currency", .str currency)]))

/-- `_money_literal_or_raise`. -/
def moneyLiteralOrRaise (text place : String) : Except Fault Json :=
  match parseMoneyLiteral runner text with
  | .error message => .error (.spec (place ++ message))
  | .ok (some value) => .ok value
  | .ok none =>
    .error (.spec (place ++ runner.py.repr text ++ " is not a valid Money literal — expected " ++
      "<integer>[.<digits>]<currency>, e.g. 100.50USD"))

/-- `_typed_value` of a field of the base. -/
def typedValue (text : String) (base : Option String) : Except Fault Json :=
  if base = some "Integer" && readsAsInt runner.py text then toInt runner text
  else if base = some "Money" then moneyLiteralOrRaise runner text ""
  else .ok (.str text)

/-- `_coerce`. -/
def coerce (text : String) : Except Fault Json :=
  if readsAsInt runner.py text then toInt runner text else .ok (.str text)

/-- The value of a `stored` line, for a field of the base. -/
def storedValue (text : String) (base : Option String) : Except Fault Json :=
  if base = some "Money" then moneyLiteralOrRaise runner text "" else coerce runner text

end Lnpl.Spec

/-!
## Manifests

`extract`: the `spec` blocks of the parsed workflows as cases, with what this stage refuses of
their lines.
-/

namespace Lnpl.Spec

open Front (Decl Line)

/-- A case of a manifest. -/
structure Case where
  name : String
  workflow : String
  given : List String
  «when» : List String
  expect : List String
  deriving DecidableEq, Repr

variable (runner : Runner)

/-! ### Workflow ids -/

/-- The words of `split_pascal`, from the word read so far. -/
def pascalWords : List Char → List Char → List (List Char)
  | word, [] => if word.isEmpty then [] else [word]
  | word, ch :: chars =>
    let startsWord := runner.isUpper ch && !word.isEmpty &&
      (!word.getLast?.any runner.isUpper || chars.head?.any runner.py.isLower)
    if startsWord then word :: pascalWords [ch] chars else pascalWords (word ++ [ch]) chars

/-- `_workflow_id`. -/
def workflowId (name : String) : String :=
  let parts := (pascalWords runner [] name.toList).map fun word =>
    runner.lower (String.ofList word)
  let parts := if 1 < parts.length ∧ parts.getLast? = some "workflow" then parts.dropLast else parts
  ".".intercalate ("wf" :: parts)

/-! ### Declarations -/

/-- `d.clauses.get(clause, [])`. -/
def clause (d : Decl) (name : String) : List Line := (d.clauses.lookup name).getD []

/-- `_schema_from_decls`. -/
def schemaFromDecls (decls : List Decl) : List SchemaEntry :=
  (decls.filter fun d => d.kind = .entity).map fun d =>
    { name := d.name
      binding := Interp.Document.bindingName d.name
      fields := ((clause d "field").map Line.head).dedup }

/-- The fields of an entity, each with the base of its type. -/
def fieldBases (decls : List Decl) (d : Decl) : List (String × String) :=
  (clause d "field").filterMap fun line =>
    match line.tokens with
    | name :: type :: _ =>
      match (decls.filter fun r => r.kind = .refine).reverse.find? fun r => r.name = type with
      | some refined => some (name, refined.base.getD "None")
      | none => some (name, type)
    | _ => none

/-- The Money fields of an entity, `per_entity` of `_money_field_base_map`. -/
def moneyFields (decls : List Decl) (entity : String) : Option (List String) :=
  let declaring := (decls.filter fun d => d.kind = .entity).reverse.find? fun d =>
    d.name = entity || Interp.Document.bindingName d.name = entity
  declaring.map fun d => ((fieldBases decls d).filter fun f => f.2 = "Money").map Prod.fst

/-- The base of an input field, `union_type` of `_money_field_base_map`. -/
def unionBase (decls : List Decl) (field : String) : Option String :=
  ((decls.filter fun d => d.kind = .entity).flatMap (fieldBases decls)).reverse.lookup field

/-- `_is_money_ref`. -/
def isMoneyRef (decls : List Decl) (ref : String) : Bool :=
  match Front.partitionName ref with
  | none => unionBase decls ref = some "Money"
  | some (entity, field) =>
    match moneyFields decls entity with
    | some fields => fields.contains field
    | none => unionBase decls field = some "Money"

/-! ### Given and expect lines -/

/-- `_check_given_money_literal`. -/
def checkGivenMoneyLiteral (decls : List Decl) (place : String) (g : Given) : Except Fault Unit :=
  let literal (value : String) : Except Fault Unit := do
    let _ ← moneyLiteralOrRaise runner value place
  match g with
  | .stored entity field value | .storedIndexed entity _ field value =>
    if ((moneyFields decls entity).getD []).contains field then literal value else .ok ()
  | .inputField name value | .field name value =>
    if unionBase decls name = some "Money" then literal value else .ok ()
  | _ => .ok ()

/-- The line stores a row. -/
def Given.stores : Given → Bool
  | .stored .. | .storedIndexed .. => true
  | _ => false

/-- `_validate_given`. -/
def validateGiven (given : List String) (decls : List Decl) (place : String) :
    Except Fault Unit := do
  let lines ← given.mapM fun phrase => do
    let g ← checkGiven runner (schemaFromDecls decls) place phrase
    checkGivenMoneyLiteral runner decls place g
    return g
  if lines.any Given.stores && given.contains "empty repository" then
    .error (.spec (place ++ "`empty repository` and `stored ...` contradict each other: there " ++
      "is no row to store into an empty store. Drop one."))

/-- One line of `_validate_expect_money`. -/
def checkExpectMoney (decls : List Decl) (place phrase : String) : Except Fault Unit :=
  match Front.tokens phrase with
  | ["result", ref, op, value] =>
    if (Front.Comparator.ofWord? op).isSome && isMoneyRef decls ref then
      match parseMoneyLiteral runner value with
      | .error message => .error (.spec (place ++ message))
      | .ok _ => .ok ()
    else .ok ()
  | _ => .ok ()

/-! ### Extraction -/

/-- One block of `extract`. -/
def extractBlock (decls : List Decl) (d : Decl) (blocks : Nat) (i : Nat) (block : Front.Spec) :
    Except Fault Case := do
  let phrases (lines : List Line) : List String := lines.map fun line => Front.unwords line.tokens
  let label := if blocks = 1 then "a spec" else s!"spec block {i}"
  let given := phrases block.given
  let expect := phrases block.expect
  if block.when.isEmpty then
    .error (.spec (s!"workflow {d.name}: {label} needs a `when` section"))
  if expect.isEmpty then
    .error (.spec (s!"workflow {d.name}: {label} needs an `expect` section"))
  let place := s!"workflow {d.name}: {label}: "
  validateGiven runner given decls place
  expect.forM (checkExpectMoney runner decls place)
  return {
    name := if blocks = 1 then s!"{d.name} spec" else s!"{d.name} spec {i}"
    workflow := workflowId runner d.name
    given := given
    «when» := phrases block.when
    expect := expect }

/-- The cases of one workflow. -/
def extractDecl (decls : List Decl) (d : Decl) : Except Fault (List Case) :=
  if d.kind ≠ .workflow ∨ ¬ d.clauses.any (fun clause => clause.1 = "spec") then .ok []
  else if !(clause d "spec").isEmpty then
    .error (.spec (s!"workflow {d.name}: the `spec` keyword takes no content lines — put them " ++
      "under given/when/expect"))
  else
    let stray := ["given", "when", "expect"].filter fun name => !(clause d name).isEmpty
    if !stray.isEmpty then
      let names := "/".intercalate stray
      .error (.spec (s!"workflow {d.name}: {names} lines appear before the first `spec` block — " ++
        "move them under it"))
    else
      (d.specs.zipIdx 1).mapM fun block =>
        extractBlock runner decls d d.specs.length block.2 block.1

/-- `extract`: the cases of the manifest. -/
def extract (decls : List Decl) : Except Fault (List Case) := do
  return (← decls.mapM (extractDecl runner decls)).flatten

end Lnpl.Spec
