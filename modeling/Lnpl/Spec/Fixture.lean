import Lnpl.Lib.LastTold
import Lnpl.Lib.Tables
import Lnpl.Spec.Manifest

/-!
# Fixtures

What `run_manifest` builds of the given lines of a case before it runs it: the payload, the seeded
tables, the stubs of the network and the run context.
-/

namespace Lnpl.Spec

open Interp (Json Dict Ref Document Workflow Entity Item Effect Step Operation)
open Lib (Tables)

variable (runner : Runner) (doc : Document)

/-! ### Sample payloads -/

/-- One entity of `sample_payload`. -/
def sampleEntity (payload : Dict) (e : Entity) : Dict :=
  e.fields.foldl (fun payload f =>
    if f.derived then payload
    else
      match runner.sample f.type with
      | .null => payload
      | value => payload.insert f.name value) payload

/-- `sample_payload`. -/
def samplePayload (entities : List Entity) : Dict := entities.foldl (sampleEntity runner) ∅

/-! ### Validated entities -/

/-- A node of a workflow's body. -/
inductive BodyNode where
  | item (i : Item)
  | step (s : Step)
  | effect (e : Effect)

def BodyNode.children : BodyNode → List BodyNode
  | item (.step s) => s.effects.map effect
  | item (.concurrency _ steps) | item (.pipeline _ steps) => steps.map step
  | item (.when _ _ i) | item (.until _ i) | item (.repeat _ _ i) => [item i]
  | item (.whenOtherwise _ _ i otherwise) => [item i, item otherwise]
  | step s => s.effects.map effect
  | effect _ => []

/-- The nodes in the order in which they leave the stack: level by level.  A level is as deep as the
first argument says at most. -/
def levels : Nat → List BodyNode → List BodyNode
  | 0, _ => []
  | depth + 1, nodes => nodes ++ levels depth (nodes.flatMap BodyNode.children)

/-- The levels of an item. -/
def itemDepth : Item → Nat
  | .step _ => 2
  | .concurrency _ _ | .pipeline _ _ => 3
  | .when _ _ i | .until _ i | .repeat _ _ i => itemDepth i + 1
  | .whenOtherwise _ _ i otherwise => max (itemDepth i) (itemDepth otherwise) + 1

/-- `nodes.get(workflow_id)`, for a workflow. -/
def workflow? (id : String) : Option Workflow := doc.workflows.find? fun wf => wf.id = id

/-- The entity that a semantic-type Validation names. -/
def BodyNode.validates : BodyNode → Option String
  | effect (.validation _ "semantic-types" target) => some target
  | _ => none

/-- `_validated_entities`. -/
def validatedEntities (workflow : String) : List Entity :=
  let body := ((workflow? doc workflow).map Workflow.body).getD []
  let nodes := levels ((body.map itemDepth).foldr max 0) (body.map BodyNode.item)
  let targets := (nodes.filterMap BodyNode.validates).filterMap doc.entity?
  targets.foldl (fun out e => if out.any fun seen => seen.id = e.id then out else out ++ [e]) []

/-! ### Default rows -/

/-- An operation on an entity, with its key. -/
structure RepositoryOp where
  entity : String
  operation : Option Operation
  lookup : Option Ref

/-- The RepositoryCall of an effect; a query has no operation. -/
def repositoryOp : Effect → Option RepositoryOp
  | .repositoryCall _ entity operation lookup _ _ => some ⟨entity, some operation, lookup⟩
  | .query _ entity _ _ _ => some ⟨entity, none, none⟩
  | _ => none

/-- `repository_calls`. -/
def repositoryCalls (workflow : String) : List RepositoryOp :=
  match workflow? doc workflow with
  | none => []
  | some wf => (wf.steps.flatMap Step.effects).filterMap repositoryOp

/-- `seeded_entities`: the first read or create of the entity is a read. -/
def isSeeded (workflow entity : String) : Bool :=
  let first := (repositoryCalls doc workflow).find? fun op =>
    op.entity = entity && (op.operation = some .read || op.operation = some .create)
  first.any fun op => op.operation = some .read

/-- `lookup_key_source`. -/
def lookupKeySource (workflow entity : String) : Option Ref :=
  ((repositoryCalls doc workflow).find? fun op =>
    op.entity = entity && op.operation = some .read).bind RepositoryOp.lookup

/-- The key of the row that the default seed has for an entity. -/
def defaultKey (workflow entity : String) (payload : Dict) : Option String :=
  if !isSeeded doc workflow entity then none
  else
    match lookupKeySource doc workflow entity with
    | some (.qualified binding field) =>
      if binding = Interp.payloadNamespace then
        let value := Dict.get payload field
        if value.isNull then none else some (Interp.rowKeyOf runner.lang entity value)
      else some (Interp.rowKey runner.lang entity payload)
    | _ => some (Interp.rowKey runner.lang entity payload)

/-- `default_rows`. -/
def defaultRows (workflow : String) (payload : Dict) : Tables String String Dict := fun entity =>
  match defaultKey runner doc workflow entity payload with
  | some key => (∅ : Std.ExtTreeMap String Dict).insert key payload
  | none => ∅

/-! ### Given lines -/

/-- `by_name.get(name) or by_binding[name]`. -/
def entityNamed (name : String) : Except Fault Entity :=
  match doc.entities.reverse.find? fun e => e.name = name with
  | some e => .ok e
  | none =>
    match doc.entities.reverse.find? fun e => Document.bindingName e.name = name with
    | some e => .ok e
    | none => .error (.key name)

/-- `_entity_field_base`. -/
def entityFieldBase (e : Entity) (field : String) : Option String :=
  (e.fields.find? fun f => f.name = field).map fun f => doc.base f.type

/-- The base of an input field: `field_types`, resolved. -/
def inputBase (field : String) : Option String :=
  ((doc.entities.flatMap Entity.fields).reverse.find? fun f => f.name = field).map fun f =>
    doc.base f.type

/-- `row.update(fields)`. -/
def update (row fields : Dict) : Dict := row ∪ fields

/-- The payload and the `stored` overrides. -/
structure Input where
  payload : Dict
  stored : Tables String String Json

/-- One line of `_payload_from_given`. -/
def payloadLine (input : Input) : Given → Except Fault Input
  | .valid | .emptyRepository | .run _ _ => .ok input
  | .stored name field text => do
    let e ← entityNamed doc name
    let value ← storedValue runner text (entityFieldBase doc e field)
    return { input with stored := input.stored.set e.id field value }
  | .inputField name text | .field name text => do
    let value ← typedValue runner text (inputBase doc name)
    return { input with payload := input.payload.insert name value }
  | .noInputField name | .noField name =>
    .ok { input with payload := input.payload.erase name }
  -- the `else` branch: `payload.pop(parts[0], None)`
  | .storedIndexed name _ _ _ => .ok { input with payload := input.payload.erase name }
  | .networkStub target _ | .networkStubBody target _ _ _ =>
    .ok { input with payload := input.payload.erase target }

/-- The line overrides a field of a seeded row. -/
def Given.overrides : Given → Bool
  | .stored .. => true
  | _ => false

/-- `_payload_from_given`, of the classified lines. -/
def payloadFromGiven (lines : List Given) : Except Fault Input := do
  let first : Input :=
    { payload := samplePayload runner doc.entityNode.toList
      stored := Tables.empty }
  let input ← lines.foldlM (payloadLine runner doc) first
  if lines.any Given.overrides && lines.contains .emptyRepository then
    .error (.spec ("`empty repository` and `stored ...` contradict each other: there is no row " ++
      "to store into an empty store. Drop one."))
  return input

/-- One line of `_indexed_seeds_from_given`. -/
def indexedLine (seeds : Tables String String Dict) :
    Given → Except Fault (Tables String String Dict)
  | .storedIndexed name index field text => do
    let e ← entityNamed doc name
    let value ← storedValue runner text (entityFieldBase doc e field)
    return seeds.set e.id index (((seeds.get e.id index).getD ∅).insert field value)
  | _ => .ok seeds

/-- `_indexed_seeds_from_given`. -/
def indexedSeedsFromGiven (lines : List Given) : Except Fault (Tables String String Dict) :=
  lines.foldlM (indexedLine runner doc) Tables.empty

/-- The stubs of the network by their targets, each a status and a body. -/
abbrev Stubs := Std.ExtTreeMap String (Int × Dict)

/-- `int(status)`. -/
def statusOf (text : String) : Except Fault Int :=
  match Interp.intText runner.py text with
  | some n => .ok n
  | none => .error (.value text)

/-- One line of `_network_stubs_from_given`. -/
def networkLine (stubs : Stubs) : Given → Except Fault Stubs
  | .networkStub target status => do
    let body := (stubs[target]?.map Prod.snd).getD ∅
    return stubs.insert target (← statusOf runner status, body)
  | .networkStubBody target status key text => do
    let body := (stubs[target]?.map Prod.snd).getD ∅
    let value ← coerce runner text
    return stubs.insert target (← statusOf runner status, body.insert key value)
  | _ => .ok stubs

/-- `_network_stubs_from_given`. -/
def networkStubsFromGiven (lines : List Given) : Except Fault Stubs :=
  lines.foldlM (networkLine runner) ∅

/-- The values that a run is pinned to, by the markers. -/
structure RunContext where
  generated : Option String := none
  clock : Option String := none
  deriving DecidableEq, Repr

/-- `run_context.get(marker)`. -/
def RunContext.get (context : RunContext) : Interp.FillSource → Option String
  | .generated => context.generated
  | .clock => context.clock

/-- One line of `_run_context_from_given`. -/
def contextLine (context : RunContext) : Given → RunContext
  | .run .generated value => { context with generated := some value }
  | .run .clock value => { context with clock := some value }
  | _ => context

/-- `_run_context_from_given`. -/
def runContextFromGiven (lines : List Given) : RunContext := lines.foldl contextLine {}

/-! ### The start of a run -/

/-- What a case runs from. -/
structure Start where
  payload : Dict
  rows : Tables String String Dict
  stubs : Stubs
  context : RunContext

/-- `FakeNetworkDriver`'s answer to a call. -/
def Start.answer (start : Start) (target : String) : Int × Dict :=
  start.stubs[target]?.getD (200, ∅)

/-- `row.update(overrides)`, of every seeded row. -/
def storeOverrides (stored : Tables String String Json) (rows : Tables String String Dict) :
    Tables String String Dict :=
  rows.map fun entity _ row => update row (stored entity)

/-- `table.setdefault(index, {}).update(fields)`, of every indexed row. -/
def seedIndexed (seeds rows : Tables String String Dict) : Tables String String Dict :=
  fun entity => rows entity ∪ (seeds entity).map fun index fields =>
    update ((rows.get entity index).getD ∅) fields

/-- The lines of a case, classified by the schema of the document. -/
def classify (given : List String) : Except Fault (List Given) :=
  given.mapM (checkGiven runner (schemaFromNodes doc.entities) "")

/-- What `run_manifest` builds of the lines of a case. -/
def build (workflow : String) (lines : List Given) : Except Fault Start := do
  let input ← payloadFromGiven runner doc lines
  let payload := update (samplePayload runner (validatedEntities doc workflow)) input.payload
  let rows :=
    if lines.contains .emptyRepository then Tables.empty
    else defaultRows runner doc workflow payload
  let seeds ← indexedSeedsFromGiven runner doc lines
  let stubs ← networkStubsFromGiven runner lines
  return {
    payload := payload
    rows := seedIndexed seeds (storeOverrides input.stored rows)
    stubs := stubs
    context := runContextFromGiven lines }

/-- The steps of an item as `_steps_in_order` unrolls it; a `repeat` of no rounds has none. -/
def unrolledSteps : Item → List Step
  | .step s => [s]
  | .concurrency _ steps | .pipeline _ steps => steps
  | .when _ _ i | .until _ i => unrolledSteps i
  | .whenOtherwise _ _ i otherwise => unrolledSteps i ++ unrolledSteps otherwise
  | .repeat _ count i => if count = 0 then [] else unrolledSteps i

/-- `_unpinned_generated`. -/
def unpinnedGenerated (workflow : String) (context : RunContext) : Option (String × String) :=
  if context.generated.isSome then none
  else do
    let wf ← workflow? doc workflow
    ((wf.body.flatMap unrolledSteps).flatMap Step.effects).findSome? fun
      | .repositoryCall _ entity .create _ _ _ => do
        let e ← doc.entity? entity
        let f ← e.fields.find? fun f => f.fillSource = some .generated
        return (e.name, f.name)
      | _ => none

/-- `run_manifest` runs the case, of these lines and from this start. -/
def Executes (c : Case) (lines : List Given) (start : Start) : Prop :=
  classify runner doc c.given = .ok lines ∧ build runner doc c.workflow lines = .ok start ∧
    unpinnedGenerated doc c.workflow start.context = none

end Lnpl.Spec

/-!
## Visible lines

A case says what its run starts from, line by line; of several lines about one thing the last one
counts.  A fixture is what its lines say if each of them can be seen in it.
-/

namespace Lnpl.Spec

open Interp (Json Dict Document Entity FillSource)
open Lib (lastTold)

variable (runner : Runner) (doc : Document)

/-! ### What a line tells -/

/-- The line sets an input field, or drops it. -/
def tellsInput (f : String) : Given → Option (Option (Except Fault Json))
  | .inputField name text | .field name text =>
    if name = f then some (some (typedValue runner text (inputBase doc f))) else none
  | .noInputField name | .noField name => if name = f then some none else none
  | _ => none

/-- The line stores a field of the entity. -/
def tellsStored (id f : String) : Given → Option (Except Fault Json)
  | .stored name field text =>
    match entityNamed doc name with
    | .ok e =>
      if e.id = id ∧ field = f then some (storedValue runner text (entityFieldBase doc e f))
      else none
    | .error _ => none
  | _ => none

/-- The line stores a field of a row of the entity. -/
def tellsIndexed (id index f : String) : Given → Option (Except Fault Json)
  | .storedIndexed name i field text =>
    match entityNamed doc name with
    | .ok e =>
      if e.id = id ∧ i = index ∧ field = f then
        some (storedValue runner text (entityFieldBase doc e f))
      else none
    | .error _ => none
  | _ => none

/-- The line gives the status of a target. -/
def tellsStatus (target : String) : Given → Option (Except Fault Int)
  | .networkStub t status | .networkStubBody t status _ _ =>
    if t = target then some (statusOf runner status) else none
  | _ => none

/-- The line gives a field of the body of a target. -/
def tellsBody (target key : String) : Given → Option (Except Fault Json)
  | .networkStubBody t _ k text => if t = target ∧ k = key then some (coerce runner text) else none
  | _ => none

/-- The line pins a value of the run. -/
def tellsRun (marker : FillSource) : Given → Option String
  | .run m value => if m = marker then some value else none
  | _ => none

/-! ### The law -/

/-- Every given line can be seen in what the run starts from. -/
structure Visible (lines : List Given) (start : Start) : Prop where
  input : ∀ f text, lastTold (tellsInput runner doc f) lines = some (some text) →
    ∃ value, text = .ok value ∧ start.payload[f]? = some value
  dropped : ∀ f, lastTold (tellsInput runner doc f) lines = some none →
    start.payload[f]? = none ∧
      ∀ id key row, start.rows.get id key = some row →
        lastTold (tellsStored runner doc id f) lines = none →
          lastTold (tellsIndexed runner doc id key f) lines = none → row[f]? = none
  stored : ∀ id f text, lastTold (tellsStored runner doc id f) lines = some text →
    ∃ value, text = .ok value ∧
      ∃ key row, start.rows.get id key = some row ∧ row[f]? = some value
  indexed : ∀ id index f text, lastTold (tellsIndexed runner doc id index f) lines = some text →
    ∃ value, text = .ok value ∧
      ∃ row, start.rows.get id index = some row ∧ row[f]? = some value
  status : ∀ target text, lastTold (tellsStatus runner target) lines = some text →
    text = .ok (start.answer target).1
  body : ∀ target key text, lastTold (tellsBody runner target key) lines = some text →
    ∃ value, text = .ok value ∧ (start.answer target).2[key]? = some value
  context : ∀ marker value, lastTold (tellsRun marker) lines = some value →
    start.context.get marker = some value

/-! ### The condition -/

/-- The line takes a field out of the payload that its target, or its entity, is named like. -/
def Given.pops (f : String) : Given → Bool
  | .storedIndexed name _ _ _ => name = f
  | .networkStub target _ | .networkStubBody target _ _ _ => target = f
  | _ => false

/-- What becomes of a field of the payload at a line. -/
def tellsPayload (f : String) (line : Given) : Option (Option (Except Fault Json)) :=
  match tellsInput runner doc f line with
  | some told => some told
  | none => if line.pops f then some none else none

/-- A sample of the entities has the field. -/
def Sampled (entities : List Entity) (f : String) : Prop :=
  ∃ e ∈ entities, ∃ field ∈ e.fields, field.name = f ∧ field.derived = false ∧
    (runner.sample field.type).isNull = false

/-- The field of the payload, as the lines and the samples determine it. -/
def payloadAt (workflow : String) (lines : List Given) (f : String) : Json :=
  let underlay := Dict.get (samplePayload runner (validatedEntities doc workflow)) f
  match lastTold (tellsPayload runner doc f) lines with
  | some (some (.ok value)) => value
  | some _ => underlay
  | none => ((samplePayload runner doc.entityNode.toList)[f]?).getD underlay

/-- The default seed has a row of the entity: the workflow reads it before it creates it, and the
input field that this read is by, if it is by one, is there. -/
def HasSeed (workflow : String) (lines : List Given) (id : String) : Prop :=
  isSeeded doc workflow id = true ∧
    ∀ f, lookupKeySource doc workflow id = some (.qualified Interp.payloadNamespace f) →
      (payloadAt runner doc workflow lines f).isNull = false

/-- No layer of the fixture undoes a line, and none misses one. -/
structure Effective (workflow : String) (lines : List Given) : Prop where
  /-- no later line pops what was set, unless the sample happens to have it -/
  kept : ∀ f value, lastTold (tellsInput runner doc f) lines = some (some (.ok value)) →
    lastTold (tellsPayload runner doc f) lines = some none →
      (samplePayload runner (validatedEntities doc workflow))[f]? = some value
  /-- no validated entity has a sample of what was dropped -/
  unsampled : ∀ f, lastTold (tellsInput runner doc f) lines = some none →
    ¬ Sampled runner (validatedEntities doc workflow) f
  /-- there is a row to store into, unless an indexed row has the value as well -/
  seeded : ∀ id f value, lastTold (tellsStored runner doc id f) lines = some (.ok value) →
    HasSeed runner doc workflow lines id ∨
      ∃ index, lastTold (tellsIndexed runner doc id index f) lines = some (.ok value)

end Lnpl.Spec
