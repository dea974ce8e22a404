import Lnpl.Interp.Values

/-!
# The compiled document

The parts of a document that a run reads: its entities, the constraints of the service that owns
the workflow, and the workflow's body as a tree.  The source keeps the nodes in one table by id;
a lowered body is a tree over it, and the ids are kept on its nodes.  Guard conditions and
right-hand sides stay texts, as in the document: the interpreter parses them where it evaluates
them.
-/

namespace Lnpl.Interp

/-- Where a `derived` field gets its value at a create. -/
inductive FillSource where
  | generated
  | clock
deriving DecidableEq, Repr

structure Field where
  name : String
  type : String
  optional : Bool := false
  derived : Bool := false
  fillSource : Option FillSource := none
deriving DecidableEq, Repr

structure Entity where
  id : String
  name : String
  fields : List Field
deriving DecidableEq, Repr

/-- The operations of a RepositoryCall that `execute` carries out. -/
inductive Operation where
  | read
  | create
  | update
  | delete
deriving DecidableEq, Repr

def Operation.text : Operation → String
  | .read => "read"
  | .create => "create"
  | .update => "update"
  | .delete => "delete"

inductive CacheOperation where
  | get
  | set
  | invalidate
deriving DecidableEq, Repr

/-- One term of a `list where`; `value` is the text of its right side. -/
structure PredicateTerm where
  field : String
  op : String
  value : String
deriving DecidableEq, Repr

/-- `order by`. -/
structure Order where
  field : String
  desc : Bool
deriving DecidableEq, Repr

/-- One entry of a `payloadMap` or `bodyMap`. -/
structure MapEntry where
  field : String
  ref : Ref
deriving DecidableEq, Repr

/-- A named aggregate term of a `respond`. -/
structure AggTerm where
  name : String
  func : String
  ref : String
  aggFieldType : Option String
deriving DecidableEq, Repr

/-- An effect of a step, with the id of its node. -/
inductive Effect where
  | assignment (id : String) (binding field : String) (expression : String)
      (aggFieldType : Option String)
  | validation (id : String) (rule : String) (target : String)
  | query (id : String) (entity : String) (predicate : List PredicateTerm)
      (order : Option Order) (limit : Option Nat)
  | repositoryCall (id : String) (entity : String) (operation : Operation) (lookup : Option Ref)
      (cached : Bool) (result : Option String)
  | cacheAccess (id : String) (operation : CacheOperation) (key : List String)
  | authorization (id : String) (requirement : Option String)
  | networkCall (id : String) (target : String) (pathArgs : List Ref) (bodyMap : List MapEntry)
      (result : Option String)
  | eventEmit (id : String) (event : Option String) (payloadMap : List MapEntry)
  | response (id : String) (refs : List Ref) (aggTerms : List AggTerm) (listTerm : Option String)
  | annotated (id : String) (template : String) (refs : List Ref)
  | rejection (id : String) (code : String)
deriving Repr

/-- The `kind` of the effect's node. -/
def Effect.kind : Effect → String
  | .assignment .. => "Assignment"
  | .validation .. => "Validation"
  | .query .. | .repositoryCall .. => "RepositoryCall"
  | .cacheAccess .. => "CacheAccess"
  | .authorization .. => "Authorization"
  | .networkCall .. => "NetworkCall"
  | .eventEmit .. => "EventEmit"
  | .response .. => "Response"
  | .annotated .. => "Annotation"
  | .rejection .. => "Rejection"

/-- A WorkflowStep. -/
structure Step where
  id : String
  name : String
  effects : List Effect
deriving Repr

/-- A Guard's own data: its condition and the operand names its Text-equality terms record, by
position in `condition :: alternatives`. -/
structure GuardNode where
  id : String
  condition : String
  textEqualityOperands : List (List String) := []
deriving DecidableEq, Repr

/-- An item of a workflow body. -/
inductive Item where
  | step (s : Step)
  | concurrency (id : String) (steps : List Step)
  | pipeline (id : String) (steps : List Step)
  | when (g : GuardNode) (alternatives : List String) (item : Item)
  | whenOtherwise (g : GuardNode) (alternatives : List String) (item otherwise : Item)
  | until (g : GuardNode) (item : Item)
  | repeat (id : String) (count : Nat) (item : Item)
deriving Repr

/-- What `_constraints` reads off the owning service. -/
structure Constraints where
  retry : Nat := 0
  timeoutMs : Option Nat := none
  rollback : Bool := false
  cacheTtlMs : Option Nat := none
  parallelCap : Option Nat := none
deriving DecidableEq, Repr

/-- The steps of an item, in declared order. -/
def Item.steps : Item → List Step
  | .step s => [s]
  | .concurrency _ steps => steps
  | .pipeline _ steps => steps
  | .when _ _ item => item.steps
  | .whenOtherwise _ _ item otherwise => item.steps ++ otherwise.steps
  | .until _ item => item.steps
  | .repeat _ _ item => item.steps

/-- A workflow.  Its steps are nodes of one table, so their ids are distinct. -/
structure Workflow where
  id : String
  name : String
  body : List Item
  constraints : Constraints
  distinct : ((body.flatMap Item.steps).map Step.id).Nodup := by decide

/-- The steps reachable from the workflow's children, in declared order. -/
def Workflow.steps (wf : Workflow) : List Step := wf.body.flatMap Item.steps

/-- A document, as a run reads it.  `refinements` gives the base of each declared refinement. -/
structure Document where
  entities : List Entity
  events : List String
  refinements : List (String × String)
  workflows : List Workflow

namespace Document

/-- The effects of all steps of the document. -/
def effects (doc : Document) : List Effect :=
  doc.workflows.flatMap fun wf => wf.steps.flatMap Step.effects

/-- `binding_name`. -/
def bindingName (name : String) : String :=
  match name.toList with
  | [] => ""
  | c :: cs => String.ofList (c.toLower :: cs)

/-- `nodes.get(entity_id)`, for an entity. -/
def entity? (doc : Document) (id : String) : Option Entity := doc.entities.find? fun e => e.id = id

/-- `_entity_id_for_binding`: the later of two entities with one binding name. -/
def entityIdForBinding (doc : Document) (binding : String) : Option String :=
  (doc.entities.reverse.find? fun e => bindingName e.name = binding).map Entity.id

/-- The 18-type base a declared type resolves to. -/
def base (doc : Document) (type : String) : String :=
  match doc.refinements.find? fun r => r.1 = type with
  | some r => r.2
  | none => type

/-- `masked_field_names(_entity_view(entity))`. -/
def maskedFieldNames (doc : Document) (e : Entity) : List String :=
  (e.fields.filter fun f => doc.base f.type = "Password").map Field.name

/-- `mask_payload(payload, _entity_view(entity))`, the payload itself when there is no entity. -/
def maskPayload (doc : Document) (payload : Dict) (e : Option Entity) : Dict :=
  match e with
  | none => payload
  | some e => payload.map fun k v => if k ∈ doc.maskedFieldNames e then mask else v

/-- `_entity_node`: the first declared entity. -/
def entityNode (doc : Document) : Option Entity := doc.entities.head?

/-- `_input_masked_names`. -/
def inputMaskedNames (doc : Document) : List String := doc.entities.flatMap doc.maskedFieldNames

/-- `omit_masked_fields(payload, _input_masked_names())`. -/
def omitMaskedFields (doc : Document) (payload : Dict) : Dict :=
  payload.filter fun k _ => k ∉ doc.inputMaskedNames

/-- The entity marks the field `optional`. -/
def isOptional (e : Entity) (field : String) : Bool :=
  e.fields.any fun f => f.name = field && f.optional

/-- The fields of that name, over all entities. -/
def declaring (doc : Document) (field : String) : List Field :=
  doc.entities.flatMap fun e => e.fields.filter fun f => f.name = field

/-- Every entity declaring the name marks it `optional`, and one declares it. -/
def inputOptional (doc : Document) (field : String) : Bool :=
  !(doc.declaring field).isEmpty && (doc.declaring field).all Field.optional

/-- `_normalize_optional_nulls`. -/
def normalizeOptionalNulls (doc : Document) (payload : Dict) : Dict :=
  payload.filter fun k v => !(doc.inputOptional k && v.isNull)

end Document

end Lnpl.Interp
