import Lnpl.Lib.Coroutine
import Lnpl.Interp.Document

/-!
# What a run works on

The parts a run is given: the document, the expression language, the drivers behind the
`repository`, `cache` and `network` capabilities and the caller; and the state `Exec` that the
effects of its steps read and change.

The expression language appears as the functions the interpreter calls (`Lang`), on the texts the
document holds.  The drivers are arbitrary: a call of one is a program on the driver's own state
that answers or raises.
-/

namespace Lnpl.Interp

/-! ### The expression language -/

/-- One entry of the `collector` of a condition. -/
structure Evaluation where
  ref : Ref
  value : Json
  op : String
  expected : Json
  holds : Bool

/-- The functions of the expression language that a run calls. -/
structure Lang where
  /-- Python's `str` of a JSON value -/
  str : Json → String
  /-- Python's `repr` of a text -/
  repr : String → String
  /-- Python's `<` on two JSON values -/
  lt : Json → Json → Except Exc Bool
  /-- Python's `<=` on two JSON values -/
  le : Json → Json → Except Exc Bool
  /-- Python's `==` on two JSON values -/
  eq : Json → Json → Bool
  /-- `_condition_holds`, with what its collector collects -/
  conditionHolds : String → Option (List String) → Scope → Except Exc (Bool × List Evaluation)
  /-- the value of an Assignment's right side -/
  assignmentValue : String → Option String → Scope → RowSets → Except Exc Json
  /-- `_resolve_predicate_value` of a parsed `list where` value -/
  predicateValue : String → Scope → Except Exc Json
  /-- `_aggregate` of a named `respond` term -/
  aggregate : String → Option String → RowSets → Except Exc Json
  /-- `validate_effect` -/
  validate : String → String → Dict → Except Exc Unit
  /-- `schema_generation` -/
  schemaGeneration : Entity → Json

/-! ### Drivers -/

/-- What `execute` answers. -/
inductive Found where
  | none
  | dict (row : Stored)
  | other

/-- A registered event publication. -/
structure Emission where
  emissionId : String
  event : String
  payload : Dict

/-- A `RepositoryDriver` on a state `ρ`.  `persist` answers with the row object it was handed, as
it leaves it: a versioning driver advances the version the object observed. -/
structure Repo (ρ : Type) where
  /-- the driver is a `FakeRepository` -/
  isFake : Bool := false
  begin : EStateM Exc ρ Unit
  commit : EStateM Exc ρ Unit
  rollback : EStateM Exc ρ Unit
  execute : String → Operation → String → EStateM Exc ρ Found
  query : String → EStateM Exc ρ (List Dict)
  /-- `query` with a predicate, for a driver that declares `supports_predicate` -/
  queryPredicate : Option (String → Option (List (String × String × Json)) → Option Order →
    Option Nat → EStateM Exc ρ (List Dict)) := none
  persist : String → String → Stored → EStateM Exc ρ Stored
  recordEmission : Emission → EStateM Exc ρ Unit

/-- A `CacheDriver` on a state `χ`; `get` and `set` are given the clock's reading. -/
structure Cache (χ : Type) where
  get : Nat → String → EStateM Exc χ (Option Stored)
  set : Nat → String → Stored → Option Nat → EStateM Exc χ Unit
  invalidate : String → EStateM Exc χ Unit

/-- An outbound call, as the driver receives it. -/
structure Outbound where
  target : String
  body : Dict
  pathArgs : Option (List Json)

/-- A `NetworkDriver` on a state `ν`; a call is given the time that remains. -/
structure Network (ν : Type) where
  call : Outbound → Int → EStateM Exc ν (Int × Json)

/-- What an `Interpreter` is built from. -/
structure Runtime (ρ χ ν : Type) where
  doc : Document
  lang : Lang
  repo : Repo ρ
  cache : Cache χ
  network : Network ν
  caller : Option Dict := none

/-- What is fixed for one run: its workflow, its payload after `_normalize_optional_nulls`, the
fill-source values it decided at its start and its deadline. -/
structure Call where
  workflow : Workflow
  payload : Dict
  fill : FillSource → String
  deadline : Option Nat

/-- `con`. -/
def Call.con (call : Call) : Constraints := call.workflow.constraints

/-! ### The state of an execution -/

/-- A record of `trace.logs`. -/
structure Log where
  level : String
  message : String
  fields : List (String × Json)

/-- A record of `repo_ops`. -/
structure RepoOp where
  entity : String
  op : String
  key : Option String
  lookup : Option Ref

/-- The call may change the row under the entity and key. -/
def RepoOp.writes (op : RepoOp) (entity key : String) : Bool :=
  op.entity = entity && op.key = some key && op.op ∈ ["create", "update", "delete", "persist"]

/-- Bookkeeping of the model: a call of `persist` by an Assignment; the entity and key the row bound
to its target was read or created under, whether a `create` bound it, and whether another binding
that was assigned holds a row of the same entity and key. -/
structure Persisted where
  binding : String
  entity : String
  key : String
  origin : Option (String × String)
  created : Bool
  shared : Bool

/-- Bookkeeping of the model: a row that a `cached` read returned, whether the cache answered it,
and whether the run has written under its key before. -/
structure CachedRead where
  entity : String
  key : String
  row : Dict
  hit : Bool
  own : Bool

/-- What the effects of a run's steps read and change. -/
structure Exec (ρ χ ν : Type) where
  repo : ρ
  cache : χ
  network : ν
  now : Nat := 0
  bindings : Bindings := {}
  rowsets : RowSets := {}
  bindingKeys : Std.ExtTreeMap String String := {}
  readThroughWrites : List String := []
  readThroughInvalidations : List String := []
  outbox : List Emission := []
  repoOps : List RepoOp := []
  logs : List Log := []
  /-- the `cancel_event` of the parallel block that is running -/
  cancelEvent : Bool := false
  /-- bookkeeping: the Assignments that called `persist`, and the bindings whose last call of it has
  not returned -/
  persisted : List Persisted := []
  unsettled : List String := []
  /-- bookkeeping: the rows of `cached` reads, and the keys whose invalidation met an outage -/
  cachedReads : List CachedRead := []
  outages : List String := []
  /-- bookkeeping: the outbound calls -/
  sent : List Outbound := []

/-- A program on the state of an execution. -/
abbrev M (ρ χ ν : Type) := EStateM Exc (Exec ρ χ ν)

variable {ρ χ ν α : Type}

/-- `raise RunError(message)`, with the `failure_kind` it is given. -/
def fail (message : String) (kind : Option String := none) : M ρ χ ν α :=
  throw (.run { message := message, failureKind := kind })

namespace Exec

/-- `self.clock.advance(ms)`. -/
def advance (ms : Nat) (s : Exec ρ χ ν) : Exec ρ χ ν := { s with now := s.now + ms }

/-- `self.trace.log(level, message, **fields)`. -/
def log (level message : String) (fields : List (String × Json)) (s : Exec ρ χ ν) : Exec ρ χ ν :=
  { s with logs := s.logs ++ [⟨level, message, fields⟩] }

/-- `self.repo_ops.append(..)`. -/
def noteOp (op : RepoOp) (s : Exec ρ χ ν) : Exec ρ χ ν := { s with repoOps := s.repoOps ++ [op] }

/-- A row that a `cached` read returns. -/
def noteCached (entity key : String) (row : Dict) (hit : Bool) (s : Exec ρ χ ν) : Exec ρ χ ν :=
  { s with cachedReads := s.cachedReads ++
      [⟨entity, key, row, hit, s.repoOps.any fun op => op.writes entity key⟩] }

/-- Some Assignment to the binding has called `persist`. -/
def assigned (s : Exec ρ χ ν) (binding : String) : Bool :=
  s.persisted.any fun p => p.binding = binding

/-- Another binding that was assigned holds a row of the same entity and key. -/
def sharesOrigin (s : Exec ρ χ ν) (binding : String) (row : Row) : Bool :=
  s.bindings.toList.any fun p => p.1 ≠ binding && p.2.origin = row.origin && s.assigned p.1

/-- An Assignment calls `persist`. -/
def beginPersist (p : Persisted) (s : Exec ρ χ ν) : Exec ρ χ ν :=
  { s with persisted := s.persisted ++ [p], unsettled := p.binding :: s.unsettled }

/-- The call has returned. -/
def endPersist (binding : String) (s : Exec ρ χ ν) : Exec ρ χ ν :=
  { s with unsettled := s.unsettled.filter (· ≠ binding) }

/-- `bindings[name] = row`. -/
def bind (name : String) (row : Row) (s : Exec ρ χ ν) : Exec ρ χ ν :=
  { s with bindings := s.bindings.insert name row }

/-- `binding_keys[name] = key`. -/
def bindKey (name key : String) (s : Exec ρ χ ν) : Exec ρ χ ν :=
  { s with bindingKeys := s.bindingKeys.insert name key }

/-- `rowsets[name] = rows`. -/
def bindRows (name : String) (rows : List Dict) (s : Exec ρ χ ν) : Exec ρ χ ν :=
  { s with rowsets := s.rowsets.insert name rows }

/-- What a reference of the run can see. -/
def scope (rt : Runtime ρ χ ν) (call : Call) (s : Exec ρ χ ν) : Scope :=
  ⟨call.payload, s.bindings, rt.caller⟩

end Exec

/-- A call of the repository driver. -/
def onRepo (m : EStateM Exc ρ α) : M ρ χ ν α :=
  Lib.EStateM.zoom Exec.repo (fun r s => { s with repo := r }) m

/-- A call of the cache driver. -/
def onCache (m : EStateM Exc χ α) : M ρ χ ν α :=
  Lib.EStateM.zoom Exec.cache (fun c s => { s with cache := c }) m

/-- A call of the network driver. -/
def onNetwork (m : EStateM Exc ν α) : M ρ χ ν α :=
  Lib.EStateM.zoom Exec.network (fun n s => { s with network := n }) m

/-- `try: .. except DriverError as exc: raise RunError(str(exc)) from exc`. -/
def translated (m : M ρ χ ν α) : M ρ χ ν α := tryCatch m fun e => throw e.translated

/-- `try: .. except DriverError: ..`, with what the handler does. -/
def orOutage (m : M ρ χ ν α) (outage : M ρ χ ν α) : M ρ χ ν α :=
  tryCatch m fun e =>
    match e with
    | .driver _ _ => outage
    | e => throw e

/-- `self._read_through_entities`: the entities that a `cached` read targets. -/
def Document.readThroughEntities (doc : Document) : List String :=
  doc.effects.filterMap fun e =>
    match e with
    | .repositoryCall _ entity _ _ true _ => some entity
    | _ => none

end Lnpl.Interp
