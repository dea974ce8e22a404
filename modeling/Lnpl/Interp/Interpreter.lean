import Lnpl.Interp.Workflow

/-!
# Running a workflow

`run_workflow`: one transaction of the repository driver around the main loop, the terms of the
response, the keys of the read-through cache once the run is over, and the result.

A `Session` keeps the calls that open and close the transaction beside the state of the main loop,
so that nothing inside the loop can touch them.
-/

namespace Lnpl.Interp

open Lnpl.Lib

variable {ρ χ ν : Type} (rt : Runtime ρ χ ν) (call : Call)

/-! ### The transaction bracket -/

/-- The calls that open and close the transaction. -/
inductive BoundaryOp where
  | begin
  | commit
  | rollback
deriving DecidableEq, Repr

/-- A call of the bracket: which one, and whether it returned. -/
structure BoundaryCall where
  op : BoundaryOp
  returned : Bool
deriving DecidableEq, Repr

structure Session (ρ χ ν : Type) where
  run : Run ρ χ ν
  boundary : List BoundaryCall := []

/-- A program of `run_workflow`. -/
abbrev W (ρ χ ν : Type) := EStateM Exc (Session ρ χ ν)

/-- A program of the main loop. -/
def onRun {α : Type} (m : L ρ χ ν α) : W ρ χ ν α :=
  EStateM.zoom Session.run (fun r s => { s with run := r }) m

/-- The call of the driver for an operation of the bracket. -/
def Repo.boundary (repo : Repo ρ) : BoundaryOp → EStateM Exc ρ Unit
  | .begin => repo.begin
  | .commit => repo.commit
  | .rollback => repo.rollback

/-- The session after a call of the bracket that left the driver in the state `r`. -/
def Session.called (op : BoundaryOp) (returned : Bool) (r : ρ) (s : Session ρ χ ν) :
    Session ρ χ ν :=
  { run := { s.run with exec := { s.run.exec with repo := r } }
    boundary := s.boundary ++ [⟨op, returned⟩] }

/-- `self.repo.begin()`, `self.repo.commit()` or `self.repo.rollback()`. -/
def boundary (op : BoundaryOp) : W ρ χ ν Unit := fun s =>
  match rt.repo.boundary op s.run.exec.repo with
  | .ok _ r => .ok () (s.called op true r)
  | .error e r => .error e (s.called op false r)

/-! ### Read-through keys -/

/-- `_invalidate_read_through`; the outage is kept as bookkeeping. -/
def invalidateReadThrough (key : String) : M ρ χ ν Unit :=
  orOutage (onCache (rt.cache.invalidate key))
    (modify fun s => { s with outages := s.outages ++ [key] })

/-- `_discard_read_through_writes`. -/
def discardReadThroughWrites : M ρ χ ν Unit := do
  (← get).readThroughWrites.forM (invalidateReadThrough rt)
  modify fun s => { s with readThroughWrites := [] }

/-- `_invalidate_written_after_commit`. -/
def invalidateWrittenAfterCommit : M ρ χ ν Unit := do
  (← get).readThroughInvalidations.forM (invalidateReadThrough rt)
  modify fun s => { s with readThroughInvalidations := [] }

/-! ### The terms of the response -/

/-- The `{"items", "next"}` envelope of a list term. -/
def listEnvelope (rowsets : RowSets) (binding : String) : Dict :=
  let view := (rt.doc.entityIdForBinding binding).bind rt.doc.entity?
  let rows := (rowsets[binding]?.getD []).map fun row => Json.obj (rt.doc.maskPayload row view).toList
  ((∅ : Dict).insert "items" (.arr rows)).insert "next" .null

/-- The named terms of one `respond`, added to the response. -/
def aggregateTerms (rowsets : RowSets) : List AggTerm → Dict → Except Exc Dict
  | [], response => .ok response
  | term :: terms, response => do
    let value ← rt.lang.aggregate (term.func ++ " " ++ term.ref) term.aggFieldType rowsets
    aggregateTerms rowsets terms (response.insert term.name value)

/-- `_respond_terms`. -/
def respondTerms (rowsets : RowSets) (term : ResponseTerm) (response : Dict) :
    Except Exc Dict := do
  let response ← aggregateTerms rt rowsets term.aggTerms response
  match term.listTerm with
  | none => return response
  | some binding => return listEnvelope rt rowsets binding

/-- The terms of the response, in order; the first that cannot be evaluated fails the run. -/
def evaluateTerms : List ResponseTerm → Dict → L ρ χ ν (Option Dict)
  | [], response => return some response
  | term :: terms, response => do
    match respondTerms rt (← get).exec.rowsets term response with
    | .ok response => evaluateTerms terms response
    | .error (.run e) =>
      modify (Run.failWith ⟨term.step, e.message, e.failureKind, e.cause⟩)
      onExec (modify (Exec.log "ERROR" "step failed"
        [("step", .str term.step), ("reason", .str e.message)]))
      return none
    | .error e => throw e

/-- The terms of a completed run; nothing where there are none. -/
def termResponse : L ρ χ ν (Option Dict) := do
  let r ← get
  if r.failure.isSome || r.responseTerms.isEmpty then return none
  evaluateTerms rt r.responseTerms ∅

/-! ### The result -/

structure Result where
  failure : Option Failure
  steps : List StepRecord
  skipped : List SkipRecord
  bindings : Std.ExtTreeMap String Dict
  response : Option Dict
  emissions : List Emission
  notes : List Note

/-- `result["status"] == "completed"`. -/
def Result.completed (r : Result) : Bool := r.failure.isNone

/-- `_masked_bindings`. -/
def maskedBindings (bindings : Bindings) : Std.ExtTreeMap String Dict :=
  bindings.map fun name row =>
    let id := (rt.doc.entityIdForBinding name).orElse fun _ => row.entityId
    rt.doc.maskPayload row.data (id.bind rt.doc.entity?)

/-- One reference of the response, from the masked bindings. -/
def respondRef (bindings : Bindings) (response : Std.ExtTreeMap String Dict) (ref : Ref) :
    Std.ExtTreeMap String Dict :=
  let (binding, field) := ref.parts
  match (maskedBindings rt bindings)[binding]? with
  | none => response
  | some row =>
    let entity := rt.doc.resolveEntityForBinding binding bindings
    match row[field]? with
    | none => response
    | some value =>
      if entity.any (fun e => Document.isOptional e field) && value.isNull then response
      else response.insert binding ((response[binding]?.getD ∅).insert field value)

/-- `result["response"]`. -/
def assembleResponse (r : Run ρ χ ν) (terms : Option Dict) : Option Dict :=
  if r.failure.isNone && (!r.responseRefs.isEmpty || terms.isSome) then
    let fields := r.responseRefs.foldl (respondRef rt r.exec.bindings) ∅
    some ((fields.map fun _ row => Json.obj row.toList).insertMany (terms.getD ∅).toList)
  else none

def assembleResult (r : Run ρ χ ν) (terms : Option Dict) : Result where
  failure := r.failure
  steps := r.steps
  skipped := r.skipped
  bindings := maskedBindings rt r.exec.bindings
  response := assembleResponse rt r terms
  emissions := r.exec.outbox
  notes := r.notes

/-! ### `run_workflow` -/

/-- What a run starts from: the state of its interpreter with the execution scope and the lists of
the run emptied. -/
def Exec.fresh (s : Exec ρ χ ν) : Exec ρ χ ν :=
  { s with
    bindings := ∅, rowsets := ∅, bindingKeys := ∅, readThroughWrites := []
    readThroughInvalidations := [], repoOps := [], persisted := [], unsettled := []
    cachedReads := [], sent := [], cancelEvent := false }

/-- The call of a workflow: the payload normalised, the deadline fixed. -/
def startCall (wf : Workflow) (payload : Dict) (fill : FillSource → String) (now : Nat) : Call where
  workflow := wf
  payload := rt.doc.normalizeOptionalNulls payload
  fill := fill
  deadline := wf.constraints.timeoutMs.map (now + ·)

/-- The record of the start of the run. -/
def logStart (s : Exec ρ χ ν) : Exec ρ χ ν :=
  s.log "INFO" "workflow start" [("workflow", .str call.workflow.name),
    ("payload", .obj (rt.doc.maskPayload call.payload rt.doc.entityNode).toList)]

/-- What an exception does that escapes the main loop: a `RunError` rolls back. -/
def escape (e : Exc) : W ρ χ ν Flow :=
  if e.isRunError then do
    boundary rt .rollback
    onRun (onExec (discardReadThroughWrites rt))
    throw e
  else throw e

/-- The main loop inside the bracket. -/
def runLoop (schedules : Nat → List Move) : W ρ χ ν Flow :=
  tryCatch (onRun (runBody rt call schedules call.workflow.body)) (escape rt)

/-- The log of a rollback, where the service declares one. -/
def logRollback : L ρ χ ν Unit :=
  if call.con.rollback then
    logRun "INFO" ("rollback: execution boundary rolled back, writes made during this run " ++
      "are discarded") []
  else pure ()

/-- The end of the bracket: a completed run commits, and a failed one rolls back. -/
def closeBracket : W ρ χ ν Unit := do
  if (← get).run.failure.isNone then
    boundary rt .commit
    onRun (onExec (invalidateWrittenAfterCommit rt))
  else
    boundary rt .rollback
    onRun (onExec (discardReadThroughWrites rt))
    onRun (logRollback call)

/-- The main loop, and the terms of the response: what lies between the calls of the bracket. -/
def runInside (schedules : Nat → List Move) : W ρ χ ν (Option Dict) := do
  let _ ← runLoop rt call schedules
  onRun (termResponse rt)

/-- What follows `begin()`. -/
def runBegun (schedules : Nat → List Move) : W ρ χ ν Result := do
  let terms ← runInside rt call schedules
  closeBracket rt call
  return assembleResult rt (← get).run terms

/-- `run_workflow` once the workflow has been found. -/
def runCall (schedules : Nat → List Move) : W ρ χ ν Result := do
  onRun (onExec (modify (logStart rt call)))
  boundary rt .begin
  runBegun rt call schedules

/-- `run_workflow`, on the state of the interpreter. -/
def runWorkflow (id : String) (payload : Dict) (fill : FillSource → String)
    (schedules : Nat → List Move) (s : Exec ρ χ ν) : EStateM.Result Exc (Session ρ χ ν) Result :=
  match rt.doc.workflows.find? fun wf => wf.id = id with
  | none =>
    .error (.run { message := "no such workflow: " ++ rt.lang.repr id })
      { run := { exec := { s with repoOps := [], cachedReads := [] } } }
  | some wf =>
    runCall rt (startCall rt wf payload fill s.now) schedules { run := { exec := s.fresh } }

end Lnpl.Interp
