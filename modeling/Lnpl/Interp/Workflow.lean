import Lnpl.Interp.Steps

/-!
# Workflows

The main loop of a run (`_flatten_items`, `_run_parallel_block` and the loop of `run_workflow`) over
the body of a workflow, and `run_workflow` itself: the transaction bracket around the loop, the
terms of the response, and the result.

Every parallel block a run executes is given its schedule by its number.  The records keep some
bookkeeping of the model: the ids of their steps, the block they ran in, and a number for every
guard evaluation, under which the steps that it let run are recorded.
-/

namespace Lnpl.Interp

open Lnpl.Lib

variable {ρ χ ν : Type} (rt : Runtime ρ χ ν) (call : Call)

/-! ### Records -/

/-- An entry of `result["steps"]`, without its duration. -/
structure StepRecord where
  step : String
  attempts : Nat
  effects : List String
  /-- bookkeeping: the node, the parallel block by its number, the guard evaluations above it -/
  stepId : String
  block : Option Nat
  under : List Nat

inductive SkipMode where
  | when
  | otherwise
  | until
deriving DecidableEq, Repr

/-- An entry of `result["skipped"]`. -/
structure SkipRecord where
  guard : String
  mode : SkipMode
  condition : String
  steps : List String
  rounds : Option Nat
  evaluations : List Evaluation
  /-- bookkeeping: the guard evaluation that recorded it, and the nodes of its steps -/
  evaluation : Nat
  stepIds : List String

/-- What a failed run says of its failure. -/
structure Failure where
  step : String
  reason : String
  kind : Option String
  /-- bookkeeping: the `DriverError` that its error was raised from -/
  cause : Option DriverErrorClass

/-- Bookkeeping of the model: a parallel block that was executed. -/
structure BlockRun where
  steps : List Step
  ends : List WorkerEnd

/-- The state of the main loop. -/
structure Run (ρ χ ν : Type) where
  exec : Exec ρ χ ν
  steps : List StepRecord := []
  skipped : List SkipRecord := []
  /-- `failed_step`, `failure_reason` and `failure_kind`; none while the status is `completed` -/
  failure : Option Failure := none
  responseRefs : List Ref := []
  responseTerms : List ResponseTerm := []
  notes : List Note := []
  /-- bookkeeping: the guards evaluated, the blocks executed, the counts of the `repeat`s begun -/
  evaluated : Nat := 0
  blocks : List BlockRun := []
  repeats : List Nat := []

/-- A program of the main loop. -/
abbrev L (ρ χ ν : Type) := EStateM Exc (Run ρ χ ν)

/-- The loop pulls its next item, or stops at a failure. -/
inductive Flow where
  | next
  | stop
deriving DecidableEq, Repr

/-- A program on the state of the execution. -/
def onExec {α : Type} (m : M ρ χ ν α) : L ρ χ ν α :=
  EStateM.zoom Run.exec (fun s r => { r with exec := s }) m

/-- `failure_kind`, from the exception's cause or its own attribute. -/
def RunError.kind (e : RunError) : Option String :=
  match e.cause with
  | some .conflictError => some "conflict"
  | some .writeConflictError => some "write-conflict"
  | _ => e.failureKind

/-- The entry of a step that is over. -/
def stepRecord (step : Step) (block : Option Nat) (under : List Nat) (o : Outcome) : StepRecord :=
  { step := step.name
    attempts := o.attempts
    effects := (step.effects.map Effect.kind).filter (· ≠ "Annotation")
    stepId := step.id
    block := block
    under := under }

namespace Run

/-- The record of a step that is over, and its contributions. -/
def record (step : Step) (block : Option Nat) (under : List Nat) (o : Outcome)
    (r : Run ρ χ ν) : Run ρ χ ν :=
  { r with
    steps := r.steps ++ [stepRecord step block under o]
    responseRefs := r.responseRefs ++ o.responseRefs
    responseTerms := r.responseTerms ++ o.responseTerms
    notes := r.notes ++ o.notes }

/-- `result["status"] = "failed"`. -/
def failWith (f : Failure) (r : Run ρ χ ν) : Run ρ χ ν := { r with failure := some f }

/-- `deadline is not None and self.clock.now > deadline`. -/
def pastDeadline (call : Call) (r : Run ρ χ ν) : Bool := call.deadline.any (· < r.exec.now)

/-- The deadline has passed after a step. -/
def exceedDeadline (step : Step) (r : Run ρ χ ν) : Run ρ χ ν :=
  { r.failWith ⟨step.name, "deadline exceeded after step " ++ rt.lang.repr step.name,
      some "deadline", none⟩ with
    exec := r.exec.log "ERROR" "deadline exceeded" [("step", .str step.name),
      ("deadline_ms", ((call.con.timeoutMs.map fun ms => .int (ms : Nat)).getD .null))] }

end Run

/-! ### Steps and blocks -/

/-- A step of the main loop. -/
def runSequentialStep (under : List Nat) (step : Step) : L ρ χ ν Flow := do
  let o ← onExec (executeStepInline rt call step)
  modify (Run.record step none under o)
  match o.error with
  | some e =>
    modify (Run.failWith ⟨step.name, e.message, e.kind, e.cause⟩)
    return .stop
  | none =>
    if (← get).pastDeadline call then
      modify (Run.exceedDeadline rt call step)
      return .stop
    return .next

/-- Steps in declared order, until one fails. -/
def runPipeline (under : List Nat) : List Step → L ρ χ ν Flow
  | [] => return .next
  | step :: steps => do
    match ← runSequentialStep rt call under step with
    | .stop => return .stop
    | .next => runPipeline under steps

/-- The records of the workers that left an outcome, in declared order. -/
def recordOutcomes (block : Nat) (under : List Nat) (r : Run ρ χ ν) :
    List (Step × WorkerEnd) → Run ρ χ ν
  | [] => r
  | (step, .done _ o) :: rest =>
    recordOutcomes block under (r.record step (some block) under o) rest
  -- cancelled before it started, or left without an outcome: no record
  | (_, _) :: rest => recordOutcomes block under r rest

/-- The failed step that began first, and the first declared of those that began together. -/
def earliestFailure : List (Step × WorkerEnd) → Option (Nat × Step × RunError)
  | [] => none
  | (step, .done start ⟨_, some e, _, _, _⟩) :: rest =>
    match earliestFailure rest with
    | some (other, found) => if other < start then some (other, found) else some (start, step, e)
    | none => some (start, step, e)
  | _ :: rest => earliestFailure rest

/-- Some worker left an outcome. -/
def anyOutcome (ends : List WorkerEnd) : Bool :=
  ends.any fun e =>
    match e with
    | .done .. => true
    | _ => false

/-- A block that is over: its records, its contributions, and the failure it ended with. -/
def Run.join (under : List Nat) (steps : List Step) (ends : List WorkerEnd) (exec : Exec ρ χ ν)
    (r : Run ρ χ ν) : Run ρ χ ν :=
  let joined := recordOutcomes r.blocks.length under
    { r with exec := exec, blocks := r.blocks ++ [⟨steps, ends⟩] } (steps.zip ends)
  match earliestFailure (steps.zip ends) with
  | some (_, step, e) => joined.failWith ⟨step.name, e.message, e.kind, e.cause⟩
  | none => joined

/-- `_run_parallel_block`, and what the main loop does after it. -/
def runParallelBlock (schedules : Nat → List Move) (under : List Nat) (steps : List Step) :
    L ρ χ ν Flow := do
  let r ← get
  let (exec, ends) := runWorkers rt call steps (schedules r.blocks.length) r.exec
  modify (Run.join under steps ends exec)
  if (earliestFailure (steps.zip ends)).isSome then return .stop
  match steps.getLast? with
  | none => return .next
  | some last =>
    if anyOutcome ends && (← get).pastDeadline call then
      modify (Run.exceedDeadline rt call last)
      return .stop
    return .next

/-! ### Guards -/

/-- `guard_condition_text`. -/
def guardConditionText (condition : String) (alternatives : List String) : String :=
  " or ".intercalate (condition :: alternatives)

/-- `_masked_evaluation`. -/
def maskedEvaluation (e : Evaluation) : Evaluation :=
  match e.ref with
  | .bare _ => e
  | .qualified binding field =>
    if binding = payloadNamespace then e
    else { e with value :=
      rt.doc.maskField field e.value ((rt.doc.entityIdForBinding binding).bind rt.doc.entity?) }

/-- `_text_ops`. -/
def textOps (g : GuardNode) (index : Nat) : Option (List String) :=
  if g.textEqualityOperands.isEmpty then none else some (g.textEqualityOperands[index]?.getD [])

/-- The condition and every alternative from position `index` on, each evaluated: the terms are
pure, so none is left out. -/
def evaluateTexts (g : GuardNode) (s : Scope) :
    Nat → List String → Except Exc (List (Bool × List Evaluation))
  | _, [] => .ok []
  | index, text :: texts => do
    let result ← rt.lang.conditionHolds text (textOps g index) s
    return result :: (← evaluateTexts g s (index + 1) texts)

/-- `_condition_holds` of every text of a guard in the scope as it is now. -/
def evaluateGuard (g : GuardNode) (texts : List String) :
    L ρ χ ν (List (Bool × List Evaluation)) := do
  EStateM.ofExcept (evaluateTexts rt g ((← get).exec.scope rt call) 0 texts)

/-- A number for the evaluation of a guard. -/
def nextEvaluation : L ρ χ ν Nat := do
  let n := (← get).evaluated
  modify fun r => { r with evaluated := n + 1 }
  return n

/-- `result["skipped"].append(_skip_record(..))`. -/
def skip (g : GuardNode) (mode : SkipMode) (condition : String) (steps : List Step)
    (rounds : Option Nat) (evaluations : List Evaluation) (evaluation : Nat) : L ρ χ ν Unit :=
  modify fun r => { r with skipped := r.skipped ++ [{
    guard := g.id, mode := mode, condition := condition
    steps := steps.map Step.name, rounds := rounds
    evaluations := evaluations.map (maskedEvaluation rt)
    evaluation := evaluation, stepIds := steps.map Step.id }] }

/-- `trace.log` of the main loop. -/
def logRun (level message : String) (fields : List (String × Json)) : L ρ χ ν Unit :=
  onExec (modify (Exec.log level message fields))

/-- The log of the alternative that made a `when` hold. -/
def logFired (g : GuardNode) (alternatives : List String) (fired : Nat) : L ρ χ ν Unit :=
  match fired with
  | 0 => pure ()
  | i + 1 =>
    match alternatives[i]? with
    | some text => logRun "INFO" "guard alternative matched"
        [("guard", .str g.id), ("condition", .str text)]
    | none => pure ()

/-- The record of an `otherwise` whose guard held. -/
def skipOtherwise (g : GuardNode) (condition : String) (evaluation : Nat) :
    Option ((Nat → L ρ χ ν Flow) × List Step) → L ρ χ ν Unit
  | none => pure ()
  | some (_, steps) => skip rt g .otherwise condition steps none [] evaluation

/-- A `when` guard, with what it guards and what its `otherwise` holds, each with its steps. -/
def runWhen (g : GuardNode) (alternatives : List String) (item : Nat → L ρ χ ν Flow)
    (steps : List Step) (otherwise : Option ((Nat → L ρ χ ν Flow) × List Step)) :
    L ρ χ ν Flow := do
  let results ← evaluateGuard rt call g (g.condition :: alternatives)
  let evaluation ← nextEvaluation
  let condition := guardConditionText g.condition alternatives
  if results.any Prod.fst then
    logFired g alternatives (results.findIdx Prod.fst)
    match ← item evaluation with
    | .stop => return .stop
    | .next =>
      skipOtherwise rt g condition evaluation otherwise
      return .next
  else
    skip rt g .when condition steps none (results.flatMap Prod.snd) evaluation
    logRun "INFO" "guard skipped the guarded item"
      [("guard", .str g.id), ("condition", .str condition)]
    match otherwise with
    | none => return .next
    | some (run, _) => run evaluation

/-- How an `until` loop ended: at a failure, or after so many rounds. -/
inductive Rounds where
  | stopped
  | ended (rounds : Nat)

/-- `_UNTIL_ROUND_CAP`. -/
def untilRoundCap : Nat := 16

/-- The loop ends before its next round: its condition holds, or its deadline has passed. -/
def untilEnds (g : GuardNode) (deadline : Option Nat) (rounds : Nat) : L ρ χ ν Bool := do
  let results ← evaluateGuard rt call g [g.condition]
  if results.any Prod.fst then return true
  if deadline.any (· ≤ (← get).exec.now) then
    logRun "WARN" "until loop hit deadline"
      [("guard", .str g.id), ("rounds", .int rounds), ("reason", .str "deadline")]
    return true
  return false

/-- The rounds of an `until`, of which so many may still begin. -/
def untilLoop (g : GuardNode) (deadline : Option Nat) (item : L ρ χ ν Flow) :
    Nat → L ρ χ ν Rounds
  | 0 => do
    if ← untilEnds rt call g deadline untilRoundCap then return .ended untilRoundCap
    logRun "WARN" "until loop hit round cap"
      [("guard", .str g.id), ("rounds", .int untilRoundCap), ("reason", .str "round_cap")]
    return .ended untilRoundCap
  | left + 1 => do
    let rounds := untilRoundCap - (left + 1)
    if ← untilEnds rt call g deadline rounds then return .ended rounds
    match ← item with
    | .stop => return .stopped
    | .next => untilLoop g deadline item left

/-- An `until` guard. -/
def runUntil (g : GuardNode) (item : Nat → L ρ χ ν Flow) (steps : List Step) :
    L ρ χ ν Flow := do
  let evaluation ← nextEvaluation
  let deadline := call.con.timeoutMs.map (· + (← get).exec.now)
  match ← untilLoop rt call g deadline (item evaluation) untilRoundCap with
  | .stopped => return .stop
  | .ended (_ + 1) => return .next
  | .ended 0 =>
    -- the condition is pure: it is evaluated once more for the record of a loop without a round
    let results ← evaluateGuard rt call g [g.condition]
    skip rt g .until g.condition steps (some 0) (results.flatMap Prod.snd) evaluation
    logRun "INFO" "guard skipped the guarded item"
      [("guard", .str g.id), ("condition", .str g.condition), ("rounds", .int 0)]
    return .next

/-- The rounds of a `repeat`. -/
def repeatLoop (item : L ρ χ ν Flow) : Nat → L ρ χ ν Flow
  | 0 => return .next
  | count + 1 => do
    match ← item with
    | .stop => return .stop
    | .next => repeatLoop item count

/-! ### The body -/

/-- One item of the body, under the guard evaluations above it. -/
def runItem (schedules : Nat → List Move) : List Nat → Item → L ρ χ ν Flow
  | under, .step s => runSequentialStep rt call under s
  | under, .concurrency _ steps => runParallelBlock rt call schedules under steps
  | under, .pipeline _ steps => runPipeline rt call under steps
  | under, .when g alternatives item =>
    runWhen rt call g alternatives (fun n => runItem schedules (n :: under) item) item.steps none
  | under, .whenOtherwise g alternatives item otherwise =>
    runWhen rt call g alternatives (fun n => runItem schedules (n :: under) item) item.steps
      (some (fun n => runItem schedules (n :: under) otherwise, otherwise.steps))
  | under, .until g item =>
    runUntil rt call g (fun n => runItem schedules (n :: under) item) item.steps
  | under, .repeat _ count item => do
    modify fun r => { r with repeats := r.repeats ++ [count] }
    repeatLoop (runItem schedules under item) count

/-- The items of the body in declared order, until one fails. -/
def runBody (schedules : Nat → List Move) : List Item → L ρ χ ν Flow
  | [] => return .next
  | item :: items => do
    match ← runItem rt call schedules [] item with
    | .stop => return .stop
    | .next => runBody schedules items

end Lnpl.Interp
