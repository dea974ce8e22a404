import Lnpl.Interp.Interpreter

/-!
# Attempts

The programs of steps, blocks and bodies once more, noting of every attempt that is counted what it
found when it began and whether it came to the effects of its step.  The notes change nothing else:
the noted programs execute the ones of the run.

`Counted` is what the attempts of a record are to be, and `Clear` when they are.
-/

namespace Lnpl.Interp

open Lnpl.Lib

variable {ρ χ ν : Type} (rt : Runtime ρ χ ν) (call : Call)

/-- An attempt that is counted: the clock and `cancel_event` as it begins, and whether the effects
of the step are started. -/
structure Beginning where
  now : Nat
  cancelled : Bool
  started : Bool
deriving DecidableEq, Repr

/-! ### Steps -/

/-- The effects of a step, once its deadline has been found ahead. -/
def runEffects (step : Step) : Coro (Exec ρ χ ν) Exc Unit := do
  step.effects.forM (runEffect rt call)
  Coro.lift (modify (Exec.advance 5))

/-- `attempt`, with its beginning. -/
def notedAttempt (cancelled : Bool) (step : Step) :
    Coro (Exec ρ χ ν) Exc (Beginning × Option RunError) := do
  let now ← Coro.lift (return (← get).now)
  if call.deadline.any (· ≤ now) then
    return (⟨now, cancelled, false⟩,
      some { message := "deadline exhausted before step " ++ rt.lang.repr step.name
             failureKind := some "deadline" })
  let error ← Coro.tryCatch (do runEffects rt call step; return none) fun e =>
    match e with
    | .run e => pure (some e)
    | e => .fail e
  return (⟨now, cancelled, true⟩, error)

/-- `attemptLoop`, with the attempts it has counted. -/
def notedLoop (cancelled : Exec ρ χ ν → Bool) (step : Step) :
    Nat → List Beginning → Option RunError →
      Coro (Exec ρ χ ν) Exc (List Beginning × Option RunError)
  | 0, history, last => pure (history, last)
  | rounds + 1, history, last => do
    let attempts := history.length + 1
    let (signal, now) ← Coro.lift (do let s ← get; return (cancelled s, s.now))
    -- the attempt is counted and not made
    if decide (attempts > 1) && signal then return (history ++ [⟨now, true, false⟩], last)
    Coro.pause (pure ())
    let (beginning, result) ← notedAttempt rt call signal step
    match result with
    | none => return (history ++ [beginning], none)
    | some error =>
      Coro.pause (pure ())
      let again ← Coro.lift (return retryable call step attempts (← get).now)
      if !again then return (history ++ [beginning], some error)
      Coro.pause (pure ())
      Coro.lift do
        modify (Exec.log "WARN" "step retry" [("step", .str step.name),
          ("attempt", .int attempts), ("reason", .str error.message)])
        modify (Exec.advance (backoffMs attempts))
      Coro.pause (pure ())
      notedLoop cancelled step rounds (history ++ [beginning]) (some error)

/-- `executeStep`, with the attempts it has counted. -/
def notedStep (cancelled : Exec ρ χ ν → Bool) (step : Step) :
    Coro (Exec ρ χ ν) Exc (List Beginning × Outcome) := do
  let (history, error) ← notedLoop rt call cancelled step maxStepAttempts [] none
  Coro.pause (pure ())
  let outcome ← Coro.lift (finishStep rt call step history.length error)
  return (history, outcome)

/-! ### Blocks -/

/-- A worker's program that also notes its attempts. -/
abbrev NotedProgram (ρ χ ν : Type) := Coro (Exec ρ χ ν) Exc (List Beginning × Outcome)

/-- A block, and beside it what is left of its workers' programs when they note their attempts. -/
structure Watched (ρ χ ν : Type) where
  block : Block ρ χ ν
  noted : List (NotedProgram ρ χ ν)

/-- The worker of which a move executes a slice. -/
def Block.sliced (cap : Nat) (b : Block ρ χ ν) : Move → Option Nat
  | .run i =>
    match b.workers[i]? with
    | some .pending => if b.mayStart cap i then some i else none
    | some (.running ..) => some i
    | _ => none
  | _ => none

namespace Watched

/-- The block moves, and the noted program with it. -/
def move (cap : Nat) (programs : List (Coro (Exec ρ χ ν) Exc Outcome)) (w : Watched ρ χ ν)
    (m : Move) : Watched ρ χ ν where
  block := w.block.move cap programs m
  noted :=
    match w.block.sliced cap m with
    | some i => w.noted.modify i fun c => (c.slice w.block.exec).2
    | none => w.noted

def drainRunning (w : Watched ρ χ ν) (i : Nat) : Watched ρ χ ν where
  block := w.block.drainRunning i
  noted :=
    match w.block.workers[i]? with
    | some (.running ..) => w.noted.modify i fun c => c.completed w.block.exec
    | _ => w.noted

def drainPending (programs : List (Coro (Exec ρ χ ν) Exc Outcome)) (w : Watched ρ χ ν) (i : Nat) :
    Watched ρ χ ν where
  block := w.block.drainPending programs i
  noted :=
    match w.block.workers[i]? with
    | some .pending => w.noted.modify i fun c => c.completed w.block.exec
    | _ => w.noted

/-- `Block.join`, watched. -/
def join (cap : Nat) (programs : List (Coro (Exec ρ χ ν) Exc Outcome)) (moves : List Move)
    (w : Watched ρ χ ν) : Watched ρ χ ν :=
  let w := moves.foldl (move cap programs) w
  let w := (List.range programs.length).foldl drainRunning w
  (List.range programs.length).foldl (drainPending programs) w

end Watched

/-- `runWorkers`, watched. -/
def watchWorkers (steps : List Step) (moves : List Move) (exec : Exec ρ χ ν) : Watched ρ χ ν :=
  Watched.join (poolSize call steps) (steps.map (executeStepWithRetry rt call)) moves
    { block := {
        exec := { exec with cancelEvent := false }
        workers := steps.map fun _ => .pending }
      noted := steps.map (notedStep rt call Exec.cancelEvent) }

/-! ### Occurrences of steps -/

/-- A step that was executed to its end: its record, and the attempts that the record counts. -/
structure Occurrence where
  step : Step
  record : StepRecord
  history : List Beginning

/-- A step of the main loop that begins in the state `s`. -/
def sequentialOccurrence (under : List Nat) (step : Step) (s : Exec ρ χ ν) : List Occurrence :=
  match (notedStep rt call (fun _ => false) step).run s with
  | .ok (history, outcome) _ => [⟨step, stepRecord step none under outcome, history⟩]
  | .error .. => []

/-- A worker that is over, of the block with this number. -/
def workerOccurrence (block : Nat) (under : List Nat) (step : Step) :
    NotedProgram ρ χ ν → Option Occurrence
  | .ret (history, outcome) => some ⟨step, stepRecord step (some block) under outcome, history⟩
  | _ => none

/-- The workers of a block that begins in the state `r`, in declared order. -/
def blockOccurrences (schedules : Nat → List Move) (under : List Nat) (steps : List Step)
    (r : Run ρ χ ν) : List Occurrence :=
  let noted := (watchWorkers rt call steps (schedules r.blocks.length) r.exec).noted
  (steps.zip noted).filterMap fun p => workerOccurrence r.blocks.length under p.1 p.2

/-! ### The main loop -/

/-- A program of the main loop that notes the steps it has executed. -/
abbrev N (ρ χ ν : Type) := EStateM Exc (Run ρ χ ν × List Occurrence)

def noteSequentialStep (under : List Nat) (step : Step) : N ρ χ ν Flow :=
  EStateM.noting (fun r => sequentialOccurrence rt call under step r.exec)
    (runSequentialStep rt call under step)

def notePipeline (under : List Nat) : List Step → N ρ χ ν Flow
  | [] => return .next
  | step :: steps => do
    match ← noteSequentialStep rt call under step with
    | .stop => return .stop
    | .next => notePipeline under steps

def noteParallelBlock (schedules : Nat → List Move) (under : List Nat) (steps : List Step) :
    N ρ χ ν Flow :=
  EStateM.noting (blockOccurrences rt call schedules under steps)
    (runParallelBlock rt call schedules under steps)

def noteWhen (g : GuardNode) (alternatives : List String) (item : Nat → N ρ χ ν Flow)
    (steps : List Step) (otherwise : Option ((Nat → N ρ χ ν Flow) × List Step)) :
    N ρ χ ν Flow := do
  let results ← EStateM.unnoted (evaluateGuard rt call g (g.condition :: alternatives))
  let evaluation ← EStateM.unnoted nextEvaluation
  let condition := guardConditionText g.condition alternatives
  if results.any Prod.fst then
    EStateM.unnoted (logFired g alternatives (results.findIdx Prod.fst))
    match ← item evaluation with
    | .stop => return .stop
    | .next =>
      match otherwise with
      | none => return .next
      | some (_, steps) =>
        EStateM.unnoted (skip rt g .otherwise condition steps none [] evaluation)
        return .next
  else
    EStateM.unnoted (skip rt g .when condition steps none (results.flatMap Prod.snd) evaluation)
    EStateM.unnoted (logRun "INFO" "guard skipped the guarded item"
      [("guard", .str g.id), ("condition", .str condition)])
    match otherwise with
    | none => return .next
    | some (run, _) => run evaluation

def noteUntilLoop (g : GuardNode) (deadline : Option Nat) (item : N ρ χ ν Flow) :
    Nat → N ρ χ ν Rounds
  | 0 => EStateM.unnoted (do
    if ← untilEnds rt call g deadline untilRoundCap then return .ended untilRoundCap
    logRun "WARN" "until loop hit round cap"
      [("guard", .str g.id), ("rounds", .int untilRoundCap), ("reason", .str "round_cap")]
    return .ended untilRoundCap)
  | left + 1 => do
    let rounds := untilRoundCap - (left + 1)
    if ← EStateM.unnoted (untilEnds rt call g deadline rounds) then return .ended rounds
    match ← item with
    | .stop => return .stopped
    | .next => noteUntilLoop g deadline item left

def noteUntil (g : GuardNode) (item : Nat → N ρ χ ν Flow) (steps : List Step) : N ρ χ ν Flow := do
  let evaluation ← EStateM.unnoted nextEvaluation
  let r ← EStateM.unnoted get
  let deadline := call.con.timeoutMs.map (· + r.exec.now)
  match ← noteUntilLoop rt call g deadline (item evaluation) untilRoundCap with
  | .stopped => return .stop
  | .ended (_ + 1) => return .next
  | .ended 0 => EStateM.unnoted (do
    let results ← evaluateGuard rt call g [g.condition]
    skip rt g .until g.condition steps (some 0) (results.flatMap Prod.snd) evaluation
    logRun "INFO" "guard skipped the guarded item"
      [("guard", .str g.id), ("condition", .str g.condition), ("rounds", .int 0)]
    return .next)

def noteRepeat (item : N ρ χ ν Flow) : Nat → N ρ χ ν Flow
  | 0 => return .next
  | count + 1 => do
    match ← item with
    | .stop => return .stop
    | .next => noteRepeat item count

/-- `runItem`, with the steps it has executed. -/
def noteItem (schedules : Nat → List Move) : List Nat → Item → N ρ χ ν Flow
  | under, .step s => noteSequentialStep rt call under s
  | under, .concurrency _ steps => noteParallelBlock rt call schedules under steps
  | under, .pipeline _ steps => notePipeline rt call under steps
  | under, .when g alternatives item =>
    noteWhen rt call g alternatives (fun n => noteItem schedules (n :: under) item) item.steps none
  | under, .whenOtherwise g alternatives item otherwise =>
    noteWhen rt call g alternatives (fun n => noteItem schedules (n :: under) item) item.steps
      (some (fun n => noteItem schedules (n :: under) otherwise, otherwise.steps))
  | under, .until g item =>
    noteUntil rt call g (fun n => noteItem schedules (n :: under) item) item.steps
  | under, .repeat _ count item => do
    EStateM.unnoted (modify fun r => { r with repeats := r.repeats ++ [count] })
    noteRepeat (noteItem schedules under item) count

/-- `runBody`, with the steps it has executed. -/
def noteBody (schedules : Nat → List Move) : List Item → N ρ χ ν Flow
  | [] => return .next
  | item :: items => do
    match ← noteItem rt call schedules [] item with
    | .stop => return .stop
    | .next => noteBody schedules items

/-- The steps that a run of the workflow executes, in the order of their records. -/
def occurrences (wf : Workflow) (payload : Dict) (fill : FillSource → String)
    (schedules : Nat → List Move) (s : Exec ρ χ ν) : List Occurrence :=
  let call := startCall rt wf payload fill s.now
  match boundary rt .begin { run := { exec := logStart rt call s.fresh } } with
  | .ok _ begun => (EStateM.final (noteBody rt call schedules wf.body) (begun.run, [])).2
  | .error .. => []

/-! ### The law of attempts -/

/-- `deadline is not None and self.clock.now >= deadline`, as the attempt began. -/
def Beginning.late (b : Beginning) : Bool := call.deadline.any (· ≤ b.now)

/-- What the attempts of a record are to be: as many as there were starts of the effects, within the
policy and the ceiling, one where an effect may not be run again, and none but the first begun at
the deadline or past it. -/
structure Counted (o : Occurrence) : Prop where
  starts : o.record.attempts = o.history.countP Beginning.started
  bounded : o.record.attempts ≤ min (call.con.retry + 1) maxStepAttempts
  once : (∃ e ∈ o.step.effects, e.idempotent = false) → o.record.attempts = 1
  inTime : ∀ b ∈ o.history.tail, b.late call = false

/-- No attempt begins at the deadline or past it, and no further one with `cancel_event` set. -/
structure Clear (o : Occurrence) : Prop where
  inTime : ∀ b ∈ o.history, b.late call = false
  uncancelled : ∀ b ∈ o.history.tail, b.cancelled = false

end Lnpl.Interp
