import Mathlib.Algebra.Ring.Nat
import Lnpl.Interp.Effects

/-!
# Steps

One step under its retry policy: `_run_step`, `_retryable` and the loop over attempts, which the
main loop and the workers of a parallel block share, and what a step that is over leaves for the
result.
-/

namespace Lnpl.Interp

open Lnpl.Lib

variable {ρ χ ν : Type} (rt : Runtime ρ χ ν) (call : Call)

/-! ### One attempt -/

/-- `_run_step`. -/
def runStep (step : Step) : Coro (Exec ρ χ ν) Exc Unit := do
  Coro.lift do
    let now := (← get).now
    if call.deadline.any (· ≤ now) then
      fail ("deadline exhausted before step " ++ rt.lang.repr step.name) (some "deadline")
  step.effects.forM (runEffect rt call)
  Coro.lift (modify (Exec.advance 5))

/-! ### The retry policy -/

/-- `MAX_STEP_ATTEMPTS`. -/
def maxStepAttempts : Nat := 100

/-- `_backoff_ms`. -/
def backoffMs (attempt : Nat) : Nat := min (100 * 2 ^ (attempt - 1)) 1000

/-- The effect may be run again: a RepositoryCall or CacheAccess outside `IDEMPOTENT_OPS` may not,
nor may a NetworkCall, an EventEmit or a Rejection. -/
def Effect.idempotent : Effect → Bool
  | .repositoryCall _ _ .create _ _ _ => false
  | .networkCall .. | .eventEmit .. | .rejection .. => false
  | _ => true

/-- `_retryable`. -/
def retryable (step : Step) (attempts now : Nat) : Bool :=
  attempts < maxStepAttempts && attempts ≤ call.con.retry
    && !call.deadline.any (· ≤ now + backoffMs attempts) && step.effects.all Effect.idempotent

/-- One attempt, and the `RunError` it ended with, if any; any other exception passes. -/
def attempt (step : Step) : Coro (Exec ρ χ ν) Exc (Option RunError) :=
  Coro.tryCatch (do runStep rt call step; return none) fun e =>
    match e with
    | .run e => pure (some e)
    | e => .fail e

/-- The loop over attempts, with the number of attempts begun and the last error.  The lock is free
wherever it pauses.  `cancelled` is read before every attempt but the first.  The ceiling on
attempts is the number of rounds left: `retryable` has refused before it is zero. -/
def attemptLoop (cancelled : Exec ρ χ ν → Bool) (step : Step) :
    Nat → Nat → Option RunError → Coro (Exec ρ χ ν) Exc (Nat × Option RunError)
  | 0, attempts, last => pure (attempts, last)
  | rounds + 1, begun, last => do
    let attempts := begun + 1
    let stop ← Coro.lift (return decide (attempts > 1) && cancelled (← get))
    if stop then return (attempts, last)
    Coro.pause (pure ())
    match ← attempt rt call step with
    | none => return (attempts, none)
    | some error =>
      Coro.pause (pure ())
      let again ← Coro.lift (return retryable call step attempts (← get).now)
      if !again then return (attempts, some error)
      Coro.pause (pure ())
      Coro.lift do
        modify (Exec.log "WARN" "step retry" [("step", .str step.name),
          ("attempt", .int attempts), ("reason", .str error.message)])
        modify (Exec.advance (backoffMs attempts))
      Coro.pause (pure ())
      attemptLoop cancelled step rounds attempts (some error)

/-! ### What a step leaves -/

/-- A `note` with its resolved values. -/
structure Note where
  template : String
  values : List Json

/-- The terms of a `respond`, with the name of its step. -/
structure ResponseTerm where
  step : String
  aggTerms : List AggTerm
  listTerm : Option String

/-- `_note_values`, for one reference. -/
def noteValue (s : Scope) (ref : Ref) : Json :=
  let raw := resolveReference ref s
  match ref with
  | .bare _ => raw
  | .qualified binding field =>
    if raw.isNull || binding = payloadNamespace then raw
    else rt.doc.maskField field raw ((rt.doc.entityIdForBinding binding).bind rt.doc.entity?)

/-- The outcome of a step: the attempts begun, its final error, and what a step without an error
contributes to the response and the notes. -/
structure Outcome where
  attempts : Nat
  error : Option RunError
  responseRefs : List Ref := []
  responseTerms : List ResponseTerm := []
  notes : List Note := []

/-- What one effect of a step that succeeded contributes. -/
def contribute (s : Scope) (step : String) (o : Outcome) : Effect → Outcome
  | .response _ refs aggTerms listTerm =>
    { o with
      responseRefs := o.responseRefs ++ refs
      responseTerms := if aggTerms.isEmpty && listTerm.isNone then o.responseTerms
        else o.responseTerms ++ [⟨step, aggTerms, listTerm⟩] }
  | .annotated _ template refs =>
    { o with notes := o.notes ++ [⟨template, refs.map (noteValue rt s)⟩] }
  | _ => o

/-- The end of a step, after its last attempt. -/
def finishStep (step : Step) (attempts : Nat) (error : Option RunError) :
    M ρ χ ν Outcome := do
  match error with
  | none =>
    let s ← get
    return step.effects.foldl (contribute rt (s.scope rt call) step.name) ⟨attempts, none, [], [], []⟩
  | some error =>
    modify (Exec.log "ERROR" "step failed" [("step", .str step.name),
      ("reason", .str error.message)])
    return ⟨attempts, some error, [], [], []⟩

/-- A step under its retry policy, to its end. -/
def executeStep (cancelled : Exec ρ χ ν → Bool) (step : Step) :
    Coro (Exec ρ χ ν) Exc Outcome := do
  let (attempts, error) ← attemptLoop rt call cancelled step maxStepAttempts 0 none
  Coro.pause (pure ())
  Coro.lift (finishStep rt call step attempts error)

/-- `_execute_step_with_retry`, the program of a worker. -/
def executeStepWithRetry (step : Step) : Coro (Exec ρ χ ν) Exc Outcome :=
  executeStep rt call Exec.cancelEvent step

/-- The inline loop of `run_workflow`: alone, and never cancelled. -/
def executeStepInline (step : Step) : M ρ χ ν Outcome :=
  (executeStep rt call (fun _ => false) step).run

end Lnpl.Interp

/-!
## Parallel blocks

The workers of a `parallel` block (`_run_parallel_block` up to the join).  A worker is pending, runs
its program, or is over: with an outcome, with an exception that is not a `RunError` and so leaves
no outcome, or cancelled before it began.

A schedule is a list of moves: the wall clock ticks, a worker executes its next slice (a pending one
begins, in the order of submission and within the pool's size), the main thread sets `cancel_event`
once some worker has failed, and cancels a pending worker.  A move that is not possible does
nothing, and what is left when the schedule ends is executed to its end, so that every list of
moves is one of the interleavings the pool may take and every interleaving is given by a list.
-/

namespace Lnpl.Interp

open Lnpl.Lib

variable {ρ χ ν : Type} (rt : Runtime ρ χ ν) (call : Call)

/-- A worker of the pool; `start` is the wall clock's reading when it began. -/
inductive Worker (ρ χ ν : Type) where
  | pending
  | running (start : Nat) (program : Coro (Exec ρ χ ν) Exc Outcome)
  | done (start : Nat) (outcome : Outcome)
  | raised (e : Exc)
  | cancelled

/-- How a worker ended: its entry of `outcomes`, or the exception that left none. -/
inductive WorkerEnd where
  | done (start : Nat) (outcome : Outcome)
  | raised (e : Exc)
  | cancelled

namespace WorkerEnd

/-- The future has an exception. -/
def failed : WorkerEnd → Bool
  | .done _ outcome => outcome.error.isSome
  | .raised _ => true
  | .cancelled => false

/-- The step ran to its end without an exception. -/
def succeeded : WorkerEnd → Bool
  | .done _ outcome => outcome.error.isNone
  | _ => false

/-- The worker was left by an exception that is not a `RunError`. -/
def escaped : WorkerEnd → Bool
  | .raised _ => true
  | _ => false

end WorkerEnd

/-- A move of the schedule. -/
inductive Move where
  | tick (ms : Nat)
  | run (i : Nat)
  | signal
  | cancel (i : Nat)
deriving DecidableEq, Repr

/-- The block while its workers run. -/
structure Block (ρ χ ν : Type) where
  exec : Exec ρ χ ν
  workers : List (Worker ρ χ ν)
  wall : Nat := 0

namespace Worker

/-- `future.exception() is not None`. -/
def failed : Worker ρ χ ν → Bool
  | .done _ outcome => outcome.error.isSome
  | .raised _ => true
  | _ => false

def isPending : Worker ρ χ ν → Bool
  | .pending => true
  | _ => false

def isRunning : Worker ρ χ ν → Bool
  | .running .. => true
  | _ => false

/-- The worker whose program is what is left of it. -/
def settle (start : Nat) : Coro (Exec ρ χ ν) Exc Outcome → Worker ρ χ ν
  | .ret outcome => .done start outcome
  | .fail e => .raised e
  | program => .running start program

/-- The worker once its program has been executed to the end. -/
def ofResult (start : Nat) : EStateM.Result Exc (Exec ρ χ ν) Outcome → Exec ρ χ ν × Worker ρ χ ν
  | .ok outcome s => (s, .done start outcome)
  | .error e s => (s, .raised e)

/-- How a worker that is over ended. -/
def finish : Worker ρ χ ν → WorkerEnd
  | .done start outcome => .done start outcome
  | .raised e => .raised e
  | _ => .cancelled

end Worker

namespace Block

/-- The pool has a free thread, and nothing submitted before `i` waits for one. -/
def mayStart (cap : Nat) (b : Block ρ χ ν) (i : Nat) : Bool :=
  (b.workers.take i).all (fun w => !w.isPending) && (b.workers.filter Worker.isRunning).length < cap

/-- One slice of worker `i`, started at `start`, whose program is `program`. -/
def slice (b : Block ρ χ ν) (i start : Nat) (program : Coro (Exec ρ χ ν) Exc Outcome) :
    Block ρ χ ν :=
  let (exec, rest) := program.slice b.exec
  { b with exec := exec, workers := b.workers.set i (Worker.settle start rest) }

/-- Worker `i` executed to its end. -/
def complete (b : Block ρ χ ν) (i start : Nat) (program : Coro (Exec ρ χ ν) Exc Outcome) :
    Block ρ χ ν :=
  let (exec, worker) := Worker.ofResult start (program.run b.exec)
  { b with exec := exec, workers := b.workers.set i worker }

/-- One move of the schedule, with the pool's size and the programs of the workers. -/
def move (cap : Nat) (programs : List (Coro (Exec ρ χ ν) Exc Outcome)) (b : Block ρ χ ν) :
    Move → Block ρ χ ν
  | .tick ms => { b with wall := b.wall + ms }
  | .run i =>
    match b.workers[i]?, programs[i]? with
    | some .pending, some program => if b.mayStart cap i then b.slice i b.wall program else b
    | some (.running start program), _ => b.slice i start program
    | _, _ => b
  | .signal =>
    if b.workers.any Worker.failed then { b with exec := { b.exec with cancelEvent := true } } else b
  | .cancel i =>
    match b.workers[i]? with
    | some .pending =>
      -- the main thread cancels once `wait` has returned a failed future and the event is set
      if b.exec.cancelEvent && b.workers.any Worker.failed then
        { b with workers := b.workers.set i .cancelled }
      else b
    | _ => b

/-- Worker `i` is executed to its end if it has begun. -/
def drainRunning (b : Block ρ χ ν) (i : Nat) : Block ρ χ ν :=
  match b.workers[i]? with
  | some (.running start program) => b.complete i start program
  | _ => b

/-- Worker `i` is begun and executed to its end if it is still pending. -/
def drainPending (programs : List (Coro (Exec ρ χ ν) Exc Outcome)) (b : Block ρ χ ν) (i : Nat) :
    Block ρ χ ν :=
  match b.workers[i]?, programs[i]? with
  | some .pending, some program => b.complete i b.wall program
  | _, _ => b

/-- The block after a schedule, with nothing left to run. -/
def join (cap : Nat) (programs : List (Coro (Exec ρ χ ν) Exc Outcome)) (moves : List Move)
    (b : Block ρ χ ν) : Block ρ χ ν :=
  let b := moves.foldl (move cap programs) b
  let b := (List.range programs.length).foldl drainRunning b
  (List.range programs.length).foldl (drainPending programs) b

end Block

/-- `con["parallel_cap"] or len(steps)`. -/
def poolSize (steps : List Step) : Nat :=
  match call.con.parallelCap with
  | some (cap + 1) => cap + 1
  | _ => steps.length

/-- The workers of a block, from submission to the join: the state they leave, and how each of
them ended, in declared order. -/
def runWorkers (steps : List Step) (moves : List Move) (exec : Exec ρ χ ν) :
    Exec ρ χ ν × List WorkerEnd :=
  let programs := steps.map (executeStepWithRetry rt call)
  let b := Block.join (poolSize call steps) programs moves
    { exec := { exec with cancelEvent := false }, workers := steps.map fun _ => .pending }
  (b.exec, b.workers.map Worker.finish)

end Lnpl.Interp
