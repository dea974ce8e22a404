import Lnpl.Lib.FirstError

/-!
# Attempts of a failing step

How often a step that fails is attempted: as mode A's retry loop does it under the virtual clock,
and as mode B counts it beforehand.  Times are in milliseconds.  The steps are not guarded; what the
effects of a step end in is given.
-/

namespace Lnpl.Backend

/-! ### Effects and policies -/

inductive Kind where
  | assignment
  | validation
  | repositoryCall
  | cacheAccess
  | networkCall
  | transaction
  | authorization
  | eventEmit
  | businessRule
  | response
  | annotation
  | rejection
  deriving DecidableEq

inductive Operation where
  | read
  | query
  | create
  | update
  | delete
  | get
  | set
  | invalidate
  deriving DecidableEq

structure Effect where
  kind : Kind
  operation : Option Operation := none
  deriving DecidableEq

/-- `IDEMPOTENT_OPS`, of either mode. -/
def idempotentOps : List (Kind × Operation) :=
  [(.repositoryCall, .read), (.repositoryCall, .query), (.repositoryCall, .delete),
    (.repositoryCall, .update), (.cacheAccess, .get), (.cacheAccess, .set),
    (.cacheAccess, .invalidate)]

/-- `READ_OPS`, `_WRITE_MISS_OPS`. -/
def missOps : List Operation := [.read, .update, .delete]

/-- `MAX_STEP_ATTEMPTS`. -/
def maxStepAttempts : Nat := 100

/-- `step_cost_ms`. -/
def stepCostMs : Nat := 5

/-- `_backoff_ms`. -/
def backoffMs (attempt : Nat) : Nat := min (100 * 2 ^ (attempt - 1)) 1000

/-- The owning service's `Policy`. -/
structure Policy where
  retry : Int := 0
  timeoutMs : Option Nat := none

/-- Why a step is not attempted again: for the number of its attempts, for the deadline, or for an
effect that is not to be repeated. -/
inductive Reason where
  | budget
  | deadline
  | effects
  deriving DecidableEq

/-- The effect is no call of a repository or a cache, or one that may be repeated. -/
def Effect.idempotent (e : Effect) : Bool :=
  if e.kind = .repositoryCall || e.kind = .cacheAccess then
    e.operation.any fun operation => idempotentOps.contains (e.kind, operation)
  else true

/-! ### Mode B -/

/-- The effects that `_failure_attempts` lets be repeated. -/
def repeatable (effects : List Effect) : Bool :=
  effects.all fun e => e.idempotent && e.kind ≠ .networkCall && e.kind ≠ .eventEmit

/-- What a failing effect costs: a miss costs a millisecond. -/
def missCostMs (e : Effect) : Nat :=
  if e.kind = .repositoryCall && e.operation.any (missOps.contains ·) then 1 else 0

/-- The test of the deadline, with the clock as the attempt left it. -/
def pastDeadline (timeoutMs : Option Nat) (clock attempts : Nat) : Bool :=
  timeoutMs.any fun timeoutMs => clock + backoffMs attempts ≥ timeoutMs

/-- The loop of `_failure_attempts`.  The ceiling ends it before `left`, which bounds the
recursion. -/
def failureLoop (policy : Policy) (perAttempt : Nat) : Nat → Nat → Nat → Nat × Reason
  | left, attempts, clock =>
    let clock := clock + perAttempt
    if attempts ≥ maxStepAttempts then (attempts, .budget)
    else if attempts > policy.retry then (attempts, .budget)
    else if pastDeadline policy.timeoutMs clock attempts then (attempts, .deadline)
    else
      match left with
      | 0 => (attempts, .budget)
      | left + 1 => failureLoop policy perAttempt left (attempts + 1) (clock + backoffMs attempts)

/-- `_failure_attempts`, with the reason of its return. -/
def failureAttempts (policy : Policy) (effects : List Effect) (failAt : Fin effects.length)
    (stepsBefore : Nat) : Nat × Reason :=
  if policy.retry ≤ 0 then (1, .budget)
  else if !repeatable effects then (1, .effects)
  else
    failureLoop policy (missCostMs (effects.get failAt)) maxStepAttempts 1 (stepCostMs * stepsBefore)

/-! ### Mode A -/

/-- What an effect ends in: a failure has cost a millisecond or nothing. -/
inductive EffectEnd where
  | done
  | failed (costMs : Nat)

/-- A step, with what its effects end in at each attempt. -/
structure Step where
  effects : List Effect
  ends : Nat → List EffectEnd

/-- The loop of `_run_step` over the effects; the result says whether all were done. -/
def runEffects : List EffectEnd → Nat → Bool × Nat
  | [], clock => (true, clock + stepCostMs)
  | .done :: rest, clock => runEffects rest (clock + 1)
  | .failed costMs :: _, clock => (false, clock + costMs)

/-- What an attempt ends in. -/
inductive StepEnd where
  | done
  | failed
  | exhausted

/-- `_run_step`. -/
def runStep (deadline : Option Nat) (ends : List EffectEnd) (clock : Nat) : StepEnd × Nat :=
  if deadline.any fun deadline => clock ≥ deadline then (.exhausted, clock)
  else
    match runEffects ends clock with
    | (true, clock) => (.done, clock)
    | (false, clock) => (.failed, clock)

/-- `_retryable`, with the reason of a refusal. -/
def refusal (policy : Policy) (deadline : Option Nat) (effects : List Effect)
    (attempts clock : Nat) : Option Reason :=
  if attempts ≥ maxStepAttempts then some .budget
  else if attempts > policy.retry then some .budget
  else if pastDeadline deadline clock attempts then some .deadline
  else if effects.all fun e => e.idempotent && e.kind ≠ .networkCall && e.kind ≠ .eventEmit &&
      e.kind ≠ .rejection then none
  else some .effects

/-- An entry of `result["steps"]`; the reason is that of a step that failed. -/
structure StepEntry where
  attempts : Nat
  stopped : Option Reason
  deriving DecidableEq

/-- The retry loop of `run_workflow`.  An attempt that the deadline kept from running stops for
it. -/
def stepLoop (policy : Policy) (deadline : Option Nat) (step : Step) :
    Nat → Nat → Nat → StepEntry × Nat
  | left, attempts, clock =>
    match runStep deadline (step.ends attempts) clock with
    | (.done, clock) => (⟨attempts, none⟩, clock)
    | (.failed, clock) =>
      match refusal policy deadline step.effects attempts clock with
      | some reason => (⟨attempts, some reason⟩, clock)
      | none =>
        match left with
        | 0 => (⟨attempts, some .budget⟩, clock)
        | left + 1 =>
          stepLoop policy deadline step left (attempts + 1) (clock + backoffMs attempts)
    | (.exhausted, clock) =>
      match refusal policy deadline step.effects attempts clock with
      | some _ => (⟨attempts, some .deadline⟩, clock)
      | none =>
        match left with
        | 0 => (⟨attempts, some .deadline⟩, clock)
        | left + 1 =>
          stepLoop policy deadline step left (attempts + 1) (clock + backoffMs attempts)

/-- The step loop of `run_workflow`: the entries, up to the first step that failed or ended behind
the deadline. -/
def runSteps (policy : Policy) (deadline : Option Nat) : List Step → Nat → List StepEntry
  | [], _ => []
  | step :: rest, clock =>
    let (entry, clock) := stepLoop policy deadline step maxStepAttempts 1 clock
    if entry.stopped.isSome then [entry]
    else if deadline.any fun deadline => clock > deadline then [entry]
    else entry :: runSteps policy deadline rest clock

/-- `run_workflow`: the virtual clock begins at 0. -/
def runWorkflow (policy : Policy) (steps : List Step) : List StepEntry :=
  runSteps policy policy.timeoutMs steps 0

/-! ### The two modes -/

/-- A step whose effects are all done. -/
def doneStep (effects : List Effect) : Step where
  effects := effects
  ends _ := effects.map fun _ => .done

/-- A step that fails in every attempt: in the first at `failAt`, in a later one perhaps at another
effect, as when a row that the first deleted is missing. -/
structure FailingStep where
  effects : List Effect
  failAt : Fin effects.length
  /-- the effects of an attempt that are done -/
  reached : Nat → Nat
  /-- the cost of the effect that fails -/
  costMs : Nat → Nat
  reached_one : reached 1 = failAt
  costMs_one : costMs 1 = missCostMs (effects.get failAt)

def FailingStep.toStep (f : FailingStep) : Step where
  effects := f.effects
  ends a := List.replicate (f.reached a) .done ++ [.failed (f.costMs a)]

/-- Mode A attempts the failing step as often as mode B counts, and for a step whose effects may be
repeated it stops for the same reason. -/
def SameAttempts (policy : Policy) (before : List (List Effect)) (f : FailingStep) : Prop :=
  ∃ entry, (runWorkflow policy (before.map doneStep ++ [f.toStep]))[before.length]? = some entry ∧
    entry.attempts = (failureAttempts policy f.effects f.failAt before.length).1 ∧
    (repeatable f.effects = true →
      entry.stopped = some (failureAttempts policy f.effects f.failAt before.length).2)

/-! ### Clocks -/

/-- The clock after an attempt, of attempts that cost what is given, the back-offs between them. -/
def clockAfter (start : Nat) (cost : Nat → Nat) : Nat → Nat
  | 0 => start
  | 1 => start + cost 1
  | a + 2 => clockAfter start cost (a + 1) + backoffMs (a + 1) + cost (a + 2)

/-- The clock when the failing step begins, by mode A. -/
def clockBefore (before : List (List Effect)) : Nat :=
  (before.map fun effects => effects.length + stepCostMs).sum

/-- The cost of an attempt, by mode A. -/
def FailingStep.spent (f : FailingStep) (a : Nat) : Nat := f.reached a + f.costMs a

/-- The cost of an attempt, by mode B. -/
def FailingStep.counted (f : FailingStep) (_ : Nat) : Nat := missCostMs (f.effects.get f.failAt)

/-- The deadline is not over when the failing step begins, and if its effects may be repeated: it
does not begin at the deadline without a retry, and whatever retry the policy grants, the deadline
leaves no room for it after the milliseconds that mode A spends iff it leaves none after those that
mode B counts.  A step with a rejection, which mode A does not repeat, is granted no retry. -/
structure SameClocks (policy : Policy) (before : List (List Effect)) (f : FailingStep) : Prop where
  begins : ∀ t ∈ policy.timeoutMs, clockBefore before ≤ t
  retried : repeatable f.effects = true → policy.retry ≤ 0 →
    ∀ t ∈ policy.timeoutMs, clockBefore before ≠ t
  room : repeatable f.effects = true → (∀ e ∈ f.effects, e.kind ≠ .rejection) →
    ∀ a : Nat, 1 ≤ a → a ≤ policy.retry → a < maxStepAttempts →
      pastDeadline policy.timeoutMs (clockAfter (clockBefore before) f.spent a) a =
        pastDeadline policy.timeoutMs (clockAfter (stepCostMs * before.length) f.counted a) a
  rejection : repeatable f.effects = true → (∃ e ∈ f.effects, e.kind = .rejection) →
    0 < policy.retry →
      pastDeadline policy.timeoutMs (clockAfter (stepCostMs * before.length) f.counted 1) 1 = true

end Lnpl.Backend
