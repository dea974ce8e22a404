import Lnpl.Interp.Workflow
import Lnpl.Interp.Equiv.Parallel

/-!
# Invariants of the main loop

The main loop changes its state in few ways: it runs programs on the execution state, numbers guard
evaluations, keeps skip records, records steps, joins blocks and sets the failure.  A predicate that
its steps and its blocks keep, and what it notes around them (`BodyInvariant`), holds after every item
of every body, whatever the documents, the drivers and the schedules do; it is enough that each way
to change the state keeps it (`LoopInvariant`).  For a predicate on what the loop records the
execution state plays no part (`RecordInvariant`).
-/

namespace Lnpl.Interp

open Lnpl.Lib

variable {ρ χ ν : Type}

/-- The record that a worker leaves. -/
def outcomeRecord (block : Nat) (under : List Nat) : Step × WorkerEnd → Option StepRecord
  | (step, .done _ o) => some (stepRecord step (some block) under o)
  | _ => none

/-- A block that is over adds the records of its workers, and what they contribute. -/
theorem recordOutcomes_eq (block : Nat) (under : List Nat) (l : List (Step × WorkerEnd))
    (r : Run ρ χ ν) : ∃ refs terms notes, recordOutcomes block under r l =
      { r with
        steps := r.steps ++ l.filterMap (outcomeRecord block under)
        responseRefs := refs
        responseTerms := terms
        notes := notes } := by
  induction l generalizing r with
  | nil => exact ⟨r.responseRefs, r.responseTerms, r.notes, by simp [recordOutcomes]⟩
  | cons p l ih =>
    rcases p with ⟨step, ⟨start, o⟩ | _ | _⟩
    · obtain ⟨refs, terms, notes, h⟩ := ih (r.record step (some block) under o)
      exact ⟨refs, terms, notes, h.trans (by simp [outcomeRecord, Run.record])⟩
    · exact ih r
    · exact ih r

/-- A predicate on the state of the main loop that logs keep. -/
structure LogInvariant (I : Run ρ χ ν → Prop) : Prop where
  log : ∀ r level message fields, I r → I { r with exec := r.exec.log level message fields }

/-- A predicate that logs and failures keep. -/
structure FailInvariant (I : Run ρ χ ν → Prop) : Prop extends LogInvariant I where
  failWith : ∀ r f, I r → I (r.failWith f)

/-- A predicate that whatever happens to the execution state keeps. -/
structure ExecInvariant (I : Run ρ χ ν → Prop) : Prop extends LogInvariant I where
  exec : ∀ r s, I r → I { r with exec := s }
  log := fun r _ _ _ => exec r _

/-- A predicate that failures keep, and whatever happens to the execution state. -/
structure RunInvariant (I : Run ρ χ ν → Prop) : Prop extends ExecInvariant I, FailInvariant I

/-- A predicate that these steps keep, and the blocks of them, and what the main loop notes around
them. -/
structure BodyInvariant (rt : Runtime ρ χ ν) (call : Call) (declared : List Step)
    (I : Run ρ χ ν → Prop) : Prop extends LogInvariant I where
  sequential : ∀ step ∈ declared, ∀ under, Keeps I (runSequentialStep rt call under step)
  block : ∀ steps, (∀ step ∈ steps, step ∈ declared) → (steps.map Step.id).Nodup →
    ∀ schedules under, Keeps I (runParallelBlock rt call schedules under steps)
  evaluated : ∀ r n, I r → I { r with evaluated := n }
  repeats : ∀ r count, I r → I { r with repeats := r.repeats ++ [count] }
  skipped : ∀ r k, I r → I { r with skipped := r.skipped ++ [k] }

/-- A predicate that each way of the main loop to change its state keeps, where the loop runs these
steps. -/
structure LoopInvariant (rt : Runtime ρ χ ν) (call : Call) (declared : List Step)
    (I : Run ρ χ ν → Prop) : Prop extends FailInvariant I where
  sequential : ∀ step ∈ declared, Keeps I (onExec (executeStepInline rt call step))
  block : ∀ r under steps moves, (∀ step ∈ steps, step ∈ declared) → (steps.map Step.id).Nodup →
    I r → I (r.join under steps (runWorkers rt call steps moves r.exec).2
      (runWorkers rt call steps moves r.exec).1)
  evaluated : ∀ r n, I r → I { r with evaluated := n }
  repeats : ∀ r count, I r → I { r with repeats := r.repeats ++ [count] }
  skipped : ∀ r k, I r → I { r with skipped := r.skipped ++ [k] }
  record : ∀ r step under o, I r → I (r.record step none under o)

/-- A predicate on what the main loop records, whatever happens to the execution state. -/
structure RecordInvariant (I : Run ρ χ ν → Prop) : Prop extends RunInvariant I where
  evaluated : ∀ r n, I r → I { r with evaluated := n }
  repeats : ∀ r count, I r → I { r with repeats := r.repeats ++ [count] }
  skipped : ∀ r k, I r → I { r with skipped := r.skipped ++ [k] }
  record : ∀ r step under o, I r → I (r.record step none under o)
  join : ∀ r under steps ends s, (steps.map Step.id).Nodup → ends.length = steps.length →
    ((∀ e ∈ ends, ¬e.failed) → ∀ e ∈ ends, e.succeeded) → I r → I (r.join under steps ends s)

/-! ### Logs and conditions -/

namespace LogInvariant

variable {I : Run ρ χ ν → Prop} {rt : Runtime ρ χ ν} {call : Call}

theorem keeps_logRun (hI : LogInvariant I) {level message : String}
    {fields : List (String × Json)} : Keeps I (logRun level message fields) :=
  Keeps.modify fun r => hI.log r level message fields

theorem keeps_logFired (hI : LogInvariant I) {g : GuardNode} {alternatives : List String}
    {fired : Nat} : Keeps I (logFired g alternatives fired) := by
  unfold logFired
  split
  · exact Keeps.pure _
  · split
    · exact hI.keeps_logRun
    · exact Keeps.pure _

theorem keeps_evaluateGuard (g : GuardNode) (texts : List String) :
    Keeps I (evaluateGuard rt call g texts) :=
  Keeps.get.bind fun _ => Keeps.ofExcept _

theorem keeps_untilEnds (hI : LogInvariant I) (g : GuardNode) (deadline : Option Nat)
    (rounds : Nat) : Keeps I (untilEnds rt call g deadline rounds) := by
  refine (keeps_evaluateGuard g _).bind fun results => Keeps.ite (Keeps.pure _) ?_
  refine Keeps.get.bind fun r => Keeps.ite ?_ (Keeps.pure _)
  exact hI.keeps_logRun.bind fun _ => Keeps.pure _

end LogInvariant

theorem FailInvariant.exceedDeadline {I : Run ρ χ ν → Prop} {rt : Runtime ρ χ ν} {call : Call}
    (hI : FailInvariant I) (step : Step) (r : Run ρ χ ν) (hr : I r) :
    I (r.exceedDeadline rt call step) :=
  hI.log _ _ _ _ (hI.failWith _ _ hr)

variable {α : Type}

/-- A program on the execution state, inside the main loop. -/
theorem triple_onExec {P : Exec ρ χ ν → Prop} {Q : α → Exec ρ χ ν → Prop}
    {E : Exc → Exec ρ χ ν → Prop} {m : M ρ χ ν α} (h : Triple P m Q E) :
    Triple (fun r : Run ρ χ ν => P r.exec) (onExec m) (fun a r => Q a r.exec)
      fun e r => E e r.exec :=
  Triple.zoom_ends fun r hr => h r.exec hr

/-- Programs on the execution state. -/
theorem ExecInvariant.keeps_onExec {I : Run ρ χ ν → Prop} (hI : ExecInvariant I) (m : M ρ χ ν α) :
    Keeps I (onExec m) :=
  Keeps.zoom (fun r s => hI.exec r s) m

/-- An invariant of the records is one of the loop, whatever steps it runs. -/
theorem RecordInvariant.loopInvariant {I : Run ρ χ ν → Prop} (hI : RecordInvariant I)
    (rt : Runtime ρ χ ν) (call : Call) (declared : List Step) : LoopInvariant rt call declared I where
  log := hI.log
  failWith := hI.failWith
  sequential _ _ := hI.keeps_onExec _
  block r under steps moves _ hids :=
    hI.join r under steps _ _ hids (runWorkers_length rt call steps moves r.exec)
      (runWorkers_succeeded rt call steps moves r.exec)
  evaluated := hI.evaluated
  repeats := hI.repeats
  skipped := hI.skipped
  record := hI.record

namespace LoopInvariant

variable {rt : Runtime ρ χ ν} {call : Call} {declared : List Step} {I : Run ρ χ ν → Prop}

/-! ### Steps and blocks -/

section

variable (hI : LoopInvariant rt call declared I)
include hI

theorem keeps_runSequentialStep (under : List Nat) {step : Step} (hstep : step ∈ declared) :
    Keeps I (runSequentialStep rt call under step) := by
  refine (hI.sequential step hstep).bind fun o => ?_
  refine (Keeps.modify fun r => hI.record r step under o).bind fun _ => ?_
  cases o.error with
  | some e => exact (Keeps.modify fun r => hI.failWith r _).bind fun _ => Keeps.pure _
  | none =>
    refine Keeps.get.bind fun r => Keeps.ite ?_ (Keeps.pure _)
    exact (Keeps.modify (hI.exceedDeadline step)).bind fun _ => Keeps.pure _

theorem keeps_runParallelBlock (schedules : Nat → List Move) (under : List Nat) {steps : List Step}
    (hsteps : ∀ step ∈ steps, step ∈ declared) (hids : (steps.map Step.id).Nodup) :
    Keeps I (runParallelBlock rt call schedules under steps) := by
  refine Triple.bind (Q := fun r r' => r = r' ∧ I r') (Triple.get fun r hr => ⟨rfl, hr⟩) fun r => ?_
  have hjoin := fun r' => hI.block r' under steps (schedules r.blocks.length) hsteps hids
  refine Triple.bind (Q := fun _ => I) (Triple.modify fun r' hr' => ?_) fun _ =>
    Keeps.ite (Keeps.pure _) ?_
  · rw [hr'.1]
    rw [hr'.1] at hjoin
    exact hjoin r' hr'.2
  · cases steps.getLast? with
    | none => exact Keeps.pure _
    | some last =>
      refine Keeps.get.bind fun r => Keeps.ite ?_ (Keeps.pure _)
      exact (Keeps.modify (hI.exceedDeadline last)).bind fun _ => Keeps.pure _

/-- What each way to change the state keeps, steps and blocks keep. -/
theorem bodyInvariant : BodyInvariant rt call declared I where
  log := hI.log
  sequential _ hstep under := hI.keeps_runSequentialStep under hstep
  block _ hsteps hids schedules under := hI.keeps_runParallelBlock schedules under hsteps hids
  evaluated := hI.evaluated
  repeats := hI.repeats
  skipped := hI.skipped

end

end LoopInvariant

namespace BodyInvariant

variable {rt : Runtime ρ χ ν} {call : Call} {declared : List Step} {I : Run ρ χ ν → Prop}

variable {steps : List Step} {g : GuardNode} {condition : String}
  {otherwise : Option ((Nat → L ρ χ ν Flow) × List Step)} {item : Nat → L ρ χ ν Flow}

section

variable (hI : BodyInvariant rt call declared I)
include hI

theorem keeps_runPipeline (under : List Nat) (hsteps : ∀ step ∈ steps, step ∈ declared) :
    Keeps I (runPipeline rt call under steps) := by
  induction steps with
  | nil => exact Keeps.pure _
  | cons step steps ih =>
    refine (hI.sequential step (hsteps step List.mem_cons_self) under).bind fun flow => ?_
    cases flow with
    | stop => exact Keeps.pure _
    | next => exact ih fun s hs => hsteps s (List.mem_cons_of_mem step hs)

/-! ### Guards -/

theorem keeps_nextEvaluation : Keeps I (nextEvaluation : L ρ χ ν Nat) :=
  Keeps.get.bind fun _ => (Keeps.modify fun r => hI.evaluated r _).bind fun _ => Keeps.pure _

theorem keeps_skip {mode : SkipMode} {rounds : Option Nat} {evaluations : List Evaluation}
    {evaluation : Nat} :
    Keeps I (skip rt g mode condition steps rounds evaluations evaluation) :=
  Keeps.modify fun r => hI.skipped r _

theorem keeps_skipOtherwise {n : Nat} : Keeps I (skipOtherwise rt g condition n otherwise) := by
  cases otherwise with
  | none => exact Keeps.pure _
  | some p => exact hI.keeps_skip

theorem keeps_runWhen (g : GuardNode) (alternatives : List String) (steps : List Step)
    (hitem : ∀ n, Keeps I (item n)) (hother : ∀ p, otherwise = some p → ∀ n, Keeps I (p.1 n)) :
    Keeps I (runWhen rt call g alternatives item steps otherwise) := by
  refine (LogInvariant.keeps_evaluateGuard g _).bind fun results => hI.keeps_nextEvaluation.bind fun n =>
    Keeps.ite ?_ ?_
  · refine hI.keeps_logFired.bind fun _ => (hitem n).bind fun flow => ?_
    cases flow with
    | stop => exact Keeps.pure _
    | next => exact hI.keeps_skipOtherwise.bind fun _ => Keeps.pure _
  · refine hI.keeps_skip.bind fun _ => hI.keeps_logRun.bind fun _ => ?_
    cases otherwise with
    | none => exact Keeps.pure _
    | some p => exact hother p rfl n

theorem keeps_untilLoop (g : GuardNode) (deadline : Option Nat) {item : L ρ χ ν Flow}
    (hitem : Keeps I item) (left : Nat) :
    Keeps I (untilLoop rt call g deadline item left) := by
  induction left with
  | zero =>
    refine (hI.keeps_untilEnds g deadline _).bind fun ends => Keeps.ite (Keeps.pure _) ?_
    exact hI.keeps_logRun.bind fun _ => Keeps.pure _
  | succ left ih =>
    refine (hI.keeps_untilEnds g deadline _).bind fun ends => Keeps.ite (Keeps.pure _) ?_
    refine hitem.bind fun flow => ?_
    cases flow with
    | stop => exact Keeps.pure _
    | next => exact ih

theorem keeps_runUntil (g : GuardNode) (steps : List Step) (hitem : ∀ n, Keeps I (item n)) :
    Keeps I (runUntil rt call g item steps) := by
  refine hI.keeps_nextEvaluation.bind fun n => Keeps.get.bind fun r => ?_
  refine (hI.keeps_untilLoop g _ (hitem n) _).bind fun rounds => ?_
  rcases rounds with _ | _ | rounds
  · exact Keeps.pure _
  · refine (LogInvariant.keeps_evaluateGuard g _).bind fun results => hI.keeps_skip.bind fun _ => ?_
    exact hI.keeps_logRun.bind fun _ => Keeps.pure _
  · exact Keeps.pure _

end

theorem keeps_repeatLoop {item : L ρ χ ν Flow} (hitem : Keeps I item) (count : Nat) :
    Keeps I (repeatLoop item count) := by
  induction count with
  | zero => exact Keeps.pure _
  | succ count ih =>
    refine hitem.bind fun flow => ?_
    cases flow with
    | stop => exact Keeps.pure _
    | next => exact ih

/-! ### The body -/

/-- Every item of a body keeps an invariant of the loop. -/
theorem keeps_runItem (hI : BodyInvariant rt call declared I) (schedules : Nat → List Move)
    {item : Item} (hsteps : ∀ step ∈ item.steps, step ∈ declared)
    (hids : (item.steps.map Step.id).Nodup) (under : List Nat) :
    Keeps I (runItem rt call schedules under item) := by
  induction item generalizing under with
  | step s => exact hI.sequential s (hsteps s List.mem_cons_self) under
  | concurrency id steps => exact hI.block steps hsteps hids schedules under
  | pipeline id steps => exact hI.keeps_runPipeline under hsteps
  | «when» g alternatives item ih =>
    exact hI.keeps_runWhen g alternatives _ (fun n => ih hsteps hids (n :: under)) nofun
  | whenOtherwise g alternatives item otherwise ih ih' =>
    rw [Item.steps, List.map_append, List.nodup_append] at hids
    have hitem := fun step hs => hsteps step (List.mem_append_left _ hs)
    have hother := fun step hs => hsteps step (List.mem_append_right _ hs)
    refine hI.keeps_runWhen g alternatives _ (fun n => ih hitem hids.1 (n :: under)) fun p hp n => ?_
    rw [← Option.some.inj hp]
    exact ih' hother hids.2.1 (n :: under)
  | «until» g item ih => exact hI.keeps_runUntil g _ fun n => ih hsteps hids (n :: under)
  | «repeat» id count item ih =>
    exact (Keeps.modify fun r => hI.repeats r _).bind fun _ =>
      keeps_repeatLoop (ih hsteps hids under) count

/-- The body keeps an invariant of the loop. -/
theorem keeps_runBody (hI : BodyInvariant rt call declared I) (schedules : Nat → List Move)
    {body : List Item} (hsteps : ∀ step ∈ body.flatMap Item.steps, step ∈ declared)
    (hids : ((body.flatMap Item.steps).map Step.id).Nodup) :
    Keeps I (runBody rt call schedules body) := by
  induction body with
  | nil => exact Keeps.pure _
  | cons item items ih =>
    rw [List.flatMap_cons, List.map_append, List.nodup_append] at hids
    rw [List.flatMap_cons] at hsteps
    have hitem := fun step hs => hsteps step (List.mem_append_left _ hs)
    have hitems := fun step hs => hsteps step (List.mem_append_right _ hs)
    refine (hI.keeps_runItem schedules hitem hids.1 []).bind fun flow => ?_
    cases flow with
    | stop => exact Keeps.pure _
    | next => exact ih hitems hids.2.1

end BodyInvariant

/-! ### Invariants of the records -/

namespace RecordInvariant

variable {I : Run ρ χ ν → Prop} {rt : Runtime ρ χ ν} {call : Call}

section

variable (hI : RecordInvariant I)
include hI

theorem keeps_skip {g : GuardNode} {mode : SkipMode} {condition : String} {steps : List Step}
    {rounds : Option Nat} {evaluations : List Evaluation} {evaluation : Nat} :
    Keeps I (skip rt g mode condition steps rounds evaluations evaluation) :=
  Keeps.modify fun r => hI.skipped r _

theorem keeps_runPipeline (under : List Nat) (steps : List Step) :
    Keeps I (runPipeline rt call under steps) :=
  (hI.loopInvariant rt call steps).bodyInvariant.keeps_runPipeline under fun _ => id

theorem keeps_runItem (schedules : Nat → List Move) {item : Item}
    (hids : (item.steps.map Step.id).Nodup) (under : List Nat) :
    Keeps I (runItem rt call schedules under item) :=
  (hI.loopInvariant rt call item.steps).bodyInvariant.keeps_runItem schedules (fun _ => id) hids under

theorem keeps_runBody (schedules : Nat → List Move) {body : List Item}
    (hids : ((body.flatMap Item.steps).map Step.id).Nodup) :
    Keeps I (runBody rt call schedules body) :=
  (hI.loopInvariant rt call (body.flatMap Item.steps)).bodyInvariant.keeps_runBody schedules (fun _ => id) hids

end

end RecordInvariant

end Lnpl.Interp
