import Lnpl.Interp.Equiv.Branches

/-!
# Coverage of the declared steps

Every step of a part of the body that is over has a record, or a skip record lists its name: every
way a guard decides not to run something keeps a skip record of it.  Two ways to run nothing keep
none, a `repeat` of the count 0 and a worker that an exception has left without an outcome, and
`Run.Audible` excludes them.
-/

namespace Lnpl.Interp

open Lnpl.Lib

variable {ρ χ ν : Type} {rt : Runtime ρ χ ν} {call : Call}

/-! ### Coverage -/

/-- The step has a record, or a skip record lists its name. -/
def CoveredBy (steps : List StepRecord) (skipped : List SkipRecord) (step : Step) : Prop :=
  (∃ rec ∈ steps, rec.stepId = step.id) ∨ ∃ k ∈ skipped, step.name ∈ k.steps

/-- No `repeat` was begun with the count 0, and no worker was left by an exception that is not a
`RunError`. -/
structure Run.Audible (r : Run ρ χ ν) : Prop where
  repeats : ∀ count ∈ r.repeats, count ≠ 0
  blocks : r.Contained

/-- The steps are accounted for. -/
def Covers (steps : List Step) (r : Run ρ χ ν) : Prop :=
  r.Audible → ∀ step ∈ steps, CoveredBy r.steps r.skipped step

theorem CoveredBy.append {steps : List StepRecord} {skipped : List SkipRecord} {step : Step}
    (h : CoveredBy steps skipped step) (l : List StepRecord) (k : List SkipRecord) :
    CoveredBy (steps ++ l) (skipped ++ k) step :=
  h.imp (fun ⟨rec, hrec, hid⟩ => ⟨rec, List.mem_append_left _ hrec, hid⟩)
    fun ⟨rec, hrec, hname⟩ => ⟨rec, List.mem_append_left _ hrec, hname⟩

variable {steps : List Step} {r : Run ρ χ ν} {item : Nat → L ρ χ ν Flow}

/-- A run that only grows stays accounted for. -/
theorem Covers.grow {r' : Run ρ χ ν} (h : Covers steps r) (haud : r'.Audible → r.Audible)
    (hsteps : ∃ l k, r'.steps = r.steps ++ l ∧ r'.skipped = r.skipped ++ k) : Covers steps r' := by
  obtain ⟨l, k, hl, hk⟩ := hsteps
  intro hr' step hstep
  rw [hl, hk]
  exact (h (haud hr') step hstep).append l k

theorem Covers.append {l l' : List Step} (h : Covers l r) (h' : Covers l' r) :
    Covers (l ++ l') r := by
  intro hr step hstep
  rcases List.mem_append.mp hstep with hs | hs
  · exact h hr step hs
  · exact h' hr step hs

theorem Covers.nil (r : Run ρ χ ν) : Covers [] r := fun _ _ h => absurd h List.not_mem_nil

/-- What a block adds to a run. -/
theorem join_fields (under : List Nat) (steps : List Step) (ends : List WorkerEnd)
    (s : Exec ρ χ ν) (r : Run ρ χ ν) :
    (r.join under steps ends s).steps =
        r.steps ++ (steps.zip ends).filterMap (outcomeRecord r.blocks.length under) ∧
      (r.join under steps ends s).skipped = r.skipped ∧
      (r.join under steps ends s).repeats = r.repeats ∧
      (r.join under steps ends s).blocks = r.blocks ++ [⟨steps, ends⟩] := by
  unfold Run.join
  obtain ⟨_, _, _, h⟩ := recordOutcomes_eq r.blocks.length under (steps.zip ends)
    { r with exec := s, blocks := r.blocks ++ [⟨steps, ends⟩] }
  rw [h]
  split <;> exact ⟨rfl, rfl, rfl, rfl⟩

/-- Steps that are accounted for stay so. -/
theorem Covers.recordInvariant (steps : List Step) :
    RecordInvariant (Covers steps : Run ρ χ ν → Prop) where
  exec _ _ h := h.grow (fun ha => ⟨ha.repeats, ha.blocks⟩) ⟨[], [], by simp⟩
  evaluated _ _ h := h.grow (fun ha => ⟨ha.repeats, ha.blocks⟩) ⟨[], [], by simp⟩
  repeats r count h := h.grow
    (fun ha => ⟨fun n hn => ha.repeats n (List.mem_append_left _ hn), ha.blocks⟩) ⟨[], [], by simp⟩
  skipped r k h := h.grow (fun ha => ⟨ha.repeats, ha.blocks⟩) ⟨[], [k], by simp⟩
  record r step under o h := h.grow (fun ha => ⟨ha.repeats, ha.blocks⟩)
    ⟨[stepRecord step none under o], [], rfl, by simp [Run.record]⟩
  failWith _ _ h := h.grow (fun ha => ⟨ha.repeats, ha.blocks⟩) ⟨[], [], by simp [Run.failWith]⟩
  join r under steps ends s _ _ _ h := by
    obtain ⟨hsteps, hskipped, hrepeats, hblocks⟩ := join_fields under steps ends s r
    refine h.grow (fun ha => ⟨hrepeats ▸ ha.repeats, ?_⟩) ⟨_, [], hsteps, by rw [hskipped]; simp⟩
    have hc := ha.blocks
    unfold Run.Contained at hc
    rw [hblocks] at hc
    exact (contained_append hc).1

/-! ### Coverage along the body -/

/-- A part of the body is over: its steps are accounted for, or the run has failed. -/
def Settled (steps : List Step) (flow : Flow) (r : Run ρ χ ν) : Prop :=
  match flow with
  | .next => Covers steps r
  | .stop => r.failure ≠ none

/-- A program of the main loop that settles these steps. -/
abbrev Settles (steps : List Step) (m : L ρ χ ν Flow) : Prop :=
  Triple (fun _ => True) m (Settled steps) fun _ _ => True

theorem covers_record (step : Step) (under : List Nat) (o : Outcome) (r : Run ρ χ ν) :
    Covers [step] (r.record step none under o) := by
  intro _ step' hstep
  rw [List.mem_singleton.mp hstep]
  exact Or.inl ⟨_, List.mem_append_right _ List.mem_cons_self, rfl⟩

theorem settles_runSequentialStep (under : List Nat) (step : Step) :
    Settles [step] (runSequentialStep rt call under step) := by
  refine Triple.bind (Triple.any _) fun o => ?_
  refine Triple.bind (Q := fun _ => Covers [step])
    (Triple.modify fun r _ => covers_record step under o r) fun _ => ?_
  cases o.error with
  | some e =>
    exact Triple.bind (Q := fun _ r => r.failure ≠ none) (Triple.modify fun _ _ => nofun) fun _ =>
      Triple.pure fun _ h => h
  | none =>
    refine Triple.bind (Q := fun _ => Covers [step]) (Triple.get fun _ h => h) fun r => ?_
    refine Triple.ite (fun _ => ?_) fun _ => Triple.pure fun _ h => h
    exact Triple.bind (Q := fun _ r => r.failure ≠ none) (Triple.modify fun _ _ => nofun) fun _ =>
      Triple.pure fun _ h => h

/-- One part of the body after another. -/
theorem settles_bind {l l' : List Step} {m : L ρ χ ν Flow} {f : Flow → L ρ χ ν Flow}
    (hm : Settles l m) (hstop : f .stop = pure .stop) (hkeep : Keeps (Covers l) (f .next))
    (hnext : Settles l' (f .next)) : Settles (l ++ l') (m >>= f) := by
  refine Triple.bind hm fun flow => ?_
  cases flow with
  | stop =>
    rw [hstop]
    exact Triple.pure fun _ h => h
  | next =>
    refine (Triple.and hkeep hnext).mono (fun r h => ⟨h, trivial⟩) (fun flow r h => ?_)
      fun _ _ _ => trivial
    cases flow with
    | next => exact h.1.append h.2
    | stop => exact h.2

theorem settles_runPipeline (under : List Nat) (steps : List Step) :
    Settles steps (runPipeline rt call under steps) := by
  induction steps with
  | nil => exact Triple.pure fun r _ => Covers.nil r
  | cons step steps ih =>
    exact settles_bind (settles_runSequentialStep under step) rfl
      ((Covers.recordInvariant [step]).keeps_runPipeline under steps) ih

/-- A block that ends without a failure has a record for every step. -/
theorem covers_join {under : List Nat} {ends : List WorkerEnd} {s : Exec ρ χ ν}
    (hlen : ends.length = steps.length) (hsucc : (∀ e ∈ ends, ¬e.failed) → ∀ e ∈ ends, e.succeeded)
    (hnone : earliestFailure (steps.zip ends) = none) :
    Covers steps (r.join under steps ends s) := by
  obtain ⟨hsteps, _, _, hblocks⟩ := join_fields under steps ends s r
  intro ha step hstep
  have hc := ha.blocks
  unfold Run.Contained at hc
  rw [hblocks] at hc
  have hall := hsucc fun e he hf => (contained_append hc).2 e he (escaped_of_failed hlen hnone e he hf)
  have hkey : (some r.blocks.length, step.id) ∈
      recordKeys ((steps.zip ends).filterMap (outcomeRecord r.blocks.length under)) := by
    rw [recordKeys_of_succeeded _ under hlen hall]
    exact List.mem_map.mpr ⟨step, hstep, rfl⟩
  obtain ⟨rec, hrec, he⟩ := List.mem_map.mp hkey
  refine Or.inl ⟨rec, ?_, (Prod.mk.inj he).2⟩
  rw [hsteps]
  exact List.mem_append_right _ hrec

theorem settles_runParallelBlock (schedules : Nat → List Move) (under : List Nat)
    (steps : List Step) :
    Settles steps (runParallelBlock rt call schedules under steps) := by
  refine Triple.bind (Q := fun _ _ => True) (Triple.get fun _ h => h) fun r => ?_
  have hlen := runWorkers_length rt call steps (schedules r.blocks.length) r.exec
  have hsucc := runWorkers_succeeded rt call steps (schedules r.blocks.length) r.exec
  revert hlen hsucc
  generalize runWorkers rt call steps (schedules r.blocks.length) r.exec = joined
  intro hlen hsucc
  cases hfail : earliestFailure (steps.zip joined.2) with
  | some found =>
    refine Triple.bind (Q := fun _ r => r.failure ≠ none) (Triple.modify fun r _ => ?_) fun _ => ?_
    · unfold Run.join
      rw [hfail]
      exact nofun
    · rw [if_pos (by rw [hfail]; rfl)]
      exact Triple.pure fun _ h => h
  | none =>
    refine Triple.bind (Q := fun _ => Covers steps)
      (Triple.modify fun r _ => covers_join hlen hsucc hfail) fun _ => ?_
    rw [if_neg (by rw [hfail]; exact Bool.false_ne_true)]
    cases steps.getLast? with
    | none => exact Triple.pure fun _ h => h
    | some last =>
      refine Triple.bind (Q := fun _ => Covers steps) (Triple.get fun _ h => h) fun r => ?_
      refine Triple.ite (fun _ => ?_) fun _ => Triple.pure fun _ h => h
      exact Triple.bind (Q := fun _ r => r.failure ≠ none) (Triple.modify fun _ _ => nofun) fun _ =>
        Triple.pure fun _ h => h

/-! ### Coverage of the guards -/

/-- A skip record accounts for the steps it lists. -/
theorem triple_skip (rt : Runtime ρ χ ν) (P : Run ρ χ ν → Prop) (g : GuardNode) (mode : SkipMode)
    (condition : String) (steps : List Step) (rounds : Option Nat) (evaluations : List Evaluation)
    (n : Nat) : Triple P (skip rt g mode condition steps rounds evaluations n) (fun _ => Covers steps)
      fun _ _ => True := by
  refine Triple.modify fun r _ _ step hstep => Or.inr ⟨_, List.mem_append_right _ List.mem_cons_self, ?_⟩
  exact List.mem_map.mpr ⟨step, hstep, rfl⟩

theorem settles_runWhen (g : GuardNode) (alternatives : List String)
    (hitem : ∀ n, Settles steps (item n)) :
    Settles steps (runWhen rt call g alternatives item steps none) := by
  refine Triple.bind (Triple.any _) fun results => Triple.bind (Triple.any _) fun n =>
    Triple.ite (fun _ => ?_) fun _ => ?_
  · refine Triple.bind (Triple.any _) fun _ => Triple.bind ((hitem n).mono (fun _ h => trivial)
      (fun _ _ => id) fun _ _ => id) fun flow => ?_
    cases flow with
    | stop => exact Triple.pure fun _ h => h
    | next => exact Triple.bind (Q := fun _ => Covers steps) (Triple.pure fun _ h => h) fun _ =>
        Triple.pure fun _ h => h
  · refine (triple_skip rt _ g .when _ steps none _ n).bind fun _ => ?_
    exact (Covers.recordInvariant steps).keeps_logRun.returns.bind fun _ =>
      Triple.pure fun _ h => h

theorem settles_runWhen_otherwise (g : GuardNode) (alternatives : List String)
    {other : Nat → L ρ χ ν Flow} {others : List Step} (hitem : ∀ n, Settles steps (item n))
    (hother : ∀ n, Settles others (other n)) (hkeep : ∀ n, Keeps (Covers steps) (other n)) :
    Settles (steps ++ others) (runWhen rt call g alternatives item steps (some (other, others))) := by
  refine Triple.bind (Triple.any _) fun results => Triple.bind (Triple.any _) fun n =>
    Triple.ite (fun _ => ?_) fun _ => ?_
  · refine Triple.bind (Triple.any _) fun _ => Triple.bind ((hitem n).mono (fun _ h => trivial)
      (fun _ _ => id) fun _ _ => id) fun flow => ?_
    cases flow with
    | stop => exact Triple.pure fun _ h => h
    | next =>
      have hskip := Triple.and ((Covers.recordInvariant steps).keeps_skip.returns)
        (triple_skip rt (fun _ => True) g .otherwise (guardConditionText g.condition alternatives)
          others none [] n)
      refine (hskip.mono (fun _ h => ⟨h, trivial⟩) (fun _ r h => h.1.append h.2) fun _ _ _ => trivial).bind
        fun _ => Triple.pure fun _ h => h
  · refine (triple_skip rt _ g .when _ steps none _ n).bind fun _ => ?_
    refine (Covers.recordInvariant steps).keeps_logRun.returns.bind fun _ => ?_
    refine (Triple.and (hkeep n) (hother n)).mono (fun r h => ⟨h, trivial⟩) (fun flow r h => ?_)
      fun _ _ _ => trivial
    cases flow with
    | next => exact h.1.append h.2
    | stop => exact h.2

theorem triple_untilEnds {P : Run ρ χ ν → Prop} (hP : LogInvariant P) (g : GuardNode)
    (deadline : Option Nat) (rounds : Nat) :
    Triple P (untilEnds rt call g deadline rounds) (fun _ => P) fun _ _ => True :=
  (hP.keeps_untilEnds g deadline rounds).returns

/-- A loop that ends after a round has accounted for its steps. -/
theorem triple_untilLoop (g : GuardNode) (deadline : Option Nat) {item : L ρ χ ν Flow}
    (hitem : Settles steps item) (left : Nat) (hleft : left ≤ untilRoundCap) :
    Triple (fun r => left < untilRoundCap → Covers steps r)
      (untilLoop rt call g deadline item left)
      (fun rounds r =>
        match rounds with
        | .stopped => r.failure ≠ none
        | .ended n => n ≠ 0 → Covers steps r) fun _ _ => True := by
  have hends : ∀ left, Triple (fun r => left < untilRoundCap → Covers steps r)
      (untilEnds rt call g deadline (untilRoundCap - left))
      (fun _ r => untilRoundCap - left ≠ 0 → Covers steps r) fun _ _ => True := by
    intro left
    by_cases hlt : left < untilRoundCap
    · exact (triple_untilEnds (Covers.recordInvariant steps).toLogInvariant g deadline _).mono (fun _ h => h hlt)
        (fun _ _ h _ => h) fun _ _ => id
    · exact (Triple.any _).mono (fun _ _ => trivial) (fun _ _ _ hne => absurd hne (by omega))
        fun _ _ => id
  induction left with
  | zero =>
    refine (hends 0).bind fun ends => Triple.ite (fun _ => Triple.pure fun _ h => h) fun _ => ?_
    have hcap : untilRoundCap - 0 ≠ 0 := by decide
    refine Triple.bind (Q := fun _ => Covers steps) ?_ fun _ => Triple.pure fun _ h _ => h
    exact (Covers.recordInvariant steps).keeps_logRun.returns.mono (fun _ h => h hcap)
      (fun _ _ => id) fun _ _ => id
  | succ left ih =>
    refine (hends (left + 1)).bind fun ends => Triple.ite (fun _ => Triple.pure fun _ h => h) fun _ => ?_
    refine Triple.bind (hitem.mono (fun _ _ => trivial) (fun _ _ => id) fun _ _ => id) fun flow => ?_
    cases flow with
    | stop => exact Triple.pure fun _ h => h
    | next => exact (ih (by omega)).mono (fun _ h _ => h) (fun _ _ => id) fun _ _ => id

theorem settles_runUntil (g : GuardNode) (hitem : ∀ n, Settles steps (item n)) :
    Settles steps (runUntil rt call g item steps) := by
  refine Triple.bind (Triple.any _) fun n => Triple.bind (Triple.any _) fun r => ?_
  refine Triple.bind ((triple_untilLoop g _ (hitem n) untilRoundCap (Nat.le_refl _)).mono
    (fun _ _ h => absurd h (Nat.lt_irrefl _)) (fun _ _ => id) fun _ _ => id) fun rounds => ?_
  rcases rounds with _ | _ | rounds
  · exact Triple.pure fun _ h => h
  · refine Triple.bind (Triple.any _) fun results => ?_
    refine (triple_skip rt _ g .until _ steps (some 0) _ n).bind fun _ => ?_
    exact (Covers.recordInvariant steps).keeps_logRun.returns.bind fun _ =>
      Triple.pure fun _ h => h
  · exact Triple.pure fun _ h => h (by omega)

theorem settles_repeatLoop {item : L ρ χ ν Flow} (hitem : Settles steps item)
    (hkeep : Keeps (Covers steps) item) (count : Nat) :
    Settles steps (repeatLoop item (count + 1)) := by
  refine Triple.bind hitem fun flow => ?_
  cases flow with
  | stop => exact Triple.pure fun _ h => h
  | next =>
    have hrest : Settles [] (repeatLoop item count) := by
      induction count with
      | zero => exact Triple.pure fun r _ => Covers.nil r
      | succ count ih =>
        refine Triple.bind hitem fun flow => ?_
        cases flow with
        | stop => exact Triple.pure fun _ h => h
        | next => exact ih.mono (fun _ _ => trivial) (fun _ _ => id) fun _ _ => id
    refine (Triple.and (BodyInvariant.keeps_repeatLoop hkeep count) hrest).mono
      (fun r h => ⟨h, trivial⟩) (fun flow r h => ?_) fun _ _ _ => trivial
    cases flow with
    | next => exact h.1
    | stop => exact h.2

/-! ### Coverage of the body -/

/-- Every item of a body settles its steps. -/
theorem settles_runItem (schedules : Nat → List Move) {item : Item}
    (hids : (item.steps.map Step.id).Nodup) (under : List Nat) :
    Settles item.steps (runItem rt call schedules under item) := by
  induction item generalizing under with
  | step s => exact settles_runSequentialStep under s
  | concurrency id steps => exact settles_runParallelBlock schedules under steps
  | pipeline id steps => exact settles_runPipeline under steps
  | «when» g alternatives item ih =>
    exact settles_runWhen g alternatives fun n => ih hids (n :: under)
  | whenOtherwise g alternatives item otherwise ih ih' =>
    rw [Item.steps, List.map_append, List.nodup_append] at hids
    exact settles_runWhen_otherwise g alternatives (fun n => ih hids.1 (n :: under))
      (fun n => ih' hids.2.1 (n :: under))
      fun n => (Covers.recordInvariant _).keeps_runItem schedules hids.2.1 (n :: under)
  | «until» g item ih => exact settles_runUntil g fun n => ih hids (n :: under)
  | «repeat» id count item ih =>
    cases count with
    | zero =>
      -- nothing runs and nothing is recorded, but the count of the `repeat` is 0
      refine Triple.bind (Q := fun _ r => 0 ∈ r.repeats) (Triple.modify fun r _ =>
        List.mem_append_right _ List.mem_cons_self) fun _ => Triple.pure fun r h => ?_
      exact fun ha => absurd rfl (ha.repeats 0 h)
    | succ count =>
      have hitem : (item.steps.map Step.id).Nodup := hids
      exact Triple.bind (Triple.any _) fun _ => settles_repeatLoop (ih hitem under)
        ((Covers.recordInvariant _).keeps_runItem schedules hitem under) count

/-- The body settles its steps. -/
theorem settles_runBody (schedules : Nat → List Move) {body : List Item}
    (hids : ((body.flatMap Item.steps).map Step.id).Nodup) :
    Settles (body.flatMap Item.steps) (runBody rt call schedules body) := by
  induction body with
  | nil => exact Triple.pure fun r _ => Covers.nil r
  | cons item items ih =>
    rw [List.flatMap_cons, List.map_append, List.nodup_append] at hids
    exact settles_bind (settles_runItem schedules hids.1 []) rfl
      ((Covers.recordInvariant _).keeps_runBody schedules hids.2.1) (ih hids.2.1)

end Lnpl.Interp
