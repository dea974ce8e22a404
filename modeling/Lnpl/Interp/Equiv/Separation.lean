import Lnpl.Interp.Equiv.Coverage

/-!
# Separation of records and skip records

No step that ran under a guard evaluation is listed by the skip record of that evaluation.  Every
evaluation has a number of its own, nothing is recorded under a number that is still to come, and
the branches of one guard have different steps.
-/

namespace Lnpl.Interp

open Lnpl.Lib

variable {ρ χ ν : Type} {rt : Runtime ρ χ ν} {call : Call}

/-! ### Separation -/

/-- No step that ran under a guard evaluation is listed by the skip record of that evaluation. -/
def SeparatedBy (steps : List StepRecord) (skipped : List SkipRecord) : Prop :=
  ∀ rec ∈ steps, ∀ k ∈ skipped, k.evaluation ∈ rec.under → rec.stepId ∉ k.stepIds

/-- The records are separated, and the numbers of evaluations to come are fresh. -/
structure Separated (r : Run ρ χ ν) : Prop where
  under : ∀ rec ∈ r.steps, ∀ n ∈ rec.under, n < r.evaluated
  evaluation : ∀ k ∈ r.skipped, k.evaluation < r.evaluated
  separated : SeparatedBy r.steps r.skipped

/-- What a part of the body with these steps, begun in `r₀`, keeps: what it records are its own
steps, and what it skips it skips by evaluations of its own. -/
structure Within (r₀ : Run ρ χ ν) (steps : List Step) (r : Run ρ χ ν) : Prop where
  inv : Separated r
  evaluated : r₀.evaluated ≤ r.evaluated
  steps : ∀ rec ∈ r.steps, rec ∈ r₀.steps ∨ rec.stepId ∈ steps.map Step.id
  skipped : ∀ k ∈ r.skipped, k ∈ r₀.skipped ∨ r₀.evaluated ≤ k.evaluation

/-- The steps may run under these evaluations from `r₀` on: they are not fresh any more, and none of
them has skipped one of the steps. -/
structure MayRun (r₀ : Run ρ χ ν) (under : List Nat) (steps : List Step) : Prop where
  begun : ∀ n ∈ under, n < r₀.evaluated
  skipped : ∀ k ∈ r₀.skipped, k.evaluation ∈ under → ∀ step ∈ steps, step.id ∉ k.stepIds

theorem Within.refl {r : Run ρ χ ν} (h : Separated r) (steps : List Step) : Within r steps r :=
  ⟨h, Nat.le_refl _, fun _ => Or.inl, fun _ => Or.inl⟩

variable {steps' : List Step}

theorem Within.trans {r₀ r₁ r : Run ρ χ ν} {steps : List Step} (h : Within r₀ steps r₁)
    (h' : Within r₁ steps' r) (hsub : ∀ step ∈ steps', step ∈ steps) : Within r₀ steps r where
  inv := h'.inv
  evaluated := Nat.le_trans h.evaluated h'.evaluated
  steps rec hrec := by
    rcases h'.steps rec hrec with hold | hnew
    · exact h.steps rec hold
    · obtain ⟨step, hstep, he⟩ := List.mem_map.mp hnew
      exact Or.inr (List.mem_map.mpr ⟨step, hsub step hstep, he⟩)
  skipped k hk := by
    rcases h'.skipped k hk with hold | hnew
    · exact h.skipped k hold
    · exact Or.inr (Nat.le_trans h.evaluated hnew)

theorem MayRun.mono {r₀ : Run ρ χ ν} {under : List Nat} {steps : List Step}
    (h : MayRun r₀ under steps) (hsub : ∀ step ∈ steps', step ∈ steps) : MayRun r₀ under steps' :=
  ⟨h.begun, fun k hk hu step hstep => h.skipped k hk hu step (hsub step hstep)⟩

section Separation

variable {r₀ r : Run ρ χ ν} {under : List Nat} {steps : List Step}

variable {r' : Run ρ χ ν} {k : SkipRecord} {rec : StepRecord} {α : Type} {others : List Step}
  {item : Nat → L ρ χ ν Flow}

section

variable (h : Within r₀ steps r)
include h

/-- New records of steps that may run. -/
theorem Within.addRecords (hmay : MayRun r₀ under steps) {l : List StepRecord}
    (hsteps : r'.steps = r.steps ++ l) (hskipped : r'.skipped = r.skipped)
    (hevaluated : r'.evaluated = r.evaluated)
    (hl : ∀ rec ∈ l, rec.under = under ∧ rec.stepId ∈ steps.map Step.id) : Within r₀ steps r' where
  inv := by
    refine ⟨?_, by rw [hskipped, hevaluated]; exact h.inv.evaluation, ?_⟩
    · rw [hsteps, hevaluated]
      intro rec hrec n hn
      rcases List.mem_append.mp hrec with hold | hnew
      · exact h.inv.under rec hold n hn
      · rw [(hl rec hnew).1] at hn
        exact Nat.lt_of_lt_of_le (hmay.begun n hn) h.evaluated
    · unfold SeparatedBy
      rw [hsteps, hskipped]
      intro rec hrec k hk hin
      rcases List.mem_append.mp hrec with hold | hnew
      · exact h.inv.separated rec hold k hk hin
      · rw [(hl rec hnew).1] at hin
        obtain ⟨step, hstep, he⟩ := List.mem_map.mp (hl rec hnew).2
        rw [← he]
        rcases h.skipped k hk with hk₀ | hfresh
        · exact hmay.skipped k hk₀ hin step hstep
        · exact absurd (hmay.begun _ hin) (Nat.not_lt.mpr hfresh)
  evaluated := by rw [hevaluated]; exact h.evaluated
  steps rec hrec := by
    rw [hsteps] at hrec
    rcases List.mem_append.mp hrec with hold | hnew
    · exact h.steps rec hold
    · exact Or.inr (hl rec hnew).2
  skipped := by rw [hskipped]; exact h.skipped

/-- Changes elsewhere. -/
theorem Within.frame (hsteps : r'.steps = r.steps) (hskipped : r'.skipped = r.skipped)
    (hevaluated : r'.evaluated = r.evaluated) :
    Within r₀ steps r' where
  inv := by
    refine ⟨by rw [hsteps, hevaluated]; exact h.inv.under,
      by rw [hskipped, hevaluated]; exact h.inv.evaluation, ?_⟩
    unfold SeparatedBy
    rw [hsteps, hskipped]
    exact h.inv.separated
  evaluated := by rw [hevaluated]; exact h.evaluated
  steps := by rw [hsteps]; exact h.steps
  skipped := by rw [hskipped]; exact h.skipped

/-- A new skip record of an evaluation under which none of its steps has run. -/
theorem Within.addSkip (hfresh : r₀.evaluated ≤ k.evaluation) (hbegun : k.evaluation < r.evaluated)
    (hran : ∀ rec ∈ r.steps, k.evaluation ∈ rec.under → rec.stepId ∉ k.stepIds) :
    Within r₀ steps { r with skipped := r.skipped ++ [k] } where
  inv := by
    refine ⟨h.inv.under, fun k' hk' => ?_, fun rec hrec k' hk' hin => ?_⟩
    · rcases List.mem_append.mp hk' with hold | hnew
      · exact h.inv.evaluation k' hold
      · rw [List.mem_singleton.mp hnew]
        exact hbegun
    · rcases List.mem_append.mp hk' with hold | hnew
      · exact h.inv.separated rec hrec k' hold hin
      · rw [List.mem_singleton.mp hnew] at hin ⊢
        exact hran rec hrec hin
  evaluated := h.evaluated
  steps := h.steps
  skipped k' hk' := by
    rcases List.mem_append.mp hk' with hold | hnew
    · exact h.skipped k' hold
    · rw [List.mem_singleton.mp hnew]
      exact Or.inr hfresh

theorem Within.mono {steps' : List Step} (hsub : ∀ step ∈ steps, step ∈ steps') :
    Within r₀ steps' r where
  inv := h.inv
  evaluated := h.evaluated
  steps rec hrec := (h.steps rec hrec).imp_right fun hin => by
    obtain ⟨step, hstep, he⟩ := List.mem_map.mp hin
    exact List.mem_map.mpr ⟨step, hsub step hstep, he⟩
  skipped := h.skipped

end

/-- What may run from `r₀` on may run later. -/
theorem MayRun.later (hmay : MayRun r₀ under steps) (h : Within r₀ steps r) :
    MayRun r under steps where
  begun n hn := Nat.lt_of_lt_of_le (hmay.begun n hn) h.evaluated
  skipped k hk hin := by
    rcases h.skipped k hk with hold | hfresh
    · exact hmay.skipped k hold hin
    · exact absurd (hmay.begun _ hin) (Nat.not_lt.mpr hfresh)

/-- A program of the main loop that records and skips these steps apart from each other. -/
def Separates {α : Type} (under : List Nat) (steps : List Step) (m : L ρ χ ν α) : Prop :=
  ∀ r₀, MayRun r₀ under steps → Keeps (Within r₀ steps) m

theorem Within.runInvariant (r₀ : Run ρ χ ν) (steps : List Step) :
    RunInvariant (Within r₀ steps) where
  exec _ _ h := h.frame rfl rfl rfl
  failWith _ _ h := h.frame rfl rfl rfl

/-! ### Separation of steps and blocks -/

theorem keeps_within_runSequentialStep (hmay : MayRun r₀ under steps) {step : Step}
    (hstep : step ∈ steps) :
    Keeps (Within r₀ steps) (runSequentialStep rt call under step) := by
  have hI := Within.runInvariant r₀ steps
  refine (hI.keeps_onExec _).bind fun o => ?_
  have hrecord : Keeps (Within r₀ steps)
      (modify (Run.record step none under o) : L ρ χ ν Unit) := by
    refine Keeps.modify fun r hr => hr.addRecords hmay rfl rfl rfl fun rec hrec => ?_
    rw [List.mem_singleton.mp hrec]
    exact ⟨rfl, List.mem_map.mpr ⟨step, hstep, rfl⟩⟩
  refine hrecord.bind fun _ => ?_
  cases o.error with
  | some e => exact (Keeps.modify fun r => hI.failWith r _).bind fun _ => Keeps.pure _
  | none =>
    refine Keeps.get.bind fun r => Keeps.ite ?_ (Keeps.pure _)
    exact (Keeps.modify (hI.exceedDeadline step)).bind fun _ => Keeps.pure _

theorem separates_runPipeline (under : List Nat) (steps : List Step) :
    Separates under steps (runPipeline rt call under steps) := by
  intro r₀ hmay
  suffices h : ∀ l, (∀ step ∈ l, step ∈ steps) →
      Keeps (Within r₀ steps) (runPipeline rt call under l) from h steps fun _ => id
  intro l hl
  induction l with
  | nil => exact Keeps.pure _
  | cons step l ih =>
    refine (keeps_within_runSequentialStep hmay (hl step List.mem_cons_self)).bind fun flow => ?_
    cases flow with
    | stop => exact Keeps.pure _
    | next => exact ih fun s hs => hl s (List.mem_cons_of_mem step hs)

/-- The records of a block are of its steps, under the evaluations above it. -/
theorem mem_outcomes {block : Nat} {steps : List Step} {ends : List WorkerEnd}
    (h : rec ∈ (steps.zip ends).filterMap (outcomeRecord block under)) :
    rec.under = under ∧ rec.stepId ∈ steps.map Step.id := by
  obtain ⟨⟨step, e⟩, hmem, he⟩ := List.mem_filterMap.mp h
  cases e with
  | done start o =>
    rw [outcomeRecord, Option.some.injEq] at he
    rw [← he]
    exact ⟨rfl, List.mem_map.mpr ⟨step, (List.of_mem_zip hmem).1, rfl⟩⟩
  | raised e => simp [outcomeRecord] at he
  | cancelled => simp [outcomeRecord] at he

theorem join_evaluated (under : List Nat) (steps : List Step) (ends : List WorkerEnd)
    (s : Exec ρ χ ν) (r : Run ρ χ ν) : (r.join under steps ends s).evaluated = r.evaluated := by
  unfold Run.join
  obtain ⟨_, _, _, h⟩ := recordOutcomes_eq r.blocks.length under (steps.zip ends)
    { r with exec := s, blocks := r.blocks ++ [⟨steps, ends⟩] }
  rw [h]
  split <;> rfl

theorem separates_runParallelBlock (schedules : Nat → List Move) (under : List Nat)
    (steps : List Step) :
    Separates under steps (runParallelBlock rt call schedules under steps) := by
  intro r₀ hmay
  have hI := Within.runInvariant r₀ steps
  refine Keeps.get.bind fun r => ?_
  have hjoin : ∀ (ends : List WorkerEnd) (s : Exec ρ χ ν),
      Keeps (Within r₀ steps) (modify (Run.join under steps ends s) : L ρ χ ν Unit) := by
    intro ends s
    refine Keeps.modify fun r hr => ?_
    obtain ⟨hsteps, hskipped, _, _⟩ := join_fields under steps ends s r
    exact hr.addRecords hmay hsteps hskipped (join_evaluated under steps ends s r)
      fun rec hrec => mem_outcomes hrec
  refine (hjoin _ _).bind fun _ => Keeps.ite (Keeps.pure _) ?_
  cases steps.getLast? with
  | none => exact Keeps.pure _
  | some last =>
    refine Keeps.get.bind fun r => Keeps.ite ?_ (Keeps.pure _)
    exact (Keeps.modify (hI.exceedDeadline last)).bind fun _ => Keeps.pure _

/-! ### Separation of the guards -/

/-- A guard evaluation has been numbered, and nothing has run under it. -/
structure Numbered (r₁ r : Run ρ χ ν) : Prop where
  steps : r.steps = r₁.steps
  skipped : r.skipped = r₁.skipped
  evaluated : r.evaluated = r₁.evaluated + 1

/-- These steps have run under a guard evaluation, and no others. -/
structure Ran (r₁ : Run ρ χ ν) (steps : List Step) (r : Run ρ χ ν) : Prop where
  within : Within r₁ steps r
  evaluated : r₁.evaluated < r.evaluated
  under : ∀ rec ∈ r.steps, r₁.evaluated ∈ rec.under → rec.stepId ∈ steps.map Step.id

/-- A guard evaluation has skipped these steps, and nothing has run under it. -/
structure Skipped (r₁ : Run ρ χ ν) (steps : List Step) (r : Run ρ χ ν) : Prop where
  skipped : ∃ k : SkipRecord, r.skipped = r₁.skipped ++ [k] ∧ k.evaluation = r₁.evaluated ∧
    k.stepIds = steps.map Step.id
  records : r.steps = r₁.steps
  evaluated : r.evaluated = r₁.evaluated + 1

variable {r₁ : Run ρ χ ν}

theorem Numbered.runInvariant : RunInvariant (Numbered r₁) where
  exec _ _ h := ⟨h.steps, h.skipped, h.evaluated⟩
  failWith _ _ h := ⟨h.steps, h.skipped, h.evaluated⟩

theorem Skipped.runInvariant : RunInvariant (Skipped r₁ steps) where
  exec _ _ h := ⟨h.skipped, h.records, h.evaluated⟩
  failWith _ _ h := ⟨h.skipped, h.records, h.evaluated⟩

/-- No step has been recorded under an evaluation to come. -/
theorem Separated.not_mem_under (h : Separated r) (hrec : rec ∈ r.steps) :
    r.evaluated ∉ rec.under :=
  fun hin => Nat.lt_irrefl _ (h.under rec hrec _ hin)

theorem Numbered.within (h : Numbered r₁ r) (hsep : Separated r₁) (steps : List Step) :
    Within r₁ steps r where
  inv := by
    refine ⟨?_, ?_, ?_⟩
    · rw [h.steps, h.evaluated]
      exact fun rec hrec n hn => Nat.lt_succ_of_lt (hsep.under rec hrec n hn)
    · rw [h.skipped, h.evaluated]
      exact fun k hk => Nat.lt_succ_of_lt (hsep.evaluation k hk)
    · rw [h.steps, h.skipped]
      exact hsep.separated
  evaluated := by
    rw [h.evaluated]
    exact Nat.le_succ _
  steps := by
    rw [h.steps]
    exact fun _ => Or.inl
  skipped := by
    rw [h.skipped]
    exact fun _ => Or.inl

/-- What a guard guards may run under its evaluation. -/
theorem Numbered.mayRun (h : Numbered r₁ r) (hsep : Separated r₁) (hmay : MayRun r₁ under steps) :
    MayRun r (r₁.evaluated :: under) steps where
  begun n hn := by
    rw [h.evaluated]
    rcases List.mem_cons.mp hn with rfl | hn
    · exact Nat.lt_succ_self _
    · exact Nat.lt_succ_of_lt (hmay.begun n hn)
  skipped k hk hin := by
    rw [h.skipped] at hk
    rcases List.mem_cons.mp hin with heq | hin
    · exact absurd (hsep.evaluation k hk) (by omega)
    · exact hmay.skipped k hk hin

/-- A guard that has let its steps run. -/
theorem Numbered.ran {r₂ : Run ρ χ ν} (h : Numbered r₁ r₂) (hsep : Separated r₁)
    (hran : Within r₂ steps r) : Ran r₁ steps r where
  within := (h.within hsep steps).trans hran fun _ => id
  evaluated := by
    have := hran.evaluated
    rw [h.evaluated] at this
    exact this
  under rec hrec hin := by
    rcases hran.steps rec hrec with hold | hnew
    · rw [h.steps] at hold
      exact absurd hin (hsep.not_mem_under hold)
    · exact hnew

theorem triple_ran {item : L ρ χ ν α} (hsep : Separated r₁) (hmay : MayRun r₁ under steps)
    (hitem : Separates (r₁.evaluated :: under) steps item) :
    Triple (Numbered r₁) item (fun _ => Ran r₁ steps) fun _ => Ran r₁ steps := by
  intro r₂ h₂
  have hkeep := hitem r₂ (h₂.mayRun hsep hmay)
  have hstart := Within.refl (h₂.within hsep steps).inv steps
  exact (hkeep.mono (fun _ => id) (fun _ _ => h₂.ran hsep) fun _ _ => h₂.ran hsep) r₂ hstart

theorem triple_skipped (rt : Runtime ρ χ ν) (g : GuardNode) (mode : SkipMode) (condition : String)
    (steps : List Step) (rounds : Option Nat) (evaluations : List Evaluation) :
    Triple (Numbered r₁) (skip rt g mode condition steps rounds evaluations r₁.evaluated)
      (fun _ => Skipped r₁ steps) fun _ => Skipped r₁ steps := by
  refine Triple.modify fun r hr => ⟨⟨_, congrArg (· ++ [_]) hr.skipped, ?_, ?_⟩, hr.steps,
    hr.evaluated⟩
  · rfl
  · rfl

theorem Skipped.within (h : Skipped r₁ steps r) (hsep : Separated r₁) : Within r₁ steps r := by
  obtain ⟨k, hk, he, _⟩ := h.skipped
  have hnum : Numbered r₁ { r with skipped := r₁.skipped } := ⟨h.records, rfl, h.evaluated⟩
  have hadd := (hnum.within hsep steps).addSkip (Nat.le_of_eq he.symm) (k := k)
    (by rw [he, hnum.evaluated]; exact Nat.lt_succ_self _)
    (fun rec hrec hin => by
      rw [hnum.steps] at hrec
      rw [he] at hin
      exact absurd hin (hsep.not_mem_under hrec))
  exact hadd.frame rfl hk rfl

/-- The other branch of a guard may run under its evaluation. -/
theorem Skipped.mayRun (h : Skipped r₁ steps r) (hsep : Separated r₁)
    (hmay : MayRun r₁ under others) (hdisj : ∀ step ∈ others, step.id ∉ steps.map Step.id) :
    MayRun r (r₁.evaluated :: under) others where
  begun n hn := by
    rw [h.evaluated]
    rcases List.mem_cons.mp hn with rfl | hn
    · exact Nat.lt_succ_self _
    · exact Nat.lt_succ_of_lt (hmay.begun n hn)
  skipped k hk hin := by
    obtain ⟨k', hk', _, hids⟩ := h.skipped
    rw [hk'] at hk
    rcases List.mem_append.mp hk with hold | hnew
    · rcases List.mem_cons.mp hin with heq | hin
      · exact absurd (hsep.evaluation k hold) (by omega)
      · exact hmay.skipped k hold hin
    · rw [List.mem_singleton.mp hnew, hids]
      exact hdisj

/-- The record of the branch that a guard did not choose. -/
theorem Ran.addSkip (h : Ran r₁ steps r) (hdisj : ∀ step ∈ others, step.id ∉ steps.map Step.id)
    (hk : k.evaluation = r₁.evaluated) (hids : k.stepIds = others.map Step.id) :
    Within r₁ (steps ++ others) { r with skipped := r.skipped ++ [k] } := by
  have hw := h.within.mono fun step hs => List.mem_append_left others hs
  refine hw.addSkip (Nat.le_of_eq hk.symm) (by rw [hk]; exact h.evaluated) fun rec hrec hin => ?_
  rw [hk] at hin
  rw [hids]
  intro hmem
  obtain ⟨step, hstep, he⟩ := List.mem_map.mp hmem
  have := h.under rec hrec hin
  rw [← he] at this
  exact hdisj step hstep this

/-- A guard numbers its evaluation before anything runs. -/
theorem separates_nextEvaluation {f : Nat → L ρ χ ν α}
    (hf : ∀ r₁ : Run ρ χ ν, Separated r₁ → MayRun r₁ under steps →
      Triple (Numbered r₁) (f r₁.evaluated) (fun _ => Within r₁ steps) fun _ => Within r₁ steps) :
    Separates under steps (nextEvaluation >>= f) := by
  intro r₀ hmay r hr
  have hnext : (nextEvaluation : L ρ χ ν Nat) r =
      .ok r.evaluated { r with evaluated := r.evaluated + 1 } := rfl
  rw [EStateM.bind_ok hnext]
  have hlater : ∀ r', Within r steps r' → Within r₀ steps r' := fun r' h => hr.trans h fun _ => id
  exact ((hf r hr.inv (hmay.later hr)).mono (fun _ => id) (fun _ => hlater) fun _ => hlater) _
    ⟨rfl, rfl, rfl⟩

theorem separates_runWhen (g : GuardNode) (alternatives : List String)
    {otherwise : Option ((Nat → L ρ χ ν Flow) × List Step)}
    (hitem : ∀ n, Separates (n :: under) steps (item n))
    (hother : ∀ p, otherwise = some p → p.2 = others ∧
      ∀ n, Separates (n :: under) others (p.1 n))
    (hdisj : ∀ step ∈ others, step.id ∉ steps.map Step.id) :
    Separates under (steps ++ others) (runWhen rt call g alternatives item steps otherwise) := by
  intro r₀ hmay
  refine (LogInvariant.keeps_evaluateGuard g _).bind fun results =>
    separates_nextEvaluation (fun r₁ hsep hmay => Triple.ite (fun _ => ?_) fun _ => ?_) r₀ hmay
  · have hmine := hmay.mono fun step hs => List.mem_append_left others hs
    have hran := triple_ran hsep hmine (hitem r₁.evaluated)
    have hwithin : ∀ r, Ran r₁ steps r → Within r₁ (steps ++ others) r := fun r h =>
      h.within.mono fun step hs => List.mem_append_left others hs
    refine Triple.bind (Q := fun _ => Numbered r₁) (Numbered.runInvariant.keeps_logFired.mono
      (fun _ => id) (fun _ _ => id) fun _ r h => h.within hsep _) fun _ => ?_
    refine (hran.mono (fun _ => id) (fun _ _ => id) fun _ => hwithin).bind fun flow => ?_
    cases flow with
    | stop => exact Triple.pure hwithin
    | next =>
      refine Triple.bind (Q := fun _ => Within r₁ (steps ++ others)) ?_
        fun _ => Triple.pure fun _ => id
      cases otherwise with
      | none => exact Triple.pure hwithin
      | some p => exact Triple.modify fun r hr => hr.addSkip hdisj rfl (by rw [(hother p rfl).1])
  · have hwithin : ∀ r, Skipped r₁ steps r → Within r₁ (steps ++ others) r := fun r h =>
      (h.within hsep).mono fun step hs => List.mem_append_left others hs
    refine ((triple_skipped rt g .when _ steps none _).mono (fun _ => id) (fun _ _ => id)
      fun _ => hwithin).bind fun _ => ?_
    refine Triple.bind (Q := fun _ => Skipped r₁ steps) (Skipped.runInvariant.keeps_logRun.mono
      (fun _ => id) (fun _ _ => id) fun _ => hwithin) fun _ => ?_
    cases otherwise with
    | none => exact Triple.pure hwithin
    | some p =>
      -- the other branch runs, under an evaluation that has skipped steps of the first one only
      intro r hr
      have htheirs := hmay.mono fun step hs => List.mem_append_right steps hs
      have hkeep := (hother p rfl).2 r₁.evaluated r (hr.mayRun hsep htheirs hdisj)
      have hstep : ∀ r', Within r others r' → Within r₁ (steps ++ others) r' := fun r' h =>
        (hwithin r hr).trans h fun step hs => List.mem_append_right steps hs
      exact (hkeep.mono (fun _ => id) (fun _ => hstep) fun _ => hstep) r
        (Within.refl (hr.within hsep).inv others)

/-- What holds between the rounds of an `until`: its steps may run once more, and before the first
round nothing has run. -/
structure Looping (r₁ : Run ρ χ ν) (under : List Nat) (steps : List Step) (left : Nat)
    (r : Run ρ χ ν) : Prop where
  within : Within r₁ steps r
  mayRun : MayRun r (r₁.evaluated :: under) steps
  numbered : left = untilRoundCap → Numbered r₁ r

theorem Looping.runInvariant (left : Nat) : RunInvariant (Looping r₁ under steps left) where
  exec _ _ h := ⟨h.within.frame rfl rfl rfl, ⟨h.mayRun.begun, h.mayRun.skipped⟩,
    fun hl => Numbered.runInvariant.exec _ _ (h.numbered hl)⟩
  failWith _ _ h := ⟨h.within.frame rfl rfl rfl, ⟨h.mayRun.begun, h.mayRun.skipped⟩,
    fun hl => Numbered.runInvariant.failWith _ _ (h.numbered hl)⟩

/-- An `until` without a round has run nothing under its evaluation. -/
theorem triple_untilLoop_within (g : GuardNode) (deadline : Option Nat) {item : L ρ χ ν Flow}
    (hitem : Separates (r₁.evaluated :: under) steps item) (left : Nat)
    (hleft : left ≤ untilRoundCap) :
    Triple (Looping r₁ under steps left) (untilLoop rt call g deadline item left)
      (fun rounds r => Within r₁ steps r ∧ (rounds = .ended 0 → Numbered r₁ r))
      fun _ => Within r₁ steps := by
  have hends : ∀ left, Triple (Looping r₁ under steps left)
      (untilEnds rt call g deadline (untilRoundCap - left))
      (fun _ => Looping r₁ under steps left) fun _ => Within r₁ steps := fun left =>
    ((Looping.runInvariant left).keeps_untilEnds g deadline _).mono (fun _ => id) (fun _ _ => id)
      fun _ _ h => h.within
  have hended : ∀ left r, left ≤ untilRoundCap → Looping r₁ under steps left r →
      Within r₁ steps r ∧ (Rounds.ended (untilRoundCap - left) = .ended 0 → Numbered r₁ r) := by
    refine fun left r hle h => ⟨h.within, fun heq => h.numbered ?_⟩
    rw [Rounds.ended.injEq] at heq
    omega
  induction left with
  | zero =>
    refine (hends 0).bind fun ends => Triple.ite (fun _ => Triple.pure (hended 0 · hleft))
      fun _ => ?_
    refine Triple.bind ((Looping.runInvariant 0).keeps_logRun.mono (fun _ => id) (fun _ _ => id)
      fun _ _ h => h.within) fun _ => Triple.pure (hended 0 · hleft)
  | succ left ih =>
    refine (hends (left + 1)).bind fun ends =>
      Triple.ite (fun _ => Triple.pure (hended _ · hleft)) fun _ => ?_
    refine Triple.bind (Q := fun _ => Looping r₁ under steps left) ?_ fun flow => ?_
    · intro r hr
      have hkeep := hitem r hr.mayRun
      refine (hkeep.mono (fun _ => id) (fun _ r' h => ?_) fun _ r' h => ?_) r
        (Within.refl hr.within.inv steps)
      · exact ⟨hr.within.trans h fun _ => id, hr.mayRun.later h, fun hl => absurd hl (by omega)⟩
      · exact hr.within.trans h fun _ => id
    · cases flow with
      | stop => exact Triple.pure fun _ h => ⟨h.within, nofun⟩
      | next => exact ih (by omega)

theorem separates_runUntil (g : GuardNode) (hitem : ∀ n, Separates (n :: under) steps (item n)) :
    Separates under steps (runUntil rt call g item steps) := by
  refine separates_nextEvaluation fun r₁ hsep hmay => ?_
  refine Triple.bind (Q := fun _ => Looping r₁ under steps untilRoundCap)
    (Triple.get fun r hr => ⟨hr.within hsep _, hr.mayRun hsep hmay, fun _ => hr⟩) fun r => ?_
  refine (triple_untilLoop_within g _ (hitem r₁.evaluated) untilRoundCap (Nat.le_refl _)).bind
    fun rounds => ?_
  rcases rounds with _ | _ | rounds
  · exact Triple.pure fun _ h => h.1
  · refine Triple.bind (Q := fun _ => Numbered r₁) ?_ fun results => ?_
    · exact (LogInvariant.keeps_evaluateGuard g _).mono (fun _ h => h.2 rfl) (fun _ _ => id)
        fun _ _ h => h.within hsep _
    · refine ((triple_skipped rt g .until _ steps (some 0) _).mono (fun _ => id)
        (fun _ _ h => h.within hsep) fun _ _ h => h.within hsep).bind fun _ => ?_
      exact (Within.runInvariant r₁ steps).keeps_logRun.bind fun _ => Triple.pure fun _ => id
  · exact Triple.pure fun _ h => h.1

/-! ### Separation of the body -/

/-- Every item of a body keeps its records and its skip records separate. -/
theorem separates_runItem (schedules : Nat → List Move) {item : Item}
    (hids : (item.steps.map Step.id).Nodup) (under : List Nat) :
    Separates under item.steps (runItem rt call schedules under item) := by
  induction item generalizing under with
  | step s => exact fun r₀ hmay => keeps_within_runSequentialStep hmay List.mem_cons_self
  | concurrency id steps => exact separates_runParallelBlock schedules under steps
  | pipeline id steps => exact separates_runPipeline under steps
  | «when» g alternatives item ih =>
    have h : Separates under (item.steps ++ []) (runWhen rt call g alternatives
        (fun n => runItem rt call schedules (n :: under) item) item.steps none) :=
      separates_runWhen g alternatives (fun n => ih hids (n :: under)) nofun nofun
    rwa [List.append_nil] at h
  | whenOtherwise g alternatives item otherwise ih ih' =>
    rw [Item.steps, List.map_append, List.nodup_append] at hids
    refine separates_runWhen g alternatives (fun n => ih hids.1 (n :: under)) (fun p hp => ?_)
      fun step hstep hmem => ?_
    · rw [← Option.some.inj hp]
      exact ⟨rfl, fun n => ih' hids.2.1 (n :: under)⟩
    · exact hids.2.2 _ hmem _ (List.mem_map.mpr ⟨step, hstep, rfl⟩) rfl
  | «until» g item ih => exact separates_runUntil g fun n => ih hids (n :: under)
  | «repeat» id count item ih =>
    intro r₀ hmay
    refine Keeps.bind (Keeps.modify fun r hr => hr.frame rfl rfl rfl) fun _ => ?_
    exact BodyInvariant.keeps_repeatLoop (ih hids under r₀ hmay) count

/-- The body keeps its records and its skip records separate. -/
theorem separated_runBody (schedules : Nat → List Move) {body : List Item}
    (hids : ((body.flatMap Item.steps).map Step.id).Nodup) :
    Keeps (Separated : Run ρ χ ν → Prop) (runBody rt call schedules body) := by
  induction body with
  | nil => exact Keeps.pure _
  | cons item items ih =>
    rw [List.flatMap_cons, List.map_append, List.nodup_append] at hids
    refine Keeps.bind (fun r hr => ?_) fun flow => ?_
    · have hkeep : Keeps (Within r item.steps) (runItem rt call schedules [] item) :=
        separates_runItem schedules hids.1 [] r ⟨nofun, nofun⟩
      exact (hkeep.mono (fun _ => id) (fun _ _ h => h.inv) fun _ _ h => h.inv) r
        (Within.refl hr item.steps)
    · cases flow with
      | stop => exact Keeps.pure _
      | next => exact ih hids.2.1

end Separation

end Lnpl.Interp

/-!
## The accounts of declared steps

**`runWorkflow_accountsForSteps`**: in the result of a run that begins no `repeat` of the count 0
and loses no branch, every declared step of a completed run has a record, or a skip record lists its
name, and no step that ran under a guard evaluation is listed by the skip record of that evaluation.

A `repeat 0` runs nothing and says nothing of what it did not run (`repeat_zero_is_silent`).
-/

namespace Lnpl.Interp

open Lnpl.Lib

variable {ρ χ ν : Type}

/-- What the result of a run owes the declared steps of its workflow. -/
def AccountsForSteps (wf : Workflow) (out : EStateM.Result Exc (Session ρ χ ν) Result) : Prop :=
  ∀ result t, out = .ok result t →
    (result.completed → ∀ step ∈ wf.steps, CoveredBy result.steps result.skipped step) ∧
      SeparatedBy result.steps result.skipped

/-- The loop has ended with its steps accounted for, or with a failure. -/
structure Accounted (steps : List Step) (r : Run ρ χ ν) : Prop where
  covers : Covers steps r ∨ r.failure ≠ none
  separated : SeparatedBy r.steps r.skipped

theorem Accounted.runInvariant (steps : List Step) :
    RunInvariant (Accounted steps : Run ρ χ ν → Prop) where
  exec r s h := ⟨h.covers.imp_left ((Covers.recordInvariant steps).exec r s), h.separated⟩
  failWith _ _ h := ⟨Or.inr nofun, h.separated⟩

/-- The body leaves its steps accounted for. -/
theorem accounted_runBody {rt : Runtime ρ χ ν} {call : Call} (schedules : Nat → List Move) :
    Triple (fun r : Run ρ χ ν => r = { exec := r.exec })
      (runBody rt call schedules call.workflow.body)
      (fun _ => Accounted call.workflow.steps) fun _ _ => True := by
  have hids := call.workflow.distinct
  have hcovers : Settles call.workflow.steps (runBody rt call schedules call.workflow.body) :=
    settles_runBody schedules hids
  refine (Triple.and hcovers (separated_runBody schedules hids)).mono (fun r hr => ?_)
    (fun flow r h => ?_) fun _ _ _ => trivial
  · refine ⟨trivial, ?_⟩
    rw [hr]
    exact ⟨nofun, nofun, nofun⟩
  · refine ⟨?_, h.2.separated⟩
    cases flow with
    | next => exact Or.inl h.1
    | stop => exact Or.inr h.1

/-- **Accounting of declared steps.**  Whatever the documents, the drivers, the conditions and the
schedules do: a run that begins no `repeat` of the count 0 and none of whose workers is left by an
exception other than a `RunError` accounts for the steps of its workflow. -/
theorem runWorkflow_accountsForSteps (rt : Runtime ρ χ ν) (id : String) (payload : Dict)
    (fill : FillSource → String) (schedules : Nat → List Move) (s : Exec ρ χ ν) (wf : Workflow)
    (hwf : (rt.doc.workflows.find? fun wf => wf.id = id) = some wf)
    (h : (EStateM.lastState (runWorkflow rt id payload fill schedules s)).run.Audible) :
    AccountsForSteps wf (runWorkflow rt id payload fill schedules s) := by
  intro result t hout
  have hI : RunInvariant (Accounted wf.steps : Run ρ χ ν → Prop) := Accounted.runInvariant wf.steps
  have hrun := hI.of_runWorkflow hI.keeps_termResponse (fun call hcall => ?_) hout
  · obtain ⟨haccounted, terms, hresult⟩ := hrun
    rw [hout] at h
    rw [hresult]
    refine ⟨fun hcompleted => ?_, haccounted.separated⟩
    rcases haccounted.covers with hcovers | hfailed
    · exact hcovers h
    · exact absurd (Option.isNone_iff_eq_none.mp hcompleted) hfailed
  · rw [hwf, Option.some.injEq] at hcall
    rw [hcall]
    exact accounted_runBody schedules

/-! ### A silent `repeat` -/

/-- A `repeat` of a descriptive step. -/
def repeatWorkflow (count : Nat) : Workflow :=
  { id := "w", name := "again"
    body := [.repeat "w.guard.1" count (.step ⟨"w.step.1", "Check The Stock", []⟩)]
    constraints := {}
    distinct := List.nodup_singleton _ }

/-- The run of that workflow. -/
def repeatRun (count : Nat) : EStateM.Result Exc (Session Unit Unit Unit) Result :=
  runWorkflow (Runtime.plain (repeatWorkflow count) (.silent [])) "w" ∅ (fun _ => "")
    (fun _ => []) .plain

/-- A `repeat` that runs its step twice. -/
theorem repeatRun_accountsForSteps : AccountsForSteps (repeatWorkflow 2) (repeatRun 2) := by
  refine runWorkflow_accountsForSteps _ _ _ _ _ _ _ rfl ⟨fun count hcount => ?_, nofun⟩
  have hrepeats : (EStateM.lastState (repeatRun 2)).run.repeats = [2] := rfl
  have : count = 2 := List.mem_singleton.mp (hrepeats ▸ hcount)
  omega

/-- **A silent `repeat`.**  The workflow `repeat 0` is completed with neither a record of its step
nor a skip record that lists it. -/
theorem repeat_zero_is_silent : ¬AccountsForSteps (repeatWorkflow 0) (repeatRun 0) := by
  intro h
  have hstep := (h _ _ rfl).1 rfl _ List.mem_cons_self
  rcases hstep with ⟨rec, hrec, _⟩ | ⟨k, hk, _⟩
  · exact absurd hrec List.not_mem_nil
  · exact absurd hk List.not_mem_nil

end Lnpl.Interp
