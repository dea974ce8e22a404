import Lnpl.Interp.Equiv.Workflow

/-!
# Invariants of the execution state

A predicate on the execution state that every effect of the declared steps keeps, at each point
where another worker may run (`EffectInvariant`), is kept by whole steps under their retry policy,
by the workers of a parallel block under every schedule (`EffectInvariant.runWorkers`), and so by
the main loop (`EffectInvariant.loopInvariant`).
-/

namespace Lnpl.Interp

open Lnpl.Lib

variable {ρ χ ν : Type}

/-! ### Driver faults -/

variable {α : Type} {I : Exec ρ χ ν → Prop}

variable {m : M ρ χ ν α}

theorem triple_translated {P : Exec ρ χ ν → Prop} {Q : α → Exec ρ χ ν → Prop}
    (h : Triple P m Q fun _ => I) :
    Triple P (translated m) Q fun _ => I :=
  Triple.tryCatch h fun _ => Triple.throw fun _ => id

theorem keeps_translated (h : Keeps I m) : Keeps I (translated m) :=
  triple_translated h

theorem keeps_orOutage {outage : M ρ χ ν α} (h : Keeps I m) (ho : Keeps I outage) :
    Keeps I (orOutage m outage) := by
  refine Keeps.tryCatch h fun e => ?_
  cases e with
  | driver cls message => exact ho
  | run e => exact Keeps.throw _
  | other cls => exact Keeps.throw _

/-! ### Effects -/

/-- An effect keeps what its action under the lock, the parts of an outbound call and the clock
keep. -/
theorem keeps_runEffect {rt : Runtime ρ χ ν} {call : Call} {J : Exec ρ χ ν → Prop} {e : Effect}
    (hatomic : Keeps J (atomicEffect rt call e))
    (hnetwork : ∀ id target pathArgs bodyMap result,
      Coro.Keeps J (networkCall rt call id target pathArgs bodyMap result))
    (hadvance : ∀ s, J s → J (s.advance 1)) : Coro.Keeps J (runEffect rt call e) := by
  have hend : Coro.Keeps J (Coro.lift (modify (Exec.advance 1)) : Coro (Exec ρ χ ν) Exc Unit) :=
    Coro.Keeps.lift (Keeps.modify hadvance)
  have hlift : Coro.Keeps J (do Coro.lift (atomicEffect rt call e); Coro.lift (modify (Exec.advance 1))) :=
    (Coro.Keeps.lift hatomic).bind fun _ => hend
  cases e with
  | networkCall id target pathArgs bodyMap result => exact (hnetwork _ _ _ _ _).bind fun _ => hend
  | _ => exact hlift

theorem keeps_networkCall {rt : Runtime ρ χ ν} {call : Call} {J : Exec ρ χ ν → Prop}
    (hsent : ∀ s sent, J s → J { s with sent := sent })
    (hnetwork : ∀ s network, J s → J { s with network := network })
    (hbind : ∀ s name row, J s → J (s.bind name row)) (id target : String) (pathArgs : List Ref)
    (bodyMap : List MapEntry) (result : Option String) :
    Coro.Keeps J (networkCall rt call id target pathArgs bodyMap result) := by
  have hprepare : Keeps J (prepareCall rt call id target pathArgs bodyMap) :=
    Keeps.get.bind fun _ => (Keeps.ofExcept _).bind fun _ => Keeps.pure _
  have hsend : ∀ request remaining bound, Keeps J (sendCall rt request remaining bound) := by
    intro request remaining bound
    have hcall : Keeps J (onNetwork (rt.network.call request remaining) : M ρ χ ν (Int × Json)) :=
      Keeps.zoom hnetwork _
    refine Keeps.bind (Keeps.modify fun s => hsent s _) fun _ => ?_
    exact Keeps.ite (keeps_orOutage hcall (Keeps.pure _)) (keeps_translated hcall)
  refine Coro.Keeps.bind (Coro.Keeps.lift hprepare) fun request => ?_
  refine Coro.Keeps.bind (Coro.Keeps.pause (Coro.Keeps.pure _)) fun _ => ?_
  refine Coro.Keeps.bind (Coro.Keeps.lift (hsend _ _ _)) fun answer => ?_
  refine Coro.Keeps.bind (Coro.Keeps.pause (Coro.Keeps.pure _)) fun _ => ?_
  cases result with
  | none => exact Coro.Keeps.pure _
  | some name => exact Coro.Keeps.lift (Keeps.modify fun s => hbind s name _)

/-- A predicate on the execution state that the effects of these steps keep, and the clock, the logs
and the cancel event. -/
structure EffectInvariant (rt : Runtime ρ χ ν) (call : Call) (declared : List Step)
    (J : Exec ρ χ ν → Prop) : Prop where
  effect : ∀ step ∈ declared, ∀ e ∈ step.effects, Coro.Keeps J (runEffect rt call e)
  advance : ∀ ms s, J s → J (s.advance ms)
  log : ∀ level message fields s, J s → J (s.log level message fields)
  cancelEvent : ∀ b s, J s → J { s with cancelEvent := b }

namespace EffectInvariant

variable {rt : Runtime ρ χ ν} {call : Call} {declared : List Step} {J : Exec ρ χ ν → Prop}
  {step : Step}

/-! ### Steps -/

section

variable (hJ : EffectInvariant rt call declared J)
include hJ

section

variable (hstep : step ∈ declared)
include hstep

theorem keeps_runStep : Coro.Keeps J (runStep rt call step) := by
  refine Coro.Keeps.bind (Coro.Keeps.lift ?_) fun _ => ?_
  · exact Keeps.get.bind fun s => Keeps.ite (Keeps.throw _) (Keeps.pure _)
  · refine Coro.Keeps.bind (Coro.Keeps.forM (hJ.effect step hstep)) fun _ => ?_
    exact Coro.Keeps.lift (Keeps.modify fun s => hJ.advance 5 s)

theorem keeps_attempt : Coro.Keeps J (attempt rt call step) := by
  refine Coro.Keeps.tryCatch ?_ fun e => ?_
  · exact Coro.Keeps.bind (hJ.keeps_runStep hstep) fun _ => Coro.Keeps.pure _
  · cases e with
    | run e => exact Coro.Keeps.pure _
    | driver cls message => exact Coro.Keeps.fail _
    | other cls => exact Coro.Keeps.fail _

theorem keeps_attemptLoop (cancelled : Exec ρ χ ν → Bool) (rounds begun : Nat)
    (last : Option RunError) :
    Coro.Keeps J (attemptLoop rt call cancelled step rounds begun last) := by
  induction rounds generalizing begun last with
  | zero => exact Coro.Keeps.pure _
  | succ rounds ih =>
    refine Coro.Keeps.bind (Coro.Keeps.lift (Keeps.get.bind fun _ => Keeps.pure _)) fun stop => ?_
    refine Coro.Keeps.ite (Coro.Keeps.pure _) ?_
    refine Coro.Keeps.bind (Coro.Keeps.pause (Coro.Keeps.pure _)) fun _ => ?_
    refine Coro.Keeps.bind (hJ.keeps_attempt hstep) fun result => ?_
    cases result with
    | none => exact Coro.Keeps.pure _
    | some error =>
      refine Coro.Keeps.bind (Coro.Keeps.pause (Coro.Keeps.pure _)) fun _ => ?_
      refine Coro.Keeps.bind (Coro.Keeps.lift (Keeps.get.bind fun _ => Keeps.pure _)) fun again => ?_
      refine Coro.Keeps.ite (Coro.Keeps.pure _) ?_
      refine Coro.Keeps.bind (Coro.Keeps.pause (Coro.Keeps.pure _)) fun _ => ?_
      refine Coro.Keeps.bind (Coro.Keeps.lift ?_) fun _ => ?_
      · exact (Keeps.modify fun s => hJ.log _ _ _ s).bind fun _ =>
          Keeps.modify fun s => hJ.advance _ s
      · exact Coro.Keeps.bind (Coro.Keeps.pause (Coro.Keeps.pure _)) fun _ => ih _ _

theorem keeps_executeStep (cancelled : Exec ρ χ ν → Bool) :
    Coro.Keeps J (executeStep rt call cancelled step) := by
  refine Coro.Keeps.bind (hJ.keeps_attemptLoop hstep cancelled _ _ _) fun ended => ?_
  refine Coro.Keeps.bind (Coro.Keeps.pause (Coro.Keeps.pure _)) fun _ => Coro.Keeps.lift ?_
  cases ended.2 with
  | none => exact Keeps.get.bind fun s => Keeps.pure _
  | some error => exact (Keeps.modify fun s => hJ.log _ _ _ s).bind fun _ => Keeps.pure _

end

end

/-! ### Blocks -/

end EffectInvariant

section Blocks

variable {rt : Runtime ρ χ ν} {call : Call} {J : Exec ρ χ ν → Prop} {Q : Outcome → Prop}

/-- The state of the block satisfies the invariant, what is left of its workers keeps it and ends with
an outcome in `Q`, and so have the others. -/
structure BlockMeets (J : Exec ρ χ ν → Prop) (Q : Outcome → Prop) (b : Block ρ χ ν) : Prop where
  exec : J b.exec
  running : ∀ start program, .running start program ∈ b.workers →
    Coro.Spec J Q (fun _ => True) program
  done : ∀ start outcome, .done start outcome ∈ b.workers → Q outcome

namespace BlockMeets

variable {b : Block ρ χ ν}

/-- A worker is replaced by one that meets the specification. -/
theorem set (h : BlockMeets J Q b) {s : Exec ρ χ ν} (hs : J s) (i : Nat) {w : Worker ρ χ ν}
    (hrunning : ∀ start program, w = .running start program → Coro.Spec J Q (fun _ => True) program)
    (hdone : ∀ start outcome, w = .done start outcome → Q outcome) :
    BlockMeets J Q { b with exec := s, workers := b.workers.set i w } where
  exec := hs
  running start program hmem := by
    rcases List.mem_or_eq_of_mem_set hmem with hold | hnew
    · exact h.running start program hold
    · exact hrunning start program hnew.symm
  done start outcome hmem := by
    rcases List.mem_or_eq_of_mem_set hmem with hold | hnew
    · exact h.done start outcome hold
    · exact hdone start outcome hnew.symm

variable {program : Coro (Exec ρ χ ν) Exc Outcome} {cap : Nat}

theorem slice (h : BlockMeets J Q b) (i start : Nat) (hp : Coro.Spec J Q (fun _ => True) program) :
    BlockMeets J Q (b.slice i start program) := by
  obtain ⟨hexec, hrest⟩ := hp.slice b.exec h.exec
  unfold Block.slice
  revert hexec hrest
  rcases program.slice b.exec with ⟨s, rest⟩
  intro hexec hrest
  cases rest with
  | ret outcome =>
    refine h.set hexec i nofun fun start' outcome' heq => ?_
    rw [← (Worker.done.inj heq).2]
    exact hrest
  | fail e => exact h.set hexec i nofun nofun
  | act upd next =>
    refine h.set hexec i (fun start' program' heq => ?_) nofun
    rw [← (Worker.running.inj heq).2]
    exact hrest
  | pause rest =>
    refine h.set hexec i (fun start' program' heq => ?_) nofun
    rw [← (Worker.running.inj heq).2]
    exact hrest

theorem complete (h : BlockMeets J Q b) (i start : Nat)
    (hp : Coro.Spec J Q (fun _ => True) program) :
    BlockMeets J Q (b.complete i start program) := by
  have hrun := hp.run b.exec h.exec
  unfold Block.complete
  revert hrun
  cases program.run b.exec with
  | ok outcome s =>
    intro hs
    refine h.set hs.1 i nofun fun start' outcome' heq => ?_
    rw [← (Worker.done.inj heq).2]
    exact hs.2
  | error e s => exact fun hs => h.set hs.1 i nofun nofun

variable {programs : List (Coro (Exec ρ χ ν) Exc Outcome)}

theorem move (h : BlockMeets J Q b) (hcancel : ∀ v s, J s → J { s with cancelEvent := v })
    (hp : ∀ program ∈ programs, Coro.Spec J Q (fun _ => True) program) (m : Move) :
    BlockMeets J Q (b.move cap programs m) := by
  cases m with
  | tick ms => exact ⟨h.exec, h.running, h.done⟩
  | run i =>
    simp only [Block.move]
    split
    · next hprogram =>
      split
      · exact h.slice i _ (hp _ (List.mem_of_getElem? hprogram))
      · exact h
    · next hi => exact h.slice i _ (h.running _ _ (List.mem_of_getElem? hi))
    · exact h
  | signal =>
    simp only [Block.move]
    split
    · exact ⟨hcancel true _ h.exec, h.running, h.done⟩
    · exact h
  | cancel i =>
    simp only [Block.move]
    split
    · split
      · refine h.set h.exec i ?_ ?_
        · intro _ _ heq
          cases heq
        · intro _ _ heq
          cases heq
      · exact h
    · exact h

theorem drainRunning (h : BlockMeets J Q b) (i : Nat) : BlockMeets J Q (b.drainRunning i) := by
  unfold Block.drainRunning
  split
  · next hi => exact h.complete i _ (h.running _ _ (List.mem_of_getElem? hi))
  · exact h

theorem drainPending (h : BlockMeets J Q b)
    (hp : ∀ program ∈ programs, Coro.Spec J Q (fun _ => True) program) (i : Nat) :
    BlockMeets J Q (b.drainPending programs i) := by
  unfold Block.drainPending
  split
  · next hprogram => exact h.complete i _ (hp _ (List.mem_of_getElem? hprogram))
  · exact h

theorem foldl {α : Type} {f : Block ρ χ ν → α → Block ρ χ ν}
    (hf : ∀ b, BlockMeets J Q b → ∀ a, BlockMeets J Q (f b a)) (l : List α) (h : BlockMeets J Q b) :
    BlockMeets J Q (l.foldl f b) :=
  List.foldlRecOn l f h fun b hb a _ => hf b hb a

theorem join (h : BlockMeets J Q b) (hcancel : ∀ v s, J s → J { s with cancelEvent := v })
    (hp : ∀ program ∈ programs, Coro.Spec J Q (fun _ => True) program) (moves : List Move) :
    BlockMeets J Q (b.join cap programs moves) := by
  have hmoved : BlockMeets J Q (moves.foldl (Block.move cap programs) b) :=
    h.foldl (fun b hb m => hb.move hcancel hp m) moves
  have hdrained := hmoved.foldl (fun b hb i => hb.drainRunning i) (List.range programs.length)
  exact hdrained.foldl (fun b hb i => hb.drainPending hp i) (List.range programs.length)

end BlockMeets

/-- The workers of a block keep what their programs keep, and end as they do, under every schedule. -/
theorem runWorkers_meets {steps : List Step}
    (hcancel : ∀ v s, J s → J { s with cancelEvent := v })
    (hprograms : ∀ step ∈ steps, Coro.Spec J Q (fun _ => True) (executeStepWithRetry rt call step))
    (moves : List Move) {s : Exec ρ χ ν} (hs : J s) :
    J (runWorkers rt call steps moves s).1 ∧
      ∀ start outcome, .done start outcome ∈ (runWorkers rt call steps moves s).2 → Q outcome := by
  have hp : ∀ program ∈ steps.map (executeStepWithRetry rt call),
      Coro.Spec J Q (fun _ => True) program := by
    intro program hmem
    obtain ⟨step, hstep, rfl⟩ := List.mem_map.mp hmem
    exact hprograms step hstep
  have hstart : BlockMeets J Q ({ exec := { s with cancelEvent := false }
                                  workers := steps.map fun _ => .pending } : Block ρ χ ν) := by
    refine ⟨hcancel false s hs, fun start program hmem => ?_, fun start outcome hmem => ?_⟩
    · obtain ⟨_, _, h⟩ := List.mem_map.mp hmem
      exact nomatch h
    · obtain ⟨_, _, h⟩ := List.mem_map.mp hmem
      exact nomatch h
  have hjoined : BlockMeets J Q (Block.join (poolSize call steps) _ moves _) :=
    hstart.join hcancel hp moves
  refine ⟨hjoined.exec, fun start outcome hmem => ?_⟩
  obtain ⟨w, hw, hfinish⟩ := List.mem_map.mp hmem
  cases w with
  | done start' outcome' =>
    rw [← (WorkerEnd.done.inj hfinish).2]
    exact hjoined.done start' outcome' hw
  | pending => exact nomatch hfinish
  | running start' program => exact nomatch hfinish
  | raised e => exact nomatch hfinish
  | cancelled => exact nomatch hfinish

end Blocks

namespace EffectInvariant

variable {rt : Runtime ρ χ ν} {call : Call} {declared : List Step} {J : Exec ρ χ ν → Prop}
  {step : Step}

/-- The workers of a block keep the invariant, under every schedule. -/
theorem runWorkers (hJ : EffectInvariant rt call declared J) {steps : List Step}
    (hsteps : ∀ step ∈ steps, step ∈ declared) (moves : List Move) {s : Exec ρ χ ν} (hs : J s) :
    J (runWorkers rt call steps moves s).1 :=
  (runWorkers_meets hJ.cancelEvent
    (fun step hstep => hJ.keeps_executeStep (hsteps step hstep) Exec.cancelEvent) moves hs).1

/-! ### The main loop -/

/-- The execution state after a block is that of its workers. -/
theorem join_exec (under : List Nat) (steps : List Step) (ends : List WorkerEnd)
    (s : Exec ρ χ ν) (r : Run ρ χ ν) : (r.join under steps ends s).exec = s := by
  unfold Run.join
  obtain ⟨_, _, _, h⟩ := recordOutcomes_eq r.blocks.length under (steps.zip ends)
    { r with exec := s, blocks := r.blocks ++ [⟨steps, ends⟩] }
  rw [h]
  split <;> rfl

/-- An invariant of the effects is one of the main loop. -/
theorem loopInvariant (hJ : EffectInvariant rt call declared J) :
    LoopInvariant rt call declared fun r => J r.exec where
  log r level message fields h := hJ.log level message fields r.exec h
  failWith _ _ h := h
  sequential step hstep := by
    refine Triple.zoom_ends fun r hr => ?_
    exact (hJ.keeps_executeStep hstep _).run r.exec hr
  block r under steps moves hsteps _ h := by
    rw [join_exec]
    exact hJ.runWorkers hsteps moves h
  evaluated _ _ h := h
  repeats _ _ h := h
  skipped _ _ h := h
  record _ _ _ _ h := h

end EffectInvariant

end Lnpl.Interp
