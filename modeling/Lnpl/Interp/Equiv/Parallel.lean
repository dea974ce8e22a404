import Lnpl.Interp.Steps

/-!
# How the workers of a block end

After the join every worker is over, and a worker was cancelled only if another has failed.  So in
a block where no worker fails, every one of them has finished with an outcome (`runWorkers_done`),
under every schedule.
-/

namespace Lnpl.Interp

open Lnpl.Lib

variable {ρ χ ν : Type}

/-! ### Workers -/

namespace Worker

/-- The worker neither waits nor runs. -/
def ended : Worker ρ χ ν → Bool
  | .pending | .running .. => false
  | _ => true

/-- The worker does not run. -/
def stopped (w : Worker ρ χ ν) : Bool := !w.isRunning

theorem stopped_of_ended {w : Worker ρ χ ν} (h : w.ended) : w.stopped := by
  cases w <;> first | rfl | exact absurd h Bool.false_ne_true

theorem settle_ne_cancelled (start : Nat) (program : Coro (Exec ρ χ ν) Exc Outcome) :
    settle start program ≠ .cancelled := by
  cases program <;> exact nofun

theorem ofResult_ne_cancelled (start : Nat) (result : EStateM.Result Exc (Exec ρ χ ν) Outcome) :
    (ofResult start result).2 ≠ .cancelled := by
  cases result <;> exact nofun

theorem ofResult_ended (start : Nat) (result : EStateM.Result Exc (Exec ρ χ ν) Outcome) :
    (ofResult start result).2.ended := by
  cases result <;> rfl

end Worker

/-! ### Cancellation follows a failure -/

/-- A cancelled worker has a failed one beside it. -/
def CancelledAfterFailure (ws : List (Worker ρ χ ν)) : Prop :=
  ∀ i : Nat, ws[i]? = some .cancelled → ∃ (j : Nat) (w : Worker ρ χ ν), ws[j]? = some w ∧ w.failed

variable {ws : List (Worker ρ χ ν)} {i : Nat} {w : Worker ρ χ ν}

/-- A failed worker stays where it is when another takes its next step. -/
theorem failed_of_set {j : Nat} {w₀ w' : Worker ρ χ ν} (hi : ws[i]? = some w₀)
    (h₀ : w₀.failed = false) (hj : ws[j]? = some w') (hw' : w'.failed) :
    (ws.set i w)[j]? = some w' := by
  have hij : i ≠ j := by
    rintro rfl
    rw [hi, Option.some.injEq] at hj
    rw [hj, hw'] at h₀
    exact absurd h₀ (by decide)
  rw [List.getElem?_set_ne hij, hj]

/-- A worker that has not failed takes its next step. -/
theorem CancelledAfterFailure.set {w₀ : Worker ρ χ ν} (h : CancelledAfterFailure ws)
    (hi : ws[i]? = some w₀) (h₀ : w₀.failed = false) (hw : w ≠ .cancelled) :
    CancelledAfterFailure (ws.set i w) := by
  intro k hk
  by_cases hik : i = k
  · subst hik
    rw [List.getElem?_set_self (List.getElem?_eq_some_iff.mp hi).1, Option.some.injEq] at hk
    exact absurd hk hw
  · rw [List.getElem?_set_ne hik] at hk
    obtain ⟨j, w', hj, hw'⟩ := h k hk
    exact ⟨j, w', failed_of_set hi h₀ hj hw', hw'⟩

/-- A pending worker is cancelled beside a failed one. -/
theorem CancelledAfterFailure.cancel (hi : ws[i]? = some .pending) (hf : ws.any Worker.failed) :
    CancelledAfterFailure (ws.set i .cancelled) := by
  intro k _
  obtain ⟨w, hmem, hw⟩ := List.any_eq_true.mp hf
  obtain ⟨j, hj⟩ := List.mem_iff_getElem?.mp hmem
  exact ⟨j, w, failed_of_set hi rfl hj hw, hw⟩

/-! ### The moves of a block -/

namespace Block

/-- What every move of a block keeps. -/
structure Inv (n : Nat) (b : Block ρ χ ν) : Prop where
  length : b.workers.length = n
  cancelled : CancelledAfterFailure b.workers

variable {n : Nat} {b : Block ρ χ ν}

variable {i cap : Nat} {w₀ : Worker ρ χ ν}

section

variable (h : b.Inv n)
include h

section

variable (hi : b.workers[i]? = some w₀)
include hi

theorem Inv.set {w : Worker ρ χ ν} (h₀ : w₀.failed = false) (hw : w ≠ .cancelled)
    (exec : Exec ρ χ ν) :
    Inv n { b with exec := exec, workers := b.workers.set i w } where
  length := by rw [List.length_set, h.length]
  cancelled := h.cancelled.set hi h₀ hw

theorem Inv.slice (h₀ : w₀.failed = false) (start : Nat) (program : Coro (Exec ρ χ ν) Exc Outcome) :
    Inv n (b.slice i start program) :=
  h.set hi h₀ (Worker.settle_ne_cancelled _ _) _

theorem Inv.complete (h₀ : w₀.failed = false) (start : Nat)
    (program : Coro (Exec ρ χ ν) Exc Outcome) :
    Inv n (b.complete i start program) :=
  h.set hi h₀ (Worker.ofResult_ne_cancelled _ _) _

end

theorem Inv.move {programs : List (Coro (Exec ρ χ ν) Exc Outcome)} (m : Move) :
    Inv n (b.move cap programs m) := by
  cases m with
  | tick ms => exact ⟨h.length, h.cancelled⟩
  | run i =>
    simp only [Block.move]
    split
    · next hi hp =>
      split
      · exact h.slice hi rfl _ _
      · exact h
    · next hi => exact h.slice hi rfl _ _
    · exact h
  | signal =>
    simp only [Block.move]
    split
    · exact ⟨h.length, h.cancelled⟩
    · exact h
  | cancel i =>
    simp only [Block.move]
    split
    · next hi =>
      split
      · next hc =>
        rw [Bool.and_eq_true] at hc
        exact ⟨by rw [List.length_set, h.length], .cancel hi hc.2⟩
      · exact h
    · exact h

theorem Inv.drainRunning (i : Nat) : Inv n (b.drainRunning i) := by
  unfold Block.drainRunning
  split
  · next hi => exact h.complete hi rfl _ _
  · exact h

theorem Inv.drainPending {programs : List (Coro (Exec ρ χ ν) Exc Outcome)} (i : Nat) :
    Inv n (b.drainPending programs i) := by
  unfold Block.drainPending
  split
  · next hi hp => exact h.complete hi rfl _ _
  · exact h

end

/-! ### The join -/

/-- A step of a drain touches one worker; what it makes of it holds at the end of the drain. -/
theorem foldl_establishes {f : Block ρ χ ν → Nat → Block ρ χ ν} {R P : Option (Worker ρ χ ν) → Prop}
    {l : List Nat} (h₀ : R b.workers[i]?)
    (hself : ∀ b : Block ρ χ ν, R b.workers[i]? → P (f b i).workers[i]?)
    (hne : ∀ (b : Block ρ χ ν) (j : Nat), j ≠ i → (f b j).workers[i]? = b.workers[i]?)
    (hP : ∀ o, P o → R o) (hi : i ∈ l ∨ P b.workers[i]?) : P (l.foldl f b).workers[i]? := by
  induction l generalizing b with
  | nil => exact hi.resolve_left List.not_mem_nil
  | cons j l ih =>
    rw [List.foldl_cons]
    by_cases hji : j = i
    · subst hji
      have hj := hself b h₀
      exact ih (hP _ hj) (Or.inr hj)
    · have hj := hne b j hji
      refine ih (hj ▸ h₀) ?_
      rw [hj]
      exact hi.imp_left fun h => (List.mem_cons.mp h).resolve_left (Ne.symm hji)

/-- There is no such worker, or it satisfies `p`. -/
def Is (p : Worker ρ χ ν → Bool) (o : Option (Worker ρ χ ν)) : Prop := ∀ w, o = some w → p w

variable {start : Nat} {program : Coro (Exec ρ χ ν) Exc Outcome}

theorem complete_self (hi : b.workers[i]? = some w₀) :
    Is Worker.ended (b.complete i start program).workers[i]? := by
  intro w hw
  unfold Block.complete at hw
  rw [List.getElem?_set_self (List.getElem?_eq_some_iff.mp hi).1, Option.some.injEq] at hw
  rw [← hw]
  exact Worker.ofResult_ended _ _

theorem complete_ne {j : Nat} (hij : i ≠ j) :
    (b.complete i start program).workers[j]? = b.workers[j]? :=
  List.getElem?_set_ne hij

theorem drainRunning_self (b : Block ρ χ ν) (i : Nat) :
    Is Worker.stopped (b.drainRunning i).workers[i]? := by
  intro w hw
  unfold Block.drainRunning at hw
  split at hw
  · next hi => exact Worker.stopped_of_ended (complete_self hi w hw)
  · next hno =>
    cases w with
    | running start program => exact absurd hw (hno start program)
    | _ => rfl

theorem drainRunning_ne (b : Block ρ χ ν) (j : Nat) (hji : j ≠ i) :
    (b.drainRunning j).workers[i]? = b.workers[i]? := by
  unfold Block.drainRunning
  split
  · exact complete_ne hji
  · rfl

variable {programs : List (Coro (Exec ρ χ ν) Exc Outcome)}

/-- A worker that does not run is over once it has been drained. -/
theorem drainPending_self (hi : i < programs.length) (h : Is Worker.stopped b.workers[i]?) :
    Is Worker.ended (b.drainPending programs i).workers[i]? := by
  unfold Block.drainPending
  split
  · next hp _ => exact complete_self hp
  · next hno =>
    intro w hw
    cases w with
    | pending => exact absurd (List.getElem?_eq_getElem hi) (hno _ hw)
    | running => exact absurd (h _ hw) Bool.false_ne_true
    | _ => rfl

theorem drainPending_ne (b : Block ρ χ ν) (j : Nat) (hji : j ≠ i) :
    (b.drainPending programs j).workers[i]? = b.workers[i]? := by
  unfold Block.drainPending
  split
  · exact complete_ne hji
  · rfl

theorem inv_foldl {α : Type} {f : Block ρ χ ν → α → Block ρ χ ν}
    (hf : ∀ b : Block ρ χ ν, b.Inv n → ∀ a, (f b a).Inv n) (l : List α) (h : b.Inv n) :
    (l.foldl f b).Inv n :=
  List.foldlRecOn l f h fun b hb a _ => hf b hb a

theorem Inv.join (h : b.Inv n) (moves : List Move) : (b.join cap programs moves).Inv n :=
  inv_foldl (fun _ h i => h.drainPending i) _ <| inv_foldl (fun _ h i => h.drainRunning i) _ <|
    inv_foldl (fun _ h m => h.move m) _ h

/-- After the join every worker is over. -/
theorem join_ended (h : b.Inv programs.length) (moves : List Move) (i : Nat) :
    Is Worker.ended (b.join cap programs moves).workers[i]? := by
  by_cases hi : i < programs.length
  · -- first nothing runs any more, then nothing waits any more
    have hrange : i ∈ List.range programs.length := List.mem_range.mpr hi
    have hstopped : Is Worker.stopped ((List.range programs.length).foldl drainRunning
        (moves.foldl (Block.move cap programs) b)).workers[i]? :=
      foldl_establishes (R := fun _ => True) trivial (fun b _ => drainRunning_self b i)
        (fun b j hji => drainRunning_ne b j hji) (fun _ _ => trivial) (Or.inl hrange)
    exact foldl_establishes hstopped (fun b hb => drainPending_self hi hb)
      (fun b j hji => drainPending_ne b j hji)
      (fun o ho w hw => Worker.stopped_of_ended (ho w hw)) (Or.inl hrange)
  · intro w hw
    have hlt := (List.getElem?_eq_some_iff.mp hw).1
    rw [(h.join moves).length] at hlt
    exact absurd hlt hi

end Block

/-! ### The ends of the workers -/

theorem Worker.finish_failed (h : w.failed) : w.finish.failed := by
  cases w with
  | done start outcome => exact h
  | raised e => exact h
  | pending => exact absurd h Bool.false_ne_true
  | running start program => exact absurd h Bool.false_ne_true
  | cancelled => exact absurd h Bool.false_ne_true

section Ends

variable (rt : Runtime ρ χ ν) (call : Call) (steps : List Step) (moves : List Move)
  (exec : Exec ρ χ ν)

/-- The block that `runWorkers` joins. -/
theorem runWorkers_inv : ∃ b : Block ρ χ ν, b.Inv steps.length ∧
    (∀ i : Nat, Block.Is Worker.ended b.workers[i]?) ∧
      (runWorkers rt call steps moves exec).2 = b.workers.map Worker.finish := by
  have hlength : (steps.map (executeStepWithRetry rt call)).length = steps.length :=
    List.length_map _
  have hinv : Block.Inv (steps.map (executeStepWithRetry rt call)).length
      ({ exec := { exec with cancelEvent := false }
         workers := steps.map fun _ => .pending } : Block ρ χ ν) := by
    refine ⟨by rw [List.length_map, hlength], fun i hi => ?_⟩
    rw [List.getElem?_map, Option.map_eq_some_iff] at hi
    obtain ⟨_, _, h⟩ := hi
    exact nomatch h
  refine ⟨_, hlength ▸ hinv.join moves, fun i => Block.join_ended hinv moves i, rfl⟩

theorem runWorkers_length : (runWorkers rt call steps moves exec).2.length = steps.length := by
  obtain ⟨b, hb, _, h⟩ := runWorkers_inv rt call steps moves exec
  rw [h, List.length_map, hb.length]

/-- **No branch is lost where none fails.**  Under every schedule, if no worker of a block fails,
every worker has run its step to the end. -/
theorem runWorkers_succeeded (h : ∀ e ∈ (runWorkers rt call steps moves exec).2, ¬e.failed) :
    ∀ e ∈ (runWorkers rt call steps moves exec).2, e.succeeded := by
  obtain ⟨b, hb, hover, hends⟩ := runWorkers_inv rt call steps moves exec
  rw [hends] at h ⊢
  intro e he
  obtain ⟨w, hw, rfl⟩ := List.mem_map.mp he
  have hfinish := h _ he
  obtain ⟨i, hi⟩ := List.mem_iff_getElem?.mp hw
  have hwover := hover i w hi
  cases w with
  | pending => exact absurd hwover Bool.false_ne_true
  | running => exact absurd hwover Bool.false_ne_true
  | done start o => 
    cases ho : o.error with
    | none => simp only [Worker.finish, WorkerEnd.succeeded, ho, Option.isNone_none]
    | some e => simp [Worker.finish, WorkerEnd.failed, ho] at hfinish
  | raised e => exact absurd rfl hfinish
  | cancelled =>
    obtain ⟨j, w', hj, hw'⟩ := hb.cancelled i hi
    exact absurd (Worker.finish_failed hw')
      (h _ (List.mem_map.mpr ⟨w', List.mem_iff_getElem?.mpr ⟨j, hj⟩, rfl⟩))

end Ends

end Lnpl.Interp
