import Lnpl.Interp.Contract
import Lnpl.Interp.Equiv.RepoInvariant
import Lnpl.Interp.Fakes

/-!
# Runs on the in-memory drivers

What `FakeRepository` keeps from run to run is what the last run left that completed
(`settled_before`): every other run leaves it as it was, whatever stops it.
-/

namespace Lnpl.Interp

open Lnpl.Lib

variable {ν : Type}

/-- The rows that no `rollback` takes back. -/
def FakeRows.settled (F : FakeRows) : Tables String String Dict := F.snapshot.getD F.rows

/-- The runtime on the in-memory repository and cache. -/
def Runtime.inMemory (rt : Runtime FakeRows FakeStore ν) : Runtime FakeRows FakeStore ν :=
  { rt with repo := .fake rt.lang, cache := .fake }

/-- The run of the request returns that it has completed. -/
def Request.Completes (rt : Runtime FakeRows FakeStore ν) (request : Request)
    (s : Exec FakeRows FakeStore ν) : Prop :=
  ∃ result t, result.completed ∧ runWorkflow { rt with caller := request.caller } request.workflow
    request.payload request.fill request.schedules s = .ok result t

/-- The bracket of `FakeRepository`: the copy that `begin` takes stays up to its end. -/
theorem bracket_fake (lang : Lang) (rows : Tables String String Dict) :
    (Repo.fake lang).Bracket (·.settled = rows) (·.snapshot = some rows) (·.snapshot = none)
      (fun _ => False) (·.settled = rows) where
  rows := {
    execute e op k F h := by
      dsimp only [Repo.fake]
      cases hrow : F.rows.get e k <;> cases op <;>
        simp only [FakeRows.execute, hrow, Option.isSome, reduceIte, Bool.false_eq_true] <;> exact h
    query := fun _ _ h => h
    queryPredicate := by
      intro query hquery e predicate order limit F h
      obtain rfl := Option.some.inj hquery
      dsimp only
      split
      · exact h
      · exact h
    persist := fun _ _ _ _ h => h
    recordEmission := fun _ _ h => h }
  begin F h := by
    have h : F.snapshot.getD F.rows = rows := h
    dsimp only [Repo.fake]
    cases hF : F.snapshot with
    | none => simpa [FakeRows.begin, FakeRows.settled, hF, Ends] using h
    | some copy => simpa [FakeRows.begin, FakeRows.settled, hF, Ends] using h
  commit := fun _ _ => rfl
  rollback F h := by
    show (FakeRows.rollback F).settled = rows
    rw [FakeRows.rollback, h]
    rfl

/-- A run changes what is kept only if it completes, and then all of its rows are kept. -/
theorem settled_session (rt : Runtime FakeRows FakeStore ν) (request : Request)
    (s : Exec FakeRows FakeStore ν) :
    ¬request.Completes rt.inMemory s ∧
        (request.session rt.inMemory s).run.exec.repo.settled = s.repo.settled ∨
      request.Completes rt.inMemory s ∧
        (request.session rt.inMemory s).run.exec.repo.snapshot = none := by
  have hends := runWorkflow_closedBy { rt.inMemory with caller := request.caller }
    (bracket_fake rt.lang s.repo.settled) (fun _ _ _ => trivial) request.workflow request.payload
    request.fill request.schedules (s := s) rfl
  unfold Request.Completes Request.session
  cases hrun : runWorkflow { rt.inMemory with caller := request.caller } request.workflow
    request.payload request.fill request.schedules s with
  | ok result t =>
    rw [hrun] at hends
    obtain ⟨hclosed, hfailure⟩ := hends
    unfold ClosedBy at hclosed
    split at hclosed
    · next hnone =>
      refine .inr ⟨⟨result, t, ?_, rfl⟩, hclosed⟩
      rw [Result.completed, hfailure, hnone]
    · next hsome =>
      refine .inl ⟨?_, hclosed⟩
      rintro ⟨result, t, hcompleted, h⟩
      cases h
      exact hsome (hfailure ▸ hcompleted)
  | error e t =>
    rw [hrun] at hends
    refine .inl ⟨?_, ?_⟩
    · rintro ⟨result, t, hcompleted, h⟩
      cases h
    show t.run.exec.repo.settled = _
    -- Whether the bracket was open or closed where it stopped, the copy or the rows still stand.
    rcases hends with hsame | hopen | hfalse | hsame
    · exact hsame
    · rw [FakeRows.settled, hopen]
      rfl
    · exact absurd hfalse id
    · exact hsame

/-- **Runs are all or nothing.**  After any runs, what is kept are the rows as the last run left
them that completed, or the first ones. -/
theorem settled_before (rt : Runtime FakeRows FakeStore ν) (requests : Nat → Request)
    (s₀ : Exec FakeRows FakeStore ν) (n : Nat) :
    ∃ m ≤ n, (before rt.inMemory requests s₀ n).repo.settled =
        (before rt.inMemory requests s₀ m).repo.settled ∧
      (∀ i < n, m ≤ i → ¬(requests i).Completes rt.inMemory (before rt.inMemory requests s₀ i)) ∧
      ∀ i, m = i + 1 → (requests i).Completes rt.inMemory (before rt.inMemory requests s₀ i) ∧
        (before rt.inMemory requests s₀ m).repo.snapshot = none := by
  induction n with
  | zero =>
    exact ⟨0, Nat.le_refl 0, rfl, fun i hi => absurd hi (Nat.not_lt_zero i),
      fun i hi => absurd hi (Nat.succ_ne_zero i).symm⟩
  | succ n ih =>
    rcases settled_session rt (requests n) (before rt.inMemory requests s₀ n) with hsame | hdone
    · -- Nothing that is kept has changed, so the last completed run is the one it was.
      obtain ⟨m, hm, hsettled, hafter, hlast⟩ := ih
      refine ⟨m, Nat.le_succ_of_le hm, hsame.2.trans hsettled, fun i hi hmi => ?_, hlast⟩
      rcases Nat.lt_succ_iff_lt_or_eq.mp hi with hlt | rfl
      · exact hafter i hlt hmi
      · exact hsame.1
    · refine ⟨n + 1, Nat.le_refl _, rfl, fun i hi hmi => absurd hi (Nat.not_lt.mpr hmi), ?_⟩
      rintro i hi
      obtain rfl := Nat.succ.inj hi
      exact hdone

end Lnpl.Interp
