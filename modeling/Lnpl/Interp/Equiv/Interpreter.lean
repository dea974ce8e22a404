import Lnpl.Interp.Equiv.Workflow
import Lnpl.Interp.Interpreter
import Lnpl.Interp.Plain

/-!
# The transaction bracket

When does `run_workflow` close the transaction it has begun?  `Bracketed` is what the bracket
promises: a run that completes ends in one successful `commit()`, every other exit has called
`rollback()` once.  `Contained` is what it takes: nothing but a `RunError` leaves the main loop, no
term of the response raises anything else, and a `commit()` that is reached returns.
**`bracketed_iff_contained`** says that the one holds exactly when the other does.
-/

namespace Lnpl.Interp

open Lnpl.Lib

variable {ρ χ ν : Type} (rt : Runtime ρ χ ν) (call : Call) (schedules : Nat → List Move)

/-! ### The promise -/

/-- The session a program leaves behind, however it ends. -/
abbrev W.leaves {α : Type} (m : W ρ χ ν α) (s : Session ρ χ ν) : Session ρ χ ν := EStateM.final m s

/-- The steps and the terms of the response all succeed, and `commit()` returns. -/
def Completes (s : Session ρ χ ν) : Prop :=
  ∃ terms t r, runInside rt call schedules s = .ok terms t ∧ t.run.failure = none ∧
    rt.repo.commit t.run.exec.repo = .ok () r

/-- The calls `calls`, made since `begin()` returned, close the bracket of a run that completes or
does not. -/
def Closes (completes : Prop) (calls : List BoundaryCall) : Prop :=
  (completes → calls = [⟨.commit, true⟩]) ∧
    (¬completes → calls.countP (fun c => c.op = .rollback) = 1 ∧ ⟨.commit, true⟩ ∉ calls)

/-- What follows `begin()` closes the bracket, whichever way it is left. -/
def Bracketed (s : Session ρ χ ν) : Prop :=
  ∃ calls, (W.leaves (runBegun rt call schedules) s).boundary = s.boundary ++ calls ∧
    Closes (Completes rt call schedules s) calls

/-- Nothing but a `RunError` leaves the main loop, no term raises anything else, and a `commit()`
that is reached returns. -/
structure Contained (s : Session ρ χ ν) : Prop where
  loop : ∀ e r, runBody rt call schedules call.workflow.body s.run = .error e r → e.isRunError
  terms : ∀ f r e r', runBody rt call schedules call.workflow.body s.run = .ok f r →
    termResponse rt r ≠ .error e r'
  commit : ∀ f r terms r', runBody rt call schedules call.workflow.body s.run = .ok f r →
    termResponse rt r = .ok terms r' → r'.failure = none →
    ∃ d, rt.repo.commit r'.exec.repo = .ok () d

/-! ### What each part adds to the calls -/

variable {rt call schedules}

variable {α : Type} {completes : Prop}

/-- Nothing inside the main loop touches the bracket. -/
theorem onRun_boundary (m : L ρ χ ν α) (c : List BoundaryCall) :
    Keeps (fun s : Session ρ χ ν => s.boundary = c) (onRun m) := by
  refine Keeps.zoom ?_ m
  exact fun _ _ h => h

/-- A call of the bracket is recorded, whether it returns or not. -/
theorem boundary_calls (rt : Runtime ρ χ ν) (op : BoundaryOp) (s : Session ρ χ ν) :
    ∃ b, (W.leaves (boundary rt op) s).boundary = s.boundary ++ [⟨op, b⟩] := by
  unfold W.leaves EStateM.final boundary
  cases rt.repo.boundary op s.run.exec.repo with
  | ok d r => exact ⟨true, rfl⟩
  | error e r => exact ⟨false, rfl⟩

/-- A call of the bracket and then programs that do not touch it. -/
theorem boundary_then {op : BoundaryOp} {f : Unit → W ρ χ ν α}
    (hf : ∀ c, Keeps (fun s : Session ρ χ ν => s.boundary = c) (f ())) (s : Session ρ χ ν) :
    ∃ b, (W.leaves (boundary rt op >>= f) s).boundary = s.boundary ++ [⟨op, b⟩] := by
  cases h : boundary rt op s with
  | ok d t =>
    obtain ⟨b, hb⟩ := boundary_calls rt op s
    rw [W.leaves, EStateM.final_ok h] at hb
    refine ⟨b, ?_⟩
    rw [W.leaves, EStateM.final_bind_ok h, ← hb]
    exact (hf t.boundary).final rfl
  | error e t =>
    obtain ⟨b, hb⟩ := boundary_calls rt op s
    rw [W.leaves, EStateM.final_error h] at hb
    refine ⟨b, ?_⟩
    rw [W.leaves, EStateM.final_bind_error h, hb]

/-! ### The exits -/

variable {m : L ρ χ ν α}

theorem onRun_ok {s : Session ρ χ ν} {a : α} {r : Run ρ χ ν} (h : m s.run = .ok a r) :
    onRun m s = .ok a { s with run := r } := EStateM.zoom_ok h

theorem onRun_error {s : Session ρ χ ν} {e : Exc} {r : Run ρ χ ν} (h : m s.run = .error e r) :
    onRun m s = .error e { s with run := r } := EStateM.zoom_error h

/-- A `RunError` that escapes the main loop rolls back once. -/
theorem escape_runError (rt : Runtime ρ χ ν) {e : Exc} (he : e.isRunError) (s : Session ρ χ ν) :
    ∃ b, (W.leaves (escape rt e) s).boundary = s.boundary ++ [⟨.rollback, b⟩] := by
  unfold escape
  rw [if_pos he]
  refine boundary_then (fun c => ?_) s
  exact (onRun_boundary _ c).bind fun _ => Keeps.throw e

/-- Any other exception passes. -/
theorem escape_other {e : Exc} (he : ¬e.isRunError) (s : Session ρ χ ν) :
    W.leaves (escape rt e) s = s := by
  unfold escape
  rw [if_neg he]
  rfl

theorem escape_raises (e : Exc) (s : Session ρ χ ν) (f : Flow) (t : Session ρ χ ν) :
    escape rt e s ≠ .ok f t := by
  refine Triple.ne_ok (P := fun _ => True) (E := fun _ _ => True) ?_ trivial f t
  unfold escape
  refine Triple.ite (fun _ => ?_) fun _ => Triple.throw fun _ => id
  refine Triple.bind (Q := fun _ _ => True) ?_ fun _ => Triple.bind (Q := fun _ _ => True) ?_ fun _ =>
    Triple.throw fun _ => id
  · intro s _
    cases boundary rt .rollback s <;> trivial
  · intro s _
    cases onRun (onExec (discardReadThroughWrites rt)) s <;> trivial

section Exits

variable {s : Session ρ χ ν} {e : Exc} {f : Flow} {r r' : Run ρ χ ν} {terms : Option Dict}

/-- The main loop raises: the handler is all that follows. -/
theorem runInside_of_body_error
    (h : runBody rt call schedules call.workflow.body s.run = .error e r) :
    (∀ terms t, runInside rt call schedules s ≠ .ok terms t) ∧
      W.leaves (runInside rt call schedules) s = W.leaves (escape rt e) { s with run := r } := by
  have hloop : runLoop rt call schedules s = escape rt e { s with run := r } :=
    EStateM.tryCatch_error (onRun_error h)
  unfold runInside W.leaves
  cases he : escape rt e { s with run := r } with
  | ok f t => exact absurd he (escape_raises e _ f t)
  | error e' t =>
    rw [he] at hloop
    refine ⟨fun terms t' => ?_, ?_⟩
    · rw [EStateM.bind_error hloop]
      exact nofun
    · rw [EStateM.final_bind_error hloop, EStateM.final_error he]

/-- The main loop ends: the terms of the response follow. -/
theorem runInside_of_body_ok
    (h : runBody rt call schedules call.workflow.body s.run = .ok f r) :
    runInside rt call schedules s = onRun (termResponse rt) { s with run := r } :=
  EStateM.bind_ok (EStateM.tryCatch_ok (onRun_ok h))

/-- The bracket is left from inside, by an exception. -/
theorem leaves_of_inside_raises (h : ∀ terms t, runInside rt call schedules s ≠ .ok terms t) :
    W.leaves (runBegun rt call schedules) s = W.leaves (runInside rt call schedules) s :=
  EStateM.bind_of_raises h

variable {t : Session ρ χ ν}

/-- The bracket is left through its end. -/
theorem leaves_of_inside_ok (h : runInside rt call schedules s = .ok terms t) :
    W.leaves (runBegun rt call schedules) s = W.leaves (closeBracket rt call) t := by
  unfold runBegun W.leaves
  rw [EStateM.final_bind_ok h]
  cases hc : closeBracket rt call t with
  | ok d t' => rw [EStateM.final_bind_ok hc, EStateM.final_ok hc]; rfl
  | error e t' => rw [EStateM.final_bind_error hc, EStateM.final_error hc]

/-- The end of the bracket, for a run that completed. -/
theorem closeBracket_completed (hf : t.run.failure = none) :
    closeBracket rt call t =
      (boundary rt .commit >>= fun _ => onRun (onExec (invalidateWrittenAfterCommit rt))) t := by
  show (if t.run.failure.isNone then (boundary rt .commit >>= fun _ =>
    onRun (onExec (invalidateWrittenAfterCommit rt)) : W ρ χ ν Unit) else _) t = _
  rw [if_pos (by rw [hf]; rfl)]

/-- The end of the bracket, for a run that failed. -/
theorem closeBracket_failed (hf : t.run.failure ≠ none) :
    closeBracket rt call t = (boundary rt .rollback >>= fun _ =>
      onRun (onExec (discardReadThroughWrites rt)) >>= fun _ => onRun (logRollback call)) t := by
  show (if t.run.failure.isNone then _ else (boundary rt .rollback >>= fun _ =>
    onRun (onExec (discardReadThroughWrites rt)) >>= fun _ =>
      onRun (logRollback call) : W ρ χ ν Unit)) t = _
  rw [if_neg (by simpa using hf)]

variable {d : ρ}

/-- A `commit()` that returns. -/
theorem leaves_of_commit (hf : t.run.failure = none)
    (hc : rt.repo.commit t.run.exec.repo = .ok () d) :
    (W.leaves (closeBracket rt call) t).boundary = t.boundary ++ [⟨.commit, true⟩] := by
  have hb : boundary rt .commit t = .ok () (t.called .commit true d) := by
    unfold boundary
    rw [show rt.repo.boundary .commit t.run.exec.repo = .ok () d from hc]
  rw [W.leaves, EStateM.final, closeBracket_completed hf, ← EStateM.final, EStateM.final_bind_ok hb]
  exact (onRun_boundary _ _).final rfl

/-- A `commit()` that raises. -/
theorem leaves_of_commit_error {e : Exc} (hf : t.run.failure = none)
    (hc : rt.repo.commit t.run.exec.repo = .error e d) :
    (W.leaves (closeBracket rt call) t).boundary = t.boundary ++ [⟨.commit, false⟩] := by
  have hb : boundary rt .commit t = .error e (t.called .commit false d) := by
    unfold boundary
    rw [show rt.repo.boundary .commit t.run.exec.repo = .error e d from hc]
  rw [W.leaves, EStateM.final, closeBracket_completed hf, ← EStateM.final,
    EStateM.final_bind_error hb]
  rfl

/-- A failed run. -/
theorem leaves_of_failed (rt : Runtime ρ χ ν) (call : Call) (hf : t.run.failure ≠ none) :
    ∃ b, (W.leaves (closeBracket rt call) t).boundary = t.boundary ++ [⟨.rollback, b⟩] := by
  rw [W.leaves, EStateM.final, closeBracket_failed hf, ← EStateM.final]
  refine boundary_then (fun c => ?_) t
  exact (onRun_boundary _ c).bind fun _ => onRun_boundary _ c

end Exits

/-! ### The bracket -/

theorem closes_rollback (h : ¬completes) (b : Bool) : Closes completes [⟨.rollback, b⟩] :=
  ⟨fun hc => absurd hc h, fun _ => ⟨rfl, by simp⟩⟩

theorem closes_commit (h : completes) : Closes completes [⟨.commit, true⟩] :=
  ⟨fun _ => rfl, fun hc => absurd h hc⟩

theorem not_closes {calls : List BoundaryCall} (h : ¬completes)
    (hc : calls.countP (fun c => c.op = .rollback) = 0) : ¬Closes completes calls := by
  intro hcl
  have := (hcl.2 h).1
  omega

/-- The bracket of a run that never gets to its end. -/
theorem bracketed_of_raises {s : Session ρ χ ν}
    (h : ∀ terms t, runInside rt call schedules s ≠ .ok terms t) :
    Bracketed rt call schedules s ↔
      ∃ calls, (W.leaves (runInside rt call schedules) s).boundary = s.boundary ++ calls ∧
        Closes False calls := by
  have hc : Completes rt call schedules s ↔ False :=
    ⟨fun ⟨terms, t, _, hi, _⟩ => h terms t hi, False.elim⟩
  unfold Bracketed
  rw [leaves_of_inside_raises h, hc]

/-- The bracket of a run that gets to its end. -/
theorem bracketed_of_ends {s t : Session ρ χ ν} {terms : Option Dict}
    (h : runInside rt call schedules s = .ok terms t) :
    Bracketed rt call schedules s ↔
      ∃ calls, (W.leaves (closeBracket rt call) t).boundary = s.boundary ++ calls ∧
        Closes (t.run.failure = none ∧ ∃ d, rt.repo.commit t.run.exec.repo = .ok () d) calls := by
  have hc : Completes rt call schedules s ↔
      t.run.failure = none ∧ ∃ d, rt.repo.commit t.run.exec.repo = .ok () d := by
    constructor
    · rintro ⟨terms', t', d, hi, hf, hd⟩
      rw [h, EStateM.Result.ok.injEq] at hi
      rw [← hi.2] at hf hd
      exact ⟨hf, d, hd⟩
    · rintro ⟨hf, d, hd⟩
      exact ⟨terms, t, d, h, hf, hd⟩
  unfold Bracketed
  rw [leaves_of_inside_ok h, hc]

/-- What is asked of a run that gets to its end. -/
theorem contained_of_ends {s : Session ρ χ ν} {f : Flow} {r r' : Run ρ χ ν} {terms : Option Dict}
    (h : runBody rt call schedules call.workflow.body s.run = .ok f r)
    (ht : termResponse rt r = .ok terms r') :
    Contained rt call schedules s ↔
      (r'.failure = none → ∃ d, rt.repo.commit r'.exec.repo = .ok () d) := by
  constructor
  · exact fun hc => hc.commit f r terms r' h ht
  · intro hc
    refine ⟨fun e r h' => absurd (h.symm.trans h') nofun, fun f₁ r₁ e r₁' h₁ ht₁ => ?_,
      fun f₁ r₁ terms₁ r₁' h₁ ht₁ => ?_⟩
    · rw [h, EStateM.Result.ok.injEq] at h₁
      rw [← h₁.2, ht] at ht₁
      exact nomatch ht₁
    · rw [h, EStateM.Result.ok.injEq] at h₁
      rw [← h₁.2, ht, EStateM.Result.ok.injEq] at ht₁
      rw [← ht₁.2]
      exact hc

/-- **The bracket holds exactly for the contained runs.**  Whatever the document, the payload, the
drivers and the schedules: what follows `begin()` closes the transaction as it should if and only
if nothing but a `RunError` leaves the main loop, no term of the response raises anything else, and
a `commit()` that is reached returns. -/
theorem bracketed_iff_contained (rt : Runtime ρ χ ν) (call : Call) (schedules : Nat → List Move)
    (s : Session ρ χ ν) :
    Bracketed rt call schedules s ↔ Contained rt call schedules s := by
  have no_calls : ∀ {completes : Prop}, ¬completes →
      ¬∃ calls, s.boundary = s.boundary ++ calls ∧ Closes completes calls := by
    rintro completes hn ⟨calls, hcalls, hcl⟩
    rw [List.self_eq_append_right.mp hcalls] at hcl
    exact not_closes hn rfl hcl
  cases h : runBody rt call schedules call.workflow.body s.run with
  | error e r =>
    obtain ⟨hraises, hleaves⟩ := runInside_of_body_error h
    rw [bracketed_of_raises hraises, hleaves]
    by_cases he : e.isRunError
    · obtain ⟨b, hb⟩ := escape_runError rt he { s with run := r }
      refine iff_of_true ⟨_, hb, closes_rollback not_false b⟩ ⟨fun e' r' h' => ?_, ?_, ?_⟩
      · rw [h, EStateM.Result.error.injEq] at h'
        rwa [← h'.1]
      · exact fun f r' e' r'' h' => absurd (h.symm.trans h') nofun
      · exact fun f r' terms r'' h' => absurd (h.symm.trans h') nofun
    · rw [escape_other he]
      exact iff_of_false (no_calls not_false) fun hc => he (hc.loop e r h)
  | ok f r =>
    have hinside := runInside_of_body_ok h
    cases ht : termResponse rt r with
    | error e r' =>
      rw [onRun_error (by exact ht)] at hinside
      rw [bracketed_of_raises (by rw [hinside]; exact nofun), W.leaves, EStateM.final_error hinside]
      exact iff_of_false (no_calls not_false) fun hc => hc.terms f r e r' h ht
    | ok terms r' =>
      rw [onRun_ok (by exact ht)] at hinside
      rw [bracketed_of_ends hinside, contained_of_ends h ht]
      by_cases hf : r'.failure = none
      · cases hc : rt.repo.commit r'.exec.repo with
        | ok d c =>
          exact iff_of_true ⟨_, leaves_of_commit hf hc, closes_commit ⟨hf, c, rfl⟩⟩ fun _ => ⟨c, rfl⟩
        | error e c =>
          have hno : ¬∃ d, EStateM.Result.error e c = (.ok () d : EStateM.Result Exc ρ Unit) := nofun
          refine iff_of_false ?_ fun h => hno (h hf)
          rintro ⟨calls, hcalls, hcl⟩
          rw [leaves_of_commit_error hf hc] at hcalls
          rw [← List.append_cancel_left hcalls] at hcl
          exact not_closes (fun hd => hno hd.2) rfl hcl
      · obtain ⟨b, hb⟩ := leaves_of_failed rt call (t := { s with run := r' }) hf
        exact iff_of_true ⟨_, hb, closes_rollback (fun h => hf h.1) b⟩ fun h => absurd h hf

/-! ### The runs of `run_workflow` -/

/-- The session of a run whose `begin()` has returned with the driver in the state `d`. -/
def Session.begun (rt : Runtime ρ χ ν) (call : Call) (s : Exec ρ χ ν) (d : ρ) : Session ρ χ ν :=
  { run := { exec := { logStart rt call s.fresh with repo := d } }
    boundary := [⟨.begin, true⟩] }

/-- `run_workflow`, once the workflow has been found and `begin()` has returned. -/
theorem runWorkflow_begun {id : String} {wf : Workflow} {d : ρ} {s : Exec ρ χ ν} (payload : Dict)
    (fill : FillSource → String) (hwf : rt.doc.workflows.find? (fun wf => wf.id = id) = some wf)
    (hbegin : rt.repo.begin s.repo = .ok () d) :
    runWorkflow rt id payload fill schedules s =
      runBegun rt (startCall rt wf payload fill s.now) schedules
        (.begun rt (startCall rt wf payload fill s.now) s d) := by
  unfold runWorkflow
  rw [hwf]
  show runCall _ _ _ _ = _
  have hlog : ∀ call : Call, onRun (onExec (modify (logStart rt call)))
      ({ run := { exec := s.fresh } } : Session ρ χ ν) =
        .ok () { run := { exec := logStart rt call s.fresh } } := fun _ => rfl
  have hb : ∀ call : Call, boundary rt .begin
      ({ run := { exec := logStart rt call s.fresh } } : Session ρ χ ν) =
        .ok () (.begun rt call s d) := by
    intro call
    unfold boundary
    rw [show rt.repo.boundary .begin (logStart rt call s.fresh).repo = .ok () d from hbegin]
    rfl
  unfold runCall
  rw [EStateM.bind_ok (hlog _), EStateM.bind_ok (hb _)]

/-- A workflow of one descriptive step. -/
def describeWorkflow : Workflow :=
  { id := "w", name := "describe", body := [.step ⟨"w.step.1", "describe", []⟩], constraints := {} }

/-- A driver that cannot commit. -/
def failingCommit : Repo Unit :=
  { Repo.silent [] with commit := throw (.driver .driverError "database is locked") }

/-- The call of that workflow with an empty payload. -/
def describeCall : Call := startCall (.plain describeWorkflow (.silent [])) describeWorkflow ∅
  (fun _ => "") 0

end Lnpl.Interp

/-!
## Invariants of a run

What the body establishes, and programs on the execution state and failures keep, holds of the run
that the result is read off (`triple_runBegun`, `triple_runCall`).
-/

namespace Lnpl.Interp

open Lnpl.Lib

variable {ρ χ ν : Type} {rt : Runtime ρ χ ν} {call : Call}

/-- A program of the main loop, inside a session. -/
theorem triple_onRun {α : Type} {P : Run ρ χ ν → Prop} {Q : α → Run ρ χ ν → Prop}
    {E : Exc → Run ρ χ ν → Prop} {m : L ρ χ ν α} (h : Triple P m Q E) :
    Triple (fun s : Session ρ χ ν => P s.run) (onRun m) (fun a s => Q a s.run)
      fun e s => E e s.run :=
  Triple.zoom_ends fun t ht => h t.run ht

variable {P Q : Session ρ χ ν → Prop} {op : BoundaryOp}

/-- A call of the bracket, from what it records. -/
theorem triple_boundary (h : ∀ s, P s → ∀ returned r, Q (s.called op returned r)) :
    Triple P (boundary rt op) (fun _ => Q) fun _ => Q := by
  intro s hs
  unfold boundary
  cases rt.repo.boundary op s.run.exec.repo with
  | ok d r => exact h s hs true r
  | error e r => exact h s hs false r

/-- A call of the bracket, from what it does to the driver. -/
theorem triple_boundary_ends {E : Session ρ χ ν → Prop}
    (h : ∀ t, P t → Ends (fun _ d => Q (t.called op true d)) (fun _ d => E (t.called op false d))
      (rt.repo.boundary op t.run.exec.repo)) :
    Triple P (boundary rt op) (fun _ => Q) fun _ => E := by
  intro t ht
  have hends := h t ht
  unfold boundary
  revert hends
  cases rt.repo.boundary op t.run.exec.repo with
  | ok a d => exact id
  | error e d => exact id

namespace FailInvariant

variable {I : Run ρ χ ν → Prop}

/-! ### The terms of the response -/

theorem keeps_evaluateTerms (hI : FailInvariant I) (terms : List ResponseTerm) (response : Dict) :
    Keeps I (evaluateTerms rt terms response) := by
  induction terms generalizing response with
  | nil => exact Keeps.pure _
  | cons term terms ih =>
    refine Keeps.get.bind fun r => ?_
    cases respondTerms rt r.exec.rowsets term response with
    | ok response => exact ih response
    | error e =>
      cases e with
      | run e =>
        refine (Keeps.modify fun r => hI.failWith r _).bind fun _ => ?_
        exact Keeps.bind (Keeps.modify fun r => hI.log r _ _ _) fun _ => Keeps.pure _
      | driver cls message => exact Keeps.throw _
      | other cls => exact Keeps.throw _

theorem keeps_termResponse (hI : FailInvariant I) : Keeps I (termResponse rt) :=
  Keeps.get.bind fun _ => Keeps.ite (Keeps.pure _) (hI.keeps_evaluateTerms _ _)

end FailInvariant

theorem LogInvariant.keeps_logRollback {I : Run ρ χ ν → Prop} (hI : LogInvariant I) :
    Keeps I (logRollback call) :=
  Keeps.ite hI.keeps_logRun (Keeps.pure _)

namespace ExecInvariant

variable {I : Run ρ χ ν → Prop}

/-! ### The bracket -/

theorem keeps_boundary (hI : ExecInvariant I) (op : BoundaryOp) :
    Keeps (fun s : Session ρ χ ν => I s.run) (boundary rt op) :=
  triple_boundary fun s hs _ _ => hI.exec s.run _ hs

theorem keeps_closeBracket (hI : ExecInvariant I) :
    Keeps (fun s : Session ρ χ ν => I s.run) (closeBracket rt call) := by
  refine Keeps.get.bind fun s => Keeps.ite ?_ ?_
  · exact (hI.keeps_boundary _).bind fun _ => triple_onRun (hI.keeps_onExec _)
  · refine (hI.keeps_boundary _).bind fun _ => ?_
    refine Keeps.bind (triple_onRun (hI.keeps_onExec _)) fun _ => ?_
    exact triple_onRun hI.keeps_logRollback

variable {P : Run ρ χ ν → Prop}

/-- What the body establishes holds of the run that the result is read off. -/
theorem triple_runBegun (hI : ExecInvariant I) (hterms : Keeps I (termResponse rt))
    {schedules : Nat → List Move}
    (hbody : Triple P (runBody rt call schedules call.workflow.body) (fun _ => I)
      fun _ _ => True) :
    Triple (fun s : Session ρ χ ν => P s.run) (runBegun rt call schedules)
      (fun result s => I s.run ∧ ∃ terms, result = assembleResult rt s.run terms)
      fun _ _ => True := by
  have hloop : Triple (fun s : Session ρ χ ν => P s.run) (runLoop rt call schedules)
      (fun _ s => I s.run) fun _ _ => True := by
    refine Triple.tryCatch (triple_onRun hbody) fun e => ?_
    -- the handler never returns
    intro s _
    cases h : escape rt e s with
    | ok f t => exact absurd h (escape_raises e s f t)
    | error e t => trivial
  have hclose : Keeps (fun s : Session ρ χ ν => I s.run) (closeBracket rt call) :=
    hI.keeps_closeBracket
  refine Triple.bind (Q := fun _ s => I s.run) (Triple.bind hloop fun _ => ?_) fun terms => ?_
  · exact (triple_onRun hterms).mono (fun _ => id) (fun _ _ => id) fun _ _ _ => trivial
  · refine (hclose.mono (fun _ => id) (fun _ _ => id) fun _ _ _ => trivial).bind fun _ => ?_
    refine Triple.bind (Q := fun r s => r = s ∧ I s.run) (Triple.get fun s hs => ⟨rfl, hs⟩)
      fun r => Triple.pure fun s hs => ⟨hs.2, terms, ?_⟩
    rw [hs.1]

/-- The same from the start of the run. -/
theorem triple_runCall (hI : ExecInvariant I) (hterms : Keeps I (termResponse rt))
    {schedules : Nat → List Move} (hP : ∀ r s, P r → P { r with exec := s })
    (hbody : Triple P (runBody rt call schedules call.workflow.body) (fun _ => I)
      fun _ _ => True) :
    Triple (fun s : Session ρ χ ν => P s.run) (runCall rt call schedules)
      (fun result s => I s.run ∧ ∃ terms, result = assembleResult rt s.run terms)
      fun _ _ => True := by
  refine Triple.bind (Q := fun _ s => P s.run) ?_ fun _ => Triple.bind (Q := fun _ s => P s.run) ?_
    fun _ => hI.triple_runBegun hterms hbody
  · exact (triple_onRun (Keeps.zoom (fun r s => hP r s) _)).mono (fun _ => id) (fun _ _ => id)
      fun _ _ _ => trivial
  · exact (triple_boundary fun s hs _ _ => hP s.run _ hs).mono (fun _ => id) (fun _ _ => id)
      fun _ _ _ => trivial

/-- What the body of every workflow establishes from an empty run holds of the run that a result is
read off. -/
theorem of_runWorkflow (hI : ExecInvariant I) (hterms : Keeps I (termResponse rt)) {id : String}
    {payload : Dict} {fill : FillSource → String} {schedules : Nat → List Move} {s : Exec ρ χ ν}
    (hbody : ∀ call : Call, (rt.doc.workflows.find? fun wf => wf.id = id) = some call.workflow →
      Triple (fun r : Run ρ χ ν => r = { exec := r.exec })
        (runBody rt call schedules call.workflow.body) (fun _ => I) fun _ _ => True)
    {result : Result} {t : Session ρ χ ν}
    (h : runWorkflow rt id payload fill schedules s = .ok result t) :
    I t.run ∧ ∃ terms, result = assembleResult rt t.run terms := by
  unfold runWorkflow at h
  cases hwf : rt.doc.workflows.find? fun wf => wf.id = id with
  | none =>
    rw [hwf] at h
    exact nomatch h
  | some wf =>
    rw [hwf] at h
    have hrun := hI.triple_runCall (P := fun r => r = { exec := r.exec }) hterms ?_
      (hbody (startCall rt wf payload fill s.now) hwf)
      { run := { exec := s.fresh } } rfl
    · rw [show runCall rt (startCall rt wf payload fill s.now) schedules { run := { exec := s.fresh } }
        = .ok result t from h] at hrun
      exact hrun
    · intro r s hr
      rw [hr]

end ExecInvariant

end Lnpl.Interp
