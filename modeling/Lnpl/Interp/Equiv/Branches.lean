import Mathlib.Data.List.Nodup
import Lnpl.Interp.Equiv.Interpreter

/-!
# No branch of a parallel block is lost

`LosesNoBranch` says what a parallel block owes its branches: a run that reports `completed` has run
every declared step of every block it executed to the end, with exactly one record for each; and a
run in which a branch raised is not committed.

A worker catches the `RunError`s of its step and leaves an outcome; any other exception leaves none,
and the join takes a missing outcome for a step that never started
(`lost_branch_is_committed`).  **`runWorkflow_losesNoBranch`**: a run none of whose workers is left
by such an exception loses no branch, under every schedule.
-/

namespace Lnpl.Interp

open Lnpl.Lib

variable {ρ χ ν : Type}

/-! ### What is owed -/

/-- Every declared step of the block ran to its end without an exception. -/
def BlockRun.Finished (b : BlockRun) : Prop :=
  b.ends.length = b.steps.length ∧ ∀ e ∈ b.ends, e.succeeded

/-- The block and the step of each record. -/
def recordKeys (steps : List StepRecord) : List (Option Nat × String) :=
  steps.map fun r => (r.block, r.stepId)

/-- The number of records of a step in block `i`. -/
def recordsIn (steps : List StepRecord) (i : Nat) (id : String) : Nat :=
  (recordKeys steps).count (some i, id)

/-- Every step of the block ran to its end and has one record. -/
def BlockRun.Accounted (steps : List StepRecord) (i : Nat) (b : BlockRun) : Prop :=
  b.Finished ∧ ∀ step ∈ b.steps, recordsIn steps i step.id = 1

/-- What a run owes the branches of its parallel blocks. -/
structure LosesNoBranch (out : EStateM.Result Exc (Session ρ χ ν) Result) : Prop where
  completed : ∀ result t, out = .ok result t → result.completed →
    ∀ (i : Nat) b, t.run.blocks[i]? = some b → b.Accounted result.steps i
  committed : (∃ b ∈ (EStateM.lastState out).run.blocks, ∃ e ∈ b.ends, e.failed) →
    ∀ c ∈ (EStateM.lastState out).boundary, c.op ≠ .commit

/-- No worker of an executed block was left by an exception that is not a `RunError`. -/
def Run.Contained (r : Run ρ χ ν) : Prop := ∀ b ∈ r.blocks, ∀ e ∈ b.ends, ¬e.escaped

/-! ### The records of a block -/

theorem recordOutcomes_fields (block : Nat) (under : List Nat) (l : List (Step × WorkerEnd))
    (r : Run ρ χ ν) :
    (recordOutcomes block under r l).steps = r.steps ++ l.filterMap (outcomeRecord block under) ∧
      (recordOutcomes block under r l).blocks = r.blocks ∧
      (recordOutcomes block under r l).failure = r.failure := by
  obtain ⟨_, _, _, h⟩ := recordOutcomes_eq block under l r
  rw [h]
  exact ⟨rfl, rfl, rfl⟩

/-- The records of a block whose steps all succeeded are those of its steps. -/
theorem recordKeys_of_succeeded (block : Nat) (under : List Nat) :
    ∀ {steps : List Step} {ends : List WorkerEnd}, ends.length = steps.length →
      (∀ e ∈ ends, e.succeeded) →
      recordKeys ((steps.zip ends).filterMap (outcomeRecord block under)) =
        steps.map fun step => (some block, step.id)
  | [], _, _, _ => rfl
  | step :: steps, e :: ends, hlen, h => by
    have ih := recordKeys_of_succeeded block under (Nat.succ.inj hlen)
      fun e he => h e (List.mem_cons_of_mem _ he)
    cases e with
    | done start o =>
      rw [List.zip_cons_cons, List.filterMap_cons, outcomeRecord, List.map_cons, ← ih]
      rfl
    | raised e => exact absurd (h _ List.mem_cons_self) Bool.false_ne_true
    | cancelled => exact absurd (h _ List.mem_cons_self) Bool.false_ne_true

variable {under : List Nat} {b : BlockRun} {l : List StepRecord} {i : Nat}

/-- The records of a block name the block. -/
theorem block_of_mem_outcomes {block : Nat} {l : List (Step × WorkerEnd)} {r : StepRecord}
    (h : r ∈ l.filterMap (outcomeRecord block under)) : r.block = some block := by
  obtain ⟨⟨step, e⟩, _, he⟩ := List.mem_filterMap.mp h
  cases e with
  | done start o =>
    rw [outcomeRecord, Option.some.injEq] at he
    rw [← he]
    rfl
  | raised e => cases he
  | cancelled => cases he

/-- A block without a failure of its own has no worker that ended with a `RunError`. -/
theorem escaped_of_failed : ∀ {steps : List Step} {ends : List WorkerEnd},
    ends.length = steps.length → earliestFailure (steps.zip ends) = none →
    ∀ e ∈ ends, e.failed → e.escaped
  | [], [], _, _, e, he, _ => absurd he List.not_mem_nil
  | step :: steps, e :: ends, hlen, h, e', he', hf => by
    have hrest : earliestFailure (steps.zip ends) = none ∧ (e.failed → e.escaped) := by
      rw [List.zip_cons_cons] at h
      rcases e with ⟨start, ⟨n, _ | error, refs, terms, notes⟩⟩ | e | _
      · exact ⟨h, fun hf => absurd hf Bool.false_ne_true⟩
      · rw [earliestFailure] at h
        cases hr : earliestFailure (steps.zip ends) with
        | none => rw [hr] at h; exact nomatch h
        | some found =>
          rw [hr] at h
          split at h
          · split at h <;> exact nomatch h
          · exact nomatch h
      · exact ⟨h, fun _ => rfl⟩
      · exact ⟨h, fun hf => absurd hf Bool.false_ne_true⟩
    rcases List.mem_cons.mp he' with rfl | hmem
    · exact hrest.2 hf
    · exact escaped_of_failed (Nat.succ.inj hlen) hrest.1 e' hmem hf

/-! ### The invariant -/

/-- The records belong to blocks that were executed; while nothing has failed, no worker has ended
with a `RunError`, and if none was left by another exception every block is accounted for. -/
structure BranchInv (r : Run ρ χ ν) : Prop where
  known : ∀ rec ∈ r.steps, ∀ i, rec.block = some i → i < r.blocks.length
  failed : r.failure = none → ∀ b ∈ r.blocks, ∀ e ∈ b.ends, e.failed → e.escaped
  accounted : r.failure = none → r.Contained → ∀ (i : Nat) b, r.blocks[i]? = some b →
    b.Accounted r.steps i

theorem contained_append {blocks : List BlockRun}
    (h : ∀ b' ∈ blocks ++ [b], ∀ e ∈ b'.ends, ¬e.escaped) :
    (∀ b' ∈ blocks, ∀ e ∈ b'.ends, ¬e.escaped) ∧ ∀ e ∈ b.ends, ¬e.escaped :=
  ⟨fun b' hb' => h b' (List.mem_append_left _ hb'), h b (List.mem_append_right _ List.mem_cons_self)⟩

theorem recordsIn_append (l l' : List StepRecord) (i : Nat) (id : String) :
    recordsIn (l ++ l') i id = recordsIn l i id + recordsIn l' i id := by
  rw [recordsIn, recordKeys, List.map_append, List.count_append]
  rfl

theorem recordsIn_eq_zero {id : String} (h : ∀ rec ∈ l, rec.block ≠ some i) :
    recordsIn l i id = 0 := by
  rw [recordsIn, List.count_eq_zero]
  intro hmem
  obtain ⟨rec, hrec, he⟩ := List.mem_map.mp hmem
  exact h rec hrec (Prod.mk.inj he).1

/-- Records of other blocks change no account. -/
theorem BlockRun.Accounted.append {steps : List StepRecord} (h : b.Accounted steps i)
    (hl : ∀ rec ∈ l, rec.block ≠ some i) :
    b.Accounted (steps ++ l) i := by
  refine ⟨h.1, fun step hstep => ?_⟩
  rw [recordsIn_append, recordsIn_eq_zero hl, h.2 step hstep]

/-- The block that has just been joined, when no worker failed. -/
theorem accounted_of_succeeded {old : List StepRecord} {n : Nat} {steps : List Step}
    {ends : List WorkerEnd} (hold : ∀ rec ∈ old, rec.block ≠ some n)
    (hids : (steps.map Step.id).Nodup) (hlen : ends.length = steps.length)
    (h : ∀ e ∈ ends, e.succeeded) :
    BlockRun.Accounted (old ++ (steps.zip ends).filterMap (outcomeRecord n under)) n
      ⟨steps, ends⟩ := by
  refine ⟨⟨hlen, h⟩, fun step hstep => ?_⟩
  rw [recordsIn_append, recordsIn_eq_zero hold, recordsIn, recordKeys_of_succeeded n under hlen h,
    Nat.zero_add]
  refine List.count_eq_one_of_mem ?_ (List.mem_map.mpr ⟨step, hstep, rfl⟩)
  have hpairs : ((steps.map Step.id).map fun id => (some n, id)).Nodup :=
    hids.map fun a b hab => (Prod.mk.inj hab).2
  rwa [List.map_map] at hpairs

/-- The invariant is one of the main loop. -/
theorem BranchInv.recordInvariant : RecordInvariant (BranchInv : Run ρ χ ν → Prop) where
  exec _ _ h := ⟨h.known, h.failed, h.accounted⟩
  evaluated _ _ h := ⟨h.known, h.failed, h.accounted⟩
  repeats _ _ h := ⟨h.known, h.failed, h.accounted⟩
  skipped _ _ h := ⟨h.known, h.failed, h.accounted⟩
  failWith _ _ h := ⟨h.known, nofun, nofun⟩
  record r step under o h := by
    have hnew : ∀ rec ∈ [stepRecord step none under o], ∀ i, rec.block ≠ some i := by
      intro rec hrec i
      rw [List.mem_singleton.mp hrec]
      exact nofun
    refine ⟨fun rec hrec i hi => ?_, h.failed, fun hf hc i b hb => ?_⟩
    · rcases List.mem_append.mp hrec with hold | hn
      · exact h.known rec hold i hi
      · exact absurd hi (hnew rec hn i)
    · exact (h.accounted hf hc i b hb).append fun rec hrec => hnew rec hrec i
  join r under steps ends s hids hlen hsucc h := by
    obtain ⟨hsteps, hblocks, hfail⟩ := recordOutcomes_fields r.blocks.length under (steps.zip ends)
      { r with exec := s, blocks := r.blocks ++ [⟨steps, ends⟩] }
    have hknown : ∀ rec ∈ r.steps ++ (steps.zip ends).filterMap (outcomeRecord r.blocks.length under),
        ∀ i, rec.block = some i → i < (r.blocks ++ [(⟨steps, ends⟩ : BlockRun)]).length := by
      intro rec hrec i hi
      rw [List.length_append, List.length_singleton]
      rcases List.mem_append.mp hrec with hold | hn
      · have := h.known rec hold i hi
        omega
      · rw [block_of_mem_outcomes hn, Option.some.injEq] at hi
        omega
    unfold Run.join
    split
    · next heq =>
      refine ⟨?_, nofun, nofun⟩
      show ∀ rec ∈ (recordOutcomes _ _ _ _).steps, ∀ i, rec.block = some i →
        i < (recordOutcomes _ _ _ _).blocks.length
      rw [hsteps, hblocks]
      exact hknown
    · next heq =>
      refine ⟨by rw [hsteps, hblocks]; exact hknown, ?_, ?_⟩
      · rw [hblocks, hfail]
        intro hf b hb
        rcases List.mem_append.mp hb with hold | hn
        · exact h.failed hf b hold
        · rw [List.mem_singleton.mp hn]
          exact escaped_of_failed hlen heq
      · unfold Run.Contained
        rw [hsteps, hblocks, hfail]
        intro hf hc i b hb
        obtain ⟨hc, hends⟩ := contained_append hc
        have hsucceeded := hsucc fun e he hfe => hends e he (escaped_of_failed hlen heq e he hfe)
        rcases Nat.lt_or_ge i r.blocks.length with hi | hi
        · rw [List.getElem?_append_left hi] at hb
          refine (h.accounted hf hc i b hb).append fun rec hrec hrb => ?_
          rw [block_of_mem_outcomes hrec, Option.some.injEq] at hrb
          omega
        · have hin : i = r.blocks.length := by
            have := (List.getElem?_eq_some_iff.mp hb).1
            rw [List.length_append, List.length_singleton] at this
            omega
          subst hin
          rw [List.getElem?_concat_length, Option.some.injEq] at hb
          rw [← hb]
          exact accounted_of_succeeded
            (fun rec hrec hrb => absurd (h.known rec hrec _ hrb) (Nat.lt_irrefl _))
            hids hlen hsucceeded

/-! ### The run -/

/-- What the session of a run keeps until it is closed. -/
def BranchSession (s : Session ρ χ ν) : Prop :=
  BranchInv s.run ∧ ∀ c ∈ s.boundary, c.op ≠ .commit

/-- What it keeps from then on. -/
def BranchClosed (s : Session ρ χ ν) : Prop :=
  BranchInv s.run ∧ ((∃ c ∈ s.boundary, c.op = .commit) → s.run.failure = none)

theorem BranchSession.closed {s : Session ρ χ ν} (h : BranchSession s) : BranchClosed s :=
  ⟨h.1, fun ⟨c, hc, ho⟩ => absurd ho (h.2 c hc)⟩

section Closing

variable {rt : Runtime ρ χ ν} {call : Call}

variable {α : Type}

theorem keeps_onRun {m : L ρ χ ν α} (h : Keeps BranchInv m) : Keeps BranchSession (onRun m) := by
  refine Triple.zoom_ends fun t ht => (h t.run ht.1).mono ?_ ?_
  · exact fun _ _ hr => ⟨hr, ht.2⟩
  · exact fun _ _ hr => ⟨hr, ht.2⟩

theorem keeps_boundary {op : BoundaryOp} (hop : op ≠ .commit) :
    Keeps (BranchSession : Session ρ χ ν → Prop) (boundary rt op) := by
  refine triple_boundary fun s hs returned r => ⟨(BranchInv.recordInvariant).exec _ _ hs.1, ?_⟩
  intro c hc
  rcases List.mem_append.mp hc with hc | hc
  · exact hs.2 c hc
  · rw [List.mem_singleton.mp hc]
    exact hop

theorem keeps_escape (e : Exc) : Keeps (BranchSession : Session ρ χ ν → Prop) (escape rt e) := by
  refine Keeps.ite ?_ (Keeps.throw _)
  refine (keeps_boundary (by decide)).bind fun _ => ?_
  exact (keeps_onRun (BranchInv.recordInvariant.keeps_onExec _)).bind fun _ => Keeps.throw _

theorem keeps_runInside (schedules : Nat → List Move) :
    Keeps (BranchSession : Session ρ χ ν → Prop) (runInside rt call schedules) := by
  refine Keeps.bind (Keeps.tryCatch (keeps_onRun ?_) keeps_escape) fun _ => ?_
  · exact (BranchInv.recordInvariant).keeps_runBody schedules call.workflow.distinct
  · exact keeps_onRun (BranchInv.recordInvariant).keeps_termResponse

/-- A program on the execution state touches neither the bracket nor the failure. -/
theorem keeps_closed_onExec (m : M ρ χ ν α) :
    Keeps (BranchClosed : Session ρ χ ν → Prop) (onRun (onExec m)) := by
  refine Triple.zoom_ends fun t ht => ?_
  unfold onExec EStateM.zoom
  cases m t.run.exec with
  | ok a s => exact ⟨(BranchInv.recordInvariant).exec _ _ ht.1, ht.2⟩
  | error e s => exact ⟨(BranchInv.recordInvariant).exec _ _ ht.1, ht.2⟩

/-- The bracket commits only where nothing has failed. -/
theorem triple_closeBracket :
    Triple (BranchSession : Session ρ χ ν → Prop) (closeBracket rt call)
      (fun _ => BranchClosed) fun _ => BranchClosed := by
  intro s hs
  by_cases hf : s.run.failure = none
  · rw [closeBracket_completed hf]
    refine Triple.bind (P := fun t => BranchSession t ∧ t.run.failure = none) ?_
      (fun _ => keeps_closed_onExec _) s ⟨hs, hf⟩
    refine triple_boundary fun t ht returned r => ?_
    exact ⟨(BranchInv.recordInvariant).exec _ _ ht.1.1, fun _ => ht.2⟩
  · rw [closeBracket_failed hf]
    refine Triple.mono (P := BranchSession) ?_ (fun _ => id) (fun _ _ => BranchSession.closed)
      (fun _ _ => BranchSession.closed) s hs
    refine (keeps_boundary (by decide)).bind fun _ => ?_
    refine (keeps_onRun (BranchInv.recordInvariant.keeps_onExec _)).bind fun _ => ?_
    exact keeps_onRun (BranchInv.recordInvariant).keeps_logRollback

/-- What follows `begin()` ends in a session that is accounted for, and answers from its run. -/
theorem triple_runBegun (schedules : Nat → List Move) :
    Triple (BranchSession : Session ρ χ ν → Prop) (runBegun rt call schedules)
      (fun result t => BranchClosed t ∧ ∃ terms, result = assembleResult rt t.run terms)
      fun _ => BranchClosed := by
  refine Triple.bind (Q := fun _ => BranchSession) ?_ fun terms => ?_
  · exact (keeps_runInside schedules).mono (fun _ => id) (fun _ _ => id)
      fun _ _ => BranchSession.closed
  · refine (triple_closeBracket).bind fun _ => ?_
    refine Triple.bind (Q := fun r t => r = t ∧ BranchClosed t) (Triple.get fun t ht => ⟨rfl, ht⟩)
      fun r => Triple.pure fun t ht => ⟨ht.2, terms, ?_⟩
    rw [ht.1]

/-- A run from its start. -/
theorem triple_runCall (rt : Runtime ρ χ ν) (call : Call) (schedules : Nat → List Move) :
    Triple (BranchSession : Session ρ χ ν → Prop) (runCall rt call schedules)
      (fun result t => BranchClosed t ∧ ∃ terms, result = assembleResult rt t.run terms)
      fun _ => BranchClosed := by
  have hclosed : ∀ (e : Exc) (s : Session ρ χ ν), BranchSession s → BranchClosed s :=
    fun _ _ => BranchSession.closed
  refine Triple.bind (Q := fun _ => BranchSession) ?_ fun _ => Triple.bind (Q := fun _ =>
    BranchSession) ?_ fun _ => triple_runBegun schedules
  · exact (keeps_onRun (BranchInv.recordInvariant.keeps_onExec _)).mono (fun _ => id) (fun _ _ => id)
      hclosed
  · exact (keeps_boundary (by decide)).mono (fun _ => id) (fun _ _ => id) hclosed

end Closing

/-- **A run without an escaping worker loses no branch.**  For every document, workflow, payload and
driver, and every schedule of every block: where no worker of an executed block is left by an
exception other than a `RunError`, the run reports `completed` only if every declared step of every
block it executed ran to its end, with one record each, and a run in which a branch raised is not
committed. -/
theorem runWorkflow_losesNoBranch (rt : Runtime ρ χ ν) (id : String) (payload : Dict)
    (fill : FillSource → String) (schedules : Nat → List Move) (s : Exec ρ χ ν)
    (h : (EStateM.lastState (runWorkflow rt id payload fill schedules s)).run.Contained) :
    LosesNoBranch (runWorkflow rt id payload fill schedules s) := by
  have hrun : Ends (fun result t => BranchClosed t ∧ ∃ terms, result = assembleResult rt t.run terms)
      (fun _ => BranchClosed) (runWorkflow rt id payload fill schedules s) := by
    have hempty : ∀ e : Exec ρ χ ν, BranchInv ({ exec := e } : Run ρ χ ν) := fun e =>
      ⟨nofun, nofun, nofun⟩
    unfold runWorkflow
    cases rt.doc.workflows.find? fun wf => wf.id = id with
    | none => exact BranchSession.closed ⟨hempty _, nofun⟩
    | some wf =>
      exact triple_runCall rt (startCall rt wf payload fill s.now) schedules
        { run := { exec := s.fresh } } ⟨hempty _, nofun⟩
  revert h hrun
  cases runWorkflow rt id payload fill schedules s with
  | error e t =>
    intro hc ht
    refine ⟨fun _ _ heq => ?_, fun ⟨b, hb, w, hw, hfail⟩ c hcall hop => ?_⟩
    · cases heq
    · exact hc b hb w hw (ht.1.failed (ht.2 ⟨c, hcall, hop⟩) b hb w hw hfail)
  | ok result t =>
    intro hc ht
    refine ⟨fun result' t' heq hcompleted => ?_, fun ⟨b, hb, w, hw, hfail⟩ c hcall hop => ?_⟩
    · obtain ⟨terms, hresult⟩ := ht.2
      rw [EStateM.Result.ok.injEq] at heq
      rw [← heq.1, hresult] at hcompleted ⊢
      rw [← heq.2]
      exact ht.1.1.accounted (Option.isNone_iff_eq_none.mp hcompleted) hc
    · exact hc b hb w hw (ht.1.1.failed (ht.1.2 ⟨c, hcall, hop⟩) b hb w hw hfail)

/-! ### A lost branch -/

/-- An `Order` with a quantity. -/
def orderEntity : Entity := ⟨"entity.order", "Order", [⟨"qty", "Integer", false, false, none⟩]⟩

/-- A `parallel` block with one step, `list Order where qty < 1`. -/
def listWorkflow : Workflow :=
  { id := "w", name := "list"
    body := [.concurrency "w.parallel.1" [⟨"w.step.1", "list Order where qty < 1",
      [.query "w.step.1.query" "entity.order" [⟨"qty", "<", "1"⟩] none none]⟩]]
    constraints := {} }

/-- The stored orders: one with this quantity. -/
def orders (qty : Json) : List Dict := [(∅ : Dict).insert "qty" qty]

/-- The document of that workflow over a driver that holds these orders. -/
def listRuntime (qty : Json) : Runtime Unit Unit Unit :=
  { Runtime.plain listWorkflow (.silent (orders qty)) with
    doc := { Document.single listWorkflow with entities := [orderEntity] } }

/-- The run of the block on an order with that quantity, under the empty schedule. -/
def listRun (qty : Json) : EStateM.Result Exc (Session Unit Unit Unit) Result :=
  runWorkflow (listRuntime qty) "w" ∅ (fun _ => "") (fun _ => []) .plain

/-- A block whose branch succeeds. -/
theorem listRun_losesNoBranch : LosesNoBranch (listRun (.int 0)) := by
  refine runWorkflow_losesNoBranch _ _ _ _ _ _ fun b hb e he => ?_
  have hall : (EStateM.lastState (listRun (.int 0))).run.blocks.all
      (fun b => b.ends.all fun e => !e.escaped) = true := rfl
  have := List.all_eq_true.mp (List.all_eq_true.mp hall b hb) e he
  simpa using this

/-- **A lost branch is committed.**  The stored quantity is a text, so the comparison of the branch
raises a `TypeError`: the branch leaves no record, and the run reports `completed` and commits. -/
theorem lost_branch_is_committed : ¬LosesNoBranch (listRun (.str "x")) := by
  intro h
  have hblock := h.completed _ _ rfl rfl 0 _ rfl
  exact absurd (hblock.1.2 _ List.mem_cons_self) Bool.false_ne_true

end Lnpl.Interp
